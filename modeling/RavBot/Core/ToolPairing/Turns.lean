import RavBot.Core.RequestMessages

/-!
# Turns

A provider accepts a request only if every tool call is answered by the message after it and
every tool result answers a call in the message before it (`ToolCallsPaired`).

To follow the pairing through the transforms of a request, its messages are grouped into turns:
a turn is a message that is no user message, with the user messages after it.  The user
messages before the first turn follow a message `opening` that stands for the start of the
request.  Two things can go wrong with the turns of a history: the trimming starts the request
at the results of a call that it cuts off (`CutAt`), or a call without an id is kept
(`LooseAt`).
-/

open List

namespace RavBot.Core

/-! ## The pairing of calls and results -/

/-- The calls of an assistant message have results in the next message, and the results in a
user message have calls in the message before. -/
structure Linked (x y : Message) : Prop where
  calls : x.role = "assistant" → ∀ b ∈ x.content, b.isToolUse →
    y.role = "user" ∧ ∃ r ∈ y.content, r.isToolResult ∧ r.toolUseId = b.id
  results : y.role = "user" → ∀ r ∈ y.content, r.isToolResult →
    x.role = "assistant" ∧ ∃ b ∈ x.content, b.isToolUse ∧ b.id = r.toolUseId

/-- Every call that is followed by a message is answered in that message, and every result
answers a call in the message before it; the first message has no results. -/
def ToolCallsPaired (messages : List Message) : Prop :=
  messages.IsChain Linked ∧
    ∀ first ∈ messages.head?, first.role = "user" → ∀ r ∈ first.content, ¬ r.isToolResult

/-! ## Turns -/

/-- A message that is no user message, with the user messages after it. -/
structure Turn where
  msg : Message
  users : List Message

def opening : Message := .ofText "system" "."

/-- The turns of a list of messages, when the turn of `msg` has begun with `users`. -/
def turnsFrom (msg : Message) (users : List Message) : List Message → List Turn
  | [] => [⟨msg, users⟩]
  | m :: rest =>
    if m.role = "user" then turnsFrom msg (users ++ [m]) rest
    else ⟨msg, users⟩ :: turnsFrom m [] rest

def turns (messages : List Message) : List Turn := turnsFrom opening [] messages

namespace Turn

def toList (t : Turn) : List Message := t.msg :: t.users

def reply (t : Turn) : List ContentBlock :=
  match t.users with
  | user :: _ => user.content
  | [] => []

def Answered (t : Turn) : Prop :=
  t.msg.role = "assistant" ∧
    ∃ r ∈ t.reply, r.isToolResult ∧ r.toolUseId ∈ collectToolUseIds t.msg

def Asks (t : Turn) : Prop := ∃ user ∈ t.users, hasNonToolResultBlocks user

def Says (t : Turn) : Prop := t.msg.content ≠ [] ∨ t.Asks

/-- The message of the turn has calls, and none of them has an id. -/
def Idless (t : Turn) : Prop :=
  t.msg.role = "assistant" ∧ hasToolUseBlocks t.msg ∧ collectToolUseIds t.msg = []

/-- A round of calls: they have results, and the user says nothing. -/
def Round (t : Turn) : Prop := t.Answered ∧ ¬ t.Asks

/-- The assistant answers without a call, and the user says something then. -/
def Concludes (t : Turn) : Prop :=
  t.msg.role = "assistant" ∧ ¬ t.Answered ∧ ¬ t.Idless ∧ t.Asks

end Turn

def flatten (ts : List Turn) : List Message := ts.flatMap Turn.toList

def Somewhere {α : Type} (p : α → List α → Prop) (l : List α) : Prop :=
  ∃ a after, a :: after <:+ l ∧ p a after

/-- The last turn ends the request with the results of its calls. -/
def EndsInResults (ts : List Turn) : Prop :=
  Somewhere (fun t after => after = [] ∧ t.Answered ∧ ¬ t.Asks) ts

/-- The user last said something in a message that also has the results of calls, and the
request ends with the results of later calls. -/
def CutAt (t : Turn) (after : List Turn) : Prop :=
  t.Answered ∧ t.Asks ∧ (∀ t' ∈ after, ¬ t'.Asks) ∧ EndsInResults after

/-- A message has calls without ids, the user says nothing after it, but something else comes
after it; and it is not cut off, as it is when the request ends with the results of calls and
the user says something in a later turn. -/
def LooseAt (t : Turn) (after : List Turn) : Prop :=
  t.Idless ∧ ¬ t.Asks ∧ (∃ t' ∈ after, t'.Says) ∧
    ¬ (EndsInResults after ∧ ∃ t' ∈ after, t'.Asks)

/-- A round of calls, the answer that concludes it, and the user's next message. -/
def CompletedAt (t : Turn) (after : List Turn) : Prop :=
  t.Round ∧ ∃ answer ∈ after.head?, answer.Concludes

def LeftAt (t : Turn) (after : List Turn) : Prop :=
  t.Round ∧ ∃ next after', after = next :: after' ∧ CompletedAt next after'

/-! ## Grouping into turns -/

variable {α : Type}

@[simp] theorem somewhere_nil (p : α → List α → Prop) : ¬ Somewhere p [] := by
  rintro ⟨a, after, hsuffix, -⟩
  simp at hsuffix

theorem somewhere_cons {p : α → List α → Prop} {a : α} {l : List α} :
    Somewhere p (a :: l) ↔ p a l ∨ Somewhere p l := by
  constructor
  · rintro ⟨b, after, hsuffix, hp⟩
    rcases suffix_cons_iff.1 hsuffix with heq | hsuffix
    · cases heq
      exact .inl hp
    · exact .inr ⟨b, after, hsuffix, hp⟩
  · rintro (hp | ⟨b, after, hsuffix, hp⟩)
    · exact ⟨a, l, suffix_refl _, hp⟩
    · exact ⟨b, after, hsuffix.trans (suffix_cons _ _), hp⟩

theorem somewhere_map {β : Type} {p : β → List β → Prop} {f : α → β} {l : List α} :
    Somewhere p (l.map f) ↔ Somewhere (fun a after => p (f a) (after.map f)) l := by
  induction l with
  | nil => exact iff_of_false (somewhere_nil _) (somewhere_nil _)
  | cons a l ih => rw [map_cons, somewhere_cons, somewhere_cons, ih]

theorem somewhere_congr {p q : α → List α → Prop} {l : List α}
    (h : ∀ a after, a :: after <:+ l → (p a after ↔ q a after)) : Somewhere p l ↔ Somewhere q l :=
  exists₂_congr fun a after => and_congr_right (h a after)

theorem somewhere_append {p : α → List α → Prop} {before l : List α}
    (h : ∀ a before', ¬ p a (before' ++ l)) : Somewhere p (before ++ l) ↔ Somewhere p l := by
  induction before with
  | nil => rfl
  | cons a before ih => rw [cons_append, somewhere_cons, or_iff_right (h a before), ih]

@[simp] theorem flatten_nil : flatten [] = [] := rfl

theorem flatten_cons (t : Turn) (ts : List Turn) :
    flatten (t :: ts) = t.msg :: (t.users ++ flatten ts) := by
  simp [flatten, Turn.toList]

/-- A turn is made of a message that is no user message and of user messages. -/
structure Turn.WellFormed (t : Turn) : Prop where
  msg_role : t.msg.role ≠ "user"
  user_role : ∀ u ∈ t.users, u.role = "user"

theorem flatten_turnsFrom (msg : Message) (users messages : List Message) :
    flatten (turnsFrom msg users messages) = msg :: (users ++ messages) := by
  induction messages generalizing msg users with
  | nil => simp [turnsFrom, flatten_cons]
  | cons m rest ih =>
    rw [turnsFrom]
    split_ifs
    · rw [ih, append_assoc]
      rfl
    · rw [flatten_cons, ih]
      rfl

theorem flatten_turns (messages : List Message) :
    flatten (turns messages) = opening :: messages := flatten_turnsFrom _ _ _

theorem wellFormed_turnsFrom {msg : Message} {users : List Message} (messages : List Message)
    (hmsg : msg.role ≠ "user") (husers : ∀ u ∈ users, u.role = "user") :
    ∀ t ∈ turnsFrom msg users messages, t.WellFormed := by
  induction messages generalizing msg users with
  | nil =>
    rintro t ht
    rw [turnsFrom, mem_singleton] at ht
    subst ht
    exact ⟨hmsg, husers⟩
  | cons m rest ih =>
    rw [turnsFrom]
    split_ifs with hm
    · refine ih hmsg ?_
      rintro u hu
      rcases mem_append.1 hu with hu | hu
      · exact husers u hu
      · rw [mem_singleton.1 hu]
        exact hm
    · rintro t ht
      rcases mem_cons.1 ht with rfl | ht
      · exact ⟨hmsg, husers⟩
      · exact ih hm (by simp) t ht

theorem wellFormed_turns (messages : List Message) : ∀ t ∈ turns messages, t.WellFormed :=
  wellFormed_turnsFrom messages (by decide) (by simp)

theorem head_flatten {ts : List Turn} (hts : ∀ t ∈ ts, t.WellFormed) :
    ∀ m ∈ (flatten ts).head?, m.role ≠ "user" := by
  cases ts with
  | nil => simp
  | cons t ts =>
    rw [flatten_cons]
    rintro m hm
    cases hm
    exact (hts t mem_cons_self).msg_role

/-! ## Turns that go wrong in the same way -/

/-- Two turns that answer, ask and call alike. -/
structure Turn.Alike (t t' : Turn) : Prop where
  answered : t'.Answered ↔ t.Answered
  asks : t'.Asks ↔ t.Asks
  idless : t'.Idless ↔ t.Idless
  empty : t'.msg.content = [] ↔ t.msg.content = []

theorem Turn.Alike.round {t t' : Turn} (h : t.Alike t') : t'.Round ↔ t.Round :=
  and_congr h.answered (not_congr h.asks)

theorem Turn.Alike.concludes {t t' : Turn} (h : t.Alike t') (hrole : t'.msg.role = t.msg.role) :
    t'.Concludes ↔ t.Concludes := by
  rw [Concludes, Concludes, hrole, h.answered, h.idless, h.asks]

theorem completedAt_map {f : Turn → Turn} {t : Turn} {after : List Turn}
    (halike : ∀ t' ∈ t :: after, t'.Alike (f t'))
    (hrole : ∀ t' : Turn, (f t').msg.role = t'.msg.role) :
    CompletedAt (f t) (after.map f) ↔ CompletedAt t after := by
  obtain ⟨ht, hafter⟩ := forall_mem_cons.1 halike
  refine and_congr ht.round ?_
  cases after with
  | nil => simp
  | cons answer after =>
    have hanswer := (hafter answer mem_cons_self).concludes (hrole answer)
    simpa using hanswer

theorem leftAt_map {f : Turn → Turn} {t : Turn} {after : List Turn}
    (halike : ∀ t' ∈ t :: after, t'.Alike (f t'))
    (hrole : ∀ t' : Turn, (f t').msg.role = t'.msg.role) :
    LeftAt (f t) (after.map f) ↔ LeftAt t after := by
  obtain ⟨ht, hafter⟩ := forall_mem_cons.1 halike
  refine and_congr ht.round ?_
  cases after with
  | nil => simp
  | cons next after =>
    have hnext := completedAt_map hafter hrole
    simpa using hnext

/-- The turns `ts'` are those of `ts` up to turns that are alike, without some turns that only
answer calls and that the user answers to in the turn after. -/
inductive Condenses : List Turn → List Turn → Prop
  | nil : Condenses [] []
  | keep {t t' ts ts'} : t.Alike t' → Condenses ts ts' → Condenses (t :: ts) (t' :: ts')
  | drop {t next ts ts'} : t.Answered → ¬ t.Asks → next.Asks →
      Condenses (next :: ts) ts' → Condenses (t :: next :: ts) ts'

namespace Condenses

theorem map {f : Turn → Turn} {ts : List Turn} (hts : ∀ t ∈ ts, t.Alike (f t)) :
    Condenses ts (ts.map f) := by
  induction ts with
  | nil => exact .nil
  | cons t ts ih =>
    rw [forall_mem_cons] at hts
    exact .keep hts.1 (ih hts.2)

variable {ts ts' : List Turn} (h : Condenses ts ts')

include h in
theorem eq_nil_iff : ts' = [] ↔ ts = [] := by
  induction h with
  | nil => rfl
  | keep => simp
  | drop _ _ _ _ ih => simpa using ih

include h in
theorem exists_asks : (∃ t ∈ ts', t.Asks) ↔ ∃ t ∈ ts, t.Asks := by
  induction h with
  | nil => rfl
  | keep halike _ ih => rw [exists_mem_cons_iff, exists_mem_cons_iff, ih, halike.asks]
  | @drop t next ts _ _ hasks _ _ ih =>
    rw [ih, exists_mem_cons_iff _ t, or_iff_right hasks]

include h in
theorem exists_says_iff : (∃ t ∈ ts', t.Says) ↔ ∃ t ∈ ts, t.Says := by
  induction h with
  | nil => rfl
  | keep halike _ ih =>
    rw [exists_mem_cons_iff, exists_mem_cons_iff, ih, Turn.Says, Turn.Says,
      halike.asks, ne_eq, halike.empty]
  | @drop t next ts _ _ _ hnext _ ih =>
    have hSays : ∃ t ∈ next :: ts, t.Says := ⟨next, mem_cons_self, .inr hnext⟩
    rw [ih, iff_true_left hSays]
    exact exists_mem_cons_of_exists hSays

include h in
theorem somewhere_iff {p : Turn → List Turn → Prop}
    (hkeep : ∀ {t t' ts ts'}, t.Alike t' → Condenses ts ts' → (p t' ts' ↔ p t ts))
    (hdrop : ∀ {t next ts}, t.Answered → ¬ t.Asks → ¬ p t (next :: ts)) :
    Somewhere p ts' ↔ Somewhere p ts := by
  induction h with
  | nil => rfl
  | keep halike hrest ih => rw [somewhere_cons, somewhere_cons, ih, hkeep halike hrest]
  | drop hanswered hasks _ _ ih =>
    exact ih.trans ((or_iff_right (hdrop hanswered hasks)).symm.trans somewhere_cons.symm)

include h in
theorem endsInResults : EndsInResults ts' ↔ EndsInResults ts := by
  refine somewhere_iff h ?_ ?_
  · rintro t t' ts ts' halike hrest
    rw [hrest.eq_nil_iff, halike.answered, halike.asks]
  · rintro t next ts - - ⟨hnil, -⟩
    cases hnil

include h in
theorem somewhere_cutAt : Somewhere CutAt ts' ↔ Somewhere CutAt ts := by
  refine somewhere_iff h ?_ ?_
  · rintro t t' ts ts' halike hrest
    have hasks : (∀ t ∈ ts', ¬ t.Asks) ↔ ∀ t ∈ ts, ¬ t.Asks := by
      simpa using not_congr hrest.exists_asks
    rw [CutAt, CutAt, halike.answered, halike.asks, hasks, hrest.endsInResults]
  · rintro t next ts - hasks ⟨-, hask, -⟩
    exact hasks hask

include h in
theorem somewhere_looseAt : Somewhere LooseAt ts' ↔ Somewhere LooseAt ts := by
  refine somewhere_iff h ?_ ?_
  · rintro t t' ts ts' halike hrest
    rw [LooseAt, LooseAt, halike.idless, halike.asks, hrest.exists_says_iff, hrest.endsInResults,
      hrest.exists_asks]
  · rintro t next ts ⟨-, r, -, -, hid⟩ - ⟨⟨-, -, hids⟩, -⟩
    rw [hids] at hid
    cases hid

end Condenses

end RavBot.Core
