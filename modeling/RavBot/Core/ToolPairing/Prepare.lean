import RavBot.Core.ToolPairing.Repair
import RavBot.Lib.Merge

/-!
# Preparing the turns of a request

After the repair, completed tool turns are collapsed and user messages that follow each other
are merged.  Both work turn by turn: the first drops turns (`collapse_flatten`), the second
leaves at most one user message in each (`merge_flatten`).  What goes wrong with the turns that
come out goes wrong with those of the history (`somewhere_preparedTurns`).
-/

open List

namespace RavBot.Core

open RavBot.Lib

/-! ## Collapsing -/

/-- Whether a turn is a completed tool turn before the given ones. -/
def Turn.collapses (t : Turn) (rest : List Turn) : Bool :=
  match t.users, rest with
  | [results], answer :: _ =>
    match answer.users with
    | next :: _ => canCollapse t.msg results answer.msg next
    | [] => false
  | _, _ => false

/-- The turns after `collapse_completed_anthropic_tool_turns`. -/
def collapseTurns : List Turn → List Turn
  | [] => []
  | t :: rest => if t.collapses rest then collapseTurns rest else t :: collapseTurns rest

variable {msg : Message}

theorem collapse_cons {rest : List Message}
    (hskip : ∀ results answer next rest', rest = results :: answer :: next :: rest' →
      ¬ canCollapse msg results answer next) :
    collapseCompletedAnthropicToolTurns (msg :: rest) =
      msg :: collapseCompletedAnthropicToolTurns rest := by
  match rest with
  | [] => rfl
  | [_] => rfl
  | [_, _] => rfl
  | results :: answer :: next :: rest' =>
    rw [collapseCompletedAnthropicToolTurns, if_neg (hskip _ _ _ _ rfl)]

theorem collapse_cons_of_canCollapse {call results answer next : Message}
    (h : canCollapse call results answer next) (rest : List Message) :
    collapseCompletedAnthropicToolTurns (call :: results :: answer :: next :: rest) =
      answer :: collapseCompletedAnthropicToolTurns (next :: rest) := by
  rw [collapseCompletedAnthropicToolTurns, if_pos h]

theorem canCollapse_iff {call results answer next : Message} :
    canCollapse call results answer next ↔
      call.role = "assistant" ∧ hasToolUseBlocks call ∧ hasOnlyToolResultBlocks results ∧
        answer.role = "assistant" ∧ ¬ hasToolUseBlocks answer ∧ next.role = "user" := by
  simp [canCollapse, and_assoc]

theorem hasOnlyToolResultBlocks_iff :
    hasOnlyToolResultBlocks msg ↔
      msg.role = "user" ∧ msg.content ≠ [] ∧ ∀ r ∈ msg.content, r.isToolResult := by
  simp [hasOnlyToolResultBlocks, and_assoc]

variable {users messages : List Message}

theorem collapse_users (husers : ∀ u ∈ users, u.role = "user")
    (messages : List Message) :
    collapseCompletedAnthropicToolTurns (users ++ messages) =
      users ++ collapseCompletedAnthropicToolTurns messages := by
  induction users with
  | nil => rfl
  | cons user users ih =>
    rw [forall_mem_cons] at husers
    rw [cons_append, collapse_cons, ih husers.2, cons_append]
    rintro results answer next rest - hcollapse
    have hrole := (canCollapse_iff.1 hcollapse).1
    rw [husers.1] at hrole
    revert hrole
    decide

variable {t : Turn}

theorem Turn.collapses_iff {rest : List Turn} :
    t.collapses rest ↔ ∃ results answer rest' next users, t.users = [results] ∧
      rest = answer :: rest' ∧ answer.users = next :: users ∧
        canCollapse t.msg results answer.msg next := by
  constructor
  · rintro h
    unfold collapses at h
    match husers : t.users, rest, h with
    | [results], answer :: rest', h =>
      dsimp only at h
      cases hanswer : answer.users with
      | nil =>
        rw [hanswer] at h
        cases h
      | cons next users =>
        rw [hanswer] at h
        exact ⟨results, answer, rest', next, users, rfl, rfl, hanswer, h⟩
  · rintro ⟨results, answer, rest', next, users, husers, rfl, hanswer, h⟩
    simp only [collapses, husers, hanswer, h]

theorem users_of_append {rest : List Message} {m : Message}
    (hrest : ∀ x ∈ rest.head?, x.role ≠ "user") (hm : m.role = "user")
    (h : users ++ rest = m :: messages) :
    ∃ users', users = m :: users' ∧ users' ++ rest = messages := by
  cases users with
  | nil =>
    rw [nil_append] at h
    rw [h] at hrest
    exact absurd hm (hrest m rfl)
  | cons user users =>
    obtain ⟨rfl, htail⟩ := List.cons.inj h
    exact ⟨users, rfl, htail⟩

variable {ts : List Turn}

theorem flatten_of_append {m : Message}
    (husers : ∀ u ∈ users, u.role = "user") (hm : m.role ≠ "user")
    (h : users ++ flatten ts = m :: messages) :
    users = [] ∧ ∃ t ts', ts = t :: ts' ∧ t.msg = m ∧ t.users ++ flatten ts' = messages := by
  cases users with
  | nil =>
    cases ts with
    | nil => cases h
    | cons t ts =>
      obtain ⟨rfl, htail⟩ := List.cons.inj h
      exact ⟨rfl, t, ts, rfl, rfl, htail⟩
  | cons user users =>
    obtain ⟨rfl, -⟩ := List.cons.inj h
    exact absurd (husers user mem_cons_self) hm

theorem collapse_flatten (hts : ∀ t ∈ ts, t.WellFormed) :
    collapseCompletedAnthropicToolTurns (flatten ts) = flatten (collapseTurns ts) := by
  induction ts with
  | nil => rfl
  | cons t rest ih =>
    obtain ⟨ht, hrest⟩ := forall_mem_cons.1 hts
    rw [collapseTurns]
    split_ifs with h
    · obtain ⟨results, answer, rest', next, users, husers, rfl, hanswer, h⟩ :=
        Turn.collapses_iff.1 h
      have hskip : collapseCompletedAnthropicToolTurns (flatten (answer :: rest')) =
          answer.msg :: collapseCompletedAnthropicToolTurns (answer.users ++ flatten rest') := by
        rw [flatten_cons, collapse_cons]
        rintro _ _ _ _ - h'
        exact (canCollapse_iff.1 h).2.2.2.2.1 (canCollapse_iff.1 h').2.1
      rw [← ih hrest, hskip, flatten_cons, flatten_cons, husers, hanswer]
      exact collapse_cons_of_canCollapse h _
    · rw [flatten_cons, flatten_cons, ← ih hrest, collapse_cons, collapse_users ht.user_role]
      rintro results answer next messages hmessages hcollapse
      obtain ⟨-, -, hresults, hrole, -, hnext⟩ := canCollapse_iff.1 hcollapse
      have hanswer : answer.role ≠ "user" := by
        rw [hrole]
        decide
      -- The results end the turn, and the answer begins the next turn.
      obtain ⟨users, husers, hafter⟩ := users_of_append (head_flatten hrest)
        (hasOnlyToolResultBlocks_iff.1 hresults).1 hmessages
      have hall := ht.user_role
      rw [husers, forall_mem_cons] at hall
      obtain ⟨rfl, c, rest', rfl, rfl, hc⟩ := flatten_of_append hall.2 hanswer hafter
      obtain ⟨users, hc, -⟩ := users_of_append
        (head_flatten (forall_mem_cons.1 hrest).2) hnext hc
      exact h (Turn.collapses_iff.2 ⟨results, c, rest', next, users, husers, rfl, hc, hcollapse⟩)

theorem collapseTurns_sublist (ts : List Turn) : (collapseTurns ts).Sublist ts := by
  induction ts with
  | nil => exact List.Sublist.refl _
  | cons t rest ih =>
    rw [collapseTurns]
    split_ifs
    · exact ih.cons t
    · exact ih.cons_cons t

theorem collapseTurns_subset (ts : List Turn) : collapseTurns ts ⊆ ts :=
  (collapseTurns_sublist ts).subset

theorem Turn.Repaired.round_iff (ht : t.Repaired) :
    t.Round ↔ t.msg.role = "assistant" ∧ hasToolUseBlocks t.msg ∧
      ∃ results, t.users = [results] ∧ hasOnlyToolResultBlocks results := by
  constructor
  · rintro ⟨⟨hrole, r, hr, -, hid⟩, hasks⟩
    have honly : ∀ user ∈ t.users, ∀ b ∈ user.content, b.isToolResult :=
      fun user huser b hb => not_not.1 fun hresult =>
        hasks (ht.asks_iff.2 ⟨user, huser, b, hb, hresult⟩)
    obtain ⟨-, c, hc, huse, -⟩ := mem_collectToolUseIds.1 hid
    refine ⟨hrole, any_eq_true.2 ⟨c, hc, huse⟩, ?_⟩
    obtain ⟨user, huser, -⟩ := exists_of_mem_reply hr
    have hnonempty := ht.nonempty
    have hlater := ht.later
    have hroles := ht.user_role
    cases husers : t.users with
    | nil =>
      rw [husers] at huser
      cases huser
    | cons first users =>
      rw [husers] at honly hnonempty hlater hroles
      have hfirst : hasOnlyToolResultBlocks first := hasOnlyToolResultBlocks_iff.2
        ⟨hroles first mem_cons_self, hnonempty first mem_cons_self,
          honly first mem_cons_self⟩
      refine ⟨first, ?_, hfirst⟩
      -- Later messages have content, but neither results nor something else.
      refine congrArg _ (eq_nil_iff_forall_not_mem.2 fun later hmem => ?_)
      have hmem' := mem_cons_of_mem first hmem
      obtain ⟨b, hb⟩ := exists_mem_of_ne_nil _ (hnonempty later hmem')
      exact hlater later hmem b hb (honly later hmem' b hb)
  · rintro ⟨-, -, results, husers, honly⟩
    obtain ⟨-, hcontent, honly⟩ := hasOnlyToolResultBlocks_iff.1 honly
    have hreply : t.reply = results.content := by rw [reply, husers]
    obtain ⟨r, hr⟩ := exists_mem_of_ne_nil _ hcontent
    have hcall := ht.results r (hreply ▸ hr) (honly r hr)
    refine ⟨⟨hcall.1, r, hreply ▸ hr, honly r hr, hcall.2⟩, ?_⟩
    rw [ht.asks_iff, husers]
    simpa using honly

theorem Turn.Repaired.concludes_iff (ht : t.Repaired) :
    t.Concludes ↔ t.msg.role = "assistant" ∧ ¬ hasToolUseBlocks t.msg ∧ t.users ≠ [] := by
  constructor
  · rintro ⟨hrole, hanswered, hidless, user, huser, -⟩
    refine ⟨hrole, fun huse => ?_, ne_nil_of_mem huser⟩
    by_cases hids : collectToolUseIds t.msg = []
    · exact hidless ⟨hrole, huse, hids⟩
    · obtain ⟨id, hid⟩ := exists_mem_of_ne_nil _ hids
      obtain ⟨r, hr, hresult, rfl⟩ := ht.calls hrole id hid
      exact hanswered ⟨hrole, r, hr, hresult, hid⟩
  · rintro ⟨hrole, hcalls, husers⟩
    have hids : ∀ id, id ∉ collectToolUseIds t.msg := by
      rintro id hid
      obtain ⟨-, c, hc, huse, -⟩ := mem_collectToolUseIds.1 hid
      exact hcalls (any_eq_true.2 ⟨c, hc, huse⟩)
    refine ⟨hrole, ?_, fun hidless => hcalls hidless.2.1, ?_⟩
    · rintro ⟨-, r, -, -, hid⟩
      exact hids _ hid
    · cases hcons : t.users with
      | nil => exact absurd hcons husers
      | cons next users =>
        have hnext : next ∈ t.users := hcons ▸ mem_cons_self
        obtain ⟨b, hb⟩ := exists_mem_of_ne_nil _ (ht.nonempty next hnext)
        have hbreply : b ∈ t.reply := by
          rw [reply, hcons]
          exact hb
        exact ht.asks_iff.2
          ⟨next, hnext, b, hb, fun hresult => hids _ (ht.results b hbreply hresult).2⟩

theorem Turn.Repaired.collapses_iff {rest : List Turn} (ht : t.Repaired)
    (hrest : ∀ t' ∈ rest, t'.Repaired) : t.collapses rest ↔ CompletedAt t rest := by
  rw [Turn.collapses_iff, CompletedAt, ht.round_iff]
  constructor
  · rintro ⟨results, answer, rest', next, users, husers, rfl, hanswer, h⟩
    obtain ⟨hrole, huse, hresults, hrole', hcalls, -⟩ := canCollapse_iff.1 h
    refine ⟨⟨hrole, huse, results, husers, hresults⟩, answer, rfl, ?_⟩
    rw [(hrest answer mem_cons_self).concludes_iff, hanswer]
    exact ⟨hrole', hcalls, cons_ne_nil _ _⟩
  · rintro ⟨⟨hrole, huse, results, husers, hresults⟩, answer, hanswer, hconcludes⟩
    have hmem := mem_of_mem_head? hanswer
    obtain ⟨hrole', hcalls, hne⟩ := (hrest answer hmem).concludes_iff.1 hconcludes
    obtain ⟨next, users, hcons⟩ := exists_cons_of_ne_nil hne
    have hnext := (hrest answer hmem).user_role next (hcons ▸ mem_cons_self)
    exact ⟨results, answer, rest.tail, next, users, husers, (cons_head?_tail hanswer).symm,
      hcons, canCollapse_iff.2 ⟨hrole, huse, hresults, hrole', hcalls, hnext⟩⟩

theorem condenses_collapseTurns (hts : ∀ t ∈ ts, t.Repaired) : Condenses ts (collapseTurns ts) := by
  induction ts with
  | nil => exact .nil
  | cons t rest ih =>
    obtain ⟨ht, hrest⟩ := forall_mem_cons.1 hts
    rw [collapseTurns]
    split_ifs with h
    · obtain ⟨⟨hanswered, hasks⟩, answer, hanswer, -, -, -, hanswer_asks⟩ :=
        (ht.collapses_iff hrest).1 h
      rw [← cons_head?_tail hanswer] at hrest ih ⊢
      exact .drop hanswered hasks hanswer_asks (ih hrest)
    · exact .keep ⟨Iff.rfl, Iff.rfl, Iff.rfl, Iff.rfl⟩ (ih hrest)

/-! ## Merging -/

def joinUsers (last msg : Message) : Option Message :=
  if msg.role = "user" ∧ last.role = "user" then
    some { last with content := last.content ++ msg.content }
  else none

theorem mergeUser_eq : mergeUser = mergeStep joinUsers := by
  funext merged msg
  rw [mergeUser, mergeStep]
  cases merged.getLast? with
  | none => rfl
  | some last =>
    dsimp only
    rw [joinUsers]
    split_ifs <;> rfl

theorem merge_cons (msg : Message) (messages : List Message) :
    mergeConsecutiveUserMessages (msg :: messages) = mergeInto joinUsers msg messages := by
  rw [mergeConsecutiveUserMessages, mergeUser_eq, foldl_mergeStep_cons]

theorem mergeInto_joinUsers {last : Message}
    (h : ∀ m ∈ messages.head?, ¬ (m.role = "user" ∧ last.role = "user")) :
    mergeInto joinUsers last messages = last :: mergeConsecutiveUserMessages messages := by
  rw [mergeConsecutiveUserMessages, mergeUser_eq]
  exact mergeInto_eq_cons fun m hm => if_neg (h m hm)

namespace Turn

/-- The turn after `merge_consecutive_user_messages`. -/
def merge (t : Turn) : Turn where
  msg := t.msg
  users :=
    match t.users with
    | user :: users => [{ user with content := user.content ++ users.flatMap (·.content) }]
    | [] => []

/-- A repaired turn with at most one user message. -/
structure Merged (t : Turn) : Prop extends t.Repaired where
  single : t.users.tail = []

end Turn

theorem mergeInto_users {user : Message} (huser : user.role = "user")
    (husers : ∀ u ∈ users, u.role = "user")
    (hmessages : ∀ m ∈ messages.head?, m.role ≠ "user") :
    mergeInto joinUsers user (users ++ messages) =
      { user with content := user.content ++ users.flatMap (·.content) } ::
        mergeConsecutiveUserMessages messages := by
  induction users generalizing user with
  | nil =>
    rw [nil_append, mergeInto_joinUsers fun m hm h => hmessages m hm h.1, flatMap_nil, append_nil]
  | cons next users ih =>
    obtain ⟨hnext, husers⟩ := forall_mem_cons.1 husers
    rw [cons_append, mergeInto, joinUsers, if_pos ⟨hnext, huser⟩, flatMap_cons, ← append_assoc]
    have hjoined : Message.role { user with content := user.content ++ next.content } = "user" :=
      huser
    exact ih hjoined husers

theorem merge_flatten (hts : ∀ t ∈ ts, t.WellFormed) :
    mergeConsecutiveUserMessages (flatten ts) = flatten (ts.map Turn.merge) := by
  induction ts with
  | nil => rfl
  | cons t rest ih =>
    obtain ⟨ht, hrest⟩ := forall_mem_cons.1 hts
    have hhead := head_flatten hrest
    have hmsg (messages : List Message) :
        mergeConsecutiveUserMessages (t.msg :: messages) =
          t.msg :: mergeConsecutiveUserMessages messages := by
      rw [merge_cons, mergeInto_joinUsers fun _ _ h => ht.msg_role h.2]
    rw [map_cons, flatten_cons, flatten_cons, ← ih hrest, hmsg, Turn.merge]
    cases husers : t.users with
    | nil => rfl
    | cons user users =>
      have hall := ht.user_role
      rw [husers, forall_mem_cons] at hall
      rw [cons_append, merge_cons, mergeInto_users hall.1 hall.2 hhead]
      rfl

namespace Turn

theorem mem_merge_reply {t : Turn} (ht : t.Repaired) {r : ContentBlock} (hresult : r.isToolResult) :
    r ∈ t.merge.reply ↔ r ∈ t.reply := by
  have hlater := ht.later
  rw [reply, reply, merge]
  cases husers : t.users with
  | nil => rfl
  | cons user users =>
    rw [husers] at hlater
    dsimp only
    rw [mem_append]
    refine or_iff_left ?_
    rintro hr
    obtain ⟨later, hlater', hr⟩ := mem_flatMap.1 hr
    exact hlater later hlater' r hr hresult

theorem exists_mem_merge_users (t : Turn) (p : ContentBlock → Prop) :
    (∃ user ∈ t.merge.users, ∃ b ∈ user.content, p b) ↔
      ∃ user ∈ t.users, ∃ b ∈ user.content, p b := by
  rw [merge]
  cases t.users with
  | nil => rfl
  | cons user users =>
    simp only [mem_singleton, exists_eq_left, exists_mem_cons_iff, mem_append,
      mem_flatMap, or_and_right, exists_or]
    refine or_congr_right ?_
    constructor
    · rintro ⟨b, ⟨user, huser, hb⟩, hp⟩
      exact ⟨user, huser, b, hb, hp⟩
    · rintro ⟨user, huser, b, hb, hp⟩
      exact ⟨b, ⟨user, huser, hb⟩, hp⟩

theorem merged_merge {t : Turn} (ht : t.Repaired) : t.merge.Merged where
  msg_role := ht.msg_role
  user_role := by
    have hrole := ht.user_role
    rw [merge]
    cases husers : t.users with
    | nil => simp
    | cons user users =>
      rw [husers, forall_mem_cons] at hrole
      simpa using hrole.1
  nonempty := by
    have hnonempty := ht.nonempty
    rw [merge]
    cases husers : t.users with
    | nil => simp
    | cons user users =>
      rw [husers, forall_mem_cons] at hnonempty
      simp [hnonempty.1]
  later := by
    rw [merge]
    cases t.users <;> simp
  results r hr hresult := ht.results r ((mem_merge_reply ht hresult).1 hr) hresult
  calls hrole id hid := by
    obtain ⟨r, hr, hresult, hid⟩ := ht.calls hrole id hid
    exact ⟨r, (mem_merge_reply ht hresult).2 hr, hresult, hid⟩
  single := by
    rw [merge]
    cases t.users <;> rfl

theorem alike_merge {t : Turn} (ht : t.Repaired) : t.Alike t.merge where
  answered := by
    refine and_congr_right fun _ => exists_congr fun r => ?_
    rw [← and_assoc, ← and_assoc]
    refine and_congr_left' ?_
    constructor
    · rintro ⟨hr, hresult⟩
      exact ⟨(mem_merge_reply ht hresult).1 hr, hresult⟩
    · rintro ⟨hr, hresult⟩
      exact ⟨(mem_merge_reply ht hresult).2 hr, hresult⟩
  asks := by
    rw [(merged_merge ht).asks_iff, ht.asks_iff, exists_mem_merge_users]
  idless := Iff.rfl
  empty := Iff.rfl

end Turn

/-! ## The prepared turns -/

def prepare (messages : List Message) : List Message :=
  mergeConsecutiveUserMessages
    (collapseCompletedAnthropicToolTurns (repairAnthropicToolPairing messages))

def prepareTurns (ts : List Turn) : List Turn :=
  (collapseTurns (ts.map Turn.repair)).map Turn.merge

def preparedTurns (messages : List Message) : List Turn :=
  (collapseTurns ((turns messages).map Turn.repair)).map Turn.merge

theorem prepare_cons (huser : msg.role ≠ "user") (hassistant : msg.role ≠ "assistant")
    (messages : List Message) : prepare (msg :: messages) = msg :: prepare messages := by
  rw [prepare, repair_cons_plain huser fun h => hassistant h.1, collapse_cons, merge_cons,
    mergeInto_joinUsers fun _ _ h => huser h.2]
  · rfl
  · rintro results answer next rest - h
    exact hassistant (canCollapse_iff.1 h).1

theorem prepare_flatten (hts : ∀ t ∈ ts, t.WellFormed) :
    prepare (flatten ts) = flatten (prepareTurns ts) := by
  have hrepaired : ∀ t ∈ ts.map Turn.repair, t.WellFormed := by
    rw [forall_mem_map]
    exact fun t ht => (Turn.repaired_repair (hts t ht)).toWellFormed
  have hcollapsed : ∀ t ∈ collapseTurns (ts.map Turn.repair), t.WellFormed :=
    fun t ht => hrepaired t (collapseTurns_subset _ ht)
  rw [prepare, repair_flatten hts, collapse_flatten hrepaired, merge_flatten hcollapsed]
  rfl

theorem prepared_eq (messages : List Message) :
    opening :: prepare messages = flatten (preparedTurns messages) := by
  rw [← prepare_cons (by decide) (by decide), ← flatten_turns,
    prepare_flatten (wellFormed_turns messages)]
  rfl

theorem repaired_turns (messages : List Message) :
    ∀ t ∈ (turns messages).map Turn.repair, t.Repaired := by
  rw [forall_mem_map]
  exact fun t ht => Turn.repaired_repair (wellFormed_turns messages t ht)

theorem merged_preparedTurns (messages : List Message) :
    ∀ t ∈ preparedTurns messages, t.Merged := by
  rw [preparedTurns, forall_mem_map]
  exact fun t ht =>
    Turn.merged_merge (repaired_turns messages t (collapseTurns_subset _ ht))

theorem somewhere_preparedTurns {p : Turn → List Turn → Prop}
    (hp : ∀ {ts ts'}, Condenses ts ts' → (Somewhere p ts' ↔ Somewhere p ts))
    (messages : List Message) :
    Somewhere p (preparedTurns messages) ↔ Somewhere p (turns messages) := by
  have hrepaired := repaired_turns messages
  rw [preparedTurns,
    hp (.map fun t ht => Turn.alike_merge (hrepaired t (collapseTurns_subset _ ht))),
    hp (condenses_collapseTurns hrepaired),
    hp (.map fun t ht => Turn.alike_repair (wellFormed_turns messages t ht))]

end RavBot.Core
