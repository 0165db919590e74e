import RavBot.Core.ToolPairing.Validate

/-!
# What the validator delivers

After `FixAnthropicTurns` no message is empty and user messages alternate with others (`isChain_fix`).  A second pass
merges nothing, so all that it may change are the calls of the assistant (`fix_fix_eq_strip`), and these are
fine when they are answered by the user message after them.

The first pass looks at the messages as they come, and empty ones disappear only later.  So a call that an
empty message separates from the user is not looked at, and then the user message comes right after it.  The
validator delivers what it should exactly when such calls are answered in any case (`delivers_iff`).
-/

open List

namespace RavBot.Core

open RavBot.Lib

namespace TurnValidator

/-- What Anthropic requires of what the validator makes of messages. -/
structure Delivers (messages : List Message) : Prop where
  nonempty : ∀ m ∈ fixAnthropicTurns messages, m.content ≠ []
  alternates : (fixAnthropicTurns messages).IsChain fun a b => ¬ (a.role = "user" ∧ b.role = "user")
  stable : fixAnthropicTurns (fixAnthropicTurns messages) = fixAnthropicTurns messages
  answered : (fixAnthropicTurns messages).IsChain fun a b => a.role = "assistant" → b.role = "user" →
    ∀ call ∈ a.content, call.isToolUse → ∃ r ∈ b.content, r.isToolResult ∧ r.toolUseId = call.id

/-- A message has no calls, or it has no timestamp and its calls have ids and results. -/
def Settled (msg : Message) (next : List ContentBlock) : Prop :=
  (∀ call ∈ msg.content, ¬ call.isToolUse) ∨
    msg.timestamp = "" ∧ ∀ call ∈ msg.content, call.isToolUse →
      call.id ≠ "" ∧ ∃ r ∈ next, r.isToolResult ∧ r.toolUseId = call.id

def takeUsers (messages : List Message) : List Message := messages.takeWhile (·.role = "user")

def dropUsers (messages : List Message) : List Message := messages.dropWhile (·.role = "user")

def answers (rest : List Message) : List ContentBlock :=
  (takeUsers (kept rest)).flatMap (·.content)

/-- A message of the assistant that something else than a user message follows, but the user once empty messages
are left out, is settled by what the user says. -/
def NeighboursSettled (messages : List Message) : Prop :=
  ∀ msg rest, msg :: rest <:+ messages → msg.role = "assistant" →
    (∀ next ∈ rest.head?, next.role ≠ "user") → answers rest ≠ [] → Settled msg (answers rest)

/-! ## Stripping one message -/

theorem stripBefore_eq_self_iff {msg : Message} {next : List ContentBlock} :
    stripBefore msg next = msg ↔ Settled msg next := by
  constructor
  · intro h
    by_cases hcalls : msg.content.any (·.isToolUse)
    · refine .inr ⟨?_, fun call hcall huse => ?_⟩
      · rw [← h, stripBefore]
        dsimp only
        rw [if_pos hcalls]
        split_ifs <;> rfl
      · rw [← h] at hcall
        exact ((mem_stripBefore huse).1 hcall).2
    · exact .inl fun call hcall huse => hcalls (any_eq_true.2 ⟨call, hcall, huse⟩)
  · rintro (hnone | ⟨htime, hall⟩)
    · rw [stripBefore]
      refine if_neg fun hcalls => ?_
      obtain ⟨call, hcall, huse⟩ := any_eq_true.1 hcalls
      exact hnone call hcall huse
    · rw [stripBefore]
      dsimp only
      split_ifs with hcalls hempty
      · obtain ⟨call, hcall, huse⟩ := any_eq_true.1 hcalls
        obtain ⟨hid, r, hr, hresult, hreq⟩ := hall call hcall huse
        rw [List.isEmpty_iff, filter_eq_nil_iff] at hempty
        refine absurd ?_ (hempty call hcall)
        rw [Bool.or_eq_true, contains_iff_mem]
        refine .inr (mem_map.2 ⟨r, mem_filter.2 ⟨hr, ?_⟩, hreq⟩)
        rw [Bool.and_eq_true, hreq]
        exact ⟨hresult, decide_eq_true hid⟩
      · have hfilter : msg.content.filter (fun b => !b.isToolUse ||
            ((next.filter fun b => b.isToolResult && b.toolUseId ≠ "").map (·.toolUseId)).contains b.id) =
            msg.content := by
          refine filter_eq_self.2 fun call hcall => ?_
          cases huse : call.isToolUse with
          | false => rfl
          | true =>
            obtain ⟨hid, r, hr, hresult, hreq⟩ := hall call hcall huse
            rw [Bool.or_eq_true, contains_iff_mem]
            refine .inr (mem_map.2 ⟨r, mem_filter.2 ⟨hr, ?_⟩, hreq⟩)
            rw [Bool.and_eq_true, hreq]
            exact ⟨hresult, decide_eq_true hid⟩
        rw [hfilter]
        obtain ⟨role, content, timestamp⟩ := msg
        cases htime
        rfl
      · rfl

theorem settled_stripBefore (msg : Message) {next more : List ContentBlock} (h : next ⊆ more) :
    Settled (stripBefore msg next) more := by
  by_cases hcalls : msg.content.any (·.isToolUse)
  · refine .inr ⟨?_, fun call hcall huse => ?_⟩
    · rw [stripBefore]
      dsimp only
      rw [if_pos hcalls]
      split_ifs <;> rfl
    · obtain ⟨-, hid, r, hr, hresult⟩ := (mem_stripBefore huse).1 hcall
      exact ⟨hid, r, h hr, hresult⟩
  · have hself : stripBefore msg next = msg := by
      rw [stripBefore]
      exact if_neg hcalls
    rw [hself]
    exact .inl fun call hcall huse => hcalls (any_eq_true.2 ⟨call, hcall, huse⟩)

theorem strip_eq_self_iff {messages : List Message} :
    stripDanglingToolUses messages = messages ↔
      messages.IsChain fun a b => a.role = "assistant" → b.role = "user" → Settled a b.content := by
  induction messages with
  | nil => exact iff_of_true rfl isChain_nil
  | cons msg rest ih =>
    cases rest with
    | nil => exact iff_of_true rfl (isChain_singleton msg)
    | cons next rest =>
      rw [isChain_cons_cons, ← ih]
      by_cases h : msg.role = "assistant" ∧ next.role = "user"
      · rw [strip_cons_cons h.1 h.2, List.cons.injEq, stripBefore_eq_self_iff]
        exact and_congr_left' ⟨fun hs _ _ => hs, fun hs => hs h.1 h.2⟩
      · rw [strip_cons (by rintro _ ⟨⟩; exact h), List.cons.injEq]
        exact and_congr_left' (iff_of_true rfl fun ha hb => absurd ⟨ha, hb⟩ h)

/-! ## Merging -/

section

variable {msg : Message}

theorem takeUsers_cons (h : msg.role = "user") (rest : List Message) :
    takeUsers (msg :: rest) = msg :: takeUsers rest := takeWhile_cons_of_pos (decide_eq_true h)

theorem dropUsers_cons (h : msg.role = "user") (rest : List Message) :
    dropUsers (msg :: rest) = dropUsers rest := dropWhile_cons_of_pos (decide_eq_true h)

theorem takeUsers_of_not (h : msg.role ≠ "user") (rest : List Message) :
    takeUsers (msg :: rest) = [] := takeWhile_cons_of_neg fun h' => h (of_decide_eq_true h')

theorem dropUsers_of_not (h : msg.role ≠ "user") (rest : List Message) :
    dropUsers (msg :: rest) = msg :: rest :=
  dropWhile_cons_of_neg fun h' => h (of_decide_eq_true h')

end

theorem joinRole_eq_some {last msg joined : Message} (h : joinRole "user" last msg = some joined) :
    (last.role = "user" ∧ msg.role = "user") ∧ joined.role = "user" ∧
      joined.content = last.content ++ msg.content := by
  rw [joinRole, Option.ite_none_right_eq_some, Option.some.injEq] at h
  obtain ⟨hroles, rfl⟩ := h
  exact ⟨hroles, hroles.1, rfl⟩

theorem joinRole_eq_none {last msg : Message} :
    joinRole "user" last msg = none ↔ ¬ (last.role = "user" ∧ msg.role = "user") := by
  rw [joinRole]
  split
  · next h => exact iff_of_false (Option.some_ne_none _) (not_not_intro h)
  · next h => exact iff_of_true rfl h

theorem joinRole_none {a b c x : Message} (h : joinRole "user" a b = some c)
    (hx : joinRole "user" x a = none) : joinRole "user" x c = none := by
  obtain ⟨⟨ha, -⟩, -⟩ := joinRole_eq_some h
  rw [joinRole_eq_none] at hx ⊢
  exact fun hroles => hx ⟨hroles.1, ha⟩

theorem mergeInto_user {last : Message} (hrole : last.role = "user") (messages : List Message) :
    ∃ user, user.role = "user" ∧
      user.content = last.content ++ (takeUsers messages).flatMap (·.content) ∧
      mergeInto (joinRole "user") last messages =
        user :: (dropUsers messages).foldl (mergeStep (joinRole "user")) [] := by
  induction messages generalizing last with
  | nil => exact ⟨last, hrole, (append_nil _).symm, rfl⟩
  | cons msg messages ih =>
    by_cases hmsg : msg.role = "user"
    · obtain ⟨joined, hjoin⟩ : ∃ joined, joinRole "user" last msg = some joined :=
        ⟨_, if_pos ⟨hrole, hmsg⟩⟩
      obtain ⟨-, hjoined, hcontent⟩ := joinRole_eq_some hjoin
      obtain ⟨user, huser, heq, hmerge⟩ := ih hjoined
      refine ⟨user, huser, ?_, ?_⟩
      · rw [heq, hcontent, takeUsers_cons hmsg, flatMap_cons, append_assoc]
      · rw [mergeInto, hjoin, dropUsers_cons hmsg]
        exact hmerge
    · refine ⟨last, hrole, ?_, ?_⟩
      · rw [takeUsers_of_not hmsg, flatMap_nil, append_nil]
      · rw [dropUsers_of_not hmsg]
        refine mergeInto_eq_cons fun next hnext => joinRole_eq_none.2 fun h => hmsg ?_
        cases hnext
        exact h.2

theorem merge_cases (messages : List Message) :
    (takeUsers messages = [] ∧
        ∀ m ∈ (messages.foldl (mergeStep (joinRole "user")) []).head?, m.role ≠ "user") ∨
      ∃ user, user.role = "user" ∧
        user.content = (takeUsers messages).flatMap (·.content) ∧
        messages.foldl (mergeStep (joinRole "user")) [] =
          user :: (dropUsers messages).foldl (mergeStep (joinRole "user")) [] := by
  cases messages with
  | nil => exact .inl ⟨rfl, nofun⟩
  | cons msg messages =>
    rw [foldl_mergeStep_cons]
    by_cases hmsg : msg.role = "user"
    · obtain ⟨user, huser, heq, hmerge⟩ := mergeInto_user hmsg messages
      refine .inr ⟨user, huser, ?_, ?_⟩
      · rw [heq, takeUsers_cons hmsg, flatMap_cons]
      · rw [hmerge, dropUsers_cons hmsg]
    · refine .inl ⟨takeUsers_of_not hmsg messages, ?_⟩
      rw [mergeInto_eq_cons fun next _ => joinRole_eq_none.2 fun h => hmsg h.1]
      rintro _ ⟨⟩
      exact hmsg

/-! ## What a pass leaves -/

theorem content_fix (messages : List Message) : ∀ m ∈ fixAnthropicTurns messages, m.content ≠ [] := by
  rw [fixAnthropicTurns, mergeConsecutiveRole_eq]
  have hkept : ∀ m ∈ kept (stripDanglingToolUses messages), m.content ≠ [] := by
    intro m hm hnil
    have hcontent := (mem_filter.1 hm).2
    rw [hnil] at hcontent
    cases hcontent
  cases hlist : kept (stripDanglingToolUses messages) with
  | nil => exact nofun
  | cons m rest =>
    rw [hlist, forall_mem_cons] at hkept
    rw [foldl_mergeStep_cons]
    refine forall_mem_mergeInto (fun hjoin ha _ => ?_) hkept.1 hkept.2
    rw [(joinRole_eq_some hjoin).2.2]
    exact append_ne_nil_of_left_ne_nil ha _

theorem isChain_fix (messages : List Message) :
    (fixAnthropicTurns messages).IsChain fun a b => joinRole "user" a b = none := by
  rw [fixAnthropicTurns, mergeConsecutiveRole_eq]
  cases kept (stripDanglingToolUses messages) with
  | nil => exact isChain_nil
  | cons m rest =>
    rw [foldl_mergeStep_cons]
    exact (isChain_mergeInto_none joinRole_none m rest).1

/-- What stripping leaves of a message. -/
structure Strips (a b : Message) : Prop where
  role : b.role = a.role
  nil_iff : b.content = [] ↔ a.content = []
  user : a.role = "user" → b = a

theorem strips (messages : List Message) :
    List.Forall₂ Strips messages (stripDanglingToolUses messages) := by
  induction messages with
  | nil => exact .nil
  | cons msg rest ih =>
    have hself : Strips msg msg := ⟨rfl, Iff.rfl, fun _ => rfl⟩
    cases rest with
    | nil => exact .cons hself .nil
    | cons next rest =>
      by_cases h : msg.role = "assistant" ∧ next.role = "user"
      · rw [strip_cons_cons h.1 h.2]
        refine .cons ⟨stripBefore_role _ _, stripBefore_eq_nil, fun huser => ?_⟩ ih
        exact absurd (h.1.symm.trans huser) (by decide)
      · rw [strip_cons (by rintro _ ⟨⟩; exact h)]
        exact .cons hself ih

theorem map_role_strip (messages : List Message) :
    (stripDanglingToolUses messages).map (·.role) = messages.map (·.role) := by
  have hstrips := strips messages
  generalize stripDanglingToolUses messages = stripped at hstrips
  induction hstrips with
  | nil => rfl
  | cons hm _ ih => rw [map_cons, map_cons, hm.role, ih]

theorem fix_fix_eq_strip (messages : List Message) :
    fixAnthropicTurns (fixAnthropicTurns messages) = stripDanglingToolUses (fixAnthropicTurns messages) := by
  have hcontent := content_fix messages
  have hchain := isChain_fix messages
  generalize fixAnthropicTurns messages = fixed at hcontent hchain
  have hstrips := strips fixed
  have hkept : kept (stripDanglingToolUses fixed) = stripDanglingToolUses fixed := by
    refine filter_eq_self.2 fun m hm => ?_
    obtain ⟨m', hm', hstrip⟩ := exists_of_forall₂ hstrips.flip m hm
    rw [Bool.not_eq_true', isEmpty_eq_false_iff]
    exact fun hnil => hcontent m' hm' (hstrip.nil_iff.1 hnil)
  rw [fixAnthropicTurns, mergeConsecutiveRole_eq, hkept]
  refine foldl_mergeStep_eq_self ?_
  have hmap (l : List Message) : (l.IsChain fun a b => joinRole "user" a b = none) ↔
      (l.map (·.role)).IsChain fun a b => ¬ (a = "user" ∧ b = "user") := by
    simp only [joinRole_eq_none]
    exact (@isChain_map _ _ (fun a b : String => ¬ (a = "user" ∧ b = "user")) (·.role) l).symm
  rw [hmap] at hchain ⊢
  rwa [map_role_strip]

/-! ## Neighbours -/

theorem answers_cons (msg : Message) (rest : List Message) :
    answers (msg :: rest) =
      if msg.content = [] then answers rest
      else if msg.role = "user" then msg.content ++ answers rest
      else [] := by
  rw [answers, kept, filter_cons]
  by_cases hcontent : msg.content = []
  · rw [if_pos hcontent, if_neg (by rw [hcontent]; decide)]
    rfl
  · have hkept : (!msg.content.isEmpty) = true := by
      rw [Bool.not_eq_true', isEmpty_eq_false_iff]
      exact hcontent
    rw [if_neg hcontent, if_pos hkept]
    split
    · next huser =>
        rw [takeUsers_cons huser, flatMap_cons]
        rfl
    · next huser =>
        rw [takeUsers_of_not huser]
        rfl

theorem answers_strip (messages : List Message) :
    answers (stripDanglingToolUses messages) = answers messages := by
  have hstrips := strips messages
  generalize stripDanglingToolUses messages = stripped at hstrips
  induction hstrips with
  | nil => rfl
  | cons hm _ ih =>
    rw [answers_cons, answers_cons, ih, hm.role]
    refine if_congr hm.nil_iff rfl ?_
    split
    · next huser => rw [hm.user huser]
    · rfl

theorem neighboursSettled_cons (msg : Message) (rest : List Message) :
    NeighboursSettled (msg :: rest) ↔
      (msg.role = "assistant" → (∀ next ∈ rest.head?, next.role ≠ "user") → answers rest ≠ [] →
        Settled msg (answers rest)) ∧ NeighboursSettled rest := by
  constructor
  · intro h
    exact ⟨h msg rest (suffix_refl _), fun msg' rest' hsuffix =>
      h msg' rest' (hsuffix.trans (suffix_cons msg rest))⟩
  · rintro ⟨hmsg, hrest⟩ msg' rest' hsuffix
    rcases suffix_cons_iff.1 hsuffix with heq | hsuffix
    · obtain ⟨rfl, rfl⟩ := List.cons.inj heq
      exact hmsg
    · exact hrest msg' rest' hsuffix

/-- A message of the assistant before one of the user is settled. -/
def SettledNext (a b : Message) : Prop := a.role = "assistant" → b.role = "user" → Settled a b.content

theorem isChain_dropUsers (messages : List Message) :
    (messages.foldl (mergeStep (joinRole "user")) []).IsChain SettledNext ↔
      ((dropUsers messages).foldl (mergeStep (joinRole "user")) []).IsChain SettledNext := by
  rcases merge_cases messages with ⟨hnil, -⟩ | ⟨user, huser, -, hmerge⟩
  · have hdrop : dropUsers messages = messages := by
      have happend := @takeWhile_append_dropWhile _ (fun m : Message => m.role = "user") messages
      change takeUsers messages ++ dropUsers messages = messages at happend
      rwa [hnil, nil_append] at happend
    rw [hdrop]
  · rw [hmerge, isChain_cons, and_iff_right]
    exact fun b _ hrole => absurd (huser.symm.trans hrole) (by decide)

theorem settledNext_head_iff {msg : Message} (hrole : msg.role = "assistant") (rest : List Message) :
    (∀ b ∈ (fixAnthropicTurns rest).head?, SettledNext msg b) ↔
      (answers rest ≠ [] → Settled msg (answers rest)) := by
  have hcontent := content_fix rest
  rw [fixAnthropicTurns, mergeConsecutiveRole_eq] at hcontent ⊢
  rw [← answers_strip rest]
  rcases merge_cases (kept (stripDanglingToolUses rest)) with ⟨hnil, hhead⟩ | ⟨user, huser, heq, hmerge⟩
  · have hanswers : answers (stripDanglingToolUses rest) = [] := by rw [answers, hnil, flatMap_nil]
    rw [hanswers]
    exact iff_of_true (fun b hb _ hbrole => absurd hbrole (hhead b hb)) fun h => absurd rfl h
  · rw [hmerge] at hcontent ⊢
    have hanswers : answers (stripDanglingToolUses rest) = user.content := heq.symm
    rw [hanswers]
    constructor
    · exact fun h _ => h user rfl hrole huser
    · rintro h b hb - -
      cases hb
      exact h (hcontent user mem_cons_self)

theorem exists_strip_cons (msg : Message) (rest : List Message) :
    ∃ msg', stripDanglingToolUses (msg :: rest) = msg' :: stripDanglingToolUses rest ∧ Strips msg msg' ∧
      (msg.role = "assistant" → ((answers rest ≠ [] → Settled msg' (answers rest)) ↔
        ((∀ next ∈ rest.head?, next.role ≠ "user") → answers rest ≠ [] → Settled msg (answers rest)))) := by
  have hstrips := strips (msg :: rest)
  by_cases hnext : ∃ next ∈ rest.head?, msg.role = "assistant" ∧ next.role = "user"
  · obtain ⟨next, hhead, hrole, huser⟩ := hnext
    obtain ⟨rest', rfl⟩ : ∃ rest', rest = next :: rest' := by
      cases rest with
      | nil => cases hhead
      | cons m rest' =>
        cases hhead
        exact ⟨rest', rfl⟩
    rw [strip_cons_cons hrole huser] at hstrips ⊢
    refine ⟨_, rfl, (forall₂_cons.1 hstrips).1, fun _ => ?_⟩
    refine iff_of_true (fun _ => settled_stripBefore msg ?_) fun hnot => absurd huser (hnot next rfl)
    rw [answers_cons, if_pos huser]
    split
    · next hnil =>
        rw [hnil]
        exact nil_subset _
    · exact subset_append_left _ _
  · rw [strip_cons fun next hhead h => hnext ⟨next, hhead, h⟩] at hstrips ⊢
    refine ⟨msg, rfl, (forall₂_cons.1 hstrips).1, fun hrole => ?_⟩
    exact ⟨fun h _ => h, fun h => h fun next hhead huser => hnext ⟨next, hhead, hrole, huser⟩⟩

/-- **The neighbours in the result are settled** exactly when those in the messages are that become neighbours
there. -/
theorem isChain_settledNext_iff (messages : List Message) :
    (fixAnthropicTurns messages).IsChain SettledNext ↔ NeighboursSettled messages := by
  induction messages with
  | nil =>
    refine iff_of_true isChain_nil fun msg rest hsuffix => ?_
    exact absurd (suffix_nil.1 hsuffix) (cons_ne_nil msg rest)
  | cons msg rest ih =>
    obtain ⟨msg', hstrip, hstrips, hsettled⟩ := exists_strip_cons msg rest
    rw [neighboursSettled_cons, ← ih]
    by_cases hcontent : msg.content = []
    · -- the message disappears
      have hfix : fixAnthropicTurns (msg :: rest) = fixAnthropicTurns rest := by
        rw [fixAnthropicTurns, fixAnthropicTurns, mergeConsecutiveRole_eq, mergeConsecutiveRole_eq, hstrip,
          kept, filter_cons, if_neg (by rw [hstrips.nil_iff.2 hcontent]; decide)]
        rfl
      rw [hfix, and_iff_right]
      refine fun _ _ _ => .inl fun call hcall => ?_
      rw [hcontent] at hcall
      cases hcall
    · have hkept : (!msg'.content.isEmpty) = true := by
        rw [Bool.not_eq_true', isEmpty_eq_false_iff]
        exact fun hnil => hcontent (hstrips.nil_iff.1 hnil)
      by_cases huser : msg.role = "user"
      · have hrole : ¬ msg.role = "assistant" := by
          rw [huser]
          decide
        rw [and_iff_right fun h => absurd h hrole, fixAnthropicTurns, fixAnthropicTurns,
          mergeConsecutiveRole_eq, mergeConsecutiveRole_eq, hstrip, kept, filter_cons, if_pos hkept,
          isChain_dropUsers, dropUsers_cons (hstrips.role.trans huser), ← isChain_dropUsers]
        rfl
      · have hfix : fixAnthropicTurns (msg :: rest) = msg' :: fixAnthropicTurns rest := by
          rw [fixAnthropicTurns, hstrip, mergeConsecutiveRole_cons fun h => huser (hstrips.role.symm.trans h),
            unlessEmpty, if_neg fun h => by rw [h] at hkept; cases hkept]
          rfl
        rw [hfix, isChain_cons]
        refine and_congr_left' ?_
        by_cases hrole : msg.role = "assistant"
        · rw [settledNext_head_iff (hstrips.role.trans hrole), hsettled hrole]
          exact ⟨fun h _ => h, fun h => h hrole⟩
        · exact iff_of_true (fun b _ h => absurd (hstrips.role.symm.trans h) hrole) fun h => absurd h hrole

/-- **The validator delivers what Anthropic requires** exactly when calls that an empty message separates from
the user are settled by what the user says. -/
theorem delivers_iff (messages : List Message) : Delivers messages ↔ NeighboursSettled messages := by
  rw [← isChain_settledNext_iff]
  constructor
  · intro h
    exact strip_eq_self_iff.1 ((fix_fix_eq_strip messages).symm.trans h.stable)
  · intro h
    refine ⟨content_fix messages, ?_, ?_, ?_⟩
    · have hchain := isChain_fix messages
      simpa only [joinRole_eq_none] using hchain
    · rw [fix_fix_eq_strip]
      exact strip_eq_self_iff.2 h
    · refine h.imp fun a b hsettled hrole huser call hcall huse => ?_
      rcases hsettled hrole huser with hnone | ⟨-, hall⟩
      · exact absurd huse (hnone call hcall)
      · exact (hall call hcall huse).2

def separated : List Message :=
  [{ role := "assistant", content := [.makeToolUse "call_1" "read" .null] },
    { role := "assistant", content := [] }, .ofText "user" "Never mind."]

/-- The call is still there, right before what the user says. -/
theorem not_delivers_separated : ¬ Delivers separated := by
  intro h
  have hstable := congrArg (fun ms : List Message => ms.map fun m => m.content.map (·.type)) h.stable
  revert hstable
  decide +kernel

end TurnValidator

end RavBot.Core
