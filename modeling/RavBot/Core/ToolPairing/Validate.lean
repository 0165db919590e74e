import RavBot.Core.ToolPairing.Prepare

/-!
# Validating turns

The validator strips calls that the next message does not answer, drops messages without
content and merges user messages.  Stripping works turn by turn (`strip_flatten`), and merging
does not matter to the pairing of calls and results as long as no results follow a user message
(`isChain_mergeConsecutiveRole`).  So what is left unpaired in the turns of a request are the
calls without an id that are followed by something else than a user message (`LooseNext`).
-/

open List

namespace RavBot.Core

open RavBot.Lib

namespace TurnValidator

/-! ## Merging -/

/-- Two messages with the given role as one. -/
def joinRole (role : String) (last msg : Message) : Option Message :=
  if last.role = role ∧ msg.role = role then
    some { last with
      content := last.content ++ msg.content
      timestamp := if msg.timestamp ≠ "" then msg.timestamp else last.timestamp }
  else none

def kept (messages : List Message) : List Message := messages.filter (!·.content.isEmpty)

theorem mergeConsecutiveRole_eq (messages : List Message) (role : String) :
    mergeConsecutiveRole messages role = (kept messages).foldl (mergeStep (joinRole role)) [] := by
  rw [mergeConsecutiveRole, kept, foldl_filter]
  congr 1
  funext result msg
  rw [mergeRole, mergeStep]
  cases hempty : msg.content.isEmpty with
  | true => rfl
  | false =>
    rw [if_neg (by simp), Bool.not_false, if_pos rfl]
    cases result.getLast? with
    | none => rfl
    | some last =>
      dsimp only
      rw [joinRole]
      split_ifs <;> rfl

def NoLaterResults (x y : Message) : Prop :=
  x.role = "user" → y.role = "user" → ∀ r ∈ y.content, ¬ r.isToolResult

theorem joinKeeps_linked : JoinKeeps (joinRole "user") NoLaterResults Linked := by
  have hjoin {a b c : Message} (h : joinRole "user" a b = some c) :
      a.role = "user" ∧ b.role = "user" ∧ c.role = "user" ∧ c.content = a.content ++ b.content := by
    rw [joinRole, Option.ite_none_right_eq_some, Option.some.injEq] at h
    obtain ⟨⟨ha, hb⟩, rfl⟩ := h
    exact ⟨ha, hb, ha, rfl⟩
  have huser {a : Message} (ha : a.role = "user") : a.role ≠ "assistant" := by
    rw [ha]
    decide
  constructor
  · rintro a b c h hok
    obtain ⟨ha, hb, -, -⟩ := hjoin h
    exact ⟨fun hrole => absurd hrole (huser ha),
      fun _ r hr hresult => absurd hresult (hok ha hb r hr)⟩
  · rintro a b c x h hok
    obtain ⟨ha, hb, hc, hcontent⟩ := hjoin h
    have hresults (r : ContentBlock) (hresult : r.isToolResult) :
        r ∈ c.content ↔ r ∈ a.content := by
      rw [hcontent, mem_append]
      exact or_iff_left fun hr => hok ha hb r hr hresult
    constructor
    · rintro ⟨hcalls, hanswers⟩
      refine ⟨fun hrole b hb huse => ?_, fun _ r hr hresult => ?_⟩
      · obtain ⟨-, r, hr, hresult, hid⟩ := hcalls hrole b hb huse
        exact ⟨ha, r, (hresults r hresult).1 hr, hresult, hid⟩
      · exact hanswers hc r ((hresults r hresult).2 hr) hresult
    · rintro ⟨hcalls, hanswers⟩
      refine ⟨fun hrole b hb huse => ?_, fun _ r hr hresult => ?_⟩
      · obtain ⟨-, r, hr, hresult, hid⟩ := hcalls hrole b hb huse
        exact ⟨hc, r, (hresults r hresult).2 hr, hresult, hid⟩
      · exact hanswers ha r ((hresults r hresult).1 hr) hresult
  · rintro a b c x h hok
    obtain ⟨ha, hb, hc, -⟩ := hjoin h
    have hiff {m : Message} (hm : m.role = "user") :
        Linked m x ↔ (x.role = "user" → ∀ r ∈ x.content, ¬ r.isToolResult) := by
      constructor
      · rintro ⟨-, hanswers⟩ hx r hr hresult
        exact huser hm (hanswers hx r hr hresult).1
      · rintro hx
        exact ⟨fun hrole => absurd hrole (huser hm), fun hrole r hr hresult =>
          absurd hresult (hx hrole r hr)⟩
    rw [hiff hc, hiff hb]
  · rintro a b c x h
    obtain ⟨-, hb, hc, -⟩ := hjoin h
    rw [NoLaterResults, NoLaterResults, hb, hc]

theorem isChain_mergeConsecutiveRole {messages : List Message}
    (hok : (kept messages).IsChain NoLaterResults) (x : Message) :
    (x :: mergeConsecutiveRole messages "user").IsChain Linked ↔
      (x :: kept messages).IsChain Linked := by
  rw [mergeConsecutiveRole_eq]
  cases hkept : kept messages with
  | nil => rfl
  | cons m rest =>
    rw [hkept] at hok
    rw [foldl_mergeStep_cons]
    exact isChain_mergeInto joinKeeps_linked hok x

variable {msg : Message}

theorem mergeConsecutiveRole_cons (hrole : msg.role ≠ "user")
    (messages : List Message) :
    mergeConsecutiveRole (msg :: messages) "user" =
      unlessEmpty msg ++ mergeConsecutiveRole messages "user" := by
  rw [mergeConsecutiveRole_eq, mergeConsecutiveRole_eq, kept, kept, unlessEmpty, filter_cons]
  cases msg.content.isEmpty with
  | true => rfl
  | false =>
    rw [Bool.not_false, if_pos rfl, if_neg Bool.false_ne_true, foldl_mergeStep_cons]
    exact mergeInto_eq_cons fun _ _ => if_neg fun h => hrole h.1

/-! ## Stripping -/

theorem strip_cons {rest : List Message}
    (h : ∀ next ∈ rest.head?, ¬ (msg.role = "assistant" ∧ next.role = "user")) :
    stripDanglingToolUses (msg :: rest) = msg :: stripDanglingToolUses rest := by
  cases rest with
  | nil => rfl
  | cons next rest =>
    rw [stripDanglingToolUses, if_neg (h next rfl)]

theorem strip_cons_cons {next : Message} (hmsg : msg.role = "assistant")
    (hnext : next.role = "user") (rest : List Message) :
    stripDanglingToolUses (msg :: next :: rest) =
      stripBefore msg next.content :: stripDanglingToolUses (next :: rest) := by
  rw [stripDanglingToolUses, if_pos ⟨hmsg, hnext⟩]

theorem strip_append {messages : List Message} (h : ∀ m ∈ messages, m.role ≠ "assistant")
    (rest : List Message) :
    stripDanglingToolUses (messages ++ rest) = messages ++ stripDanglingToolUses rest := by
  induction messages with
  | nil => rfl
  | cons m messages ih =>
    rw [forall_mem_cons] at h
    rw [cons_append, strip_cons fun _ _ h' => h.1 h'.1, ih h.2, cons_append]

@[simp] theorem stripBefore_role (msg : Message) (next : List ContentBlock) :
    (stripBefore msg next).role = msg.role := by
  rw [stripBefore]
  dsimp only
  split_ifs <;> rfl

theorem mem_stripBefore {next : List ContentBlock} {b : ContentBlock}
    (huse : b.isToolUse) :
    b ∈ (stripBefore msg next).content ↔
      b ∈ msg.content ∧ b.id ≠ "" ∧ ∃ r ∈ next, r.isToolResult ∧ r.toolUseId = b.id := by
  have hvalid (id : String) :
      id ∈ (next.filter fun b => b.isToolResult && b.toolUseId ≠ "").map (·.toolUseId) ↔
        id ≠ "" ∧ ∃ r ∈ next, r.isToolResult ∧ r.toolUseId = id := by
    simp only [mem_map, mem_filter, Bool.and_eq_true, decide_eq_true_eq]
    constructor
    · rintro ⟨r, ⟨hr, hresult, hid⟩, rfl⟩
      exact ⟨hid, r, hr, hresult, rfl⟩
    · rintro ⟨hid, r, hr, hresult, rfl⟩
      exact ⟨r, ⟨hr, hresult, hid⟩, rfl⟩
  rw [stripBefore, ← hvalid]
  dsimp only
  generalize (next.filter fun b => b.isToolResult && b.toolUseId ≠ "").map (·.toolUseId) = ids
  have hfilter : b ∈ msg.content.filter (fun b => !b.isToolUse || ids.contains b.id) ↔
      b ∈ msg.content ∧ b.id ∈ ids := by simp [mem_filter, huse]
  split_ifs with hcalls hempty
  · rw [List.isEmpty_iff] at hempty
    rw [← hfilter, hempty, mem_singleton]
    constructor
    · rintro rfl
      cases huse
    · rintro hb
      cases hb
  · exact hfilter
  · exact iff_of_false (fun hb => hcalls (any_eq_true.2 ⟨b, hb, huse⟩))
      fun hb => hcalls (any_eq_true.2 ⟨b, hb.1, huse⟩)

theorem stripBefore_eq_nil {next : List ContentBlock} :
    (stripBefore msg next).content = [] ↔ msg.content = [] := by
  rw [stripBefore]
  dsimp only
  split_ifs with hcalls hempty
  · obtain ⟨b, hb, -⟩ := any_eq_true.1 hcalls
    simp [ne_nil_of_mem hb]
  · obtain ⟨b, hb, -⟩ := any_eq_true.1 hcalls
    rw [List.isEmpty_iff] at hempty
    exact iff_of_false hempty (ne_nil_of_mem hb)
  · rfl

end TurnValidator

open TurnValidator

/-! ## Turn by turn -/

namespace Turn

/-- The turn after `strip_dangling_tool_uses`. -/
def strip (t : Turn) : Turn :=
  match t.users with
  | user :: _ =>
    if t.msg.role = "assistant" then { t with msg := stripBefore t.msg user.content } else t
  | [] => t

@[simp] theorem strip_users (t : Turn) : t.strip.users = t.users := by
  rw [strip]
  split
  · split_ifs <;> rfl
  · rfl

@[simp] theorem strip_msg_role (t : Turn) : t.strip.msg.role = t.msg.role := by
  rw [strip]
  split
  · split_ifs
    · exact stripBefore_role _ _
    · rfl
  · rfl

theorem strip_msg_eq_nil (t : Turn) : t.strip.msg.content = [] ↔ t.msg.content = [] := by
  rw [strip]
  split
  · split_ifs
    · exact stripBefore_eq_nil
    · rfl
  · rfl

theorem strip_of_users {t : Turn} (husers : t.users = []) : t.strip = t := by
  unfold strip
  rw [husers]

theorem mem_strip_msg {t : Turn} {user : Message} {users : List Message}
    (husers : t.users = user :: users) (hrole : t.msg.role = "assistant") {b : ContentBlock}
    (huse : b.isToolUse) :
    b ∈ t.strip.msg.content ↔ b ∈ t.msg.content ∧ b.id ≠ "" ∧
      ∃ r ∈ user.content, r.isToolResult ∧ r.toolUseId = b.id := by
  unfold strip
  rw [husers]
  dsimp only
  rw [if_pos hrole]
  exact mem_stripBefore huse

end Turn

variable {ts : List Turn}

theorem strip_flatten (hts : ∀ t ∈ ts, t.WellFormed) :
    stripDanglingToolUses (flatten ts) = flatten (ts.map Turn.strip) := by
  induction ts with
  | nil => rfl
  | cons t rest ih =>
    obtain ⟨ht, hrest⟩ := forall_mem_cons.1 hts
    have husers : ∀ u ∈ t.users, u.role ≠ "assistant" := by
      rintro u hu
      rw [ht.user_role u hu]
      decide
    rw [map_cons, flatten_cons, flatten_cons, ← ih hrest, Turn.strip_users, ← strip_append husers]
    cases h : t.users with
    | nil =>
      rw [Turn.strip_of_users h]
      exact strip_cons fun next hnext h' => head_flatten hrest next hnext h'.2
    | cons user users =>
      unfold Turn.strip
      rw [h]
      dsimp only
      split_ifs with hrole
      · exact strip_cons_cons hrole (ht.user_role user (h ▸ mem_cons_self)) _
      · exact strip_cons fun _ _ h' => hrole h'.1

/-! ## What is left unpaired -/

/-- A call without an id is kept, and something else than a user message follows it. -/
def LooseNext (t : Turn) (after : List Turn) : Prop :=
  t.Idless ∧ ¬ t.Asks ∧ ∃ t' ∈ after, t'.Says

namespace Turn

variable {t : Turn} {user : Message}

theorem Repaired.results_of_mem (ht : t.Repaired)
    (huser : user ∈ t.users) {r : ContentBlock} (hr : r ∈ user.content) (hresult : r.isToolResult) :
    t.msg.role = "assistant" ∧ r.toolUseId ∈ collectToolUseIds t.msg := by
  have hlater := ht.later
  have hresults := ht.results
  rw [reply] at hresults
  cases husers : t.users with
  | nil =>
    rw [husers] at huser
    cases huser
  | cons first users =>
    rw [husers] at huser hlater hresults
    rcases mem_cons.1 huser with rfl | huser
    · exact hresults r hr hresult
    · exact absurd hresult (hlater user huser r hr)

theorem Repaired.says_of_user (ht : t.Repaired)
    (huser : user ∈ t.users) : t.Says := by
  obtain ⟨b, hb⟩ := exists_mem_of_ne_nil _ (ht.nonempty user huser)
  by_cases hresult : b.isToolResult
  · obtain ⟨-, c, hc, -⟩ := mem_collectToolUseIds.1 (ht.results_of_mem huser hb hresult).2
    exact .inl (ne_nil_of_mem hc)
  · exact .inr (ht.asks_iff.2 ⟨user, huser, b, hb, hresult⟩)

theorem Repaired.no_results (ht : t.Repaired) (hmsg : t.msg.content = []) (huser : user ∈ t.users) : ∀ r ∈ user.content, ¬ r.isToolResult := by
  rintro r hr hresult
  obtain ⟨-, c, hc, -⟩ := mem_collectToolUseIds.1 (ht.results_of_mem huser hr hresult).2
  rw [hmsg] at hc
  cases hc

theorem Repaired.ids_eq_nil (ht : t.Repaired) (husers : t.users = [])
    (hrole : t.msg.role = "assistant") : collectToolUseIds t.msg = [] := by
  refine eq_nil_iff_forall_not_mem.2 fun id hid => ?_
  obtain ⟨r, hr, -⟩ := ht.calls hrole id hid
  obtain ⟨user, huser, -⟩ := exists_of_mem_reply hr
  rw [husers] at huser
  cases huser

theorem Repaired.idless_iff (ht : t.Repaired) :
    t.Idless ∧ ¬ t.Asks ↔ (t.msg.role = "assistant" ∧ hasToolUseBlocks t.msg) ∧ t.users = [] := by
  constructor
  · rintro ⟨⟨hrole, huse, hids⟩, hasks⟩
    refine ⟨⟨hrole, huse⟩, eq_nil_iff_forall_not_mem.2 fun user huser => ?_⟩
    obtain ⟨b, hb⟩ := exists_mem_of_ne_nil _ (ht.nonempty user huser)
    by_cases hresult : b.isToolResult
    · have hid := (ht.results_of_mem huser hb hresult).2
      rw [hids] at hid
      cases hid
    · exact hasks (ht.asks_iff.2 ⟨user, huser, b, hb, hresult⟩)
  · rintro ⟨⟨hrole, huse⟩, husers⟩
    refine ⟨⟨hrole, huse, ht.ids_eq_nil husers hrole⟩, ?_⟩
    rintro ⟨user, huser, -⟩
    rw [husers] at huser
    cases huser

theorem Repaired.looseNext_iff (ht : t.Repaired) (after : List Turn) :
    LooseNext t after ↔
      ((t.msg.role = "assistant" ∧ hasToolUseBlocks t.msg) ∧ t.users = []) ∧
        ∃ t' ∈ after, t'.Says := by
  rw [LooseNext, ← and_assoc, ht.idless_iff]

theorem Merged.cases (ht : t.Merged) : t.users = [] ∨ ∃ user, t.users = [user] := by
  have hsingle := ht.single
  cases husers : t.users with
  | nil => exact .inl rfl
  | cons user users =>
    rw [husers, tail_cons] at hsingle
    rw [hsingle]
    exact .inr ⟨user, rfl⟩

end Turn

theorem kept_flatten_cons {t : Turn} (hmsg : t.msg.content ≠ [])
    (husers : ∀ user ∈ t.users, user.content ≠ []) (ts : List Turn) :
    kept (flatten (t :: ts)) = t.msg :: (t.users ++ kept (flatten ts)) := by
  have hkept : t.users.filter (!·.content.isEmpty) = t.users :=
    filter_eq_self.2 fun user huser => by simpa using husers user huser
  rw [flatten_cons, kept, filter_cons, if_pos (by simpa using hmsg), filter_append, hkept]
  rfl

theorem kept_flatten_cons_of_eq_nil {t : Turn} (hmsg : t.msg.content = [])
    (husers : ∀ user ∈ t.users, user.content ≠ []) (ts : List Turn) :
    kept (flatten (t :: ts)) = t.users ++ kept (flatten ts) := by
  have hkept : t.users.filter (!·.content.isEmpty) = t.users :=
    filter_eq_self.2 fun user huser => by simpa using husers user huser
  rw [flatten_cons, kept, filter_cons, if_neg (by simp [hmsg]), filter_append, hkept]
  rfl

theorem isChain_noLaterResults (hts : ∀ t ∈ ts, t.Merged) (x : Message) :
    (x :: kept (flatten (ts.map Turn.strip))).IsChain NoLaterResults := by
  induction ts generalizing x with
  | nil => exact isChain_singleton x
  | cons t rest ih =>
    obtain ⟨ht, hrest⟩ := forall_mem_cons.1 hts
    have husers : ∀ user ∈ t.strip.users, user.content ≠ [] := by
      rw [Turn.strip_users]
      exact ht.nonempty
    have hmsg (m : Message) : NoLaterResults x t.strip.msg ∧ NoLaterResults t.strip.msg m := by
      have hrole : t.strip.msg.role ≠ "user" := by
        rw [Turn.strip_msg_role]
        exact ht.msg_role
      exact ⟨fun _ h => absurd h hrole, fun h => absurd h hrole⟩
    rw [map_cons]
    by_cases hcontent : t.strip.msg.content = []
    · rw [kept_flatten_cons_of_eq_nil hcontent husers, Turn.strip_users]
      rcases ht.cases with h | ⟨user, h⟩
      · rw [h]
        exact ih hrest x
      · rw [h]
        refine isChain_cons_cons.2 ⟨fun _ _ => ?_, ih hrest user⟩
        exact ht.no_results ((Turn.strip_msg_eq_nil t).1 hcontent) (h ▸ mem_cons_self)
    · rw [kept_flatten_cons hcontent husers, Turn.strip_users]
      rcases ht.cases with h | ⟨user, h⟩
      · rw [h]
        exact isChain_cons_cons.2 ⟨(hmsg x).1, ih hrest _⟩
      · rw [h]
        exact isChain_cons_cons.2
          ⟨(hmsg x).1, isChain_cons_cons.2 ⟨(hmsg user).2, ih hrest user⟩⟩

theorem linked_iff {x y : Message} (hy : y.role = "user" → ∀ r ∈ y.content, ¬ r.isToolResult) :
    Linked x y ↔ ¬ (x.role = "assistant" ∧ hasToolUseBlocks x) := by
  constructor
  · rintro ⟨hcalls, -⟩ ⟨hrole, huse⟩
    obtain ⟨b, hb, huse⟩ := any_eq_true.1 huse
    obtain ⟨hyrole, r, hr, hresult, -⟩ := hcalls hrole b hb huse
    exact hy hyrole r hr hresult
  · rintro hnone
    refine ⟨fun hrole b hb huse => ?_, fun hyrole r hr hresult => absurd hresult (hy hyrole r hr)⟩
    exact absurd ⟨hrole, any_eq_true.2 ⟨b, hb, huse⟩⟩ hnone

theorem linked_strip {t : Turn} (ht : t.Merged) {user : Message} (husers : t.users = [user]) :
    Linked t.strip.msg user := by
  have huser : user ∈ t.users := husers ▸ mem_cons_self
  constructor
  · rintro hrole b hb huse
    rw [Turn.strip_msg_role] at hrole
    obtain ⟨-, -, hresult⟩ := (Turn.mem_strip_msg husers hrole huse).1 hb
    exact ⟨ht.user_role user huser, hresult⟩
  · rintro - r hr hresult
    obtain ⟨hrole, hid⟩ := ht.results_of_mem huser hr hresult
    obtain ⟨hne, b, hb, huse, hid⟩ := mem_collectToolUseIds.1 hid
    rw [Turn.strip_msg_role]
    refine ⟨hrole, b, ?_, huse, hid⟩
    refine (Turn.mem_strip_msg husers hrole huse).2 ⟨hb, ?_, r, hr, hresult, ?_⟩
    · rw [hid]
      exact hne
    · exact hid.symm

/-- After a message `x`, calls and results are paired in stripped turns if and only if nothing
is said after calls without ids. -/
theorem isChain_linked_iff (hts : ∀ t ∈ ts, t.Merged) (x : Message) :
    (x :: kept (flatten (ts.map Turn.strip))).IsChain Linked ↔
      (x.role = "assistant" ∧ hasToolUseBlocks x → ∀ t ∈ ts, ¬ t.Says) ∧
        ¬ Somewhere LooseNext ts := by
  induction ts generalizing x with
  | nil => simp [kept]
  | cons t rest ih =>
    obtain ⟨ht, hrest⟩ := forall_mem_cons.1 hts
    have husers : ∀ user ∈ t.strip.users, user.content ≠ [] := by
      rw [Turn.strip_users]
      exact ht.nonempty
    have hmsg : Linked x t.strip.msg ↔ ¬ (x.role = "assistant" ∧ hasToolUseBlocks x) := by
      refine linked_iff fun h => absurd h ?_
      rw [Turn.strip_msg_role]
      exact ht.msg_role
    -- Something is said in the turn, so that `x` must not have calls.
    have hSays (h : t.Says) : (x.role = "assistant" ∧ hasToolUseBlocks x →
        ∀ t' ∈ t :: rest, ¬ t'.Says) ↔ ¬ (x.role = "assistant" ∧ hasToolUseBlocks x) :=
      ⟨fun hx hcalls => hx hcalls t mem_cons_self h, fun hx hcalls => absurd hcalls hx⟩
    rw [map_cons, somewhere_cons, not_or, ht.looseNext_iff]
    rcases ht.cases with h | ⟨user, h⟩
    · rw [Turn.strip_of_users h] at husers hmsg ⊢
      by_cases hcontent : t.msg.content = []
      · have hnone : ¬ hasToolUseBlocks t.msg := by simp [hasToolUseBlocks, hcontent]
        have hquiet : ¬ t.Says := by simp [Turn.Says, hcontent, Turn.Asks, h]
        rw [kept_flatten_cons_of_eq_nil hcontent husers, h, nil_append, ih hrest,
          forall_mem_cons, and_iff_right hquiet, and_iff_right fun h' => hnone h'.1.1.2]
      · rw [kept_flatten_cons hcontent husers, h, nil_append, isChain_cons_cons, hmsg,
          ih hrest, hSays (.inl hcontent), and_iff_left rfl]
        simp only [not_and, not_exists]
    · have huser : user ∈ t.users := h ▸ mem_cons_self
      have hclosed : ¬ (user.role = "assistant" ∧ hasToolUseBlocks user) := by
        rw [ht.user_role user huser]
        rintro ⟨hrole, -⟩
        revert hrole
        decide
      have hanswered : ¬ (((t.msg.role = "assistant" ∧ hasToolUseBlocks t.msg) ∧ t.users = []) ∧
          ∃ t' ∈ rest, t'.Says) := by
        rintro ⟨⟨-, hnil⟩, -⟩
        rw [h] at hnil
        cases hnil
      rw [hSays (ht.says_of_user huser), and_iff_right hanswered]
      by_cases hcontent : t.msg.content = []
      · have hnone := ht.no_results hcontent huser
        rw [kept_flatten_cons_of_eq_nil ((Turn.strip_msg_eq_nil t).2 hcontent) husers,
          Turn.strip_users, h, singleton_append, isChain_cons_cons,
          linked_iff fun _ => hnone, ih hrest, and_iff_right fun h' => absurd h' hclosed]
      · rw [kept_flatten_cons (fun h' => hcontent ((Turn.strip_msg_eq_nil t).1 h')) husers,
          Turn.strip_users, h, singleton_append, isChain_cons_cons,
          isChain_cons_cons, hmsg, and_iff_right (linked_strip ht h), ih hrest,
          and_iff_right fun h' => absurd h' hclosed]

end RavBot.Core
