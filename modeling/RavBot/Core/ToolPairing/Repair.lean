import RavBot.Core.ToolPairing.Turns

/-!
# Repairing turns

`repair_anthropic_tool_pairing` works turn by turn (`repair_flatten`).  A turn that it has
repaired has results for exactly its calls with an id (`Turn.Repaired`), and goes wrong later on
just as the turn before the repair does (`Turn.alike_repair`).
-/

open List

namespace RavBot.Core

/-! ## Repairing a turn -/

def repairUsers (users : List Message) : List Message :=
  users.flatMap fun user => unlessEmpty (withoutResults user)

namespace Turn

/-- The turn after `repair_anthropic_tool_pairing`. -/
def repair (t : Turn) : Turn :=
  if t.msg.role = "assistant" ∧ collectToolUseIds t.msg ≠ [] then
    match t.users with
    | user :: users =>
      { msg := withCallsOf (matchedToolIds (collectToolUseIds t.msg) user) t.msg
        users := unlessEmpty (withResultsOf (collectToolUseIds t.msg) user) ++
          repairUsers users }
    | [] => ⟨withCallsOf [] t.msg, []⟩
  else ⟨t.msg, repairUsers t.users⟩

/-- A turn whose results are those of its calls with an id. -/
structure Repaired (t : Turn) : Prop extends t.WellFormed where
  nonempty : ∀ user ∈ t.users, user.content ≠ []
  later : ∀ user ∈ t.users.tail, ∀ r ∈ user.content, ¬ r.isToolResult
  results : ∀ r ∈ t.reply, r.isToolResult →
    t.msg.role = "assistant" ∧ r.toolUseId ∈ collectToolUseIds t.msg
  calls : t.msg.role = "assistant" → ∀ id ∈ collectToolUseIds t.msg,
    ∃ r ∈ t.reply, r.isToolResult ∧ r.toolUseId = id

end Turn

/-! ## Turn by turn -/

variable {msg : Message}

theorem repair_cons_user (hrole : msg.role = "user") (rest : List Message) :
    repairAnthropicToolPairing (msg :: rest) =
      unlessEmpty (withoutResults msg) ++ repairAnthropicToolPairing rest := by
  have hne : msg.role ≠ "assistant" := by
    rw [hrole]
    decide
  rw [repairAnthropicToolPairing, if_pos hne, if_pos hrole]

theorem repair_cons_plain (hrole : msg.role ≠ "user")
    (hplain : ¬ (msg.role = "assistant" ∧ collectToolUseIds msg ≠ [])) (rest : List Message) :
    repairAnthropicToolPairing (msg :: rest) = msg :: repairAnthropicToolPairing rest := by
  rw [repairAnthropicToolPairing]
  split_ifs with hassistant
  · rfl
  · have hids : collectToolUseIds msg = [] := by
      by_contra hids
      exact hplain ⟨not_not.1 hassistant, hids⟩
    simp [hids]

theorem repair_cons_calls_user {next : Message} (hrole : msg.role = "assistant")
    (hids : collectToolUseIds msg ≠ []) (hnext : next.role = "user") (rest : List Message) :
    repairAnthropicToolPairing (msg :: next :: rest) =
      withCallsOf (matchedToolIds (collectToolUseIds msg) next) msg ::
        (unlessEmpty (withResultsOf (collectToolUseIds msg) next) ++
          repairAnthropicToolPairing rest) := by
  rw [repairAnthropicToolPairing]
  simp [hrole, hids, hnext]

theorem repair_cons_calls (hrole : msg.role = "assistant")
    (hids : collectToolUseIds msg ≠ []) {rest : List Message}
    (hrest : ∀ m ∈ rest.head?, m.role ≠ "user") :
    repairAnthropicToolPairing (msg :: rest) =
      withCallsOf [] msg :: repairAnthropicToolPairing rest := by
  cases rest with
  | nil => simp [repairAnthropicToolPairing, hrole, hids]
  | cons next rest =>
    have hnext : next.role ≠ "user" := hrest next rfl
    rw [repairAnthropicToolPairing]
    simp [hrole, hids, hnext]

variable {users : List Message}

theorem repair_users (husers : ∀ u ∈ users, u.role = "user")
    (messages : List Message) :
    repairAnthropicToolPairing (users ++ messages) =
      repairUsers users ++ repairAnthropicToolPairing messages := by
  induction users with
  | nil => rfl
  | cons user users ih =>
    rw [forall_mem_cons] at husers
    rw [cons_append, repair_cons_user husers.1, ih husers.2, ← append_assoc]
    rfl

theorem repair_flatten {ts : List Turn} (hts : ∀ t ∈ ts, t.WellFormed) :
    repairAnthropicToolPairing (flatten ts) = flatten (ts.map Turn.repair) := by
  induction ts with
  | nil => rfl
  | cons t ts ih =>
    obtain ⟨ht, hts⟩ := forall_mem_cons.1 hts
    rw [map_cons, flatten_cons, flatten_cons, ← ih hts, Turn.repair]
    split_ifs with hcalls
    · obtain ⟨hrole, hids⟩ := hcalls
      cases husers : t.users with
      | nil => exact repair_cons_calls hrole hids (head_flatten hts)
      | cons user users =>
        have hall := ht.user_role
        rw [husers, forall_mem_cons] at hall
        rw [cons_append, repair_cons_calls_user hrole hids hall.1,
          repair_users hall.2, ← append_assoc]
    · rw [repair_cons_plain ht.msg_role hcalls, repair_users ht.user_role]

/-! ## What a repaired turn has -/

theorem ne_empty_of_mem {id : String} (hid : id ∈ collectToolUseIds msg) : id ≠ "" := by
  obtain ⟨b, hb, rfl⟩ := mem_map.1 hid
  have hcall := (mem_filter.1 hb).2
  rw [Bool.and_eq_true, decide_eq_true_eq] at hcall
  exact hcall.2

theorem mem_collectToolUseIds {id : String} :
    id ∈ collectToolUseIds msg ↔ id ≠ "" ∧ ∃ b ∈ msg.content, b.isToolUse ∧ b.id = id := by
  simp only [collectToolUseIds, mem_map, mem_filter, Bool.and_eq_true, decide_eq_true_eq]
  constructor
  · rintro ⟨b, ⟨hb, huse, hid⟩, rfl⟩
    exact ⟨hid, b, hb, huse, rfl⟩
  · rintro ⟨hid, b, hb, huse, rfl⟩
    exact ⟨b, ⟨hb, huse, hid⟩, rfl⟩

theorem mem_matchedToolIds {id : String} {ids : List String} :
    id ∈ matchedToolIds ids msg ↔
      id ≠ "" ∧ id ∈ ids ∧ ∃ r ∈ msg.content, r.isToolResult ∧ r.toolUseId = id := by
  simp only [matchedToolIds, mem_map, mem_filter, Bool.and_eq_true,
    decide_eq_true_eq, contains_iff_mem]
  constructor
  · rintro ⟨r, ⟨hr, ⟨hresult, hid⟩, hids⟩, rfl⟩
    exact ⟨hid, hids, r, hr, hresult, rfl⟩
  · rintro ⟨hid, hids, r, hr, hresult, rfl⟩
    exact ⟨r, ⟨hr, ⟨hresult, hid⟩, hids⟩, rfl⟩

@[simp] theorem withCallsOf_role (matched : List String) (msg : Message) :
    (withCallsOf matched msg).role = msg.role := rfl

theorem mem_withCallsOf {b : ContentBlock} {matched : List String}
    (huse : b.isToolUse) :
    b ∈ (withCallsOf matched msg).content ↔ b ∈ msg.content ∧ b.id ∈ matched := by
  have hfilter : b ∈ msg.content.filter (fun b => !b.isToolUse || matched.contains b.id) ↔
      b ∈ msg.content ∧ b.id ∈ matched := by simp [mem_filter, huse]
  rw [withCallsOf]
  dsimp only
  split_ifs with hempty
  · rw [Bool.and_eq_true, List.isEmpty_iff] at hempty
    rw [← hfilter, hempty.1, mem_singleton]
    constructor
    · rintro rfl
      cases huse
    · rintro hb
      cases hb
  · exact hfilter

theorem withCallsOf_eq_nil {matched : List String} :
    (withCallsOf matched msg).content = [] ↔ msg.content = [] := by
  rw [withCallsOf]
  dsimp only
  split_ifs with hempty
  · rw [Bool.and_eq_true, Bool.not_eq_true', isEmpty_eq_false_iff] at hempty
    simp [hempty.2]
  · constructor
    · rintro hfilter
      by_contra hne
      rw [hfilter, Bool.and_eq_true, Bool.not_eq_true', isEmpty_eq_false_iff] at hempty
      exact hempty ⟨rfl, hne⟩
    · rintro hnil
      rw [hnil, filter_nil]

namespace Turn

@[simp] theorem repair_msg_role (t : Turn) : t.repair.msg.role = t.msg.role := by
  rw [repair]
  split_ifs
  · split <;> rfl
  · rfl

theorem repair_msg_eq_nil (t : Turn) : t.repair.msg.content = [] ↔ t.msg.content = [] := by
  rw [repair]
  split_ifs
  · split
    · exact withCallsOf_eq_nil
    · exact withCallsOf_eq_nil
  · rfl

theorem mem_repair_msg {t : Turn} {b : ContentBlock} (hrole : t.msg.role = "assistant")
    (hids : collectToolUseIds t.msg ≠ []) (huse : b.isToolUse) :
    b ∈ t.repair.msg.content ↔ b ∈ t.msg.content ∧ b.id ≠ "" ∧
      ∃ r ∈ t.reply, r.isToolResult ∧ r.toolUseId = b.id := by
  rw [repair, if_pos ⟨hrole, hids⟩]
  cases husers : t.users with
  | nil => simp [mem_withCallsOf huse, reply, husers]
  | cons user users =>
    rw [mem_withCallsOf huse, mem_matchedToolIds, reply, husers]
    refine and_congr_right fun hb => and_congr_right fun hid => and_iff_right ?_
    exact mem_collectToolUseIds.2 ⟨hid, b, hb, huse, rfl⟩

theorem exists_of_mem_reply {t : Turn} {r : ContentBlock} (hr : r ∈ t.reply) :
    ∃ user ∈ t.users, r ∈ user.content := by
  rw [reply] at hr
  split at hr
  · rename_i user users husers
    exact ⟨user, husers ▸ mem_cons_self, hr⟩
  · cases hr

end Turn

theorem mem_unlessEmpty {m : Message} : m ∈ unlessEmpty msg ↔ m = msg ∧ msg.content ≠ [] := by
  rw [unlessEmpty]
  split_ifs with hempty
  · rw [List.isEmpty_iff] at hempty
    simp [hempty]
  · rw [List.isEmpty_iff] at hempty
    simp [hempty]

theorem mem_repairUsers {m : Message} :
    m ∈ repairUsers users ↔
      ∃ user ∈ users, m = withoutResults user ∧ (withoutResults user).content ≠ [] := by
  simp only [repairUsers, mem_flatMap, mem_unlessEmpty]

theorem not_isToolResult_of_mem {m : Message} (hm : m ∈ repairUsers users)
    {r : ContentBlock} (hr : r ∈ m.content) : ¬ r.isToolResult := by
  obtain ⟨user, -, rfl, -⟩ := mem_repairUsers.1 hm
  simpa using (mem_filter.1 hr).2

namespace Turn

variable {t : Turn}

theorem mem_repair_reply {r : ContentBlock} (hresult : r.isToolResult) :
    r ∈ t.repair.reply ↔
      r ∈ t.reply ∧ t.msg.role = "assistant" ∧ r.toolUseId ∈ collectToolUseIds t.msg := by
  have hlater (msg : Message) (users : List Message) : r ∉ reply ⟨msg, repairUsers users⟩ := by
    rintro hr
    obtain ⟨user, huser, hr⟩ := exists_of_mem_reply hr
    exact not_isToolResult_of_mem huser hr hresult
  rw [repair]
  split_ifs with hcalls
  · cases husers : t.users with
    | nil => simp [reply, husers]
    | cons user users =>
      have hkept : r ∈ (withResultsOf (collectToolUseIds t.msg) user).content ↔
          r ∈ user.content ∧ r.toolUseId ∈ collectToolUseIds t.msg := by
        simp only [withResultsOf, mem_filter, hresult, Bool.not_true, Bool.false_or,
          Bool.and_eq_true, decide_eq_true_eq, contains_iff_mem]
        exact and_congr_right fun _ => and_iff_right_of_imp ne_empty_of_mem
      dsimp only
      rw [unlessEmpty]
      split_ifs with hempty
      · rw [List.isEmpty_iff] at hempty
        rw [hempty] at hkept
        simp only [reply, husers, hcalls.1, true_and]
        exact iff_of_false (hlater t.msg users) (hkept.not.1 not_mem_nil)
      · simp only [reply, husers, hcalls.1, true_and]
        exact hkept
  · refine iff_of_false (hlater _ _) ?_
    rintro ⟨-, hrole, hid⟩
    exact hcalls ⟨hrole, ne_nil_of_mem hid⟩

theorem mem_repair_ids {id : String} (hrole : t.msg.role = "assistant") :
    id ∈ collectToolUseIds t.repair.msg ↔
      id ∈ collectToolUseIds t.msg ∧ ∃ r ∈ t.reply, r.isToolResult ∧ r.toolUseId = id := by
  by_cases hids : collectToolUseIds t.msg = []
  · rw [repair, if_neg fun h => h.2 hids, hids]
    simp
  · rw [mem_collectToolUseIds, mem_collectToolUseIds]
    constructor
    · rintro ⟨hid, b, hb, huse, rfl⟩
      obtain ⟨hb, -, hresult⟩ := (mem_repair_msg hrole hids huse).1 hb
      exact ⟨⟨hid, b, hb, huse, rfl⟩, hresult⟩
    · rintro ⟨⟨hid, b, hb, huse, rfl⟩, hresult⟩
      exact ⟨hid, b, (mem_repair_msg hrole hids huse).2 ⟨hb, hid, hresult⟩, huse, rfl⟩

theorem exists_mem_repair_users_and (p : ContentBlock → Prop) :
    (∃ user ∈ t.repair.users, ∃ b ∈ user.content, ¬ b.isToolResult ∧ p b) ↔
      ∃ user ∈ t.users, ∃ b ∈ user.content, ¬ b.isToolResult ∧ p b := by
  have hlater (users : List Message) :
      (∃ user ∈ repairUsers users, ∃ b ∈ user.content, ¬ b.isToolResult ∧ p b) ↔
        ∃ user ∈ users, ∃ b ∈ user.content, ¬ b.isToolResult ∧ p b := by
    constructor
    · rintro ⟨m, hm, b, hb, hresult⟩
      obtain ⟨user, huser, rfl, -⟩ := mem_repairUsers.1 hm
      exact ⟨user, huser, b, (mem_filter.1 hb).1, hresult⟩
    · rintro ⟨user, huser, b, hb, hresult⟩
      have hkept : b ∈ (withoutResults user).content :=
        mem_filter.2 ⟨hb, by simpa using hresult.1⟩
      exact ⟨_, mem_repairUsers.2 ⟨user, huser, rfl, ne_nil_of_mem hkept⟩, b, hkept, hresult⟩
  rw [repair]
  split_ifs with hcalls
  · cases husers : t.users with
    | nil => rfl
    | cons user users =>
      simp only [mem_append, or_and_right, exists_or, hlater, exists_mem_cons_iff, mem_unlessEmpty]
      refine or_congr_left ?_
      constructor
      · rintro ⟨m, ⟨rfl, -⟩, b, hb, hresult⟩
        exact ⟨b, (mem_filter.1 hb).1, hresult⟩
      · rintro ⟨b, hb, hresult⟩
        have hkept : b ∈ (withResultsOf (collectToolUseIds t.msg) user).content :=
          mem_filter.2 ⟨hb, by simp [hresult.1]⟩
        exact ⟨_, ⟨rfl, ne_nil_of_mem hkept⟩, b, hkept, hresult⟩
  · exact hlater t.users

theorem exists_mem_repair_users :
    (∃ user ∈ t.repair.users, ∃ b ∈ user.content, ¬ b.isToolResult) ↔
      ∃ user ∈ t.users, ∃ b ∈ user.content, ¬ b.isToolResult := by
  have hall := exists_mem_repair_users_and (t := t) fun _ => True
  simpa only [and_true] using hall

theorem repair_users_spec (ht : t.WellFormed) :
    (∀ user ∈ t.repair.users, user.role = "user" ∧ user.content ≠ []) ∧
      ∀ user ∈ t.repair.users.tail, ∀ r ∈ user.content, ¬ r.isToolResult := by
  have hlater {users : List Message} (husers : ∀ u ∈ users, u.role = "user") :
      ∀ user ∈ repairUsers users, user.role = "user" ∧ user.content ≠ [] := by
    rintro m hm
    obtain ⟨user, huser, rfl, hcontent⟩ := mem_repairUsers.1 hm
    exact ⟨husers user huser, hcontent⟩
  have hresults {users : List Message} {m : Message} (hm : m ∈ (repairUsers users).tail) :
      ∀ r ∈ m.content, ¬ r.isToolResult :=
    fun r hr => not_isToolResult_of_mem (mem_of_mem_tail hm) hr
  rw [repair]
  split_ifs with hcalls
  · cases husers : t.users with
    | nil => simp
    | cons user users =>
      have hall := ht.user_role
      rw [husers, forall_mem_cons] at hall
      constructor
      · rintro m hm
        rcases mem_append.1 hm with hm | hm
        · obtain ⟨rfl, hcontent⟩ := mem_unlessEmpty.1 hm
          exact ⟨hall.1, hcontent⟩
        · exact hlater hall.2 m hm
      · dsimp only
        rw [unlessEmpty]
        split_ifs
        · exact fun m hm => hresults hm
        · exact fun m hm r hr => not_isToolResult_of_mem hm hr
  · exact ⟨hlater ht.user_role, fun m hm => hresults hm⟩

/-! ## The repaired turns -/

theorem repaired_repair (ht : t.WellFormed) : t.repair.Repaired where
  msg_role := by
    rw [repair_msg_role]
    exact ht.msg_role
  user_role user huser := ((repair_users_spec ht).1 user huser).1
  nonempty user huser := ((repair_users_spec ht).1 user huser).2
  later := (repair_users_spec ht).2
  results r hr hresult := by
    obtain ⟨hr, hrole, hid⟩ := (mem_repair_reply hresult).1 hr
    rw [repair_msg_role, mem_repair_ids hrole]
    exact ⟨hrole, hid, r, hr, hresult, rfl⟩
  calls hrole id hid := by
    rw [repair_msg_role] at hrole
    obtain ⟨hid, r, hr, hresult, rfl⟩ := (mem_repair_ids hrole).1 hid
    exact ⟨r, (mem_repair_reply hresult).2 ⟨hr, hrole, hid⟩, hresult, rfl⟩

theorem WellFormed.asks_iff (ht : t.WellFormed) :
    t.Asks ↔ ∃ user ∈ t.users, ∃ b ∈ user.content, ¬ b.isToolResult := by
  refine exists_congr fun user => and_congr_right fun huser => ?_
  simp [hasNonToolResultBlocks, ht.user_role user huser]

theorem repair_idless (hids : collectToolUseIds t.msg = []) : t.repair.msg = t.msg := by
  rw [repair, if_neg fun h => h.2 hids]

theorem alike_repair (ht : t.WellFormed) : t.Alike t.repair where
  answered := by
    rw [Answered, Answered, repair_msg_role]
    refine and_congr_right fun hrole => exists_congr fun r => ?_
    constructor
    · rintro ⟨hr, hresult, -⟩
      obtain ⟨hr, -, hid⟩ := (mem_repair_reply hresult).1 hr
      exact ⟨hr, hresult, hid⟩
    · rintro ⟨hr, hresult, hid⟩
      exact ⟨(mem_repair_reply hresult).2 ⟨hr, hrole, hid⟩, hresult,
        (mem_repair_ids hrole).2 ⟨hid, r, hr, hresult, rfl⟩⟩
  asks := by
    rw [(repaired_repair ht).asks_iff, ht.asks_iff, exists_mem_repair_users]
  idless := by
    rw [Idless, Idless, repair_msg_role]
    refine and_congr_right fun hrole => ?_
    constructor
    · rintro ⟨huse, hids⟩
      by_cases hraw : collectToolUseIds t.msg = []
      · rw [repair_idless hraw] at huse
        exact ⟨huse, hraw⟩
      · obtain ⟨b, hb, huse⟩ := any_eq_true.1 huse
        obtain ⟨-, hid, -⟩ := (mem_repair_msg hrole hraw huse).1 hb
        have hmem : b.id ∈ collectToolUseIds t.repair.msg :=
          mem_collectToolUseIds.2 ⟨hid, b, hb, huse, rfl⟩
        rw [hids] at hmem
        cases hmem
    · rintro ⟨huse, hids⟩
      rw [repair_idless hids]
      exact ⟨huse, hids⟩
  empty := repair_msg_eq_nil t

end Turn

end RavBot.Core
