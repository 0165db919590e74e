import RavBot.Core.ToolPairing.Sanitize
import RavBot.Lib.Alternation
import RavBot.Providers.PayloadContents

/-!
# The alternation of roles

Anthropic asks for messages that alternate between the user and the assistant, beginning with the user.  The
validator merges user messages that follow each other; after it the serializer leaves out system messages and
messages without a block that can be sent, and nothing merges two messages of the assistant.  So the roles
alternate exactly if what the turns of the request send is spaced (`alternates_iff`): in the request without
its completed rounds of calls and, when it ends with results, without what precedes the last thing the user
said.
-/

open List

namespace RavBot.Providers

open RavBot.Core RavBot.Lib TurnValidator

/-! ## What is sent -/

def payloadRoles (payload : Json) : List String := (entries payload).map (stringField · "role")

def sentRole (role : String) : String := if role = "tool" then "user" else role

def Sendable (content : List ContentBlock) : Prop := ∃ b ∈ content, (item b).isSome

instance (content : List ContentBlock) : Decidable (Sendable content) :=
  inferInstanceAs (Decidable (∃ b ∈ content, (item b).isSome))

/-- A message as a remark of its role, which is heard when the message is sent. -/
def remark (msg : Message) : Remark String :=
  ⟨msg.role, msg.role ≠ "system" ∧ Sendable msg.content⟩

theorem anthropicContent_eq_nil {seen : List String} {blocks : List ContentBlock} :
    anthropicContent seen blocks = [] ↔
      ∀ b ∈ blocks, ∀ i ∈ item b, ∃ s ∈ seen, i = .text s := by
  induction blocks generalizing seen with
  | nil => simp [anthropicContent]
  | cons b blocks ih =>
    rw [anthropicContent, forall_mem_cons, item]
    split_ifs with htext hskip hempty hempty huse hresult
    · rw [ih]
      simp
    · have hseen : b.text ∈ seen := hskip.resolve_left hempty
      rw [ih]
      simpa using fun _ => hseen
    · exact absurd (.inl hempty) hskip
    · have hseen : b.text ∉ seen := fun h => hskip (.inr h)
      simpa using fun h => absurd h hseen
    · simp
    · simp
    · rw [ih]
      simp

theorem anthropicEntry_eq (msg : Message) :
    (anthropicEntry msg).map (stringField · "role") =
      if (remark msg).heard then some (sentRole msg.role) else none := by
  have hcontent : anthropicContent [] msg.content = [] ↔ ¬Sendable msg.content := by
    rw [anthropicContent_eq_nil, Sendable]
    simp [Option.isSome_iff_exists]
  rw [anthropicEntry]
  by_cases hsystem : msg.role = "system"
  · have hheard : (remark msg).heard = false := by simp [remark, hsystem]
    rw [if_pos hsystem, hheard]
    rfl
  · rw [if_neg hsystem]
    cases hblocks : anthropicContent [] msg.content with
    | nil =>
      have hheard : (remark msg).heard = false := by simp [remark, hcontent.1 hblocks]
      rw [hheard]
      rfl
    | cons block blocks =>
      have hsendable : Sendable msg.content := by
        by_contra h
        rw [hcontent.2 h] at hblocks
        cases hblocks
      have hheard : (remark msg).heard = true := by simp [remark, hsystem, hsendable]
      rw [hheard]
      simp [stringField, lookup_cons, sentRole]

theorem payloadRoles_serializeMessagesToAnthropic (messages : List Message) :
    payloadRoles (serializeMessagesToAnthropic messages).2 =
      heardNames sentRole (messages.map remark) := by
  change (messages.filterMap anthropicEntry).map _ = _
  rw [heardNames, map_filterMap]
  induction messages with
  | nil => rfl
  | cons msg messages ih =>
    rw [filterMap_cons, anthropicEntry_eq, map_cons, filter_cons, ih]
    split_ifs <;> rfl

theorem joinRemarks_remark (a b : Message) :
    joinRemarks "user" (remark a) (remark b) = (joinRole "user" a b).map remark := by
  rw [joinRemarks, joinRole]
  by_cases h : a.role = "user" ∧ b.role = "user"
  · have h' : (remark a).speaker = "user" ∧ (remark b).speaker = "user" := h
    have hsendable : Sendable (a.content ++ b.content) ↔ Sendable a.content ∨ Sendable b.content := by
      simp [Sendable, or_and_right, exists_or]
    rw [if_pos h, if_pos h']
    simp [remark, h.1, h.2, hsendable]
  · have h' : ¬((remark a).speaker = "user" ∧ (remark b).speaker = "user") := h
    rw [if_neg h, if_neg h']
    rfl

/-- What the messages send is spaced, once the validator has stripped them. -/
def SpacedMessages (messages : List Message) : Prop :=
  Spaced "user" sentRole "user" none False ((kept (stripDanglingToolUses messages)).map remark)

theorem alternates_fix_iff (messages : List Message) :
    Alternates "user" (payloadRoles (serializeMessagesToAnthropic (fixAnthropicTurns messages)).2) ↔
      SpacedMessages messages := by
  rw [payloadRoles_serializeMessagesToAnthropic, fixAnthropicTurns, mergeConsecutiveRole_eq,
    ← foldl_mergeStep_map joinRemarks_remark]
  exact alternates_iff_spaced _

theorem ignoresSystems_spaced : IgnoresSystems SpacedMessages := by
  intro systems hsystems messages
  have hkept : kept (stripDanglingToolUses (systems ++ messages)) =
      kept systems ++ kept (stripDanglingToolUses messages) := by
    rw [strip_append fun s hs => (Message.isSystem_role (hsystems s hs)).2, kept, filter_append]
    rfl
  rw [SpacedMessages, hkept, map_append]
  refine spaced_append ?_
  rw [forall_mem_map]
  intro s hs
  have hrole : s.role = "system" := by
    simpa [Message.isSystem] using hsystems s (mem_filter.1 hs).1
  simp [remark, hrole]

/-! ## What a turn sends -/

theorem isSome_item_of_isToolUse {b : ContentBlock} (huse : b.isToolUse) : (item b).isSome := by
  rw [ContentBlock.isToolUse, decide_eq_true_eq] at huse
  simp [item, huse]

theorem isSome_item_of_isToolResult {b : ContentBlock} (hresult : b.isToolResult) :
    (item b).isSome := by
  rw [ContentBlock.isToolResult, decide_eq_true_eq] at hresult
  simp [item, hresult]

def Talks (content : List ContentBlock) : Prop := ∃ b ∈ content, ¬b.isToolUse ∧ (item b).isSome

theorem sendable_iff (content : List ContentBlock) :
    Sendable content ↔ Talks content ∨ ∃ b ∈ content, b.isToolUse := by
  constructor
  · rintro ⟨b, hb, hitem⟩
    by_cases huse : b.isToolUse
    · exact .inr ⟨b, hb, huse⟩
    · exact .inl ⟨b, hb, huse, hitem⟩
  · rintro (⟨b, hb, -, hitem⟩ | ⟨b, hb, huse⟩)
    · exact ⟨b, hb, hitem⟩
    · exact ⟨b, hb, isSome_item_of_isToolUse huse⟩

/-- The blocks are not silenced by leaving out calls: something else can be sent, or there are only calls, in
place of which a note is sent. -/
def Speaks (content : List ContentBlock) : Prop :=
  Talks content ∨ content ≠ [] ∧ ∀ b ∈ content, b.isToolUse

theorem sendable_iff_speaks (content : List ContentBlock) :
    Sendable content ↔ Speaks content ∨ ∃ b ∈ content, b.isToolUse := by
  rw [sendable_iff, Speaks]
  constructor
  · exact Or.imp_left .inl
  · rintro ((h | ⟨hne, hall⟩) | h)
    · exact .inl h
    · obtain ⟨b, hb⟩ := exists_mem_of_ne_nil _ hne
      exact .inr ⟨b, hb, hall b hb⟩
    · exact .inr h

def keepCalls (keep : ContentBlock → Bool) (content : List ContentBlock) : List ContentBlock :=
  let filtered := content.filter fun b => !b.isToolUse || keep b
  if filtered.isEmpty && !content.isEmpty then [toolCallsOmitted] else filtered

theorem speaks_keepCalls (keep : ContentBlock → Bool) (content : List ContentBlock) :
    Speaks (keepCalls keep content) ↔ Speaks content := by
  rw [keepCalls]
  have hkept {b : ContentBlock} (hb : b ∈ content) (huse : ¬b.isToolUse) :
      b ∈ content.filter fun b => !b.isToolUse || keep b :=
    mem_filter.2 ⟨hb, by simp [huse]⟩
  split_ifs with hempty
  · -- nothing but calls was there, and none is left
    rw [Bool.and_eq_true, List.isEmpty_iff, Bool.not_eq_true', isEmpty_eq_false_iff] at hempty
    have hall : ∀ b ∈ content, b.isToolUse := by
      intro b hb
      by_contra huse
      have hmem := hkept hb huse
      rw [hempty.1] at hmem
      cases hmem
    have hnote : Talks [toolCallsOmitted] := ⟨_, mem_singleton_self _, by decide, by decide⟩
    exact iff_of_true (.inl hnote) (.inr ⟨hempty.2, hall⟩)
  · constructor
    · rintro (⟨b, hb, huse, hitem⟩ | ⟨hne, hall⟩)
      · exact .inl ⟨b, (mem_filter.1 hb).1, huse, hitem⟩
      · refine .inr ⟨fun hnil => hne (by rw [hnil, filter_nil]), fun b hb => ?_⟩
        by_contra huse
        exact huse (hall b (hkept hb huse))
    · rintro (⟨b, hb, huse, hitem⟩ | ⟨hne, hall⟩)
      · exact .inl ⟨b, hkept hb huse, huse, hitem⟩
      · refine .inr ⟨fun hnil => hempty ?_, fun b hb => hall b (mem_filter.1 hb).1⟩
        rw [hnil, Bool.and_eq_true, Bool.not_eq_true', isEmpty_eq_false_iff]
        exact ⟨rfl, hne⟩

theorem speaks_withCallsOf (matched : List String) (msg : Message) :
    Speaks (withCallsOf matched msg).content ↔ Speaks msg.content :=
  speaks_keepCalls (fun b => matched.contains b.id) msg.content

theorem speaks_stripBefore (msg : Message) (next : List ContentBlock) :
    Speaks (stripBefore msg next).content ↔ Speaks msg.content := by
  rw [stripBefore]
  dsimp only
  generalize (next.filter fun b => b.isToolResult && b.toolUseId ≠ "").map (·.toolUseId) = ids
  have hkeep := speaks_keepCalls (fun b => ids.contains b.id) msg.content
  rw [keepCalls] at hkeep
  by_cases hcalls : msg.content.any (·.isToolUse) = true
  · have hne : msg.content.isEmpty = false := by
      obtain ⟨b, hb, -⟩ := any_eq_true.1 hcalls
      exact isEmpty_eq_false_iff.2 (ne_nil_of_mem hb)
    rw [if_pos hcalls, ← hkeep, hne]
    simp only [Bool.not_false, Bool.and_true]
    split_ifs <;> rfl
  · rw [if_neg hcalls]

/-! ## What a turn sends -/

variable {t : Turn}

theorem speaks_repair : Speaks t.repair.msg.content ↔ Speaks t.msg.content := by
  rw [Turn.repair]
  split_ifs
  · split
    · exact speaks_withCallsOf _ _
    · exact speaks_withCallsOf _ _
  · rfl

theorem speaks_strip : Speaks t.strip.msg.content ↔ Speaks t.msg.content := by
  rw [Turn.strip]
  split
  · split_ifs
    · exact speaks_stripBefore _ _
    · rfl
  · rfl

def sentTurn (t : Turn) : Turn := t.repair.merge

theorem merged_sentTurn (ht : t.WellFormed) : (sentTurn t).Merged :=
  Turn.merged_merge (Turn.repaired_repair ht)

theorem asks_sentTurn (ht : t.WellFormed) : (sentTurn t).Asks ↔ t.Asks :=
  (Turn.alike_merge (Turn.repaired_repair ht)).asks.trans (Turn.alike_repair ht).asks

theorem answered_sentTurn (ht : t.WellFormed) : (sentTurn t).Answered ↔ t.Answered :=
  (Turn.alike_merge (Turn.repaired_repair ht)).answered.trans (Turn.alike_repair ht).answered

theorem idless_sentTurn (ht : t.WellFormed) : (sentTurn t).Idless ↔ t.Idless :=
  (Turn.alike_merge (Turn.repaired_repair ht)).idless.trans (Turn.alike_repair ht).idless

/-- Some user message of the turn can be sent: one with something to send besides results, or with the result
of a call. -/
def Heard (t : Turn) : Prop :=
  (∃ user ∈ t.users, ∃ b ∈ user.content, ¬b.isToolResult ∧ (item b).isSome) ∨ t.Answered

/-- The message of the turn is sent: unless leaving out calls silences it, or when a call is answered, or when
calls without ids are kept because no user message follows. -/
def Voiced (t : Turn) : Prop :=
  if t.msg.role = "assistant" then Speaks t.msg.content ∨ t.Answered ∨ t.Idless ∧ ¬t.Asks
  else t.msg.role ≠ "system" ∧ Sendable t.msg.content

theorem users_sentTurn (ht : t.WellFormed) : (sentTurn t).users ≠ [] ↔ t.Asks ∨ t.Answered := by
  have hmerged := merged_sentTurn ht
  rw [← asks_sentTurn ht, ← answered_sentTurn ht]
  constructor
  · intro hne
    obtain ⟨user, huser⟩ := exists_mem_of_ne_nil _ hne
    obtain ⟨b, hb⟩ := exists_mem_of_ne_nil _ (hmerged.nonempty user huser)
    by_cases hresult : b.isToolResult
    · obtain ⟨hrole, hid⟩ := hmerged.results_of_mem huser hb hresult
      obtain ⟨r, hr, hresult', hid'⟩ := hmerged.calls hrole _ hid
      exact .inr ⟨hrole, r, hr, hresult', hid' ▸ hid⟩
    · exact .inl (hmerged.asks_iff.2 ⟨user, huser, b, hb, hresult⟩)
  · rintro (⟨user, huser, -⟩ | ⟨-, r, hr, -⟩)
    · exact ne_nil_of_mem huser
    · obtain ⟨user, huser, -⟩ := Turn.exists_of_mem_reply hr
      exact ne_nil_of_mem huser

theorem sendable_users (ht : t.WellFormed) :
    (∃ user ∈ (sentTurn t).users, Sendable user.content) ↔ Heard t := by
  have hrepaired := Turn.repaired_repair ht
  have hresults : (∃ user ∈ t.repair.users, ∃ b ∈ user.content, b.isToolResult) ↔ t.Answered := by
    rw [← (Turn.alike_repair ht).answered]
    constructor
    · rintro ⟨user, huser, b, hb, hresult⟩
      obtain ⟨hrole, hid⟩ := hrepaired.results_of_mem huser hb hresult
      obtain ⟨r, hr, hresult', hid'⟩ := hrepaired.calls hrole _ hid
      exact ⟨hrole, r, hr, hresult', hid' ▸ hid⟩
    · rintro ⟨-, r, hr, hresult, -⟩
      obtain ⟨user, huser, hr⟩ := Turn.exists_of_mem_reply hr
      exact ⟨user, huser, r, hr, hresult⟩
  rw [Heard, ← Turn.exists_mem_repair_users_and fun b => (item b).isSome, ← hresults]
  refine (Turn.exists_mem_merge_users t.repair fun b => (item b).isSome).trans ?_
  constructor
  · rintro ⟨user, huser, b, hb, hitem⟩
    by_cases hresult : b.isToolResult
    · exact .inr ⟨user, huser, b, hb, hresult⟩
    · exact .inl ⟨user, huser, b, hb, hresult, hitem⟩
  · rintro (⟨user, huser, b, hb, -, hitem⟩ | ⟨user, huser, b, hb, hresult⟩)
    · exact ⟨user, huser, b, hb, hitem⟩
    · exact ⟨user, huser, b, hb, isSome_item_of_isToolResult hresult⟩

/-- A call of the message of a turn is kept exactly if it is answered, or if it has no id and no user message
follows. -/
theorem exists_call_iff (ht : t.WellFormed) (hrole : t.msg.role = "assistant") :
    (∃ b ∈ (sentTurn t).strip.msg.content, b.isToolUse) ↔ t.Answered ∨ t.Idless ∧ ¬t.Asks := by
  have hmerged := merged_sentTurn ht
  have hrole' : (sentTurn t).msg.role = "assistant" := by
    rw [← hrole]
    exact Turn.repair_msg_role t
  rw [← answered_sentTurn ht, ← idless_sentTurn ht, ← asks_sentTurn ht, hmerged.idless_iff]
  rcases hmerged.cases with husers | ⟨user, husers⟩
  · have hnone : ¬(sentTurn t).Answered := by
      rintro ⟨-, r, hr, -⟩
      obtain ⟨user, huser, -⟩ := Turn.exists_of_mem_reply hr
      rw [husers] at huser
      cases huser
    rw [Turn.strip_of_users husers, or_iff_right hnone, and_iff_left husers, and_iff_right hrole',
      hasToolUseBlocks, any_eq_true]
  · have hreply : (sentTurn t).reply = user.content := by rw [Turn.reply, husers]
    have hcons : ¬(sentTurn t).users = [] := by
      rw [husers]
      exact cons_ne_nil _ _
    rw [or_iff_left fun h => hcons h.2, Turn.Answered, and_iff_right hrole', hreply]
    constructor
    · rintro ⟨b, hb, huse⟩
      obtain ⟨hb, hid, r, hr, hresult, hrid⟩ := (Turn.mem_strip_msg husers hrole' huse).1 hb
      exact ⟨r, hr, hresult, hrid ▸ mem_collectToolUseIds.2 ⟨hid, b, hb, huse, rfl⟩⟩
    · rintro ⟨r, hr, hresult, hid⟩
      obtain ⟨hne, b, hb, huse, hbid⟩ := mem_collectToolUseIds.1 hid
      exact ⟨b, (Turn.mem_strip_msg husers hrole' huse).2 ⟨hb, hbid ▸ hne, r, hr, hresult, hbid.symm⟩,
        huse⟩

theorem heard_msg (ht : t.WellFormed) : (remark (sentTurn t).strip.msg).heard ↔ Voiced t := by
  have hrole : (sentTurn t).strip.msg.role = t.msg.role := by
    rw [Turn.strip_msg_role]
    exact Turn.repair_msg_role t
  rw [remark, decide_eq_true_eq, hrole, Voiced]
  split_ifs with hassistant
  · have hsystem : t.msg.role ≠ "system" := by
      rw [hassistant]
      decide
    have hspeaks : Speaks (sentTurn t).strip.msg.content ↔ Speaks t.msg.content :=
      speaks_strip.trans speaks_repair
    rw [and_iff_right hsystem, sendable_iff_speaks, hspeaks, exists_call_iff ht hassistant]
  · have hmsg : (sentTurn t).strip.msg = t.msg := by
      have hrepair : (sentTurn t).msg = t.msg := by
        change t.repair.msg = _
        rw [Turn.repair, if_neg fun h => hassistant h.1]
      unfold Turn.strip
      split
      · rw [if_neg (hrepair ▸ hassistant), hrepair]
      · exact hrepair
    rw [hmsg]

/-! ## The remarks of a request -/

instance : Decidable t.Asks :=
  inferInstanceAs (Decidable (∃ user ∈ t.users, hasNonToolResultBlocks user))

instance : Decidable t.Answered :=
  inferInstanceAs (Decidable (t.msg.role = "assistant" ∧
    ∃ r ∈ t.reply, r.isToolResult ∧ r.toolUseId ∈ collectToolUseIds t.msg))

instance : Decidable t.Idless :=
  inferInstanceAs (Decidable (t.msg.role = "assistant" ∧ hasToolUseBlocks t.msg ∧
    collectToolUseIds t.msg = []))

instance : Decidable t.Round := inferInstanceAs (Decidable (t.Answered ∧ ¬t.Asks))

instance : Decidable t.Concludes :=
  inferInstanceAs (Decidable (t.msg.role = "assistant" ∧ ¬t.Answered ∧ ¬t.Idless ∧ t.Asks))

instance (after : List Turn) : Decidable (CompletedAt t after) :=
  inferInstanceAs (Decidable (t.Round ∧ ∃ answer ∈ after.head?, answer.Concludes))

instance (content : List ContentBlock) : Decidable (Speaks content) :=
  inferInstanceAs (Decidable ((∃ b ∈ content, ¬b.isToolUse ∧ (item b).isSome) ∨
    content ≠ [] ∧ ∀ b ∈ content, b.isToolUse))

instance : Decidable (Voiced t) :=
  inferInstanceAs (Decidable (if t.msg.role = "assistant" then
    Speaks t.msg.content ∨ t.Answered ∨ t.Idless ∧ ¬t.Asks
    else t.msg.role ≠ "system" ∧ Sendable t.msg.content))

instance : Decidable (Heard t) :=
  inferInstanceAs (Decidable ((∃ user ∈ t.users, ∃ b ∈ user.content,
    ¬b.isToolResult ∧ (item b).isSome) ∨ t.Answered))

def userRemarks (t : Turn) : List (Remark String) :=
  if t.Asks ∨ t.Answered then [⟨"user", Heard t⟩] else []

/-- What a turn sends.  A message without content does not stand between others. -/
def remarks (t : Turn) : List (Remark String) :=
  (if t.msg.content = [] then [] else [⟨t.msg.role, Voiced t⟩]) ++ userRemarks t

def withoutCompleted : List Turn → List Turn
  | [] => []
  | t :: after => if CompletedAt t after then withoutCompleted after else t :: withoutCompleted after

/-- The last turn in which the user says something, with the turns after it. -/
def lastAsks : List Turn → Option (Turn × List Turn)
  | [] => none
  | t :: after =>
    match lastAsks after with
    | some found => some found
    | none => if t.Asks then some (t, after) else none

/-- What the turns of a request send.  A request that ends with the results of calls begins where the user
last said something. -/
def requestRemarks (ts : List Turn) : List (Remark String) :=
  let ts := withoutCompleted ts
  match lastAsks ts with
  | some (t, after) =>
    if ∃ last ∈ after.getLast?, last.Round then userRemarks t ++ after.flatMap remarks
    else ts.flatMap remarks
  | none => ts.flatMap remarks

theorem map_remark_users (ht : t.WellFormed) :
    (kept (sentTurn t).users).map remark = userRemarks t := by
  have hmerged := merged_sentTurn ht
  have hsendable := sendable_users ht
  have husers' := users_sentTurn ht
  rw [userRemarks]
  rcases hmerged.cases with husers | ⟨user, husers⟩
  · rw [if_neg fun h => husers'.2 h husers, husers]
    rfl
  · have hmem : user ∈ (sentTurn t).users := husers ▸ mem_cons_self
    have hrole := hmerged.user_role user hmem
    have hheard : (remark user).heard = decide (Heard t) := by
      rw [husers] at hsendable
      simp only [mem_singleton, exists_eq_left] at hsendable
      simp [remark, hrole, hsendable]
    have hkept : kept [user] = [user] := by simp [kept, hmerged.nonempty user hmem]
    rw [if_pos (husers'.1 (ne_nil_of_mem hmem)), husers, hkept, map_singleton, ← hheard, ← hrole]
    rfl

theorem map_remark_turn (ht : t.WellFormed) :
    (kept (sentTurn t).strip.toList).map remark = remarks t := by
  have hrole : (sentTurn t).strip.msg.role = t.msg.role := by
    rw [Turn.strip_msg_role]
    exact Turn.repair_msg_role t
  have hnil : (sentTurn t).strip.msg.content = [] ↔ t.msg.content = [] := by
    rw [Turn.strip_msg_eq_nil]
    exact Turn.repair_msg_eq_nil t
  have hheard : (remark (sentTurn t).strip.msg).heard = decide (Voiced t) :=
    Bool.eq_iff_iff.2 ((heard_msg ht).trans decide_eq_true_iff.symm)
  rw [remarks, ← map_remark_users ht, Turn.toList, kept, filter_cons, Turn.strip_users]
  by_cases hempty : t.msg.content = []
  · rw [if_neg (by simp [hnil.2 hempty]), if_pos hempty]
    rfl
  · rw [if_pos (by simpa using fun h => hempty (hnil.1 h)), if_neg hempty, map_cons, ← hheard,
      ← hrole]
    rfl

variable {ts : List Turn}

theorem map_remark_flatten (hts : ∀ t ∈ ts, t.WellFormed) :
    (kept (stripDanglingToolUses (flatten (ts.map sentTurn)))).map remark = ts.flatMap remarks := by
  have hmerged : ∀ t ∈ ts.map sentTurn, t.WellFormed := by
    rw [forall_mem_map]
    exact fun t ht => (merged_sentTurn (hts t ht)).toWellFormed
  rw [strip_flatten hmerged, map_map]
  clear hmerged
  induction ts with
  | nil => rfl
  | cons t ts ih =>
    rw [forall_mem_cons] at hts
    have hcons : kept (flatten ((t :: ts).map (Turn.strip ∘ sentTurn))) =
        kept (sentTurn t).strip.toList ++ kept (flatten (ts.map (Turn.strip ∘ sentTurn))) := by
      rw [kept, kept, kept, ← filter_append]
      rfl
    rw [hcons, map_append, map_remark_turn hts.1, ih hts.2, flatMap_cons]

/-! ## The turns of a request -/

theorem collapseTurns_map (hts : ∀ t ∈ ts, t.WellFormed) :
    collapseTurns (ts.map Turn.repair) = (withoutCompleted ts).map Turn.repair := by
  induction ts with
  | nil => rfl
  | cons t after ih =>
    obtain ⟨ht, hafter⟩ := forall_mem_cons.1 hts
    have hrepaired : ∀ t' ∈ after.map Turn.repair, t'.Repaired := by
      rw [forall_mem_map]
      exact fun t' ht' => Turn.repaired_repair (hafter t' ht')
    have hiff : t.repair.collapses (after.map Turn.repair) ↔ CompletedAt t after := by
      rw [(Turn.repaired_repair ht).collapses_iff hrepaired]
      exact completedAt_map (fun t' ht' => Turn.alike_repair (hts t' ht')) Turn.repair_msg_role
    rw [map_cons, collapseTurns, withoutCompleted, ih hafter]
    by_cases hcompleted : CompletedAt t after
    · rw [if_pos (hiff.2 hcompleted), if_pos hcompleted]
    · rw [if_neg fun h => hcompleted (hiff.1 h), if_neg hcompleted, map_cons]

theorem preparedTurns_eq (messages : List Message) :
    preparedTurns messages = (withoutCompleted (turns messages)).map sentTurn := by
  rw [preparedTurns, collapseTurns_map (wellFormed_turns messages), map_map]
  rfl

theorem withoutCompleted_subset (ts : List Turn) : withoutCompleted ts ⊆ ts := by
  induction ts with
  | nil => exact List.Subset.refl _
  | cons t after ih =>
    rw [withoutCompleted]
    split_ifs
    · exact List.Subset.trans ih (subset_cons_self t after)
    · exact cons_subset_cons t ih

theorem lastAsks_eq_none (h : lastAsks ts = none) : ∀ t ∈ ts, ¬t.Asks := by
  induction ts with
  | nil => simp
  | cons a ts ih =>
    rw [lastAsks] at h
    split at h
    · cases h
    next hlast =>
      split_ifs at h with hasks
      exact forall_mem_cons.2 ⟨hasks, ih hlast⟩

theorem lastAsks_eq_some {after : List Turn} {t : Turn} (h : lastAsks ts = some (t, after)) :
    ∃ before, ts = before ++ t :: after ∧ t.Asks ∧ ∀ t' ∈ after, ¬t'.Asks := by
  induction ts with
  | nil => cases h
  | cons a ts ih =>
    rw [lastAsks] at h
    split at h
    next found hfound =>
      obtain ⟨before, hts, hasks, hlater⟩ := ih (hfound.trans h)
      exact ⟨a :: before, by rw [hts, cons_append], hasks, hlater⟩
    next hlast =>
      split_ifs at h with hasks
      cases h
      exact ⟨[], rfl, hasks, lastAsks_eq_none hlast⟩

theorem endsInResults_iff_getLast (ts : List Turn) :
    EndsInResults ts ↔ ∃ last ∈ ts.getLast?, last.Round := by
  induction ts with
  | nil => simp [EndsInResults]
  | cons t after ih =>
    rw [EndsInResults, somewhere_cons, ← EndsInResults, ih]
    cases after with
    | nil => simp [Turn.Round]
    | cons next after => simp [getLast?_cons_cons]

theorem ends_sentTurns (hts : ∀ t ∈ ts, t.WellFormed) :
    (∃ last ∈ (flatten (ts.map sentTurn)).getLast?, hasOnlyToolResultBlocks last) ↔
      ∃ last ∈ ts.getLast?, last.Round := by
  have hmerged : ∀ t ∈ ts.map sentTurn, t.Merged := by
    rw [forall_mem_map]
    exact fun t ht => merged_sentTurn (hts t ht)
  rw [endsInResults_iff hmerged, endsInResults_iff_getLast, getLast?_map]
  simp only [Option.mem_map, exists_exists_and_eq_and]
  refine exists_congr fun last => and_congr_right fun hlast => ?_
  have hlast' := hts last (mem_of_getLast? hlast)
  exact and_congr (answered_sentTurn hlast') (not_congr (asks_sentTurn hlast'))

theorem spaced_currentTurn (hts : ∀ t ∈ ts, t.WellFormed) :
    SpacedMessages (currentTurn (flatten ((withoutCompleted ts).map sentTurn))) ↔
      Spaced "user" sentRole "user" none False (requestRemarks ts) := by
  have hts' : ∀ t ∈ withoutCompleted ts, t.WellFormed :=
    fun t ht => hts t (withoutCompleted_subset ts ht)
  have hall : SpacedMessages (flatten ((withoutCompleted ts).map sentTurn)) ↔
      Spaced "user" sentRole "user" none False ((withoutCompleted ts).flatMap remarks) := by
    rw [SpacedMessages, map_remark_flatten hts']
  have hmerged : ∀ t ∈ (withoutCompleted ts).map sentTurn, t.Merged := by
    rw [forall_mem_map]
    exact fun t ht => merged_sentTurn (hts' t ht)
  have hends := ends_sentTurns hts'
  rw [currentTurn, requestRemarks]
  cases hasks : lastAsks (withoutCompleted ts) with
  | none =>
    -- the user says nothing, and nothing is cut off
    have hnone : lastTurn (flatten ((withoutCompleted ts).map sentTurn)) = none := by
      apply lastTurn_eq_none hmerged
      rw [forall_mem_map]
      exact fun t ht h => lastAsks_eq_none hasks t ht ((asks_sentTurn (hts' t ht)).1 h)
    rw [hnone, Option.getD_none, ite_self]
    exact hall
  | some found =>
    obtain ⟨t, after⟩ := found
    obtain ⟨before, happend, htasks, hlater⟩ := lastAsks_eq_some hasks
    have ht := hts' t (happend ▸ mem_append_right _ mem_cons_self)
    have hafter : ∀ t' ∈ after, t'.WellFormed := fun t' ht' =>
      hts' t' (happend ▸ mem_append_right _ (mem_cons_of_mem _ ht'))
    have hround : (∃ last ∈ (withoutCompleted ts).getLast?, last.Round) ↔
        ∃ last ∈ after.getLast?, last.Round := by
      rw [happend, getLast?_append_of_ne_nil _ (cons_ne_nil t after)]
      cases after with
      | nil => simp [Turn.Round, htasks]
      | cons next after => rw [getLast?_cons_cons]
    dsimp only
    by_cases hresults : ∃ last ∈ after.getLast?, last.Round
    · have hmerged' := hmerged
      rw [happend, map_append, map_cons] at hmerged'
      obtain ⟨user, husers, -, hturn⟩ := lastTurn_flatten hmerged' ((asks_sentTurn ht).2 htasks)
        (by
          rw [forall_mem_map]
          exact fun t' ht' h => hlater t' ht' ((asks_sentTurn (hafter t' ht')).1 h))
      rw [← map_cons, ← map_append, ← happend] at hturn
      have huser : user.role ≠ "assistant" := by
        rw [(merged_sentTurn ht).user_role user (husers ▸ mem_cons_self)]
        decide
      rw [if_pos (hends.2 (hround.2 hresults)), if_pos hresults, hturn, Option.getD_some,
        SpacedMessages, strip_cons fun _ _ h => huser h.1, ← map_remark_flatten hafter,
        ← map_remark_users ht, husers, ← map_append, kept, kept, kept, ← filter_append]
      rfl
    · rw [if_neg fun h => hresults (hround.1 (hends.1 h)), if_neg hresults]
      exact hall

/-- The roles that Anthropic is sent alternate, beginning with the user, if and only if what the turns of the
request send is spaced: two messages with the same role are sent one after the other only when they and all
messages between are the user's, and the first message that is sent is the user's. -/
theorem alternates_iff (messages : List Message) :
    Alternates "user" (payloadRoles (serializeMessagesToAnthropic
        (sanitizeRequestMessages (some "anthropic") (some .builtin) messages)).2) ↔
      Spaced "user" sentRole "user" none False (requestRemarks (turns messages)) := by
  have hfix (l : List Message) :
      (TurnValidator.builtin).validateAndFix l "anthropic" = fixAnthropicTurns l := rfl
  have hopening : ∀ s ∈ [opening], s.isSystem := by decide
  rw [← spaced_currentTurn (wellFormed_turns messages), ← preparedTurns_eq, ← prepared_eq,
    sanitizeRequestMessages, if_pos rfl]
  dsimp only
  rw [hfix, alternates_fix_iff, ignoresSystems_spaced.hint, ← ignoresSystems_spaced.trim,
    keepsFirst_trim opening _ (by decide)]
  exact (ignoresSystems_spaced hopening _).symm

/-- A conversation in which the assistant answered twice is sent with two messages of the assistant one after
the other. -/
theorem not_alternates :
    ¬∀ messages : List Message,
      (∀ m ∈ messages, m.role = "system" ∨ m.role = "user" ∨ m.role = "assistant") →
        Alternates "user" (payloadRoles (serializeMessagesToAnthropic
          (sanitizeRequestMessages (some "anthropic") (some .builtin) messages)).2) := by
  let messages : List Message :=
    [.ofText "user" "hi", .ofText "assistant" "one", .ofText "assistant" "two", .ofText "user" "on"]
  have hroles : payloadRoles (serializeMessagesToAnthropic
      (sanitizeRequestMessages (some "anthropic") (some .builtin) messages)).2 =
        ["user", "assistant", "assistant", "user"] := by decide +kernel
  intro halternates
  have h := halternates messages (by decide)
  rw [hroles] at h
  exact absurd h.2 (by decide)

end RavBot.Providers
