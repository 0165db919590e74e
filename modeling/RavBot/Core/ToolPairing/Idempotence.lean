import Mathlib.Data.List.Flatten
import RavBot.Core.Conversation

/-!
# Sanitizing a request again

The messages of a request are sanitized again, in place, before each attempt to send it.  Each of
the transforms shortens them or leaves them as they are, apart from the hint, which is added once
(`sanitizeAnthropic_eq_self_iff`).  So another pass leaves the messages as they are if and only if
preparing them again does, which a look at the turns decides (`prepareTurns_eq`).
-/

open List

namespace RavBot.Core

open RavBot.Lib TurnValidator

/-! ## The transforms -/

def withHint (messages : List Message) : List Message :=
  maybeAddWebSearchReplayInstruction messages (collectTrailingReplayToolNames messages)

def sanitizeAnthropic (messages : List Message) : List Message :=
  withHint (trimAnthropicReplayToCurrentTurn (prepare messages))

/-! ## System messages at the start -/

namespace KeepsFirst

variable {p : Message → Prop} {pass pass' : List Message → List Message}

theorem mono {q : Message → Prop} (h : KeepsFirst p pass) (hpq : ∀ m, q m → p m) :
    KeepsFirst q pass := fun m messages hm => h m messages (hpq m hm)

theorem comp (h : KeepsFirst p pass) (h' : KeepsFirst p pass') : KeepsFirst p (pass' ∘ pass) := by
  rintro m messages hm
  rw [Function.comp_apply, h m messages hm, h' m _ hm, Function.comp_apply]

theorem append (h : KeepsFirst p pass) {first : List Message} (hfirst : ∀ m ∈ first, p m)
    (messages : List Message) : pass (first ++ messages) = first ++ pass messages := by
  induction first with
  | nil => rfl
  | cons m first ih =>
    obtain ⟨hm, hfirst⟩ := forall_mem_cons.1 hfirst
    rw [cons_append, h m _ hm, ih hfirst, cons_append]

theorem fixed_iff (h : KeepsFirst p pass) {first : List Message} (hfirst : ∀ m ∈ first, p m)
    {messages : List Message} :
    pass (first ++ messages) = first ++ messages ↔ pass messages = messages := by
  rw [h.append hfirst, append_cancel_left_eq]

end KeepsFirst

theorem keepsFirst_prepare : KeepsFirst (·.isSystem) prepare := by
  rintro s messages hs
  exact prepare_cons (Message.isSystem_role hs).1 (Message.isSystem_role hs).2 messages

/-! ## The hint -/

def hintMessage : Message := .ofText "system" replayHint

def Message.hasHint (msg : Message) : Bool :=
  msg.isSystem && (Text.find replayHint.toList msg.text.toList).isSome

theorem isSystem_hintMessage : hintMessage.isSystem := by decide

theorem hasHint_hintMessage : hintMessage.hasHint := by decide +kernel

theorem withHint_cases (messages : List Message) :
    withHint messages = messages ∨
      (∀ m ∈ messages, ¬ m.hasHint) ∧
        withHint messages =
          messages.takeWhile (·.isSystem) ++ hintMessage :: messages.dropWhile (·.isSystem) := by
  rw [withHint, maybeAddWebSearchReplayInstruction]
  split
  case isFalse => exact .inl rfl
  case isTrue =>
    split
    case isTrue => exact .inl rfl
    case isFalse hnone =>
      rw [Bool.not_eq_true, any_eq_false] at hnone
      exact .inr ⟨hnone, rfl⟩

variable {messages : List Message}

theorem withHint_eq_self (h : hintMessage ∈ messages) : withHint messages = messages := by
  refine (withHint_cases messages).resolve_right fun hadd => ?_
  exact hadd.1 hintMessage h hasHint_hintMessage

theorem withHint_withHint (messages : List Message) :
    withHint (withHint messages) = withHint messages := by
  rcases withHint_cases messages with h | ⟨-, h⟩
  · rw [h, h]
  · apply withHint_eq_self
    rw [h]
    exact mem_append_right _ mem_cons_self

theorem exists_systems (messages : List Message) :
    ∃ systems systems' rest, messages = systems ++ rest ∧ withHint messages = systems' ++ rest ∧
      (∀ s ∈ systems, s.isSystem ∧ s ∈ messages) ∧
        ∀ s ∈ systems', s.isSystem ∧ (s ∈ messages ∨ s = hintMessage) := by
  rcases withHint_cases messages with h | ⟨-, h⟩
  · exact ⟨[], [], messages, rfl, h, by simp, by simp⟩
  · have hsystems : ∀ s ∈ messages.takeWhile (·.isSystem), s.isSystem ∧ s ∈ messages :=
      fun s hs => ⟨mem_takeWhile_imp hs, takeWhile_subset _ hs⟩
    refine ⟨messages.takeWhile (·.isSystem), messages.takeWhile (·.isSystem) ++ [hintMessage],
      messages.dropWhile (·.isSystem), takeWhile_append_dropWhile.symm, ?_, hsystems, ?_⟩
    · rw [h, append_assoc, singleton_append]
    · rintro s hs
      rcases mem_append.1 hs with hs | hs
      · exact ⟨(hsystems s hs).1, .inl (hsystems s hs).2⟩
      · rw [mem_singleton.1 hs]
        exact ⟨isSystem_hintMessage, .inr rfl⟩

theorem KeepsFirst.withHint_iff {pass : List Message → List Message}
    (h : KeepsFirst (·.isSystem) pass) (messages : List Message) :
    pass (withHint messages) = withHint messages ↔ pass messages = messages := by
  obtain ⟨systems, systems', rest, hmessages, hhint, hsystems, hsystems'⟩ :=
    exists_systems messages
  rw [hhint, hmessages, h.fixed_iff fun s hs => (hsystems s hs).1,
    h.fixed_iff fun s hs => (hsystems' s hs).1]

/-! ## Lengths -/

theorem length_unlessEmpty_le (msg : Message) : (unlessEmpty msg).length ≤ 1 := by
  rw [unlessEmpty]
  split_ifs <;> simp

theorem length_repair_le (messages : List Message) :
    (repairAnthropicToolPairing messages).length ≤ messages.length := by
  fun_induction repairAnthropicToolPairing messages with
  | case1 => exact le_rfl
  | case2 msg rest _ _ ih =>
    have hle := length_unlessEmpty_le (withoutResults msg)
    simp only [length_append, length_cons]
    omega
  | case5 msg _ ids _ next rest' _ ih =>
    have hle := length_unlessEmpty_le (withResultsOf ids next)
    simp only [length_append, length_cons]
    omega
  | _ => simp_all

theorem length_collapse_le (messages : List Message) :
    (collapseCompletedAnthropicToolTurns messages).length ≤ messages.length := by
  fun_induction collapseCompletedAnthropicToolTurns messages with
  | case1 call results answer next rest _ ih =>
    simp only [length_cons] at ih ⊢
    omega
  | case2 call results answer next rest _ ih => simpa using ih
  | case3 msg rest _ ih => simpa using ih
  | case4 => exact le_rfl

theorem length_prepare_le (messages : List Message) :
    (prepare messages).length ≤ messages.length := by
  have hmerge (l : List Message) : (mergeConsecutiveUserMessages l).length ≤ l.length := by
    rw [mergeConsecutiveUserMessages, mergeUser_eq]
    exact length_foldl_mergeStep_le l
  exact (hmerge _).trans ((length_collapse_le _).trans (length_repair_le messages))

/-! ## Trimming again -/

theorem lastTurn_lastTurn {turn : List Message} (h : lastTurn messages = some turn) :
    lastTurn turn = some turn := by
  induction messages with
  | nil => cases h
  | cons msg rest ih =>
    rw [lastTurn] at h
    cases hrest : lastTurn rest with
    | some turn' =>
      rw [hrest] at h
      cases h
      exact ih hrest
    | none =>
      rw [hrest] at h
      dsimp only at h
      split_ifs at h with hspoken
      cases h
      rw [lastTurn, hrest]
      exact if_pos hspoken

theorem trim_lastTurn {turn : List Message} (h : lastTurn messages = some turn) :
    trimAnthropicReplayToCurrentTurn turn = turn := by
  obtain ⟨-, first, hfirst, hspoken⟩ := lastTurn_eq_some h
  have hturn := lastTurn_lastTurn h
  cases turn with
  | nil => rfl
  | cons m rest =>
    cases hfirst
    have hsystem : ¬ first.isSystem := fun hs =>
      not_hasNonToolResultBlocks (Message.isSystem_role hs).1 hspoken
    rw [trimAnthropicReplayToCurrentTurn, dropWhile_cons_of_neg hsystem,
      takeWhile_cons_of_neg hsystem, hturn]
    cases (first :: rest).getLast? with
    | none => rfl
    | some last => exact ite_self _

theorem trim_trim (messages : List Message) :
    trimAnthropicReplayToCurrentTurn (trimAnthropicReplayToCurrentTurn messages) =
      trimAnthropicReplayToCurrentTurn messages := by
  have hsystems : ∀ s ∈ messages.takeWhile (·.isSystem), s.isSystem :=
    fun _ hs => mem_takeWhile_imp hs
  have hcases : trimAnthropicReplayToCurrentTurn messages = messages ∨
      ∃ turn, lastTurn (messages.dropWhile (·.isSystem)) = some turn ∧
        trimAnthropicReplayToCurrentTurn messages = messages.takeWhile (·.isSystem) ++ turn := by
    rw [trimAnthropicReplayToCurrentTurn]
    cases messages.getLast? with
    | none => exact .inl rfl
    | some last =>
      dsimp only
      split
      case isFalse => exact .inl rfl
      case isTrue =>
        cases lastTurn (messages.dropWhile (·.isSystem)) with
        | none => exact .inl rfl
        | some turn => exact .inr ⟨turn, rfl, rfl⟩
  rcases hcases with h | ⟨turn, hturn, h⟩
  · rw [h, h]
  · rw [h, keepsFirst_trim.append hsystems, trim_lastTurn hturn]

/-! ## Sanitizing again -/

theorem sanitizeAnthropic_eq_self_iff (messages : List Message) :
    sanitizeAnthropic messages = messages ↔
      prepare messages = messages ∧ trimAnthropicReplayToCurrentTurn messages = messages ∧
        withHint messages = messages := by
  constructor
  · rintro h
    rw [sanitizeAnthropic] at h
    have hsame : trimAnthropicReplayToCurrentTurn (prepare messages) = messages := by
      rcases withHint_cases (trimAnthropicReplayToCurrentTurn (prepare messages)) with
        hsame | ⟨hnone, hadd⟩
      · rw [← hsame, h]
      · -- The messages have the hint already, and neither transform removes it.
        rw [h] at hadd
        generalize hsystems' : List.takeWhile _ _ = systems at hadd
        have hsystems : ∀ s ∈ systems, s.isSystem := by
          rw [← hsystems']
          exact fun _ hs => mem_takeWhile_imp hs
        refine absurd hasHint_hintMessage (hnone hintMessage ?_)
        rw [hadd, keepsFirst_prepare.append hsystems, keepsFirst_trim.append hsystems,
          keepsFirst_prepare _ _ isSystem_hintMessage, keepsFirst_trim _ _ isSystem_hintMessage]
        exact mem_append_right _ mem_cons_self
    have hsublist := (trim_spec (prepare messages)).2.1
    have hlength : (prepare messages).length ≤
        (trimAnthropicReplayToCurrentTurn (prepare messages)).length := by
      rw [hsame]
      exact length_prepare_le messages
    have hprepare : prepare messages = messages := by
      rw [← hsublist.eq_of_length_le hlength, hsame]
    rw [hprepare] at hsame h
    rw [hsame] at h
    exact ⟨hprepare, hsame, h⟩
  · rintro ⟨hprepare, htrim, hhint⟩
    rw [sanitizeAnthropic, hprepare, htrim, hhint]

theorem sanitizeAnthropic_idem_iff (messages : List Message) :
    sanitizeAnthropic (sanitizeAnthropic messages) = sanitizeAnthropic messages ↔
      let trimmed := trimAnthropicReplayToCurrentTurn (prepare messages)
      prepare trimmed = trimmed := by
  have htrim := (keepsFirst_trim.withHint_iff
    (trimAnthropicReplayToCurrentTurn (prepare messages))).2 (trim_trim _)
  rw [sanitizeAnthropic_eq_self_iff, sanitizeAnthropic, and_iff_left ⟨htrim, withHint_withHint _⟩]
  exact keepsFirst_prepare.withHint_iff _

/-! ## Preparing turns again -/

/-- A turn whose messages the repair has built: the user messages have no timestamp, and neither
has a message with calls, which all have an id. -/
structure Turn.Fresh (t : Turn) : Prop where
  users : ∀ user ∈ t.users, user.timestamp = ""
  msg : t.msg.role = "assistant" → collectToolUseIds t.msg ≠ [] →
    t.msg.timestamp = "" ∧ ∀ b ∈ t.msg.content, b.isToolUse → b.id ≠ ""

namespace Turn

theorem fresh_repair (t : Turn) : t.repair.Fresh where
  users := by
    have hlater {users : List Message} {user : Message} (h : user ∈ repairUsers users) :
        user.timestamp = "" := by
      obtain ⟨_, -, rfl, -⟩ := mem_repairUsers.1 h
      rfl
    rw [repair]
    split_ifs
    · cases t.users with
      | nil => simp
      | cons user users =>
        rintro m hm
        rcases mem_append.1 hm with hm | hm
        · rw [(mem_unlessEmpty.1 hm).1]
          rfl
        · exact hlater hm
    · exact fun m hm => hlater hm
  msg := by
    rintro hrole hids
    rw [repair_msg_role] at hrole
    have hraw : collectToolUseIds t.msg ≠ [] := by
      rintro hraw
      rw [repair_idless hraw] at hids
      exact hids hraw
    refine ⟨?_, fun b hb huse => ((mem_repair_msg hrole hraw huse).1 hb).2.1⟩
    rw [repair, if_pos ⟨hrole, hraw⟩]
    cases t.users <;> rfl

theorem Fresh.merge {t : Turn} (ht : t.Fresh) : t.merge.Fresh where
  users := by
    have husers := ht.users
    rw [Turn.merge]
    cases hcons : t.users with
    | nil => simp
    | cons user users =>
      rw [hcons, forall_mem_cons] at husers
      simpa using husers.1
  msg := ht.msg

end Turn

theorem repairUsers_eq_self {users : List Message} (hnonempty : ∀ u ∈ users, u.content ≠ [])
    (hresults : ∀ u ∈ users, ∀ r ∈ u.content, ¬ r.isToolResult)
    (hfresh : ∀ u ∈ users, u.timestamp = "") : repairUsers users = users := by
  have hsame : ∀ u ∈ users, unlessEmpty (withoutResults u) = [u] := by
    rintro u hu
    have hfilter : u.content.filter (fun b => !b.isToolResult) = u.content :=
      filter_eq_self.2 fun r hr => by simpa using hresults u hu r hr
    have hu' : withoutResults u = u := by
      rw [withoutResults, hfilter, ← hfresh u hu]
    rw [hu', unlessEmpty, if_neg (by simpa using hnonempty u hu)]
  rw [repairUsers, flatMap_congr hsame, flatMap_singleton']

namespace Turn

theorem Repaired.repair_eq {t : Turn} (ht : t.Repaired) (hfresh : t.Fresh) : t.repair = t := by
  by_cases hcalls : t.msg.role = "assistant" ∧ collectToolUseIds t.msg ≠ []
  · obtain ⟨htime, hids⟩ := hfresh.msg hcalls.1 hcalls.2
    have hresults := ht.results
    have hanswers := ht.calls hcalls.1
    rw [reply] at hresults hanswers
    cases husers : t.users with
    | nil => exact absurd (ht.ids_eq_nil husers hcalls.1) hcalls.2
    | cons user users =>
      have huser : user ∈ t.users := husers ▸ mem_cons_self
      have hmem {u : Message} (hu : u ∈ users) : u ∈ t.users :=
        husers ▸ mem_cons_of_mem user hu
      have hlater := ht.later
      rw [husers] at hresults hanswers hlater
      dsimp only at hresults hanswers
      -- Every call is answered.
      have hmsg : withCallsOf (matchedToolIds (collectToolUseIds t.msg) user) t.msg = t.msg := by
        have hfilter : t.msg.content.filter (fun b => !b.isToolUse ||
            (matchedToolIds (collectToolUseIds t.msg) user).contains b.id) = t.msg.content := by
          refine filter_eq_self.2 fun b hb => ?_
          by_cases huse : b.isToolUse
          · have hid := mem_collectToolUseIds.2 ⟨hids b hb huse, b, hb, huse, rfl⟩
            have hmatched := mem_matchedToolIds.2 ⟨hids b hb huse, hid, hanswers b.id hid⟩
            simp [hmatched]
          · simp [huse]
        rw [withCallsOf, hfilter, if_neg (by simp), ← htime]
      -- Every result answers a call.
      have hkept : unlessEmpty (withResultsOf (collectToolUseIds t.msg) user) = [user] := by
        have hfilter : user.content.filter (fun b => !b.isToolResult ||
            (b.toolUseId ≠ "" && (collectToolUseIds t.msg).contains b.toolUseId)) =
            user.content := by
          refine filter_eq_self.2 fun r hr => ?_
          by_cases hresult : r.isToolResult
          · have hid := (hresults r hr hresult).2
            simp [hid, ne_empty_of_mem hid]
          · simp [hresult]
        have hsame : withResultsOf (collectToolUseIds t.msg) user = user := by
          rw [withResultsOf, hfilter, ← hfresh.users user huser]
        rw [hsame, unlessEmpty, if_neg (by simpa using ht.nonempty user huser)]
      have hrest : repairUsers users = users :=
        repairUsers_eq_self (fun u hu => ht.nonempty u (hmem hu)) hlater
          fun u hu => hfresh.users u (hmem hu)
      rw [repair, if_pos hcalls, husers]
      dsimp only
      rw [hmsg, hkept, hrest, singleton_append, ← husers]
  · have hresults : ∀ u ∈ t.users, ∀ r ∈ u.content, ¬ r.isToolResult := by
      rintro u hu r hr hresult
      obtain ⟨hrole, hid⟩ := ht.results_of_mem hu hr hresult
      exact hcalls ⟨hrole, ne_nil_of_mem hid⟩
    rw [repair, if_neg hcalls, repairUsers_eq_self ht.nonempty hresults hfresh.users]

theorem Merged.merge_eq {t : Turn} (ht : t.Merged) : t.merge = t := by
  obtain ⟨msg, users⟩ := t
  rcases ht.cases with h | ⟨user, h⟩
  · cases h
    rfl
  · cases h
    rw [merge]
    dsimp only
    rw [flatMap_nil, append_nil]

end Turn

variable {ts : List Turn}

theorem prepareTurns_eq (hts : ∀ t ∈ ts, t.Merged) (hfresh : ∀ t ∈ ts, t.Fresh) :
    prepareTurns ts = collapseTurns ts := by
  have hrepair : ∀ t ∈ ts, t.repair = t := fun t ht => (hts t ht).repair_eq (hfresh t ht)
  have hmerge : ∀ t ∈ collapseTurns ts, t.merge = t :=
    fun t ht => (hts t (collapseTurns_subset ts ht)).merge_eq
  rw [prepareTurns, map_congr_left hrepair, map_id', map_congr_left hmerge, map_id']

theorem flatten_collapseTurns_sublist (ts : List Turn) :
    (flatten (collapseTurns ts)).Sublist (flatten ts) :=
  (collapseTurns_sublist ts).flatMap Turn.toList

theorem flatten_collapseTurns_iff (hts : ∀ t ∈ ts, t.Repaired) :
    flatten (collapseTurns ts) = flatten ts ↔ ¬ Somewhere CompletedAt ts := by
  induction ts with
  | nil => simp [collapseTurns]
  | cons t rest ih =>
    obtain ⟨ht, hrest⟩ := forall_mem_cons.1 hts
    rw [collapseTurns, somewhere_cons]
    split_ifs with h
    · refine iff_of_false (fun heq => ?_) (not_not.2 (.inl ((ht.collapses_iff hrest).1 h)))
      have hlength := congrArg List.length heq
      have hle := (flatten_collapseTurns_sublist rest).length_le
      rw [flatten_cons, length_cons, length_append] at hlength
      omega
    · rw [or_iff_right fun hcompleted => h ((ht.collapses_iff hrest).2 hcompleted), ← ih hrest,
        flatten_cons, flatten_cons, cons_inj_right, append_cancel_left_eq]

/-! ## Rounds that are left -/

theorem Turn.Concludes.not_round {t : Turn} (h : t.Concludes) : ¬ t.Round := fun hround =>
  h.2.1 hround.1

theorem collapseTurns_cons_of_concludes {t : Turn} {rest : List Turn}
    (hts : ∀ t' ∈ t :: rest, t'.Repaired) (h : t.Concludes) :
    collapseTurns (t :: rest) = t :: collapseTurns rest := by
  obtain ⟨ht, hrest⟩ := forall_mem_cons.1 hts
  rw [collapseTurns, if_neg fun hcollapses =>
    h.not_round ((ht.collapses_iff hrest).1 hcollapses).1]

/-- Only the last of the rounds before an answer is collapsed, so a round is completed then if
there was one before a completed one. -/
theorem somewhere_collapseTurns (hts : ∀ t ∈ ts, t.Repaired) :
    Somewhere CompletedAt (collapseTurns ts) ↔ Somewhere LeftAt ts := by
  induction ts with
  | nil => exact iff_of_false (somewhere_nil _) (somewhere_nil _)
  | cons t rest ih =>
    obtain ⟨ht, hrest⟩ := forall_mem_cons.1 hts
    rw [somewhere_cons, ← ih hrest, collapseTurns]
    split_ifs with h
    · obtain ⟨-, answer, hanswer, hconcludes⟩ := (ht.collapses_iff hrest).1 h
      refine (or_iff_right ?_).symm
      rintro ⟨-, next, after, rfl, hround, -⟩
      cases hanswer
      exact hconcludes.not_round hround
    · rw [somewhere_cons]
      refine or_congr_left (and_congr_right fun hround => ?_)
      have hnot : ∀ answer ∈ rest.head?, ¬ answer.Concludes := fun answer hanswer hconcludes =>
        h ((ht.collapses_iff hrest).2 ⟨hround, answer, hanswer, hconcludes⟩)
      cases rest with
      | nil => simp [collapseTurns]
      | cons next after =>
        obtain ⟨hnext, hafter⟩ := forall_mem_cons.1 hrest
        by_cases hcollapses : next.collapses after
        · have hcompleted := (hnext.collapses_iff hafter).1 hcollapses
          obtain ⟨-, answer, hanswer, hconcludes⟩ := id hcompleted
          refine iff_of_true ?_ ⟨next, after, rfl, hcompleted⟩
          rw [collapseTurns, if_pos hcollapses, ← cons_head?_tail hanswer,
            collapseTurns_cons_of_concludes]
          · exact ⟨answer, rfl, hconcludes⟩
          · rw [cons_head?_tail hanswer]
            exact hafter
          · exact hconcludes
        · refine iff_of_false ?_ ?_
          · rw [collapseTurns, if_neg hcollapses]
            rintro ⟨answer, hanswer, hconcludes⟩
            exact hnot answer hanswer hconcludes
          · rintro ⟨next', after', heq, hcompleted⟩
            cases heq
            exact hcollapses ((hnext.collapses_iff hafter).2 hcompleted)

theorem somewhere_completedAt_preparedTurns (messages : List Message) :
    Somewhere CompletedAt (preparedTurns messages) ↔ Somewhere LeftAt (turns messages) := by
  have hrepaired := repaired_turns messages
  have halike : ∀ t ∈ turns messages, t.Alike t.repair :=
    fun t ht => Turn.alike_repair (wellFormed_turns messages t ht)
  have halike' : ∀ t ∈ collapseTurns ((turns messages).map Turn.repair), t.Alike t.merge :=
    fun t ht => Turn.alike_merge (hrepaired t (collapseTurns_subset _ ht))
  have hmerge : ∀ t after, t :: after <:+ collapseTurns ((turns messages).map Turn.repair) →
      (CompletedAt t.merge (after.map Turn.merge) ↔ CompletedAt t after) :=
    fun t after hsuffix => completedAt_map (fun t' ht' => halike' t' (hsuffix.subset ht'))
      fun _ => rfl
  have hrepair : ∀ t after, t :: after <:+ turns messages →
      (LeftAt t.repair (after.map Turn.repair) ↔ LeftAt t after) :=
    fun t after hsuffix => leftAt_map (fun t' ht' => halike t' (hsuffix.subset ht'))
      Turn.repair_msg_role
  rw [preparedTurns, somewhere_map, somewhere_congr hmerge, somewhere_collapseTurns hrepaired,
    somewhere_map, somewhere_congr hrepair]

theorem fresh_preparedTurns (messages : List Message) : ∀ t ∈ preparedTurns messages, t.Fresh := by
  rw [preparedTurns, forall_mem_map]
  rintro t ht
  obtain ⟨t, -, rfl⟩ := mem_map.1 (collapseTurns_subset _ ht)
  exact t.fresh_repair.merge

/-! ## The trimmed request -/

theorem trim_of_lastTurn {turn : List Message}
    (hresults : ∃ last ∈ messages.getLast?, hasOnlyToolResultBlocks last)
    (hturn : lastTurn messages = some turn) :
    trimAnthropicReplayToCurrentTurn messages = messages.takeWhile (·.isSystem) ++ turn := by
  obtain ⟨last, hlast, honly⟩ := hresults
  rw [trimAnthropicReplayToCurrentTurn, lastTurn_dropWhile, Option.mem_def.1 hlast]
  dsimp only
  rw [if_pos honly, hturn]

theorem trim_eq_self
    (h : (∃ last ∈ messages.getLast?, hasOnlyToolResultBlocks last) → lastTurn messages = none) :
    trimAnthropicReplayToCurrentTurn messages = messages := by
  rw [trimAnthropicReplayToCurrentTurn, lastTurn_dropWhile]
  cases hlast : messages.getLast? with
  | none => rfl
  | some last =>
    dsimp only
    split_ifs with honly
    · rw [h ⟨last, hlast, honly⟩]
    · rfl

theorem prepare_turn (hts : ∀ t ∈ ts, t.Merged) (hfresh : ∀ t ∈ ts, t.Fresh)
    (hnone : ∀ t ∈ ts, ¬ t.Asks) {user : Message} (hspeaks : hasNonToolResultBlocks user) :
    prepare (user :: flatten ts) = withoutResults user :: flatten ts := by
  rw [hasNonToolResultBlocks, Bool.and_eq_true, decide_eq_true_eq, any_eq_true] at hspeaks
  obtain ⟨hrole, b, hb, hresult⟩ := hspeaks
  have hne : (withoutResults user).content ≠ [] :=
    ne_nil_of_mem (mem_filter.2 ⟨hb, hresult⟩)
  have hcompleted : ¬ Somewhere CompletedAt ts := by
    rintro ⟨t, after, hsuffix, -, answer, hanswer, -, -, -, hasks⟩
    exact hnone answer (hsuffix.subset
      (mem_cons_of_mem t (mem_of_mem_head? hanswer))) hasks
  have huser : opening.role ≠ "user" := by decide
  have hassistant : opening.role ≠ "assistant" := by decide
  -- The message is put into a turn of its own.
  have hwf : ∀ t ∈ (⟨opening, [user]⟩ : Turn) :: ts, t.WellFormed := by
    refine forall_mem_cons.2 ⟨⟨huser, ?_⟩, fun t ht => (hts t ht).toWellFormed⟩
    exact forall_mem_singleton.2 hrole
  have hfirst : Turn.repair ⟨opening, [user]⟩ = ⟨opening, [withoutResults user]⟩ := by
    have hopening : ¬ (opening.role = "assistant" ∧ collectToolUseIds opening ≠ []) := by decide
    rw [Turn.repair, if_neg hopening, repairUsers, flatMap_singleton, unlessEmpty,
      if_neg (by simpa using hne)]
  have hturns : prepareTurns (⟨opening, [user]⟩ :: ts) =
      ⟨opening, [withoutResults user]⟩ :: prepareTurns ts := by
    rw [prepareTurns, map_cons, hfirst, collapseTurns, if_neg, map_cons, Turn.merge]
    · dsimp only
      rw [flatMap_nil, append_nil]
      rfl
    · intro h
      obtain ⟨results, answer, rest', next, users, -, -, -, h⟩ := Turn.collapses_iff.1 h
      exact hassistant (canCollapse_iff.1 h).1
  have hprepare := prepare_flatten hwf
  rw [hturns, prepareTurns_eq hts hfresh, flatten_cons, flatten_cons,
    (flatten_collapseTurns_iff fun t ht => (hts t ht).toRepaired).2 hcompleted,
    prepare_cons huser hassistant] at hprepare
  exact (List.cons.inj hprepare).2

theorem withoutResults_eq_self_iff {user : Message} (htime : user.timestamp = "") :
    withoutResults user = user ↔ ∀ r ∈ user.content, ¬ r.isToolResult := by
  have hfilter : user.content.filter (fun b => !b.isToolResult) = user.content ↔
      ∀ r ∈ user.content, ¬ r.isToolResult := by simp [filter_eq_self]
  rw [← hfilter]
  constructor
  · intro h
    exact congrArg Message.content h
  · intro h
    rw [withoutResults, h, ← htime]

/-- Sanitizing again leaves the messages of a request to Anthropic as they are if and only if the
first pass did not cut off results and did not leave a round that the next one collapses. -/
theorem sanitizeAnthropic_idem_iff_turns (messages : List Message) :
    sanitizeAnthropic (sanitizeAnthropic messages) = sanitizeAnthropic messages ↔
      ¬ Somewhere CutAt (turns messages) ∧
        (Somewhere LeftAt (turns messages) → EndsInResults (turns messages)) := by
  have hmerged := merged_preparedTurns messages
  have hfresh := fresh_preparedTurns messages
  have hopening : opening.isSystem := by decide
  have hsystems : ∀ s ∈ [opening], s.isSystem := forall_mem_singleton.2 hopening
  rw [sanitizeAnthropic_idem_iff, ← somewhere_preparedTurns Condenses.somewhere_cutAt,
    ← somewhere_completedAt_preparedTurns, EndsInResults,
    ← somewhere_preparedTurns Condenses.endsInResults, ← EndsInResults]
  dsimp only
  rw [← keepsFirst_prepare.fixed_iff hsystems, singleton_append,
    ← keepsFirst_trim opening _ hopening, prepared_eq]
  generalize preparedTurns messages = ts at hmerged hfresh ⊢
  have hrepaired : ∀ t ∈ ts, t.Repaired := fun t ht => (hmerged t ht).toRepaired
  by_cases htrim : EndsInResults ts ∧ ∃ t ∈ ts, t.Asks
  · obtain ⟨hends, hasks⟩ := htrim
    obtain ⟨before, t, rest, rfl, hasks, hnone⟩ := exists_lastAsks hasks
    obtain ⟨user, husers, hspeaks, hturn⟩ := lastTurn_flatten hmerged hasks hnone
    have ht : t ∈ before ++ t :: rest := mem_append_right _ mem_cons_self
    have hrest {t' : Turn} (ht' : t' ∈ rest) : t' ∈ before ++ t :: rest :=
      mem_append_right _ (mem_cons_of_mem t ht')
    have huser : user ∈ t.users := husers ▸ mem_cons_self
    rw [trim_of_lastTurn ((endsInResults_iff hmerged).2 hends) hturn,
      keepsFirst_prepare.fixed_iff fun _ hs => mem_takeWhile_imp hs,
      prepare_turn (fun t' ht' => hmerged t' (hrest ht')) (fun t' ht' => hfresh t' (hrest ht'))
        hnone hspeaks, List.cons.injEq, and_iff_left rfl,
      withoutResults_eq_self_iff ((hfresh t ht).users user huser),
      somewhere_cutAt_iff (hmerged t ht) husers hasks hnone (hends.of_asks hasks),
      and_iff_left fun _ => hends]
    simp only [not_exists, not_and]
  · have hsame : trimAnthropicReplayToCurrentTurn (flatten ts) = flatten ts := by
      refine trim_eq_self fun hresults => lastTurn_eq_none hmerged fun t ht hasks => ?_
      exact htrim ⟨(endsInResults_iff hmerged).1 hresults, t, ht, hasks⟩
    have hends : Somewhere CompletedAt ts → ¬ EndsInResults ts := by
      rintro ⟨t, after, hsuffix, -, answer, hanswer, -, -, -, hasks⟩ hends
      exact htrim ⟨hends, answer, hsuffix.subset
        (mem_cons_of_mem t (mem_of_mem_head? hanswer)), hasks⟩
    rw [hsame, prepare_flatten fun t ht => (hrepaired t ht).toWellFormed,
      prepareTurns_eq hmerged hfresh, flatten_collapseTurns_iff hrepaired,
      and_iff_right (somewhere_of_not_trimmed htrim).1]
    exact ⟨fun h hsome => absurd hsome h, fun h hsome => hends hsome (h hsome)⟩

end RavBot.Core
