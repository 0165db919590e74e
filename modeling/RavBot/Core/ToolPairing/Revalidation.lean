import RavBot.Core.ToolPairing.Idempotence

/-!
# Sanitizing a request again with the validator

With the validator, the messages that are sanitized again have been stripped of calls without
ids.  A turn with such a call then concludes the round before it (`OpenAt`), so that the next
pass collapses that round.
-/

open List

namespace RavBot.Core

open RavBot.Lib TurnValidator

/-- A round of calls before calls without ids that the user answers. -/
def OpenAt (t : Turn) (after : List Turn) : Prop :=
  t.Round ∧ ∃ answer ∈ after.head?, answer.Idless ∧ answer.Asks

/-! ## Stripping prepared turns -/

namespace Turn

variable {t : Turn}

theorem Merged.strip_eq (ht : t.Merged) (hfresh : t.Fresh) (h : ¬ (t.Idless ∧ t.Asks)) :
    t.strip = t := by
  have hanswers := ht.calls
  rw [reply] at hanswers
  cases husers : t.users with
  | nil => exact strip_of_users husers
  | cons user users =>
    rw [husers] at hanswers
    unfold strip
    rw [husers]
    dsimp only
    split_ifs with hrole
    · have hmsg : stripBefore t.msg user.content = t.msg := by
        by_cases hcalls : t.msg.content.any (·.isToolUse)
        · have hids : collectToolUseIds t.msg ≠ [] := by
            rintro hids
            have hidless : t.Idless := ⟨hrole, hcalls, hids⟩
            have hnil := (ht.idless_iff.1 ⟨hidless, fun hasks => h ⟨hidless, hasks⟩⟩).2
            rw [husers] at hnil
            cases hnil
          obtain ⟨htime, hne⟩ := hfresh.msg hrole hids
          obtain ⟨c, hc, -⟩ := any_eq_true.1 hcalls
          have hfilter : t.msg.content.filter (fun b => !b.isToolUse ||
              ((user.content.filter fun b => b.isToolResult && b.toolUseId ≠ "").map
                (·.toolUseId)).contains b.id) = t.msg.content := by
            refine filter_eq_self.2 fun b hb => ?_
            by_cases huse : b.isToolUse
            · have hid := mem_collectToolUseIds.2 ⟨hne b hb huse, b, hb, huse, rfl⟩
              obtain ⟨r, hr, hresult, hrid⟩ := hanswers hrole b.id hid
              have hmem : b.id ∈ (user.content.filter fun b =>
                  b.isToolResult && b.toolUseId ≠ "").map (·.toolUseId) := by
                refine mem_map.2 ⟨r, mem_filter.2 ⟨hr, ?_⟩, hrid⟩
                rw [hresult, hrid]
                simpa using hne b hb huse
              simp only [contains_iff_mem.2 hmem, Bool.or_true]
            · simp [huse]
          rw [stripBefore, if_pos hcalls, hfilter,
            if_neg (by simpa using ne_nil_of_mem hc), ← htime]
        · rw [stripBefore, if_neg hcalls]
      rw [hmsg, ← husers]
    · rfl

theorem not_hasToolUseBlocks_strip (hidless : t.Idless) (hasks : t.Asks) :
    ¬ hasToolUseBlocks t.strip.msg := by
  rintro huse
  obtain ⟨user, huser, -⟩ := hasks
  obtain ⟨first, users, husers⟩ := exists_cons_of_ne_nil (ne_nil_of_mem huser)
  obtain ⟨b, hb, huse⟩ := any_eq_true.1 huse
  obtain ⟨hb, hid, -⟩ := (mem_strip_msg husers hidless.1 huse).1 hb
  have hmem := mem_collectToolUseIds.2 ⟨hid, b, hb, huse, rfl⟩
  rw [hidless.2.2] at hmem
  cases hmem

theorem strip_asks : t.strip.Asks ↔ t.Asks := by rw [Asks, Asks, strip_users]

theorem ids_eq_nil_of_not {msg : Message} (h : ¬ hasToolUseBlocks msg) :
    collectToolUseIds msg = [] := by
  refine eq_nil_iff_forall_not_mem.2 fun id hid => ?_
  obtain ⟨-, c, hc, huse, -⟩ := mem_collectToolUseIds.1 hid
  exact h (any_eq_true.2 ⟨c, hc, huse⟩)

theorem not_answered_of_ids (h : collectToolUseIds t.msg = []) : ¬ t.Answered := by
  rintro ⟨-, r, -, -, hid⟩
  rw [h] at hid
  cases hid

theorem Merged.strip (ht : t.Merged) (hfresh : t.Fresh) : t.strip.Merged ∧ t.strip.Fresh := by
  by_cases h : t.Idless ∧ t.Asks
  · have hids := ids_eq_nil_of_not (not_hasToolUseBlocks_strip h.1 h.2)
    have hreply : t.strip.reply = t.reply := by rw [reply, reply, strip_users]
    have husers := strip_users t
    refine ⟨⟨⟨⟨?_, ?_⟩, ?_, ?_, ?_, ?_⟩, ?_⟩, ?_, fun _ hne => absurd hids hne⟩
    · rw [strip_msg_role]
      exact ht.msg_role
    · rw [husers]
      exact ht.user_role
    · rw [husers]
      exact ht.nonempty
    · rw [husers]
      exact ht.later
    · rintro r hr hresult
      rw [hreply] at hr
      have hid := (ht.results r hr hresult).2
      rw [h.1.2.2] at hid
      cases hid
    · rintro - id hid
      rw [hids] at hid
      cases hid
    · rw [husers]
      exact ht.single
    · rw [husers]
      exact hfresh.users
  · rw [ht.strip_eq hfresh h]
    exact ⟨ht, hfresh⟩

theorem Merged.strip_strip (ht : t.Merged) (hfresh : t.Fresh) : t.strip.strip = t.strip := by
  by_cases h : t.Idless ∧ t.Asks
  · obtain ⟨ht', hfresh'⟩ := ht.strip hfresh
    exact ht'.strip_eq hfresh' fun h' => not_hasToolUseBlocks_strip h.1 h.2 h'.1.2.1
  · rw [ht.strip_eq hfresh h, ht.strip_eq hfresh h]

theorem Merged.strip_round (ht : t.Merged) (hfresh : t.Fresh) : t.strip.Round ↔ t.Round := by
  by_cases h : t.Idless ∧ t.Asks
  · exact iff_of_false (fun hround => hround.2 (strip_asks.2 h.2)) fun hround => hround.2 h.2
  · rw [ht.strip_eq hfresh h]

theorem Merged.strip_concludes (ht : t.Merged) (hfresh : t.Fresh) :
    t.strip.Concludes ↔ t.Concludes ∨ t.Idless ∧ t.Asks := by
  by_cases h : t.Idless ∧ t.Asks
  · have hcalls := not_hasToolUseBlocks_strip h.1 h.2
    refine iff_of_true ⟨?_, not_answered_of_ids (ids_eq_nil_of_not hcalls),
      fun hidless => hcalls hidless.2.1, strip_asks.2 h.2⟩ (.inr h)
    rw [strip_msg_role]
    exact h.1.1
  · rw [ht.strip_eq hfresh h, or_iff_left h]

end Turn

theorem somewhere_completedAt_strip {ts : List Turn} (hts : ∀ t ∈ ts, t.Merged)
    (hfresh : ∀ t ∈ ts, t.Fresh) :
    Somewhere CompletedAt (ts.map Turn.strip) ↔
      Somewhere CompletedAt ts ∨ Somewhere OpenAt ts := by
  induction ts with
  | nil => simp
  | cons t rest ih =>
    obtain ⟨ht, hrest⟩ := forall_mem_cons.1 hts
    obtain ⟨htf, hrestf⟩ := forall_mem_cons.1 hfresh
    have hplace : CompletedAt t.strip (rest.map Turn.strip) ↔
        CompletedAt t rest ∨ OpenAt t rest := by
      rw [CompletedAt, CompletedAt, OpenAt, ← and_or_left, ht.strip_round htf]
      refine and_congr_right fun _ => ?_
      cases rest with
      | nil => simp
      | cons answer after =>
        have hanswer := (hrest answer mem_cons_self).strip_concludes
          (hrestf answer mem_cons_self)
        simpa using hanswer
    rw [map_cons, somewhere_cons, somewhere_cons, somewhere_cons, ih hrest hrestf, hplace,
      or_or_or_comm]

theorem somewhere_openAt_collapseTurns {ts : List Turn} (hts : ∀ t ∈ ts, t.Repaired) :
    Somewhere OpenAt (collapseTurns ts) ↔ Somewhere OpenAt ts := by
  induction ts with
  | nil => exact iff_of_false (somewhere_nil _) (somewhere_nil _)
  | cons t rest ih =>
    obtain ⟨ht, hrest⟩ := forall_mem_cons.1 hts
    rw [somewhere_cons, ← ih hrest, collapseTurns]
    split_ifs with h
    · obtain ⟨-, answer, hanswer, hconcludes⟩ := (ht.collapses_iff hrest).1 h
      refine (or_iff_right ?_).symm
      rintro ⟨-, answer', hanswer', hidless, -⟩
      rw [Option.mem_unique hanswer' hanswer] at hidless
      exact hconcludes.2.2.1 hidless
    · rw [somewhere_cons]
      refine or_congr_left (and_congr_right fun hround => ?_)
      cases rest with
      | nil => simp [collapseTurns]
      | cons next after =>
        obtain ⟨hnext, hafter⟩ := forall_mem_cons.1 hrest
        by_cases hcollapses : next.collapses after
        · obtain ⟨hround', answer, hanswer, hconcludes⟩ :=
            (hnext.collapses_iff hafter).1 hcollapses
          refine iff_of_false ?_ ?_
          · rw [collapseTurns, if_pos hcollapses, ← cons_head?_tail hanswer,
              collapseTurns_cons_of_concludes]
            · rintro ⟨answer', hanswer', hidless, -⟩
              cases hanswer'
              exact hconcludes.2.2.1 hidless
            · rw [cons_head?_tail hanswer]
              exact hafter
            · exact hconcludes
          · rintro ⟨next', hnext', -, hasks⟩
            cases hnext'
            exact hround'.2 hasks
        · rw [collapseTurns, if_neg hcollapses]
          rfl

theorem somewhere_openAt_preparedTurns (messages : List Message) :
    Somewhere OpenAt (preparedTurns messages) ↔ Somewhere OpenAt (turns messages) := by
  have hmap {f : Turn → Turn} {ts : List Turn} (halike : ∀ t ∈ ts, t.Alike (f t)) :
      Somewhere OpenAt (ts.map f) ↔ Somewhere OpenAt ts := by
    rw [somewhere_map]
    refine somewhere_congr fun t after hsuffix => ?_
    refine and_congr (halike t (hsuffix.subset mem_cons_self)).round ?_
    cases after with
    | nil => simp
    | cons answer after =>
      have hanswer := halike answer (hsuffix.subset (mem_cons_of_mem t mem_cons_self))
      simpa using and_congr hanswer.idless hanswer.asks
  have hrepaired := repaired_turns messages
  rw [preparedTurns, hmap fun t ht => Turn.alike_merge (hrepaired t (collapseTurns_subset _ ht)),
    somewhere_openAt_collapseTurns hrepaired,
    hmap fun t ht => Turn.alike_repair (wellFormed_turns messages t ht)]

/-! ## Messages with content -/

theorem isChain_flatten {ts : List Turn} (hts : ∀ t ∈ ts, t.WellFormed)
    (hsingle : ∀ t ∈ ts, t.users.tail = []) (x : Message) :
    (x :: flatten ts).IsChain fun a b => joinRole "user" a b = none := by
  induction ts generalizing x with
  | nil => exact isChain_singleton x
  | cons t rest ih =>
    obtain ⟨ht, hrest⟩ := forall_mem_cons.1 hts
    obtain ⟨htail, hsingle⟩ := forall_mem_cons.1 hsingle
    have hnone {a b : Message} (h : ¬ (a.role = "user" ∧ b.role = "user")) :
        joinRole "user" a b = none := if_neg h
    rw [flatten_cons, isChain_cons_cons]
    refine ⟨hnone fun h => ht.msg_role h.2, ?_⟩
    cases husers : t.users with
    | nil => exact ih hrest hsingle t.msg
    | cons user users =>
      rw [husers, tail_cons] at htail
      rw [htail]
      exact isChain_cons_cons.2
        ⟨hnone fun h => ht.msg_role h.1, ih hrest hsingle user⟩

theorem fix_flatten {ts : List Turn} (hts : ∀ t ∈ ts, t.WellFormed)
    (hsingle : ∀ t ∈ ts, t.users.tail = []) (hcontent : ∀ m ∈ flatten ts, m.content ≠ []) :
    fixAnthropicTurns (flatten ts) = flatten (ts.map Turn.strip) := by
  have hts' : ∀ t ∈ ts.map Turn.strip, t.WellFormed := by
    rw [forall_mem_map]
    rintro t ht
    refine ⟨?_, ?_⟩
    · rw [Turn.strip_msg_role]
      exact (hts t ht).msg_role
    · rw [Turn.strip_users]
      exact (hts t ht).user_role
  have hsingle' : ∀ t ∈ ts.map Turn.strip, t.users.tail = [] := by
    rw [forall_mem_map]
    rintro t ht
    rw [Turn.strip_users]
    exact hsingle t ht
  have hkept : kept (flatten (ts.map Turn.strip)) = flatten (ts.map Turn.strip) := by
    refine filter_eq_self.2 fun m hm => ?_
    obtain ⟨_, hstrip, hm⟩ := mem_flatMap.1 hm
    obtain ⟨t, ht, rfl⟩ := mem_map.1 hstrip
    have hmem {m : Message} (hm : m ∈ t.toList) : m ∈ flatten ts :=
      mem_flatMap.2 ⟨t, ht, hm⟩
    rw [Bool.not_eq_true', isEmpty_eq_false_iff]
    rcases mem_cons.1 hm with rfl | hm
    · exact (Turn.strip_msg_eq_nil t).not.2 (hcontent t.msg (hmem mem_cons_self))
    · rw [Turn.strip_users] at hm
      exact hcontent m (hmem (mem_cons_of_mem t.msg hm))
  rw [fixAnthropicTurns, strip_flatten hts, mergeConsecutiveRole_eq, hkept]
  exact foldl_mergeStep_eq_self (isChain_flatten hts' hsingle' opening).tail

def Message.Leads (m : Message) : Prop := m.isSystem ∧ m.content ≠ []

theorem leads_hintMessage : hintMessage.Leads := ⟨isSystem_hintMessage, by decide⟩

theorem leads_opening : opening.Leads := ⟨by decide, by decide⟩

theorem keepsFirst_fix : KeepsFirst Message.Leads fixAnthropicTurns := by
  rintro s messages ⟨hs, hcontent⟩
  obtain ⟨huser, hassistant⟩ := Message.isSystem_role hs
  rw [fixAnthropicTurns, strip_cons fun _ _ h => hassistant h.1, mergeConsecutiveRole_cons huser,
    unlessEmpty, if_neg (by simpa using hcontent)]
  rfl

theorem length_fix_le (messages : List Message) :
    (fixAnthropicTurns messages).length ≤ messages.length := by
  have hstrip : (stripDanglingToolUses messages).length = messages.length := by
    induction messages with
    | nil => rfl
    | cons msg rest ih => simp [stripDanglingToolUses.eq_def (msg :: rest), ih]
  rw [fixAnthropicTurns, mergeConsecutiveRole_eq]
  calc _ ≤ (kept (stripDanglingToolUses messages)).length := length_foldl_mergeStep_le _
    _ ≤ (stripDanglingToolUses messages).length := length_filter_le _ _
    _ = messages.length := hstrip

theorem prepare_content {messages : List Message}
    (h : ∀ m ∈ messages, m.role ≠ "user" → m.content ≠ []) :
    ∀ m ∈ flatten (preparedTurns messages), m.content ≠ [] := by
  rintro m hm
  obtain ⟨t, ht, hm⟩ := mem_flatMap.1 hm
  rcases mem_cons.1 hm with rfl | hm
  · rw [preparedTurns] at ht
    obtain ⟨t', ht', rfl⟩ := mem_map.1 ht
    obtain ⟨raw, hraw, rfl⟩ := mem_map.1 (collapseTurns_subset _ ht')
    refine (Turn.repair_msg_eq_nil raw).not.2 ?_
    have hmem : raw.msg ∈ opening :: messages := by
      rw [← flatten_turns]
      exact mem_flatMap.2 ⟨raw, hraw, mem_cons_self⟩
    rcases mem_cons.1 hmem with heq | hmem
    · rw [heq]
      decide
    · exact h raw.msg hmem (wellFormed_turns messages raw hraw).msg_role
  · exact (merged_preparedTurns messages t ht).nonempty m hm

/-! ## The hint and stripped messages -/

/-- The message stays, or it is a message of the assistant's and has no call with an id before
or after. -/
def StripsTo (m m' : Message) : Prop :=
  m' = m ∨ m.role = "assistant" ∧ m'.role = "assistant" ∧ collectToolUseIds m = [] ∧
    collectToolUseIds m' = []

theorem forall₂_strip {ts : List Turn} (hts : ∀ t ∈ ts, t.Merged) (hfresh : ∀ t ∈ ts, t.Fresh) :
    List.Forall₂ StripsTo (flatten ts) (flatten (ts.map Turn.strip)) := by
  have hrefl (l : List Message) : List.Forall₂ StripsTo l l := by
    induction l with
    | nil => exact .nil
    | cons m l ih => exact .cons (.inl rfl) ih
  induction ts with
  | nil => exact .nil
  | cons t rest ih =>
    obtain ⟨ht, hrest⟩ := forall_mem_cons.1 hts
    obtain ⟨htf, hrestf⟩ := forall_mem_cons.1 hfresh
    have hmsg : StripsTo t.msg t.strip.msg := by
      by_cases h : t.Idless ∧ t.Asks
      · refine .inr ⟨h.1.1, ?_, h.1.2.2,
          Turn.ids_eq_nil_of_not (Turn.not_hasToolUseBlocks_strip h.1 h.2)⟩
        rw [Turn.strip_msg_role]
        exact h.1.1
      · rw [ht.strip_eq htf h]
        exact .inl rfl
    rw [map_cons, flatten_cons, flatten_cons, Turn.strip_users]
    exact .cons hmsg (rel_append (hrefl t.users) (ih hrest hrestf))

section Strips

variable {messages messages' : List Message} (h : List.Forall₂ StripsTo messages messages')

include h in
theorem StripsTo.findSome?_eq {β : Type} {find : Message → Option β}
    (hfind : ∀ m, collectToolUseIds m = [] → find m = none) :
    (messages'.filter (·.role = "assistant")).findSome? find =
      (messages.filter (·.role = "assistant")).findSome? find := by
  induction h with
  | nil => rfl
  | @cons m m' messages messages' hm _ ih =>
    rw [filter_cons, filter_cons]
    rcases hm with rfl | ⟨hrole, hrole', hids, hids'⟩
    · split_ifs
      · rw [findSome?_cons, findSome?_cons, ih]
      · exact ih
    · rw [if_pos (decide_eq_true hrole), if_pos (decide_eq_true hrole'), findSome?_cons,
        findSome?_cons, hfind m hids, hfind m' hids']
      exact ih

include h in
theorem StripsTo.names_eq :
    collectTrailingReplayToolNames messages' = collectTrailingReplayToolNames messages := by
  have hreverse := rel_reverse h
  rw [collectTrailingReplayToolNames, collectTrailingReplayToolNames, h.length_eq]
  split_ifs
  · rfl
  · generalize messages.reverse = l at hreverse
    generalize messages'.reverse = l' at hreverse
    cases hreverse with
    | nil => rfl
    | cons hlast hearlier =>
      rcases hlast with rfl | ⟨hrole, hrole', -⟩
      · dsimp only
        rw [StripsTo.findSome?_eq hearlier]
        rintro m hids
        refine if_pos ?_
        rw [List.isEmpty_iff, map_eq_nil_iff, filter_eq_nil_iff]
        rintro b hb hcall
        simp only [Bool.and_eq_true, decide_eq_true_eq] at hcall
        have hmem := mem_collectToolUseIds.2 ⟨hcall.1.1.2, b, hb, hcall.1.1.1, rfl⟩
        rw [hids] at hmem
        cases hmem
      · dsimp only
        rw [if_pos, if_pos]
        · rw [hrole]
          decide
        · rw [hrole']
          decide

include h in
theorem StripsTo.exists_hasHint (hhint : ∃ m ∈ messages, m.hasHint) :
    ∃ m ∈ messages', m.hasHint := by
  induction h with
  | nil => exact hhint
  | @cons m m' messages messages' hm _ ih =>
    obtain ⟨x, hx, hx'⟩ := hhint
    rcases mem_cons.1 hx with rfl | hx
    · rcases hm with rfl | ⟨hrole, -⟩
      · exact ⟨_, mem_cons_self, hx'⟩
      · rw [Message.hasHint, Bool.and_eq_true] at hx'
        exact absurd hrole (Message.isSystem_role hx'.1).2
    · obtain ⟨y, hy, hy'⟩ := ih ⟨x, hx, hx'⟩
      exact ⟨y, mem_cons_of_mem m' hy, hy'⟩

end Strips

theorem withHint_eq_self_iff (messages : List Message) :
    withHint messages = messages ↔
      ("web_search" ∈ collectTrailingReplayToolNames messages →
        ∃ m ∈ messages, m.hasHint) := by
  rw [withHint, maybeAddWebSearchReplayInstruction, ← contains_iff_mem]
  split_ifs with hnames hany
  · exact iff_of_true rfl fun _ => any_eq_true.1 hany
  · refine iff_of_false (fun heq => ?_) fun h => hany (any_eq_true.2 (h hnames))
    have hlength := congrArg List.length heq
    have hall := congrArg List.length
      (takeWhile_append_dropWhile (p := (·.isSystem)) (l := messages))
    rw [length_append] at hlength hall
    rw [length_cons] at hlength
    omega
  · exact iff_of_true rfl fun h => absurd h hnames

theorem withHint_strip {messages messages' : List Message}
    (h : List.Forall₂ StripsTo messages messages') (hhint : withHint messages = messages) :
    withHint messages' = messages' := by
  rw [withHint_eq_self_iff] at hhint ⊢
  rw [StripsTo.names_eq h]
  exact fun hnames => StripsTo.exists_hasHint h (hhint hnames)

/-! ## Sanitizing again -/

/-- The transforms for Anthropic, with the validator after them. -/
def sanitizeValidated (messages : List Message) : List Message :=
  fixAnthropicTurns (sanitizeAnthropic messages)

/-- Messages that stay as they are when they are sanitized are as many when they are prepared,
and those are then validated to the same. -/
theorem sanitizeValidated_fixed {messages : List Message}
    (hcontent : ∀ m ∈ messages, m.content ≠ []) (h : sanitizeValidated messages = messages) :
    fixAnthropicTurns (prepare messages) = messages ∧
      (prepare messages).length = messages.length := by
  rw [sanitizeValidated, sanitizeAnthropic] at h
  have hsublist := (trim_spec (prepare messages)).2.1
  have hprepared : ∀ m ∈ prepare messages, m.content ≠ [] := by
    rintro m hm
    refine prepare_content (fun m hm _ => hcontent m hm) m ?_
    rw [← prepared_eq]
    exact mem_cons_of_mem opening hm
  rcases withHint_cases (trimAnthropicReplayToCurrentTurn (prepare messages)) with
    hsame | ⟨hnone, hadd⟩
  · rw [hsame] at h
    have hlength := length_fix_le (trimAnthropicReplayToCurrentTurn (prepare messages))
    rw [h] at hlength
    have htrim := hsublist.eq_of_length_le ((length_prepare_le messages).trans hlength)
    rw [htrim] at h hlength
    exact ⟨h, (length_prepare_le messages).antisymm hlength⟩
  · -- The messages have the hint already, and no transform removes it.
    rw [hadd] at h
    generalize hsystems' : List.takeWhile _ _ = systems at h
    generalize List.dropWhile _ _ = rest at h
    have hsystems : ∀ s ∈ systems, s.Leads := by
      rintro s hs
      rw [← hsystems'] at hs
      exact ⟨mem_takeWhile_imp hs, hprepared s (hsublist.subset (takeWhile_subset _ hs))⟩
    have hsystem : ∀ s ∈ systems, s.isSystem := fun s hs => (hsystems s hs).1
    rw [keepsFirst_fix.append hsystems, keepsFirst_fix hintMessage _ leads_hintMessage] at h
    refine absurd hasHint_hintMessage (hnone hintMessage ?_)
    rw [← h, keepsFirst_prepare.append hsystem, keepsFirst_trim.append hsystem,
      keepsFirst_prepare _ _ isSystem_hintMessage, keepsFirst_trim _ _ isSystem_hintMessage]
    exact mem_append_right _ mem_cons_self

/-- With the validator, sanitized messages stay as they are when they are sanitized again if and
only if the trimmed and validated messages stay as they are when they are prepared again. -/
theorem sanitizeValidated_idem_iff {trimmed : List Message}
    (hcontent : ∀ m ∈ trimmed, m.content ≠ [])
    (hcontent' : ∀ m ∈ fixAnthropicTurns trimmed, m.content ≠ [])
    (htrim : trimAnthropicReplayToCurrentTurn (fixAnthropicTurns trimmed) =
      fixAnthropicTurns trimmed)
    (hfix : fixAnthropicTurns (fixAnthropicTurns trimmed) = fixAnthropicTurns trimmed)
    (hhint : withHint trimmed = trimmed →
      withHint (fixAnthropicTurns trimmed) = fixAnthropicTurns trimmed)
    (hprepare : fixAnthropicTurns (prepare (fixAnthropicTurns trimmed)) =
        fixAnthropicTurns trimmed →
      (prepare (fixAnthropicTurns trimmed)).length = (fixAnthropicTurns trimmed).length →
      prepare (fixAnthropicTurns trimmed) = fixAnthropicTurns trimmed) :
    sanitizeValidated (fixAnthropicTurns (withHint trimmed)) =
        fixAnthropicTurns (withHint trimmed) ↔
      prepare (fixAnthropicTurns trimmed) = fixAnthropicTurns trimmed := by
  generalize honce_eq : fixAnthropicTurns (withHint trimmed) = once
  obtain ⟨systems, systems', rest, htrimmed, hhinted, hsystems, hsystems'⟩ :=
    exists_systems trimmed
  have hleads : ∀ s ∈ systems, s.Leads := fun s hs =>
    ⟨(hsystems s hs).1, hcontent s (hsystems s hs).2⟩
  have hleads' : ∀ s ∈ systems', s.Leads := by
    rintro s hs
    rcases (hsystems' s hs).2 with hmem | rfl
    · exact ⟨(hsystems' s hs).1, hcontent s hmem⟩
    · exact leads_hintMessage
  have hvalid : fixAnthropicTurns trimmed = systems ++ fixAnthropicTurns rest := by
    rw [htrimmed, keepsFirst_fix.append hleads]
  have honce : once = systems' ++ fixAnthropicTurns rest := by
    rw [← keepsFirst_fix.append hleads', ← hhinted, honce_eq]
  have hsame {pass : List Message → List Message} (h : KeepsFirst Message.Leads pass) :
      pass once = once ↔ pass (fixAnthropicTurns trimmed) = fixAnthropicTurns trimmed := by
    rw [honce, hvalid, h.fixed_iff hleads, h.fixed_iff hleads']
  have hkeeps_prepare : KeepsFirst Message.Leads prepare := keepsFirst_prepare.mono fun _ h => h.1
  have hkeeps_trim : KeepsFirst Message.Leads trimAnthropicReplayToCurrentTurn :=
    keepsFirst_trim.mono fun _ h => h.1
  constructor
  · intro h
    have honce_content : ∀ m ∈ once, m.content ≠ [] := by
      rintro m hm
      rw [honce] at hm
      rcases mem_append.1 hm with hm | hm
      · exact (hleads' m hm).2
      · refine hcontent' m ?_
        rw [hvalid]
        exact mem_append_right _ hm
    obtain ⟨hfixed, hlength⟩ := sanitizeValidated_fixed honce_content h
    refine hprepare ((hsame (hkeeps_prepare.comp keepsFirst_fix)).1 hfixed) ?_
    rw [honce, hkeeps_prepare.append hleads', length_append, length_append,
      Nat.add_left_cancel_iff] at hlength
    rw [hvalid, hkeeps_prepare.append hleads, length_append, length_append, hlength]
  · intro h
    have hprepare_once := (hsame hkeeps_prepare).2 h
    have htrim_once := (hsame hkeeps_trim).2 htrim
    have hfix_once := (hsame keepsFirst_fix).2 hfix
    have hhint_once : withHint once = once := by
      rcases withHint_cases trimmed with hno | ⟨-, hadd⟩
      · rw [hno] at honce_eq
        rw [← honce_eq, hhint hno]
      · apply withHint_eq_self
        have htake : ∀ s ∈ trimmed.takeWhile (·.isSystem), s.Leads := fun s hs =>
          ⟨mem_takeWhile_imp hs, hcontent s (takeWhile_subset _ hs)⟩
        rw [← honce_eq, hadd, keepsFirst_fix.append htake, keepsFirst_fix _ _ leads_hintMessage]
        exact mem_append_right _ mem_cons_self
    rw [sanitizeValidated, sanitizeAnthropic, hprepare_once, htrim_once, hhint_once, hfix_once]

theorem fix_turn {ts : List Turn} (hts : ∀ t ∈ ts, t.Merged) (hfresh : ∀ t ∈ ts, t.Fresh)
    (hnone : ∀ t ∈ ts, ¬ t.Asks) (hcontent : ∀ m ∈ flatten ts, m.content ≠ []) {user : Message}
    (hrole : user.role = "user") (huser : user.content ≠ []) :
    fixAnthropicTurns (user :: flatten ts) = user :: flatten ts := by
  have hflatten : flatten (⟨opening, [user]⟩ :: ts) = opening :: user :: flatten ts :=
    flatten_cons _ _
  have hwf : ∀ t ∈ (⟨opening, [user]⟩ : Turn) :: ts, t.WellFormed :=
    forall_mem_cons.2 ⟨⟨(Message.isSystem_role leads_opening.1).1,
      forall_mem_singleton.2 hrole⟩, fun t ht => (hts t ht).toWellFormed⟩
  have hsingle : ∀ t ∈ (⟨opening, [user]⟩ : Turn) :: ts, t.users.tail = [] :=
    forall_mem_cons.2 ⟨rfl, fun t ht => (hts t ht).single⟩
  have hcontent' : ∀ m ∈ flatten (⟨opening, [user]⟩ :: ts), m.content ≠ [] := by
    rw [hflatten, forall_mem_cons, forall_mem_cons]
    exact ⟨leads_opening.2, huser, hcontent⟩
  have hfirst : Turn.strip ⟨opening, [user]⟩ = ⟨opening, [user]⟩ := by
    rw [Turn.strip]
    exact if_neg (Message.isSystem_role leads_opening.1).2
  have hstrip : ∀ t ∈ ts, t.strip = t := fun t ht =>
    (hts t ht).strip_eq (hfresh t ht) fun h => hnone t ht h.2
  have hfix := fix_flatten hwf hsingle hcontent'
  rw [map_cons, hfirst, map_congr_left hstrip, map_id', hflatten,
    keepsFirst_fix opening _ leads_opening] at hfix
  exact (List.cons.inj hfix).2

/-- Whether another pass of the transforms leaves validated messages as they are is seen with
the opening before them. -/
theorem sanitizeValidated_idem_iff_opening {trimmed valid : List Message}
    (hvalid : fixAnthropicTurns (opening :: trimmed) = opening :: valid)
    (hcontent : ∀ m ∈ opening :: trimmed, m.content ≠ [])
    (hcontent' : ∀ m ∈ opening :: valid, m.content ≠ [])
    (htrim : trimAnthropicReplayToCurrentTurn (opening :: valid) = opening :: valid)
    (hfix : fixAnthropicTurns (opening :: valid) = opening :: valid)
    (hstrips : List.Forall₂ StripsTo (opening :: trimmed) (opening :: valid))
    (hprepare : fixAnthropicTurns (prepare (opening :: valid)) = opening :: valid →
      (prepare (opening :: valid)).length = (opening :: valid).length →
      prepare (opening :: valid) = opening :: valid) :
    sanitizeValidated (fixAnthropicTurns (withHint trimmed)) =
        fixAnthropicTurns (withHint trimmed) ↔ prepare (opening :: valid) = opening :: valid := by
  have hkeeps_prepare : KeepsFirst Message.Leads prepare := keepsFirst_prepare.mono fun _ h => h.1
  have hkeeps_trim : KeepsFirst Message.Leads trimAnthropicReplayToCurrentTurn :=
    keepsFirst_trim.mono fun _ h => h.1
  have hdrop {pass : List Message → List Message} (h : KeepsFirst Message.Leads pass) :
      pass (opening :: valid) = opening :: valid ↔ pass valid = valid := by
    rw [h opening valid leads_opening, cons_inj_right]
  have hdrop_prepare := hdrop hkeeps_prepare
  have hdrop_both := hdrop (hkeeps_prepare.comp keepsFirst_fix)
  rw [keepsFirst_fix opening trimmed leads_opening, cons_inj_right] at hvalid
  subst hvalid
  rw [hdrop_prepare] at hprepare ⊢
  rw [hdrop hkeeps_trim] at htrim
  rw [hdrop keepsFirst_fix] at hfix
  rw [Function.comp_apply, Function.comp_apply] at hdrop_both
  refine sanitizeValidated_idem_iff (forall_mem_cons.1 hcontent).2
    (forall_mem_cons.1 hcontent').2 htrim hfix ?_ fun hfixed hlength =>
      hprepare (hdrop_both.2 hfixed) ?_
  · cases hstrips with
    | cons _ hstrips => exact withHint_strip hstrips
  · rw [hkeeps_prepare opening _ leads_opening, length_cons, length_cons, hlength]

section Prepared

variable {ts : List Turn} {trimmed : List Message} (hmerged : ∀ t ∈ ts, t.Merged)
  (hfresh : ∀ t ∈ ts, t.Fresh) (hcontent : ∀ m ∈ flatten ts, m.content ≠ [])
  (htrimmed : trimAnthropicReplayToCurrentTurn (flatten ts) = opening :: trimmed)

include hmerged hfresh hcontent htrimmed

theorem validated_replay_iff (hends : EndsInResults ts) (hasks : ∃ t ∈ ts, t.Asks) :
    sanitizeValidated (fixAnthropicTurns (withHint trimmed)) =
        fixAnthropicTurns (withHint trimmed) ↔ ¬ Somewhere CutAt ts := by
  have hcontent_trimmed : ∀ m ∈ opening :: trimmed, m.content ≠ [] := by
    rw [← htrimmed]
    exact fun m hm => hcontent m ((trim_spec (flatten ts)).2.1.subset hm)
  have hagain := trim_trim (flatten ts)
  rw [htrimmed] at hagain
  obtain ⟨before, t, rest, rfl, hasks, hnone⟩ := exists_lastAsks hasks
  obtain ⟨user, husers, hspeaks, hturn⟩ := lastTurn_flatten hmerged hasks hnone
  have ht : t ∈ before ++ t :: rest := mem_append_right _ mem_cons_self
  have hmem {t' : Turn} (ht' : t' ∈ rest) : t' ∈ before ++ t :: rest :=
    mem_append_right _ (mem_cons_of_mem t ht')
  have hrest : ∀ t' ∈ rest, t'.Merged := fun t' ht' => hmerged t' (hmem ht')
  have hrestf : ∀ t' ∈ rest, t'.Fresh := fun t' ht' => hfresh t' (hmem ht')
  have huser : user ∈ t.users := husers ▸ mem_cons_self
  have hrole := (hmerged t ht).user_role user huser
  have htime := (hfresh t ht).users user huser
  rw [trim_of_lastTurn ((endsInResults_iff hmerged).2 hends) hturn] at htrimmed
  generalize hsystems' : List.takeWhile _ _ = systems at htrimmed
  have hleads : ∀ s ∈ systems, s.Leads := by
    rintro s hs
    refine ⟨?_, hcontent_trimmed s (htrimmed ▸ mem_append_left _ hs)⟩
    rw [← hsystems'] at hs
    exact mem_takeWhile_imp hs
  have hcontent_rest : ∀ m ∈ flatten rest, m.content ≠ [] := fun m hm =>
    hcontent_trimmed m (htrimmed ▸ mem_append_right _ (mem_cons_of_mem user hm))
  -- The validator changes nothing, also when the user's message has lost its results.
  have hfix {m : Message} (hm : m.role = "user") (hne : m.content ≠ []) :
      fixAnthropicTurns (systems ++ m :: flatten rest) = systems ++ m :: flatten rest := by
    rw [keepsFirst_fix.append hleads, fix_turn hrest hrestf hnone hcontent_rest hm hne]
  have hvalid : fixAnthropicTurns (opening :: trimmed) = opening :: trimmed := by
    rw [← htrimmed, hfix hrole ((hmerged t ht).nonempty user huser)]
  have hprepare : prepare (opening :: trimmed) = systems ++ withoutResults user :: flatten rest := by
    rw [← htrimmed, keepsFirst_prepare.append fun s hs => (hleads s hs).1,
      prepare_turn hrest hrestf hnone hspeaks]
  have hstrips : List.Forall₂ StripsTo (opening :: trimmed) (opening :: trimmed) :=
    forall₂_same.2 fun _ _ => .inl rfl
  rw [sanitizeValidated_idem_iff_opening hvalid hcontent_trimmed hcontent_trimmed hagain hvalid
      hstrips, hprepare, ← htrimmed, append_cancel_left_eq, List.cons.injEq, and_iff_left rfl,
    withoutResults_eq_self_iff htime,
    somewhere_cutAt_iff (hmerged t ht) husers hasks hnone (hends.of_asks hasks)]
  · simp only [not_exists, not_and]
  · intro hfixed _
    rw [hprepare] at hfixed ⊢
    rw [hasNonToolResultBlocks, Bool.and_eq_true, any_eq_true] at hspeaks
    obtain ⟨-, b, hb, hresult⟩ := hspeaks
    have hne : (withoutResults user).content ≠ [] :=
      ne_nil_of_mem (mem_filter.2 ⟨hb, hresult⟩)
    have hwithout : (withoutResults user).role = "user" := hrole
    rw [← hfixed, hfix hwithout hne]

theorem validated_untrimmed_iff (htrim : ¬ (EndsInResults ts ∧ ∃ t ∈ ts, t.Asks)) :
    sanitizeValidated (fixAnthropicTurns (withHint trimmed)) =
        fixAnthropicTurns (withHint trimmed) ↔ ¬ (Somewhere CompletedAt ts ∨ Somewhere OpenAt ts) := by
  have hsame : trimAnthropicReplayToCurrentTurn (flatten ts) = flatten ts := by
    refine trim_eq_self fun hresults => lastTurn_eq_none hmerged fun t ht hasks => ?_
    exact htrim ⟨(endsInResults_iff hmerged).1 hresults, t, ht, hasks⟩
  rw [hsame] at htrimmed
  have hmerged' : ∀ t ∈ ts.map Turn.strip, t.Merged :=
    forall_mem_map.2 fun t ht => ((hmerged t ht).strip (hfresh t ht)).1
  have hfresh' : ∀ t ∈ ts.map Turn.strip, t.Fresh :=
    forall_mem_map.2 fun t ht => ((hmerged t ht).strip (hfresh t ht)).2
  have hfix := fix_flatten (fun t ht => (hmerged t ht).toWellFormed)
    (fun t ht => (hmerged t ht).single) hcontent
  obtain ⟨valid, hvalid⟩ : ∃ valid, flatten (ts.map Turn.strip) = opening :: valid := by
    rw [← hfix, htrimmed, keepsFirst_fix opening _ leads_opening]
    exact ⟨_, rfl⟩
  have hcontent' : ∀ m ∈ flatten (ts.map Turn.strip), m.content ≠ [] := by
    rintro m hm
    obtain ⟨_, hstrip, hm⟩ := mem_flatMap.1 hm
    obtain ⟨t, ht, rfl⟩ := mem_map.1 hstrip
    rcases mem_cons.1 hm with rfl | hm
    · exact (Turn.strip_msg_eq_nil t).not.2
        (hcontent t.msg (mem_flatMap.2 ⟨t, ht, mem_cons_self⟩))
    · rw [Turn.strip_users] at hm
      exact (hmerged t ht).nonempty m hm
  have hfix' := fix_flatten (fun t ht => (hmerged' t ht).toWellFormed)
    (fun t ht => (hmerged' t ht).single) hcontent'
  have htwice : (ts.map Turn.strip).map Turn.strip = ts.map Turn.strip := by
    rw [map_map]
    exact map_congr_left fun t ht => (hmerged t ht).strip_strip (hfresh t ht)
  rw [htwice] at hfix'
  have htrim' : trimAnthropicReplayToCurrentTurn (flatten (ts.map Turn.strip)) =
      flatten (ts.map Turn.strip) := by
    refine trim_eq_self fun hresults => lastTurn_eq_none hmerged' fun t' ht' hasks => ?_
    obtain ⟨t, ht, rfl⟩ := mem_map.1 ht'
    have hends := (endsInResults_iff hmerged').1 hresults
    rw [EndsInResults, somewhere_map] at hends
    refine htrim ⟨(somewhere_congr fun last after hsuffix => ?_).1 hends, t, ht,
      Turn.strip_asks.1 hasks⟩
    have hlast := hsuffix.subset mem_cons_self
    exact and_congr map_eq_nil_iff ((hmerged last hlast).strip_round (hfresh last hlast))
  have hprepare : prepare (flatten (ts.map Turn.strip)) =
      flatten (collapseTurns (ts.map Turn.strip)) := by
    rw [prepare_flatten fun t ht => (hmerged' t ht).toWellFormed, prepareTurns_eq hmerged' hfresh']
  have hstrips := forall₂_strip hmerged hfresh
  have hiff := flatten_collapseTurns_iff fun t ht => (hmerged' t ht).toRepaired
  have hsublist := flatten_collapseTurns_sublist (ts.map Turn.strip)
  rw [somewhere_completedAt_strip hmerged hfresh, ← hprepare] at hiff
  rw [← hprepare] at hsublist
  rw [hvalid] at hcontent' hfix' htrim' hstrips hiff hsublist
  rw [hvalid, htrimmed] at hfix
  rw [htrimmed] at hstrips
  rw [← hiff]
  exact sanitizeValidated_idem_iff_opening hfix (htrimmed ▸ hcontent) hcontent' htrim' hfix' hstrips
    fun _ hlength => hsublist.eq_of_length hlength

end Prepared

/-- With the validator, sanitizing again leaves the messages of a request to Anthropic as they are
if and only if the first pass did not cut off results, and did not leave a round that the next
one collapses. -/
theorem sanitizeValidated_idem_iff_turns {messages : List Message}
    (hcontent : ∀ m ∈ messages, m.role ≠ "user" → m.content ≠ []) :
    sanitizeValidated (sanitizeValidated messages) = sanitizeValidated messages ↔
      ¬ Somewhere CutAt (turns messages) ∧
        (Somewhere LeftAt (turns messages) ∨ Somewhere OpenAt (turns messages) →
          EndsInResults (turns messages)) := by
  have hmerged := merged_preparedTurns messages
  have hfresh := fresh_preparedTurns messages
  have hprepared := prepare_content hcontent
  have htrimmed : trimAnthropicReplayToCurrentTurn (flatten (preparedTurns messages)) =
      opening :: trimAnthropicReplayToCurrentTurn (prepare messages) := by
    rw [← prepared_eq, keepsFirst_trim opening _ leads_opening.1]
  have hends : EndsInResults (preparedTurns messages) ↔ EndsInResults (turns messages) :=
    somewhere_preparedTurns Condenses.endsInResults messages
  rw [← somewhere_preparedTurns Condenses.somewhere_cutAt,
    ← somewhere_completedAt_preparedTurns, ← somewhere_openAt_preparedTurns, ← hends]
  show sanitizeValidated (fixAnthropicTurns (withHint _)) = fixAnthropicTurns (withHint _) ↔ _
  generalize trimAnthropicReplayToCurrentTurn (prepare messages) = trimmed at htrimmed ⊢
  generalize preparedTurns messages = ts at hmerged hfresh hprepared htrimmed ⊢
  by_cases htrim : EndsInResults ts ∧ ∃ t ∈ ts, t.Asks
  · rw [validated_replay_iff hmerged hfresh hprepared htrimmed htrim.1 htrim.2,
      and_iff_left fun _ => htrim.1]
  · rw [validated_untrimmed_iff hmerged hfresh hprepared htrimmed htrim,
      and_iff_right (somewhere_of_not_trimmed htrim).1]
    refine forall_congr' fun hsome => iff_of_false id fun hends => htrim ⟨hends, ?_⟩
    rcases hsome with ⟨t, after, hsuffix, -, answer, hanswer, -, -, -, hasks⟩ |
      ⟨t, after, hsuffix, -, answer, hanswer, -, hasks⟩
    all_goals exact ⟨answer, hsuffix.subset
      (mem_cons_of_mem t (mem_of_mem_head? hanswer)), hasks⟩

/-! ## Every provider -/

def Settles (pass : List Message → List Message) (messages : List Message) : Prop :=
  pass (pass messages) = pass messages

theorem settles_mergeConsecutiveRole (role : String) (messages : List Message) :
    Settles (mergeConsecutiveRole · role) messages := by
  have hjoin {a b c : Message} (h : joinRole role a b = some c) :
      a.role = role ∧ b.role = role ∧ c.role = role ∧ c.content = a.content ++ b.content := by
    rw [joinRole, Option.ite_none_right_eq_some, Option.some.injEq] at h
    obtain ⟨⟨ha, hb⟩, rfl⟩ := h
    exact ⟨ha, hb, ha, rfl⟩
  have hcontent : ∀ m ∈ (kept messages).foldl (mergeStep (joinRole role)) [], m.content ≠ [] := by
    have hkept : ∀ m ∈ kept messages, m.content ≠ [] := fun m hm => by
      simpa using (mem_filter.1 hm).2
    cases hcons : kept messages with
    | nil => simp
    | cons m rest =>
      rw [hcons, forall_mem_cons] at hkept
      rw [foldl_mergeStep_cons]
      refine forall_mem_mergeInto (p := fun m : Message => m.content ≠ []) ?_ hkept.1 hkept.2
      rintro a b c h ha -
      rw [(hjoin h).2.2.2]
      exact append_ne_nil_of_left_ne_nil ha b.content
  have hsame : kept ((kept messages).foldl (mergeStep (joinRole role)) []) =
      (kept messages).foldl (mergeStep (joinRole role)) [] :=
    filter_eq_self.2 fun m hm => by simpa using hcontent m hm
  show mergeConsecutiveRole (mergeConsecutiveRole messages role) role =
    mergeConsecutiveRole messages role
  rw [mergeConsecutiveRole_eq messages, mergeConsecutiveRole_eq, hsame]
  refine foldl_mergeStep_idem ?_ (kept messages)
  rintro a b c x h hnone
  obtain ⟨ha, -, hc, -⟩ := hjoin h
  unfold joinRole at hnone ⊢
  refine if_neg fun h' => ?_
  rw [if_pos ⟨h'.1, ha⟩] at hnone
  cases hnone

theorem settles_validateAndFix {name : String} (hname : name ≠ "anthropic")
    (messages : List Message) :
    Settles (TurnValidator.builtin.validateAndFix · name) messages := by
  have hgoogle : Settles fixGoogleTurns messages := settles_mergeConsecutiveRole _ messages
  rw [Settles]
  simp only [validateAndFix, builtin]
  by_cases hgemini : name = "gemini"
  · rw [hgemini, AList.lookup_insert]
    exact hgoogle
  · rw [AList.lookup_insert_ne hgemini]
    by_cases hname' : name = "google"
    · rw [hname', AList.lookup_insert]
      exact hgoogle
    · rw [AList.lookup_insert_ne hname', AList.lookup_insert_ne hname, AList.lookup_empty]

/-- Sanitizing the messages of a request again leaves them as they are, except that for Anthropic
a further pass changes them in two cases: the first pass cut off the calls whose results it kept,
or it collapsed a round of calls and left the one before it, in a request that does not end in
results.  With the validator, messages without content aside, calls without ids count as an
answer there. -/
theorem sanitize_idem_iff (provider : Option String) (messages : List Message) :
    (Settles (sanitizeRequestMessages provider none) messages ↔
      (provider = some "anthropic" → ¬ Somewhere CutAt (turns messages) ∧
        (Somewhere LeftAt (turns messages) → EndsInResults (turns messages)))) ∧
    ((∀ m ∈ messages, m.role ≠ "user" → m.content ≠ []) →
      (Settles (sanitizeRequestMessages provider (some .builtin)) messages ↔
        (provider = some "anthropic" → ¬ Somewhere CutAt (turns messages) ∧
          (Somewhere LeftAt (turns messages) ∨ Somewhere OpenAt (turns messages) →
            EndsInResults (turns messages))))) := by
  by_cases hprovider : provider = some "anthropic"
  · subst hprovider
    have hnone : sanitizeRequestMessages (some "anthropic") none = sanitizeAnthropic := rfl
    have hbuiltin : sanitizeRequestMessages (some "anthropic") (some .builtin) =
        sanitizeValidated := rfl
    rw [forall_prop_of_true rfl, forall_prop_of_true rfl, hnone, hbuiltin]
    exact ⟨sanitizeAnthropic_idem_iff_turns messages, sanitizeValidated_idem_iff_turns⟩
  · have hnone (l : List Message) : sanitizeRequestMessages provider none l = l := by
      rw [sanitizeRequestMessages, if_neg hprovider]
      rintro _ _ ⟨⟩
    have hbuiltin : Settles (sanitizeRequestMessages provider (some .builtin)) messages := by
      cases provider with
      | none => rfl
      | some name =>
        have hname : name ≠ "anthropic" := fun h => hprovider (congrArg some h)
        have hpass : sanitizeRequestMessages (some name) (some .builtin) =
            (TurnValidator.builtin.validateAndFix · name) := by
          funext l
          rw [sanitizeRequestMessages, if_neg hprovider]
        rw [hpass]
        exact settles_validateAndFix hname messages
    refine ⟨iff_of_true ?_ fun h => absurd h hprovider, fun _ =>
      iff_of_true hbuiltin fun h => absurd h hprovider⟩
    rw [Settles, hnone, hnone]

/-- After two rounds of calls and the answer, the user goes on: the first pass collapses the
second round, and the next pass the first. -/
theorem not_sanitize_idem :
    ¬ ∀ (provider : Option String) (messages : List Message),
      Settles (sanitizeRequestMessages provider none) messages := by
  let messages : List Message :=
    [⟨"user", [.makeText "find it"], ""⟩,
      ⟨"assistant", [.makeToolUse "a" "read" .null], ""⟩, ⟨"user", [.makeToolResult "a" "ok"], ""⟩,
      ⟨"assistant", [.makeToolUse "b" "read" .null], ""⟩, ⟨"user", [.makeToolResult "b" "ok"], ""⟩,
      ⟨"assistant", [.makeText "found"], ""⟩, ⟨"user", [.makeText "go on"], ""⟩]
  intro h
  have hlength := congrArg List.length (h (some "anthropic") messages)
  revert hlength
  decide +kernel

end RavBot.Core
