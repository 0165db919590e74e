import RavBot.Core.ToolPairing.Validate

/-!
# The pairing of calls and results in a request

A request to Anthropic that `sanitize_request_messages_for_provider` has been through has its
calls and results paired unless one of two things is in its history: the user said something in
a message that also has results, and the request starts with that message (`CutAt`); or a call
without an id is kept (`LooseAt`).  `toolCallsPaired_iff` says that it is exactly then that
something is unpaired.
-/

open List

namespace RavBot.Core

open RavBot.Lib TurnValidator

/-! ## System messages at the start -/

theorem linked_of_ne {x y : Message} (hx : x.role ≠ "assistant") :
    Linked x y ↔ (y.role = "user" → ∀ r ∈ y.content, ¬ r.isToolResult) := by
  constructor
  · rintro ⟨-, hanswers⟩ hrole r hr hresult
    exact hx (hanswers hrole r hr hresult).1
  · rintro hy
    exact ⟨fun hrole => absurd hrole hx, fun hrole r hr hresult => absurd hresult (hy hrole r hr)⟩

theorem toolCallsPaired_iff_isChain (messages : List Message) :
    ToolCallsPaired messages ↔ (opening :: messages).IsChain Linked := by
  rw [ToolCallsPaired, isChain_cons, and_comm]
  exact and_congr_left fun _ => forall₂_congr fun y _ => (linked_of_ne (by decide)).symm

variable {msg : Message}

theorem Message.isSystem_role (h : msg.isSystem) : msg.role ≠ "user" ∧ msg.role ≠ "assistant" := by
  rw [isSystem, decide_eq_true_eq] at h
  rw [h]
  decide

theorem isChain_systems {systems : List Message} (hsystems : ∀ s ∈ systems, s.isSystem)
    (messages : List Message) :
    (opening :: fixAnthropicTurns (systems ++ messages)).IsChain Linked ↔
      (opening :: fixAnthropicTurns messages).IsChain Linked := by
  have hkeep {x s : Message} {rest : List Message} (hx : x.role ≠ "assistant") (hs : s.isSystem)
      (hrest : (x :: rest).IsChain Linked ↔ (s :: rest).IsChain Linked) :
      (x :: (unlessEmpty s ++ rest)).IsChain Linked ↔ (x :: rest).IsChain Linked := by
    rw [unlessEmpty]
    split_ifs
    · rfl
    · rw [singleton_append, isChain_cons_cons, ← hrest, and_iff_right]
      exact (linked_of_ne hx).2 fun h => absurd h (Message.isSystem_role hs).1
  have hsame {x s : Message} (rest : List Message) (hx : x.role ≠ "assistant") (hs : s.isSystem) :
      (x :: rest).IsChain Linked ↔ (s :: rest).IsChain Linked := by
    rw [isChain_cons, isChain_cons]
    refine and_congr_left fun _ => forall₂_congr fun y _ => ?_
    rw [linked_of_ne hx, linked_of_ne (Message.isSystem_role hs).2]
  have hopening : opening.role ≠ "assistant" := by decide
  induction systems with
  | nil => rfl
  | cons s systems ih =>
    obtain ⟨hs, hsystems⟩ := forall_mem_cons.1 hsystems
    have hrole := Message.isSystem_role hs
    refine Iff.trans ?_ (ih hsystems)
    rw [fixAnthropicTurns, fixAnthropicTurns, cons_append,
      strip_cons fun _ _ h => hrole.2 h.1, mergeConsecutiveRole_cons hrole.1]
    exact hkeep hopening hs (hsame _ hopening hs)

/-- A property of requests to which system messages at the start do not matter. -/
def IgnoresSystems (p : List Message → Prop) : Prop :=
  ∀ {systems : List Message}, (∀ s ∈ systems, s.isSystem) →
    ∀ messages, p (systems ++ messages) ↔ p messages

theorem IgnoresSystems.hint {p : List Message → Prop} (hp : IgnoresSystems p)
    (messages : List Message) (names : List String) :
    p (maybeAddWebSearchReplayInstruction messages names) ↔ p messages := by
  have htake : ∀ s ∈ messages.takeWhile (·.isSystem), s.isSystem :=
    fun _ hs => mem_takeWhile_imp hs
  have hmessages := hp htake (messages.dropWhile (·.isSystem))
  rw [takeWhile_append_dropWhile] at hmessages
  rw [maybeAddWebSearchReplayInstruction]
  split_ifs
  · rfl
  · rw [hp htake, hmessages]
    have hhint : ∀ s ∈ [Message.ofText "system" replayHint], s.isSystem := by decide
    exact hp hhint _
  · rfl

/-! ## The current turn -/

/-- The messages from the last one on in which the user says something, if the request ends
with results. -/
def currentTurn (messages : List Message) : List Message :=
  if ∃ last ∈ messages.getLast?, hasOnlyToolResultBlocks last then
    (lastTurn messages).getD messages
  else messages

theorem lastTurn_append_some {messages turn : List Message} (before : List Message)
    (h : lastTurn messages = some turn) : lastTurn (before ++ messages) = some turn := by
  induction before with
  | nil => exact h
  | cons m before ih => rw [cons_append, lastTurn, ih]

theorem lastTurn_append {before : List Message} (hbefore : ∀ m ∈ before, ¬ hasNonToolResultBlocks m)
    (messages : List Message) : lastTurn (before ++ messages) = lastTurn messages := by
  induction before with
  | nil => rfl
  | cons m before ih =>
    obtain ⟨hm, hbefore⟩ := forall_mem_cons.1 hbefore
    rw [cons_append, lastTurn, ih hbefore]
    cases lastTurn messages with
    | some turn => rfl
    | none => rw [if_neg hm]

theorem not_hasNonToolResultBlocks (hrole : msg.role ≠ "user") :
    ¬ hasNonToolResultBlocks msg := by simp [hasNonToolResultBlocks, hrole]

theorem lastTurn_dropWhile (messages : List Message) :
    lastTurn (messages.dropWhile (·.isSystem)) = lastTurn messages := by
  have hsystems : ∀ s ∈ messages.takeWhile (·.isSystem), ¬ hasNonToolResultBlocks s :=
    fun s hs => not_hasNonToolResultBlocks (Message.isSystem_role (mem_takeWhile_imp hs)).1
  have happend := lastTurn_append hsystems (messages.dropWhile (·.isSystem))
  rw [takeWhile_append_dropWhile] at happend
  exact happend.symm

theorem IgnoresSystems.trim {p : List Message → Prop} (hp : IgnoresSystems p)
    (messages : List Message) :
    p (trimAnthropicReplayToCurrentTurn messages) ↔ p (currentTurn messages) := by
  rw [trimAnthropicReplayToCurrentTurn, currentTurn, lastTurn_dropWhile]
  cases messages.getLast? with
  | none => simp
  | some last =>
    dsimp only
    simp only [Option.mem_some_iff, exists_eq_left']
    split_ifs
    · cases lastTurn messages with
      | none => rfl
      | some turn => exact hp (fun _ hs => mem_takeWhile_imp hs) turn
    · rfl

/-- A transform that leaves messages of some kind at the start of a request. -/
def KeepsFirst (p : Message → Prop) (pass : List Message → List Message) : Prop :=
  ∀ m messages, p m → pass (m :: messages) = m :: pass messages

theorem keepsFirst_trim : KeepsFirst (·.isSystem) trimAnthropicReplayToCurrentTurn := by
  rintro s messages hs
  cases messages with
  | nil =>
    have hnot : ¬ hasOnlyToolResultBlocks s := fun h =>
      (Message.isSystem_role hs).1 (hasOnlyToolResultBlocks_iff.1 h).1
    exact if_neg hnot
  | cons m rest =>
    rw [trimAnthropicReplayToCurrentTurn, trimAnthropicReplayToCurrentTurn,
      getLast?_cons_cons, dropWhile_cons_of_pos hs, takeWhile_cons_of_pos hs]
    cases (m :: rest).getLast? with
    | none => rfl
    | some last =>
      dsimp only
      split_ifs
      · cases lastTurn ((m :: rest).dropWhile (·.isSystem)) <;> rfl
      · rfl

/-! ## The turns after the trimming -/

variable {ts : List Turn}

/-- Merged turns after a message that is not the assistant's are paired when no call without an
id is loose. -/
theorem isChain_fix_cons (hts : ∀ t ∈ ts, t.Merged)
    (hrole : msg.role = "user") (hcontent : msg.content ≠ []) :
    (opening :: fixAnthropicTurns (msg :: flatten ts)).IsChain Linked ↔
      (∀ r ∈ msg.content, ¬ r.isToolResult) ∧ ¬ Somewhere LooseNext ts := by
  have hne : msg.role ≠ "assistant" := by
    rw [hrole]
    decide
  have hclosed : msg.role = "assistant" ∧ hasToolUseBlocks msg → ∀ t ∈ ts, ¬ t.Says :=
    fun h => absurd h.1 hne
  have hkept (messages : List Message) : kept (msg :: messages) = msg :: kept messages := by
    rw [kept, filter_cons, if_pos (by simpa using hcontent)]
    rfl
  rw [fixAnthropicTurns, strip_cons fun _ _ h => hne h.1,
    strip_flatten fun t ht => (hts t ht).toWellFormed, isChain_mergeConsecutiveRole, hkept,
    isChain_cons_cons, linked_of_ne (by decide), isChain_linked_iff hts, imp_iff_right hrole,
    and_iff_right hclosed]
  rw [hkept]
  exact isChain_noLaterResults hts msg

theorem isChain_fix (hts : ∀ t ∈ ts, t.Merged) :
    (opening :: fixAnthropicTurns (flatten ts)).IsChain Linked ↔ ¬ Somewhere LooseNext ts := by
  rw [fixAnthropicTurns, strip_flatten fun t ht => (hts t ht).toWellFormed,
    isChain_mergeConsecutiveRole (isChain_noLaterResults hts opening).tail,
    isChain_linked_iff hts, and_iff_right]
  rintro ⟨hrole, -⟩
  exact absurd hrole (by decide)

theorem endsInResults_iff (hts : ∀ t ∈ ts, t.Merged) :
    (∃ last ∈ (flatten ts).getLast?, hasOnlyToolResultBlocks last) ↔ EndsInResults ts := by
  induction ts with
  | nil => simp [EndsInResults]
  | cons t rest ih =>
    obtain ⟨ht, hrest⟩ := forall_mem_cons.1 hts
    rw [EndsInResults, somewhere_cons]
    cases rest with
    | nil =>
      rw [or_iff_left (somewhere_nil _), and_iff_right rfl, flatten_cons, flatten_nil, append_nil]
      rcases ht.cases with h | ⟨user, h⟩
      · rw [h]
        refine iff_of_false ?_ ?_
        · rintro ⟨last, hlast, honly⟩
          cases hlast
          exact ht.msg_role (hasOnlyToolResultBlocks_iff.1 honly).1
        · rintro ⟨⟨-, r, hr, -⟩, -⟩
          obtain ⟨user, huser, -⟩ := Turn.exists_of_mem_reply hr
          rw [h] at huser
          cases huser
      · have huser : user ∈ t.users := h ▸ mem_cons_self
        have hreply : t.reply = user.content := by rw [Turn.reply, h]
        rw [ht.asks_iff, h]
        show (∃ last ∈ some user, _) ↔ _
        simp only [Option.mem_some_iff, exists_eq_left', hasOnlyToolResultBlocks_iff,
          mem_singleton, exists_eq_left, not_exists, not_and, not_not]
        constructor
        · rintro ⟨-, hcontent, honly⟩
          obtain ⟨r, hr⟩ := exists_mem_of_ne_nil _ hcontent
          have hcall := ht.results_of_mem huser hr (honly r hr)
          exact ⟨⟨hcall.1, r, hreply ▸ hr, honly r hr, hcall.2⟩, honly⟩
        · rintro ⟨-, honly⟩
          exact ⟨ht.user_role user huser, ht.nonempty user huser, honly⟩
    | cons next rest =>
      have hflatten : (flatten (t :: next :: rest)).getLast? =
          (flatten (next :: rest)).getLast? := by
        have happend : flatten (t :: next :: rest) = t.toList ++ flatten (next :: rest) := rfl
        rw [happend, getLast?_append_of_ne_nil]
        simp [flatten_cons]
      rw [hflatten, ih hrest, or_iff_right]
      · rfl
      · rintro ⟨hnil, -⟩
        cases hnil

theorem lastTurn_eq_none (hts : ∀ t ∈ ts, t.Merged) (h : ∀ t ∈ ts, ¬ t.Asks) :
    lastTurn (flatten ts) = none := by
  have hquiet : ∀ m ∈ flatten ts, ¬ hasNonToolResultBlocks m := by
    rintro m hm
    obtain ⟨t, ht, hm⟩ := mem_flatMap.1 hm
    rcases mem_cons.1 hm with rfl | hm
    · exact not_hasNonToolResultBlocks (hts t ht).msg_role
    · exact fun hm' => h t ht ⟨m, hm, hm'⟩
  have hall := lastTurn_append hquiet []
  rw [append_nil] at hall
  exact hall

theorem exists_lastAsks (hasks : ∃ t ∈ ts, t.Asks) :
    ∃ before t rest, ts = before ++ t :: rest ∧ t.Asks ∧ ∀ t' ∈ rest, ¬ t'.Asks := by
  induction ts with
  | nil => simp at hasks
  | cons t rest ih =>
    by_cases hlater : ∃ t' ∈ rest, t'.Asks
    · obtain ⟨before, t', rest', hrest, hasks', hnone⟩ := ih hlater
      exact ⟨t :: before, t', rest', by rw [hrest, cons_append], hasks', hnone⟩
    · have hnone : ∀ t' ∈ rest, ¬ t'.Asks := fun t' ht' h => hlater ⟨t', ht', h⟩
      obtain ⟨t', ht', hasks'⟩ := hasks
      rcases mem_cons.1 ht' with rfl | ht'
      · exact ⟨[], t', rest, rfl, hasks', hnone⟩
      · exact absurd hasks' (hnone t' ht')

/-- The trimming keeps the last user message in which the user says something, with the turns
after it. -/
theorem lastTurn_flatten {before rest : List Turn} {t : Turn}
    (hts : ∀ t' ∈ before ++ t :: rest, t'.Merged) (hasks : t.Asks)
    (hnone : ∀ t' ∈ rest, ¬ t'.Asks) :
    ∃ user, t.users = [user] ∧ hasNonToolResultBlocks user ∧
      lastTurn (flatten (before ++ t :: rest)) = some (user :: flatten rest) := by
  obtain ⟨ht, hrest⟩ := forall_mem_cons.1 fun t' ht' => hts t' (mem_append_right _ ht')
  obtain ⟨user, huser, hspeaks⟩ := hasks
  obtain ⟨user', h⟩ : ∃ user, t.users = [user] :=
    ht.cases.resolve_left (ne_nil_of_mem huser)
  rw [h, mem_singleton] at huser
  subst huser
  refine ⟨user, h, hspeaks, ?_⟩
  have hflatten : flatten (before ++ t :: rest) =
      flatten before ++ ([t.msg] ++ user :: flatten rest) := by
    rw [flatten, flatMap_append, ← flatten, ← flatten, flatten_cons, h]
    rfl
  rw [hflatten]
  apply lastTurn_append_some
  rw [lastTurn_append, lastTurn, lastTurn_eq_none hrest hnone]
  · exact if_pos hspeaks
  · rw [forall_mem_singleton]
    exact not_hasNonToolResultBlocks ht.msg_role

theorem EndsInResults.of_suffix {after : List Turn} (hafter : after <:+ ts)
    (hends : EndsInResults after) : EndsInResults ts := by
  obtain ⟨last, rest, hlast, hp⟩ := hends
  exact ⟨last, rest, hlast.trans hafter, hp⟩

theorem EndsInResults.of_asks {before rest : List Turn} {t : Turn}
    (hends : EndsInResults (before ++ t :: rest)) (hasks : t.Asks) : EndsInResults rest := by
  rw [EndsInResults, somewhere_append, somewhere_cons] at hends
  · exact hends.resolve_left fun h => h.2.2 hasks
  · rintro _ before' ⟨hnil, -⟩
    exact append_ne_nil_of_right_ne_nil before' (cons_ne_nil t rest) hnil

theorem somewhere_of_not_trimmed
    (h : ¬ (EndsInResults ts ∧ ∃ t ∈ ts, t.Asks)) :
    ¬ Somewhere CutAt ts ∧ (Somewhere LooseAt ts ↔ Somewhere LooseNext ts) := by
  have hsuffix {t : Turn} {after : List Turn} (hafter : t :: after <:+ ts) : after <:+ ts :=
    (suffix_cons t after).trans hafter
  constructor
  · rintro ⟨t, after, hafter, -, hasks, -, hends⟩
    exact h ⟨hends.of_suffix (hsuffix hafter), t, hafter.subset mem_cons_self, hasks⟩
  · refine somewhere_congr fun t after hafter => ?_
    have hkept : ¬ (EndsInResults after ∧ ∃ t' ∈ after, t'.Asks) := by
      rintro ⟨hends, t', ht', hasks⟩
      exact h ⟨hends.of_suffix (hsuffix hafter), t', (hsuffix hafter).subset ht', hasks⟩
    rw [LooseAt, LooseNext, and_iff_left hkept]

theorem somewhere_cutAt_iff {before rest : List Turn} {t : Turn} {user : Message}
    (ht : t.Merged) (husers : t.users = [user]) (hasks : t.Asks)
    (hnone : ∀ t' ∈ rest, ¬ t'.Asks) (hends : EndsInResults rest) :
    Somewhere CutAt (before ++ t :: rest) ↔ ∃ r ∈ user.content, r.isToolResult := by
  have hreply : t.reply = user.content := by rw [Turn.reply, husers]
  rw [somewhere_append, somewhere_cons,
    or_iff_left (somewhere_of_not_trimmed fun h => h.2.elim fun t' h => hnone t' h.1 h.2).1, ← hreply]
  · constructor
    · rintro ⟨⟨-, r, hr, hresult, -⟩, -⟩
      exact ⟨r, hr, hresult⟩
    · rintro ⟨r, hr, hresult⟩
      obtain ⟨hrole, hid⟩ := ht.results r hr hresult
      exact ⟨⟨hrole, r, hr, hresult, hid⟩, hasks, hnone, hends⟩
  · rintro _ before' ⟨-, -, hlater, -⟩
    exact hlater t (mem_append_right _ mem_cons_self) hasks

/-- When the request is trimmed, it starts with the last message in which the user says
something, and goes wrong when that message has results or a call after it is loose. -/
theorem exists_lastTurn (hts : ∀ t ∈ ts, t.Merged) (hends : EndsInResults ts)
    (hasks : ∃ t ∈ ts, t.Asks) :
    ∃ turn, lastTurn (flatten ts) = some turn ∧
      ((opening :: fixAnthropicTurns turn).IsChain Linked ↔
        ¬ Somewhere CutAt ts ∧ ¬ Somewhere LooseAt ts) := by
  obtain ⟨before, t, rest, rfl, hasks, hnone⟩ := exists_lastAsks hasks
  obtain ⟨user, husers, -, hturn⟩ := lastTurn_flatten hts hasks hnone
  obtain ⟨ht, hrest⟩ := forall_mem_cons.1 fun t' ht' => hts t' (mem_append_right _ ht')
  have huser : user ∈ t.users := husers ▸ mem_cons_self
  have hends := hends.of_asks hasks
  have hloose : Somewhere LooseAt (before ++ t :: rest) ↔ Somewhere LooseNext rest := by
    rw [somewhere_append, somewhere_cons, or_iff_right fun h => h.2.1 hasks]
    · exact (somewhere_of_not_trimmed fun h => h.2.elim fun t' h => hnone t' h.1 h.2).2
    · rintro _ before' ⟨-, -, -, hkept⟩
      have hsuffix : rest <:+ before' ++ t :: rest :=
        (suffix_cons t rest).trans (suffix_append _ _)
      exact hkept ⟨hends.of_suffix hsuffix, t, mem_append_right _ mem_cons_self, hasks⟩
  refine ⟨_, hturn, ?_⟩
  rw [isChain_fix_cons hrest (ht.user_role user huser) (ht.nonempty user huser),
    somewhere_cutAt_iff ht husers hasks hnone hends, hloose]
  simp only [not_exists, not_and]

/-! ## The pairing -/

/-- In a request to Anthropic every call that something follows is answered in the next
message, and every result answers a call in the message before, if and only if in its history
the user did not last say something in a message that also has results, with the request ending
in later results, and no call without an id is kept before something else than a user
message. -/
theorem toolCallsPaired_iff (messages : List Message) :
    ToolCallsPaired (sanitizeRequestMessages (some "anthropic") (some .builtin) messages) ↔
      ¬ Somewhere CutAt (turns messages) ∧ ¬ Somewhere LooseAt (turns messages) := by
  have hmerged := merged_preparedTurns messages
  have hends := endsInResults_iff hmerged
  have hfix (l : List Message) :
      (TurnValidator.builtin).validateAndFix l "anthropic" = fixAnthropicTurns l := rfl
  have hopening : ∀ s ∈ [opening], s.isSystem := by decide
  have hsystems : IgnoresSystems fun l => (opening :: fixAnthropicTurns l).IsChain Linked :=
    isChain_systems
  rw [← somewhere_preparedTurns Condenses.somewhere_cutAt,
    ← somewhere_preparedTurns Condenses.somewhere_looseAt, sanitizeRequestMessages, if_pos rfl]
  dsimp only
  rw [hfix, toolCallsPaired_iff_isChain, hsystems.hint, ← isChain_systems hopening,
    singleton_append, ← keepsFirst_trim opening _ (by decide), ← prepare, prepared_eq,
    hsystems.trim, currentTurn]
  by_cases htrim : EndsInResults (preparedTurns messages) ∧ ∃ t ∈ preparedTurns messages, t.Asks
  · obtain ⟨turn, hturn, hiff⟩ := exists_lastTurn hmerged htrim.1 htrim.2
    rw [if_pos (hends.2 htrim.1), hturn]
    exact hiff
  · obtain ⟨hcut, hloose⟩ := somewhere_of_not_trimmed htrim
    rw [hloose, and_iff_right hcut, ← isChain_fix hmerged]
    split_ifs with hresults
    · have hnone : ∀ t ∈ preparedTurns messages, ¬ t.Asks :=
        fun t ht hasks => htrim ⟨hends.1 hresults, t, ht, hasks⟩
      rw [lastTurn_eq_none hmerged hnone]
      rfl
    · rfl

/-- A request can start with the results of a call that is cut off: the user spoke right after
the results of one call, and the request ends with the results of the next. -/
theorem not_toolCallsPaired :
    ¬ ∀ messages : List Message,
      (∀ m ∈ messages, m.role = "system" ∨ m.role = "user" ∨ m.role = "assistant") →
        ToolCallsPaired
          (sanitizeRequestMessages (some "anthropic") (some .builtin) messages) := by
  let messages : List Message :=
    [⟨"assistant", [.makeToolUse "a" "read" .null], ""⟩, ⟨"user", [.makeToolResult "a" "ok"], ""⟩,
      ⟨"user", [.makeText "go on"], ""⟩, ⟨"assistant", [.makeToolUse "b" "read" .null], ""⟩,
      ⟨"user", [.makeToolResult "b" "ok"], ""⟩]
  have hfirst : ((sanitizeRequestMessages (some "anthropic") (some .builtin) messages).head?.any
      fun m => m.role = "user" && m.content.any (·.isToolResult)) = true := by decide +kernel
  rintro hpaired
  obtain ⟨first, hhead, hfirst⟩ := (Option.any_eq_true _ _).1 hfirst
  rw [Bool.and_eq_true, decide_eq_true_eq, any_eq_true] at hfirst
  obtain ⟨hrole, r, hr, hresult⟩ := hfirst
  exact (hpaired messages (by decide)).2 first hhead hrole r hr hresult

end RavBot.Core
