import RavBot.Core.ToolAnswers
import RavBot.Core.ContextWindow

/-!
# Shrinking a history

The agent loop makes a history smaller on several paths, each of which keeps the messages from some
place on.  None of them looks at what stands at that place: a history whose calls and results are
paired stays paired exactly when the first message that is kept has no results
(`ShrinkingPath.keepsPairing_iff`).
-/

open List

namespace RavBot.Core

open RavBot.Lib ContextPruner

/-! ## Estimates -/

theorem isSome_mapM {α β : Type} {f : α → Option β} {l : List α} :
    (l.mapM f).isSome ↔ ∀ a ∈ l, (f a).isSome := by
  induction l with
  | nil => simp
  | cons a l ih =>
    rw [forall_mem_cons, ← ih, mapM_cons]
    cases f a <;> cases l.mapM f <;> simp

def Dumpable (history : List Message) : Prop :=
  ∀ msg ∈ history, ∀ b ∈ msg.content, b.input.isNull ∨ b.input.isUtf8

section Estimates

variable (dumpSize : Json → Nat)

theorem isSome_blockChars (b : ContentBlock) :
    (blockChars dumpSize b).isSome ↔ b.input.isNull ∨ b.input.isUtf8 := by
  rw [blockChars, Json.dump]
  split_ifs with hnull hutf8
  · simp [hnull]
  · simp [hutf8]
  · simp [hnull, hutf8]

theorem isSome_messageChars (history : List Message) :
    (history.mapM (messageChars dumpSize)).isSome ↔ Dumpable history := by
  rw [isSome_mapM]
  refine forall₂_congr fun msg _ => ?_
  rw [messageChars, Option.isSome_map, isSome_mapM]
  exact forall₂_congr fun b _ => isSome_blockChars dumpSize b

theorem isSome_pruner_estimateTokens (history : List Message) :
    (ContextPruner.estimateTokens dumpSize history).isSome ↔ Dumpable history := by
  rw [ContextPruner.estimateTokens, Option.isSome_map, isSome_messageChars]

theorem isSome_estimateTokens (history : List Message) :
    (Core.estimateTokens dumpSize history).isSome ↔ Dumpable history := by
  rw [Core.estimateTokens, Option.isSome_map, isSome_messageChars]

end Estimates

/-! ## Pruning -/

theorem pruneBlock_spec (opts : Options) (hard : Bool) (b : ContentBlock) :
    (pruneBlock opts hard b).isToolUse = b.isToolUse ∧
      (pruneBlock opts hard b).isToolResult = b.isToolResult ∧
      (b.isToolUse → (pruneBlock opts hard b).id = b.id) ∧
      (b.isToolResult → (pruneBlock opts hard b).toolUseId = b.toolUseId) ∧
      ((pruneBlock opts hard b).input = b.input ∨ (pruneBlock opts hard b).input = .null) := by
  rw [pruneBlock]
  cases hresult : b.isToolResult with
  | false => simp [hresult]
  | true =>
    have htype : b.type = "tool_result" := of_decide_eq_true hresult
    have huse : b.isToolUse = false := by
      rw [ContentBlock.isToolUse, htype]
      decide
    have hmade (content : String) :
        (ContentBlock.makeToolResult b.toolUseId content).isToolUse = false ∧
          (ContentBlock.makeToolResult b.toolUseId content).isToolResult = true :=
      ⟨rfl, rfl⟩
    simp only [Bool.not_true, Bool.false_eq_true, if_false]
    split_ifs
    · exact ⟨huse ▸ (hmade _).1, (hmade _).2, by simp [huse], fun _ => rfl, .inr rfl⟩
    · exact ⟨huse ▸ (hmade _).1, (hmade _).2, by simp [huse], fun _ => rfl, .inr rfl⟩
    · exact ⟨rfl, hresult, fun _ => rfl, fun _ => rfl, .inl rfl⟩

theorem toolKey_pruneMessage (opts : Options) (history : List Message) (i : Nat) (msg : Message) :
    toolKey (pruneMessage opts history i msg) = toolKey msg := by
  have hids (hard : Bool) (p : ContentBlock → Bool) (id : ContentBlock → String)
      (hp : ∀ b, p (pruneBlock opts hard b) = p b)
      (hid : ∀ b, p b → id (pruneBlock opts hard b) = id b) :
      ((msg.content.map (pruneBlock opts hard)).filter p).map id = (msg.content.filter p).map id := by
    rw [filter_map, map_map]
    have hfilter : msg.content.filter (p ∘ pruneBlock opts hard) = msg.content.filter p :=
      filter_congr fun b _ => hp b
    rw [hfilter]
    exact map_congr_left fun b hb => hid b (mem_filter.1 hb).2
  rw [pruneMessage]
  cases threshold history opts.protectRecent with
  | none => rfl
  | some protect =>
    dsimp only
    split_ifs
    · rfl
    · rw [toolKey, toolKey, useIds, resultIds]
      dsimp only
      rw [hids _ (·.isToolUse) (·.id) (fun b => (pruneBlock_spec opts _ b).1)
          fun b => (pruneBlock_spec opts _ b).2.2.1,
        hids _ (·.isToolResult) (·.toolUseId) (fun b => (pruneBlock_spec opts _ b).2.1)
          fun b => (pruneBlock_spec opts _ b).2.2.2.1]
      rfl

theorem dumpable_pruneMessage (opts : Options) (history : List Message) (i : Nat) {msg : Message}
    (h : ∀ b ∈ msg.content, b.input.isNull ∨ b.input.isUtf8) :
    ∀ b ∈ (pruneMessage opts history i msg).content, b.input.isNull ∨ b.input.isUtf8 := by
  have hmap (hard : Bool) :
      ∀ b ∈ msg.content.map (pruneBlock opts hard), b.input.isNull ∨ b.input.isUtf8 := by
    intro b hb
    obtain ⟨b', hb', rfl⟩ := mem_map.1 hb
    rcases (pruneBlock_spec opts hard b').2.2.2.2 with hinput | hinput
    · rw [hinput]
      exact h b' hb'
    · rw [hinput]
      exact .inl rfl
  rw [pruneMessage]
  cases threshold history opts.protectRecent with
  | none => exact h
  | some protect =>
    dsimp only
    split_ifs
    · exact h
    · exact hmap _

variable {dumpSize : Json → Nat}

variable {history : List Message}

theorem prune_spec {pruned : List Message} {opts : Options}
    (h : prune dumpSize history opts = some pruned) :
    pruned.map toolKey = history.map toolKey ∧ (Dumpable history → Dumpable pruned) := by
  rw [prune] at h
  split_ifs at h
  · cases h
    exact ⟨rfl, id⟩
  · obtain ⟨effective, -, rfl⟩ := Option.map_eq_some_iff.1 h
    constructor
    · refine ext_getElem? fun i => ?_
      rw [getElem?_map, getElem?_mapIdx, getElem?_map, Option.map_map]
      congr 1
      funext msg
      exact toolKey_pruneMessage effective history i msg
    · intro hdump msg hmsg
      obtain ⟨i, hi, rfl⟩ := mem_mapIdx.1 hmsg
      exact dumpable_pruneMessage effective history i (hdump _ (getElem_mem hi))

variable (dumpSize) in
theorem isSome_effectiveOptions (opts : Options) (h : Dumpable history) :
    (effectiveOptions dumpSize history opts).isSome := by
  obtain ⟨tokens, htokens⟩ := Option.isSome_iff_exists.1
    ((isSome_pruner_estimateTokens dumpSize history).2 h)
  rw [effectiveOptions, htokens]
  dsimp only [Option.bind_eq_bind, Option.bind_some]
  split_ifs <;> rfl

variable (dumpSize) in
theorem isSome_prune (opts : Options) (h : Dumpable history) :
    (prune dumpSize history opts).isSome := by
  rw [prune]
  split_ifs
  · rfl
  · rw [Option.isSome_map]
    exact isSome_effectiveOptions dumpSize opts h

/-! ## The paths -/

/-- A path on which the agent loop makes a history smaller. -/
inductive ShrinkingPath where
  | autoCompact (config : AgentConfig)
  | focus (latestUserText : String)
  | compress (targetTokens : Int) (strategy : CompressionStrategy)
  | windowGuard (notice : String) (config : AgentConfig) (contextWindow : Int)
      (systemPrompt : String)
  | overflow (systemPrompt : String)

namespace ShrinkingPath

variable (dumpSize)

/-- What a path makes of a history. -/
def apply : ShrinkingPath → List Message → Option (List Message)
  | autoCompact config, history => Core.autoCompact config history
  | focus latestUserText, history => some (focusHistoryOnLatestTurn history latestUserText)
  | compress targetTokens strategy, history =>
    ContextPruner.compress dumpSize history targetTokens strategy
  | windowGuard notice config contextWindow systemPrompt, history =>
    Core.windowGuard dumpSize notice config contextWindow systemPrompt history
  | overflow systemPrompt, history => recoverFromOverflow systemPrompt history

/-- `Compress` removes messages, with the given ratio: there are more than it must leave, and the
estimate is over the target before and after the pruning. -/
def Removes (history : List Message) (targetTokens : Int) (strategy : CompressionStrategy)
    (ratio : Float) : Prop :=
  strategy.minMessages < history.length ∧
    ∃ tokens ∈ ContextPruner.estimateTokens dumpSize history, targetTokens < tokens ∧
      ratio = Float.ofInt targetTokens / Float.ofNat tokens ∧
      ∃ pruned ∈ prune dumpSize history (compressOptions targetTokens ratio strategy),
        ∃ tokens ∈ ContextPruner.estimateTokens dumpSize pruned, targetTokens < tokens

/-- The first message that a path keeps has no results, where it removes any; what it has to dump
can be dumped; and it does not reach before the start of the history. -/
def KeepsClean : ShrinkingPath → List Message → Prop
  | autoCompact config, history =>
    config.autoCompact → config.compactMaxMessages < history.length →
      config.compactKeepRecent < history.length → 0 ≤ config.compactKeepRecent ∧
        StartsClean (history.drop (history.length - config.compactKeepRecent.toNat))
  | focus latestUserText, history =>
    ∀ turn ∈ lastUserTurn history, keepRecentTurn history turn latestUserText →
      StartsClean (history.drop (sliceStart history turn))
  | compress targetTokens strategy, history =>
    Dumpable history ∧ ∀ ratio, Removes dumpSize history targetTokens strategy ratio →
      (strategy.preserveSystem → ∀ s ∈ history, s.isSystem → resultIds s = []) ∧
        StartsClean
          (history.drop (history.length - keptMessages history.length ratio strategy).toNat)
  | windowGuard _ config contextWindow _, history =>
    Dumpable history ∧ ∀ tokens ∈ Core.estimateTokens dumpSize history,
      contextWindow - kContextWindowMinTokens < tokens + config.maxTokens →
        config.compactKeepRecent < history.length → 0 ≤ config.compactKeepRecent ∧
          StartsClean (history.drop (history.length - config.compactKeepRecent.toNat))
  | overflow _, history =>
    2 ≤ history.length ∧ StartsClean (history.drop (history.length - overflowKeep history))

variable {dumpSize}

def KeepsPairing (result : Option (List Message)) : Prop := ∃ shrunk ∈ result, Paired shrunk

theorem paired_notices {systems : List Message}
    (h : ∀ s ∈ systems, ∃ text, s = .ofText "system" text) (history : List Message) :
    Paired (systems ++ history) ↔ Paired history := by
  have hsystem (text : String) : (Message.ofText "system" text).isSystem := rfl
  have hclean (text : String) : resultIds (.ofText "system" text) = [] := by
    rw [Message.ofText]
    split_ifs <;> rfl
  rw [paired_systems_append, and_iff_right]
  · intro s hs
    obtain ⟨text, rfl⟩ := h s hs
    exact hclean text
  · intro s hs
    obtain ⟨text, rfl⟩ := h s hs
    exact hsystem text

theorem promptMessages_spec (systemPrompt : String) :
    ∀ s ∈ promptMessages systemPrompt, ∃ text, s = .ofText "system" text := by
  intro s hs
  rw [promptMessages] at hs
  split_ifs at hs
  · cases hs
  · exact ⟨systemPrompt, mem_singleton.1 hs⟩

theorem keepsPairing_lastMessages {history systems : List Message} (h : Paired history)
    (hsystems : ∀ s ∈ systems, ∃ text, s = .ofText "system" text) {keep : Int}
    (hkeep : keep ≤ history.length) :
    KeepsPairing ((lastMessages keep history).map (systems ++ ·)) ↔
      0 ≤ keep ∧ StartsClean (history.drop (history.length - keep.toNat)) := by
  rw [lastMessages]
  split_ifs with hrange
  · simp only [KeepsPairing, Option.map_some, Option.mem_some_iff, exists_eq_left',
      paired_notices hsystems, h.drop_iff, hrange.1, true_and]
  · exact iff_of_false (by rintro ⟨_, hnone, -⟩; cases hnone) fun hpos => hrange ⟨hpos.1, hkeep⟩

theorem keepsPairing_some {history : List Message} :
    KeepsPairing (some history) ↔ Paired history := by
  simp [KeepsPairing]

theorem not_keepsPairing_none : ¬ KeepsPairing none := by
  rintro ⟨_, hnone, -⟩
  cases hnone

theorem paired_nil : Paired [] := ⟨isChain_nil, nofun, nofun⟩

theorem keepsPairing_autoCompact (config : AgentConfig) {history : List Message}
    (h : Paired history) :
    KeepsPairing (Core.autoCompact config history) ↔
      KeepsClean dumpSize (autoCompact config) history := by
  rw [Core.autoCompact, KeepsClean]
  split_ifs with hcut
  · obtain ⟨hauto, hmax, hkeep⟩ := hcut
    have hnotice : ∀ s ∈ [compactionNotice (history.length - config.compactKeepRecent)],
        ∃ text, s = .ofText "system" text := by
      intro s hs
      exact ⟨_, mem_singleton.1 hs⟩
    rw [forall_prop_of_true hauto, forall_prop_of_true hmax, forall_prop_of_true hkeep,
      ← keepsPairing_lastMessages h hnotice hkeep.le]
    rfl
  · refine iff_of_true (keepsPairing_some.2 h) fun hauto hmax hkeep => ?_
    exact absurd ⟨hauto, hmax, hkeep⟩ hcut

theorem keepsPairing_focus (latestUserText : String) {history : List Message}
    (h : Paired history) :
    KeepsPairing (some (focusHistoryOnLatestTurn history latestUserText)) ↔
      KeepsClean dumpSize (focus latestUserText) history := by
  rw [keepsPairing_some, focusHistoryOnLatestTurn, KeepsClean]
  cases lastUserTurn history with
  | none => exact iff_of_true h nofun
  | some turn =>
    dsimp only
    split_ifs with hkeep
    · rw [h.drop_iff]
      simp [hkeep]
    · exact iff_of_true paired_nil fun turn' hturn hkeep' => by
        cases hturn
        exact absurd hkeep' hkeep

theorem paired_keepRecent {history pruned : List Message} (h : Paired history)
    (hkey : pruned.map toolKey = history.map toolKey) (preserveSystem : Bool) (keep : Int) :
    Paired (keepRecent preserveSystem keep pruned) ↔
      (preserveSystem → ∀ s ∈ history, s.isSystem → resultIds s = []) ∧
        StartsClean (history.drop (history.length - keep).toNat) := by
  have hpruned : Paired pruned := (paired_congr hkey).2 h
  have hlength : pruned.length = history.length := by
    rw [← length_map toolKey, hkey, length_map]
  have hdrop (n : Nat) : StartsClean (pruned.drop n) ↔ StartsClean (history.drop n) :=
    startsClean_congr (by rw [map_drop, hkey, map_drop])
  have hsystems : (∀ s ∈ pruned, s.isSystem → resultIds s = []) ↔
      ∀ s ∈ history, s.isSystem → resultIds s = [] := by
    have hkeys (messages : List Message) : (∀ s ∈ messages, s.isSystem → resultIds s = []) ↔
        ∀ k ∈ messages.map toolKey, k.1 = "system" → k.2.2 = [] := by
      simp [toolKey, Message.isSystem]
    rw [hkeys, hkeys, hkey]
  rw [keepRecent, hlength]
  cases preserveSystem with
  | false => simp [hpruned.drop_iff, hdrop]
  | true =>
    have hfront : ∀ s ∈ pruned.filter (·.isSystem), s.isSystem :=
      fun s hs => (mem_filter.1 hs).2
    have hclean : (∀ s ∈ pruned.filter (·.isSystem), resultIds s = []) ↔
        ∀ s ∈ history, s.isSystem → resultIds s = [] := by
      rw [← hsystems]
      simp [mem_filter]
    simp only [if_true, forall_true_left]
    rw [paired_systems_append hfront, hclean]
    refine and_congr_right fun hclean => ?_
    rw [hpruned.filter_drop_iff (hsystems.2 hclean), hdrop]

/-- `Compress` removes messages of a history over the target with one ratio, when the pruned history
is over the target and has enough messages. -/
theorem removes_iff {targetTokens : Int} {strategy : CompressionStrategy}
    {history pruned : List Message} {tokens prunedTokens : Nat}
    (htokens : ContextPruner.estimateTokens dumpSize history = some tokens)
    (hover : targetTokens < tokens)
    (hpruned : prune dumpSize history (compressOptions targetTokens
      (Float.ofInt targetTokens / Float.ofNat tokens) strategy) = some pruned)
    (hprunedTokens : ContextPruner.estimateTokens dumpSize pruned = some prunedTokens)
    (ratio : Float) :
    Removes dumpSize history targetTokens strategy ratio ↔
      ratio = Float.ofInt targetTokens / Float.ofNat tokens ∧
        targetTokens < prunedTokens ∧ strategy.minMessages < history.length := by
  constructor
  · rintro ⟨hmin, t, ht, -, rfl, p, hp, t', ht', hover'⟩
    cases htokens.symm.trans ht
    cases hpruned.symm.trans hp
    cases hprunedTokens.symm.trans ht'
    exact ⟨rfl, hover', hmin⟩
  · rintro ⟨rfl, hover', hmin⟩
    exact ⟨hmin, tokens, htokens, hover, rfl, pruned, hpruned, prunedTokens, hprunedTokens, hover'⟩

variable (dumpSize) in
/-- What `Compress` does to a history that can be dumped: it leaves all messages, or removes some
with one ratio. -/
theorem compress_cases (targetTokens : Int) (strategy : CompressionStrategy)
    {history : List Message} (hne : history ≠ []) (hdump : Dumpable history) :
    ∃ pruned, pruned.map toolKey = history.map toolKey ∧
      (ContextPruner.compress dumpSize history targetTokens strategy = some pruned ∧
          (∀ ratio, ¬ Removes dumpSize history targetTokens strategy ratio) ∨
        ∃ ratio, ContextPruner.compress dumpSize history targetTokens strategy =
            some (keepRecent strategy.preserveSystem (keptMessages history.length ratio strategy)
              pruned) ∧
          ∀ ratio', Removes dumpSize history targetTokens strategy ratio' ↔ ratio' = ratio) := by
  have hempty : ¬ history.isEmpty := by simpa using hne
  obtain ⟨tokens, htokens⟩ := Option.isSome_iff_exists.1
    ((isSome_pruner_estimateTokens dumpSize history).2 hdump)
  by_cases htarget : (tokens : Int) ≤ targetTokens
  · refine ⟨history, rfl, .inl ⟨?_, ?_⟩⟩
    · rw [ContextPruner.compress, if_neg hempty, htokens]
      exact if_pos htarget
    · rintro ratio ⟨-, tokens', hsome, hlt, -⟩
      rw [htokens] at hsome
      cases hsome
      exact absurd hlt (not_lt.2 htarget)
  · obtain ⟨ratio, hratio⟩ : ∃ ratio, ratio = Float.ofInt targetTokens / Float.ofNat tokens :=
      ⟨_, rfl⟩
    obtain ⟨pruned, hpruned⟩ := Option.isSome_iff_exists.1
      (isSome_prune dumpSize (compressOptions targetTokens ratio strategy) hdump)
    obtain ⟨hkey, hdump'⟩ := prune_spec hpruned
    obtain ⟨tokens', htokens'⟩ := Option.isSome_iff_exists.1
      ((isSome_pruner_estimateTokens dumpSize pruned).2 (hdump' hdump))
    have hlength : pruned.length = history.length := by
      rw [← length_map toolKey, hkey, length_map]
    have hcompress : ContextPruner.compress dumpSize history targetTokens strategy =
        if targetTokens < tokens' ∧ strategy.minMessages < history.length then
          some (keepRecent strategy.preserveSystem (keptMessages history.length ratio strategy)
            pruned)
        else some pruned := by
      rw [ContextPruner.compress, if_neg hempty, htokens]
      dsimp only [Option.bind_eq_bind, Option.bind_some]
      rw [if_neg htarget, ← hratio, hpruned]
      dsimp only [Option.bind_some]
      rw [htokens', ← hlength]
      rfl
    have hremoves (ratio' : Float) : Removes dumpSize history targetTokens strategy ratio' ↔
        ratio' = ratio ∧ targetTokens < tokens' ∧ strategy.minMessages < history.length := by
      subst hratio
      exact removes_iff htokens (not_le.1 htarget) hpruned htokens' ratio'
    refine ⟨pruned, hkey, ?_⟩
    by_cases hover : targetTokens < tokens' ∧ strategy.minMessages < history.length
    · exact .inr ⟨ratio, by rw [hcompress, if_pos hover], fun ratio' => by
        rw [hremoves, and_iff_left hover]⟩
    · exact .inl ⟨by rw [hcompress, if_neg hover], fun ratio' h => hover ((hremoves ratio').1 h).2⟩

theorem keepsPairing_compress (targetTokens : Int) (strategy : CompressionStrategy)
    {history : List Message} (h : Paired history) :
    KeepsPairing (ContextPruner.compress dumpSize history targetTokens strategy) ↔
      KeepsClean dumpSize (compress targetTokens strategy) history := by
  rw [KeepsClean]
  by_cases hne : history = []
  · subst hne
    refine iff_of_true (keepsPairing_some.2 paired_nil) ⟨nofun, fun ratio _ => ⟨nofun, ?_⟩⟩
    rw [drop_nil]
    exact nofun
  by_cases hdump : Dumpable history
  · rw [and_iff_right hdump]
    obtain ⟨pruned, hkey, ⟨heq, hremoves⟩ | ⟨ratio, heq, hremoves⟩⟩ :=
      compress_cases dumpSize targetTokens strategy hne hdump
    · rw [heq]
      exact iff_of_true (keepsPairing_some.2 ((paired_congr hkey).2 h)) fun ratio hr =>
        absurd hr (hremoves ratio)
    · rw [heq, keepsPairing_some, paired_keepRecent h hkey]
      simp only [hremoves, forall_eq]
  · have hnone : ContextPruner.estimateTokens dumpSize history = none :=
      Option.not_isSome_iff_eq_none.1 fun hsome =>
        hdump ((isSome_pruner_estimateTokens dumpSize history).1 hsome)
    rw [ContextPruner.compress, if_neg (by simpa using hne), hnone]
    exact iff_of_false not_keepsPairing_none fun hclean => hdump hclean.1

theorem keepsPairing_windowGuard (notice : String) (config : AgentConfig) (contextWindow : Int)
    (systemPrompt : String) {history : List Message} (h : Paired history) :
    KeepsPairing (Core.windowGuard dumpSize notice config contextWindow systemPrompt history) ↔
      KeepsClean dumpSize (windowGuard notice config contextWindow systemPrompt) history := by
  rw [Core.windowGuard, KeepsClean]
  by_cases hdump : Dumpable history
  · rw [and_iff_right hdump]
    obtain ⟨tokens, htokens⟩ := Option.isSome_iff_exists.1
      ((isSome_estimateTokens dumpSize history).2 hdump)
    rw [htokens]
    simp only [Option.mem_some_iff, forall_eq']
    dsimp only [Option.bind_eq_bind, Option.bind_some]
    split_ifs with hcut
    · obtain ⟨hfull, hkeep⟩ := hcut
      have hrecent : config.compactKeepRecent < history.length := by omega
      have hnotices : ∀ s ∈ promptMessages systemPrompt ++ [.ofText "system" notice],
          ∃ text, s = .ofText "system" text := by
        intro s hs
        rcases mem_append.1 hs with hs | hs
        · exact promptMessages_spec systemPrompt s hs
        · exact ⟨notice, mem_singleton.1 hs⟩
      have hmap : ((lastMessages config.compactKeepRecent history).bind fun recent =>
            pure (promptMessages systemPrompt ++ .ofText "system" notice :: recent)) =
          (lastMessages config.compactKeepRecent history).map
            ((promptMessages systemPrompt ++ [.ofText "system" notice]) ++ ·) := by
        cases lastMessages config.compactKeepRecent history <;> simp
      rw [min_eq_left hrecent.le, forall_prop_of_true hfull, forall_prop_of_true hrecent, hmap]
      exact keepsPairing_lastMessages h hnotices hrecent.le
    · refine iff_of_true (keepsPairing_some.2 h) fun hfull hrecent => absurd ⟨hfull, ?_⟩ hcut
      rwa [min_eq_left hrecent.le]
  · have hnone : Core.estimateTokens dumpSize history = none :=
      Option.not_isSome_iff_eq_none.1 fun hsome =>
        hdump ((isSome_estimateTokens dumpSize history).1 hsome)
    rw [hnone]
    exact iff_of_false not_keepsPairing_none fun hclean => hdump hclean.1

theorem keepsPairing_overflow (systemPrompt : String) {history : List Message}
    (h : Paired history) :
    KeepsPairing (recoverFromOverflow systemPrompt history) ↔
      KeepsClean dumpSize (overflow systemPrompt) history := by
  have hnotices : ∀ s ∈ promptMessages systemPrompt ++ [.ofText "system" overflowNotice],
      ∃ text, s = .ofText "system" text := by
    intro s hs
    rcases mem_append.1 hs with hs | hs
    · exact promptMessages_spec systemPrompt s hs
    · exact ⟨overflowNotice, mem_singleton.1 hs⟩
  have hmap : recoverFromOverflow systemPrompt history =
      (lastMessages (overflowKeep history) history).map
        ((promptMessages systemPrompt ++ [.ofText "system" overflowNotice]) ++ ·) := by
    rw [recoverFromOverflow]
    congr 1
    funext recent
    simp
  rw [hmap, KeepsClean]
  by_cases hlength : 2 ≤ history.length
  · have hkeep : (overflowKeep history : Int) ≤ history.length := by
      rw [overflowKeep]
      omega
    rw [keepsPairing_lastMessages h hnotices hkeep, and_iff_right hlength,
      and_iff_right (Int.natCast_nonneg _), Int.toNat_natCast]
  · refine iff_of_false ?_ fun hclean => hlength hclean.1
    have hkeep : ¬ (overflowKeep history : Int) ≤ history.length := by
      rw [overflowKeep]
      omega
    rw [lastMessages, if_neg fun hrange => hkeep hrange.2]
    exact not_keepsPairing_none

/-- **A path keeps the pairing of a history exactly when it keeps it clean.** -/
theorem keepsPairing_iff (dumpSize : Json → Nat) (path : ShrinkingPath) {history : List Message}
    (h : Paired history) :
    KeepsPairing (path.apply dumpSize history) ↔ path.KeepsClean dumpSize history := by
  cases path with
  | autoCompact config => exact keepsPairing_autoCompact config h
  | focus latestUserText => exact keepsPairing_focus latestUserText h
  | compress targetTokens strategy => exact keepsPairing_compress targetTokens strategy h
  | windowGuard notice config contextWindow systemPrompt =>
    exact keepsPairing_windowGuard notice config contextWindow systemPrompt h
  | overflow systemPrompt => exact keepsPairing_overflow systemPrompt h

def afterRounds (calls : List String) : List Message :=
  .ofText "system" "p" :: .ofText "user" "q" :: calls.flatMap fun id =>
    [{ role := "assistant", content := [.makeToolUse id "read" (.obj [])] },
      { role := "user", content := [.makeToolResult id "r"] }]

/-- After one round the recovery keeps a call with its result. -/
theorem keepsPairing_iff_afterRounds :
    KeepsPairing ((overflow "p").apply (fun _ => 2) (afterRounds ["t1"])) := by
  have hpaired : Paired (afterRounds ["t1"]) := by decide
  exact (keepsPairing_iff (fun _ => 2) (overflow "p") hpaired).2 ⟨by decide, by decide⟩

/-- After two rounds it keeps the result of a call that it removes. -/
theorem not_keepsPairing : ¬ ∀ (dumpSize : Json → Nat) (path : ShrinkingPath)
    (history : List Message), Paired history → KeepsPairing (path.apply dumpSize history) := by
  intro h
  obtain ⟨shrunk, hshrunk, hpaired⟩ :=
    h (fun _ => 2) (overflow "p") (afterRounds ["t1", "t2"]) (by decide)
  have hnot : ∀ shrunk ∈ (overflow "p").apply (fun _ => 2) (afterRounds ["t1", "t2"]),
      ¬ Paired shrunk := by decide
  exact hnot shrunk hshrunk hpaired

end ShrinkingPath

end RavBot.Core
