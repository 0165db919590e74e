import RavBot.Core.AgentStream

/-!
# Streaming and plain processing

The two loops are copies of each other, and a provider that makes no errors should not be able to
tell them apart.  A script says what it answers to one request after the other, and how it splits
the answers into chunks.

The loops count differently.  The chunk callback of `ProcessMessageStream` counts an iteration for
the tool calls of a stream, and the loop counts another one when the stream is over, so that a
turn has half as many tool rounds there.  The loops agree exactly when that does not show
(`report_eq_iff`).
-/

open List

namespace RavBot.Core

open RavBot.Lib RavBot.Providers

/-! ## Scripts -/

/-- What a provider answers to a request, and what comes of the tool calls in the answer. -/
structure ProviderTurn where
  text : String
  toolCalls : List ToolCall
  outcomes : Nat → Except String String

namespace ProviderTurn

def response (turn : ProviderTurn) : ChatCompletionResponse where
  content := turn.text
  toolCalls := turn.toolCalls

@[simp] theorem content_response (turn : ProviderTurn) : turn.response.content = turn.text := rfl

@[simp] theorem toolCalls_response (turn : ProviderTurn) :
    turn.response.toolCalls = turn.toolCalls := rfl

/-- What the tools do, when nobody calls `Stop`. -/
def tools (turn : ProviderTurn) (i : Nat) : ToolAnswer where
  stopped := false
  outcome := turn.outcomes i

def results (turn : ProviderTurn) : List String :=
  (handleToolCalls false turn.tools 0 turn.toolCalls).1.map
    (truncateToolResult · kToolResultMaxChars kToolResultKeepLines)

/-- The provider calls tools, with arguments that can be dumped. -/
def CallsTools (turn : ProviderTurn) : Prop :=
  turn.toolCalls ≠ [] ∧ ∀ tc ∈ turn.toolCalls, tc.arguments.isUtf8

def Answers (turn : ProviderTurn) : Prop := turn.toolCalls = [] ∧ turn.text ≠ ""

end ProviderTurn

def textOf (chunks : List ChatCompletionResponse) : String :=
  chunks.foldl (fun text chunk => text ++ chunk.content) ""

/-- The chunks are an answer in pieces: the text in any split, and the calls, when there are any, in
one chunk, after which nothing more comes. -/
inductive Delivers (turn : ProviderTurn) : List ChatCompletionResponse → Prop
  | text {chunks : List ChatCompletionResponse} (hnone : turn.toolCalls = [])
      (hchunks : ∀ chunk ∈ chunks, chunk.toolCalls = []) (htext : textOf chunks = turn.text) :
      Delivers turn chunks
  | calls {before after : List ChatCompletionResponse} {call : ChatCompletionResponse}
      (hsome : turn.toolCalls ≠ []) (hbefore : ∀ chunk ∈ before, chunk.toolCalls = [])
      (hcall : call.toolCalls = turn.toolCalls) (htext : textOf (before ++ [call]) = turn.text)
      (hafter : ∀ chunk ∈ after, chunk.toolCalls = [] ∧ chunk.content = "") :
      Delivers turn (before ++ call :: after)

/-- What a provider answers to one request after the other, in one piece and in chunks. -/
structure Script where
  turn : Nat → ProviderTurn
  chunks : Nat → List ChatCompletionResponse
  delivers : ∀ k, Delivers (turn k) (chunks k)

namespace Script

/-- The next iteration of `ProcessMessage`. -/
def plainRound (script : Script) (k : Nat) : PlainAction :=
  .round [⟨false, .response (script.turn k).response, false, ⟨none, "", ""⟩⟩] (script.turn k).tools
    false

/-- The next iteration of `ProcessMessageStream`. -/
def streamRound (script : Script) (k : Nat) : StreamAction :=
  .round (script.chunks k) (script.turn k).tools .done false ⟨none, "", ""⟩

end Script

/-! ## Turns that follow a script -/

/-- What is to be compared: how many requests a turn sends, which tool calls it executes in which
round, and the text with which it returns. -/
structure Report where
  requests : Nat
  executed : List (List ToolCall)
  answer : Option String

def LoopState.report (s : LoopState) : Report where
  requests := s.sent.length
  executed := s.executed
  answer := if s.outcome = some .returned then s.newMessages.getLast?.map (·.text) else none

theorem LoopState.report_returnWith (s : LoopState) (content : String) :
    (s.returnWith (textMessage content)).report = ⟨s.sent.length, s.executed, some content⟩ := by
  have htext : (textMessage content).text = content := String.empty_append
  rw [report, returnWith]
  dsimp only
  rw [getLast?_concat, if_pos rfl, Option.map_some, htext]

/-- The action with which `ProcessMessage` goes on. -/
def PlainState.next (loop : AgentLoop) (script : Script) (k : Nat) (s : PlainState) : PlainAction :=
  if s.goesOn loop then script.plainRound k else .leave false

/-- The action with which `ProcessMessageStream` goes on. -/
def StreamState.next (loop : AgentLoop) (script : Script) (k : Nat) (s : StreamState) :
    StreamAction :=
  if s.goesOn loop then script.streamRound k else .leave false

def AgentLoop.horizon (loop : AgentLoop) : Nat := loop.maxIterations.toNat + 2

section Reports

variable (dumpSize : Json → Nat) (loop : AgentLoop) (provider : Provider) (script : Script)

/-- The report of `ProcessMessage`, when the user has sent a similar message some times before. -/
def plainReport (occurrences : Nat) : Option Report := do
  let context ← loop.context dumpSize occurrences
  let s ← follow (PlainState.step loop) (PlainState.next loop script) (!·.running) loop.horizon 0
    (.start loop provider context)
  return s.report

/-- The report of `ProcessMessageStream`. -/
def streamReport (providerId : String) : Option Report := do
  let context ← loop.streamContext dumpSize
  let s ← follow (StreamState.step loop) (StreamState.next loop script) (!·.running) loop.horizon 0
    (.start loop provider providerId context)
  return s.report

end Reports

/-! ## Rounds of `ProcessMessage` -/

/-- The loop goes on, and nobody has called `Stop`. -/
structure LoopState.Quiet (s : LoopState) : Prop where
  outcome : s.outcome = none
  overflowed : s.overflowed = false
  stopRequested : s.stopRequested = false

theorem LoopState.Quiet.running {s : LoopState} (hs : s.Quiet) : ¬ !s.running := by
  rw [LoopState.running, hs.outcome]
  exact Bool.false_ne_true

/-- The messages in which the `k`-th request goes out, when each turn before calls tools. -/
def Script.requests (loop : AgentLoop) (provider : Provider) (script : Script)
    (context : List Message) : Nat → List Message
  | 0 => sanitizeRequestMessages (some provider.name) loop.turnValidator context
  | k + 1 =>
    let turn := script.turn k
    sanitizeRequestMessages (some provider.name) loop.turnValidator
      (script.requests loop provider context k ++ [assistantMessage turn.text turn.toolCalls,
        resultsMessage turn.toolCalls turn.results])

/-- The synthesis guard does not take a text for the answer to a request. -/
def rejectsDump (messages : List Message) (text : String) : Bool :=
  (collectTrailingReplayToolNames messages).contains "web_search" &&
    responseLooksLikeRawSearchResultsDump text

/-- Nor does it take the `k`-th text, when each turn before calls tools. -/
def Script.rejected (loop : AgentLoop) (provider : Provider) (script : Script)
    (context : List Message) (k : Nat) : Bool :=
  rejectsDump (script.requests loop provider context k) (script.turn k).text

theorem handleToolCalls_turn (turn : ProviderTurn) (i : Nat) (toolCalls : List ToolCall) :
    (handleToolCalls false turn.tools i toolCalls).2 = (toolCalls, false) := by
  induction toolCalls generalizing i with
  | nil => rfl
  | cons tc toolCalls ih =>
    have hrest := ih (i + 1)
    rw [handleToolCalls, if_neg (show ¬ (false || (turn.tools i).stopped) from
      Bool.false_ne_true)]
    generalize handleToolCalls false turn.tools (i + 1) toolCalls = handled at hrest
    obtain ⟨results, executed, stopRequested⟩ := handled
    cases hrest
    rfl

theorem executeWithRetry_response (loop : AgentLoop) {s : LoopState} (hs : s.stopRequested = false)
    (response : ChatCompletionResponse) :
    executeWithRetry loop kDefaultMaxRetries 0 0 s
        [⟨false, .response response, false, ⟨none, "", ""⟩⟩] =
      some (s.send loop, .response response) := by
  obtain ⟨request, provider, iterations, overflowRetries, newMessages, stopRequested, overflowed,
    outcome, sent, executed⟩ := s
  cases hs
  rfl

namespace PlainState

variable {loop : AgentLoop} {script : Script} {s : PlainState} {k : Nat}

theorem step_plainRound (hs : s.Quiet) (hgo : s.goesOn loop) :
    step loop s (script.plainRound k) =
      some ({ s with toLoopState := s.resetToolChoice.toLoopState.send loop }.handle loop
        (script.turn k).tools false (.response (script.turn k).response)) := by
  have hreset : s.resetToolChoice.stopRequested = false := by
    rw [resetToolChoice]
    split <;> exact hs.stopRequested
  have hrunning : s.running && !s.overflowed && s.goesOn loop := by
    rw [LoopState.running, hs.outcome, hs.overflowed, hgo]
    rfl
  rw [Script.plainRound, step, if_pos hrunning, executeWithRetry_response loop hreset,
    Option.map_some]

theorem send_spec (loop : AgentLoop) (hs : s.Quiet) :
    let s' := s.resetToolChoice.toLoopState.send loop
    s'.Quiet ∧ s'.iterations = s.iterations ∧ s'.sent.length = s.sent.length + 1 ∧
      s'.executed = s.executed ∧ s'.provider = s.provider ∧
      s'.request.messages =
        sanitizeRequestMessages (some s.provider.name) loop.turnValidator s.request.messages := by
  obtain ⟨hout, hover, hstop⟩ := hs
  rw [resetToolChoice]
  split
  · exact ⟨⟨hout, hover, hstop⟩, rfl, length_append, rfl, rfl, rfl⟩
  · exact ⟨⟨hout, hover, hstop⟩, rfl, length_append, rfl, rfl, rfl⟩

theorem handle_callsTools (loop : AgentLoop) {turn : ProviderTurn} (hs : s.Quiet) (hturn : turn.CallsTools) :
    let s' := s.handle loop turn.tools false (.response turn.response)
    s'.Quiet ∧ s'.iterations = s.iterations + 1 ∧ s'.sent = s.sent ∧
      s'.executed = s.executed ++ [turn.toolCalls] ∧ s'.provider = s.provider ∧
      s'.forcedWebSearchSynthesisRetry = s.forcedWebSearchSynthesisRetry ∧
      s'.request.messages = s.request.messages ++
        [assistantMessage turn.text turn.toolCalls, resultsMessage turn.toolCalls turn.results] := by
  obtain ⟨hcalls, hutf8⟩ := hturn
  have hdump : ¬ turn.toolCalls.any (!·.arguments.isUtf8) := by
    rw [any_eq_true]
    rintro ⟨tc, htc, hbad⟩
    rw [hutf8 tc htc] at hbad
    cases hbad
  have hhandled := handleToolCalls_turn turn 0 turn.toolCalls
  rw [handle, ProviderTurn.toolCalls_response, if_pos hcalls, callTools,
    ProviderTurn.toolCalls_response, if_neg hdump, hs.stopRequested, ProviderTurn.results]
  generalize handleToolCalls false turn.tools 0 turn.toolCalls = handled at hhandled
  obtain ⟨results, executed, stopRequested⟩ := handled
  cases hhandled
  exact ⟨⟨hs.outcome, hs.overflowed, rfl⟩, rfl, rfl, rfl, rfl, rfl, rfl⟩

theorem handle_fails (loop : AgentLoop) {turn : ProviderTurn} (hs : s.Quiet) (hcalls : ¬ turn.CallsTools)
    (hanswers : ¬ turn.Answers) :
    ∃ what, (s.handle loop turn.tools false (.response turn.response)).toLoopState =
      s.throw what := by
  rw [handle, ProviderTurn.toolCalls_response, ProviderTurn.content_response]
  by_cases hnone : turn.toolCalls = []
  · have htext : turn.text = "" := by
      by_contra htext
      exact hanswers ⟨hnone, htext⟩
    have hstop : ¬ (s.stopRequested || false) := by
      rw [hs.stopRequested]
      exact Bool.false_ne_true
    rw [if_neg (not_not.2 hnone), if_neg (not_not.2 htext), finish]
    dsimp only
    rw [if_neg hstop, Bool.or_false]
    exact ⟨_, rfl⟩
  · have hdump : turn.toolCalls.any (!·.arguments.isUtf8) := by
      by_contra hall
      refine hcalls ⟨hnone, fun tc htc => ?_⟩
      by_contra hbad
      exact hall (any_eq_true.2 ⟨tc, htc, by simpa using hbad⟩)
    rw [if_pos hnone, callTools, ProviderTurn.toolCalls_response, if_pos hdump]
    exact ⟨_, rfl⟩

theorem handle_answers {turn : ProviderTurn} (hlookup : hasLookupIntent loop.message = false)
    (hs : s.Quiet) (hforced : s.forcedWebSearchSynthesisRetry = false) (hturn : turn.Answers) :
    let s' := s.handle loop turn.tools false (.response turn.response)
    if rejectsDump s.request.messages turn.text then
      s'.Quiet ∧ s'.iterations = s.iterations + 1 ∧ s'.sent = s.sent
    else s'.toLoopState = s.returnWith (textMessage turn.text) := by
  obtain ⟨hnone, htext⟩ := hturn
  rw [handle, ProviderTurn.toolCalls_response, ProviderTurn.content_response,
    if_neg (not_not.2 hnone), if_pos htext, answer, hforced, hlookup, rejectsDump]
  simp only [Bool.not_false, Bool.and_false, Bool.false_and, Bool.false_eq_true, if_false,
    Bool.true_and]
  split
  · exact ⟨⟨hs.outcome, hs.overflowed, hs.stopRequested⟩, rfl, rfl⟩
  · rfl

/-- The loop has had `k` answers, which all call tools. -/
structure After (loop : AgentLoop) (provider : Provider) (script : Script)
    (context : List Message) (k : Nat) (s : PlainState) : Prop
    extends LoopState.Quiet s.toLoopState where
  iterations : s.iterations = k
  sent : s.sent.length = k
  executed : s.executed = (List.range k).map fun j => (script.turn j).toolCalls
  sameProvider : s.provider = provider
  retry : s.forcedWebSearchSynthesisRetry = false
  messages : sanitizeRequestMessages (some provider.name) loop.turnValidator s.request.messages =
    script.requests loop provider context k

variable {provider : Provider} {context : List Message}

theorem after_start : After loop provider script context 0 (start loop provider context) :=
  ⟨⟨rfl, rfl, rfl⟩, rfl, rfl, rfl, rfl, rfl, rfl⟩

theorem goesOn_iff (hs : s.Quiet) : s.goesOn loop ↔ s.iterations < loop.maxIterations := by
  rw [LoopState.goesOn, hs.stopRequested, Bool.not_false, Bool.and_true, decide_eq_true_iff]

theorem step_next (hs : s.Quiet) (hgo : s.iterations < loop.maxIterations) :
    step loop s (next loop script k s) =
      some ({ s with toLoopState := s.resetToolChoice.toLoopState.send loop }.handle loop
        (script.turn k).tools false (.response (script.turn k).response)) := by
  have hgo := (goesOn_iff hs).2 hgo
  rw [next, if_pos hgo, step_plainRound hs hgo]

theorem step_leave (script : Script) (k : Nat) (hs : s.Quiet) (hgo : ¬ s.iterations < loop.maxIterations) :
    ∃ s', step loop s (next loop script k s) = some s' ∧ ¬ s'.running ∧ s'.report.answer = none := by
  obtain ⟨⟨request, provider, iterations, overflowRetries, newMessages, stopRequested, overflowed,
    outcome, sent, executed⟩, forcedLookupRetry, forcedSynthesisRetry⟩ := s
  obtain ⟨hout, hover, hstop⟩ := hs
  cases hout
  cases hover
  cases hstop
  have hgo : ¬ iterations < loop.maxIterations := hgo
  simp only [next, LoopState.goesOn, hgo, decide_false, Bool.false_and, Bool.false_eq_true,
    if_false, step, LoopState.running, Option.isNone_none, Bool.not_false, Bool.and_self, if_true]
  exact ⟨_, rfl, Bool.false_ne_true, rfl⟩

theorem After.step (h : After loop provider script context k s) (hk : k < loop.maxIterations)
    (hturn : (script.turn k).CallsTools) :
    ∃ s', PlainState.step loop s (next loop script k s) = some s' ∧
      After loop provider script context (k + 1) s' := by
  obtain ⟨hquiet, hiter, hsent, hexecuted, hprovider, hmessages⟩ := send_spec loop h.toQuiet
  obtain ⟨hquiet', hiter', hsent', hexecuted', hprovider', hretry', hmessages'⟩ :=
    handle_callsTools loop
      (s := { s with toLoopState := s.resetToolChoice.toLoopState.send loop }) hquiet hturn
  refine ⟨_, step_next h.toQuiet (by rw [h.iterations]; exact hk), hquiet', ?_, ?_, ?_, ?_, ?_, ?_⟩
  · rw [hiter', hiter, h.iterations]
  · rw [hsent', hsent, h.sent]
  · rw [hexecuted', hexecuted, h.executed, range_succ, map_append]
    rfl
  · rw [hprovider', hprovider, h.sameProvider]
  · rw [hretry', h.retry]
  · rw [hmessages', hmessages, h.sameProvider, h.messages]
    rfl

/-- An answer with a text: when it is not taken for an answer, the loop goes on with a request
more. -/
theorem After.answer (h : After loop provider script context k s) (hk : k < loop.maxIterations)
    (hlookup : hasLookupIntent loop.message = false) (hturn : (script.turn k).Answers) :
    ∃ s', PlainState.step loop s (next loop script k s) = some s' ∧
      if script.rejected loop provider context k then
        s'.Quiet ∧ s'.iterations = k + 1 ∧ s'.sent.length = k + 1
      else ¬ s'.running ∧ s'.report = ⟨k + 1,
        (List.range k).map fun j => (script.turn j).toolCalls, some (script.turn k).text⟩ := by
  obtain ⟨hquiet, hiter, hsent, hexecuted, hprovider, hmessages⟩ := send_spec loop h.toQuiet
  have hanswers := handle_answers
    (s := { s with toLoopState := s.resetToolChoice.toLoopState.send loop }) hlookup hquiet h.retry
    hturn
  refine ⟨_, step_next h.toQuiet (by rw [h.iterations]; exact hk), ?_⟩
  rw [h.sameProvider, h.messages] at hmessages
  rw [h.iterations] at hiter
  rw [h.sent] at hsent
  rw [h.executed] at hexecuted
  dsimp only at hanswers
  rw [hmessages] at hanswers
  rw [Script.rejected]
  split at hanswers
  case isTrue hrejected =>
    rw [if_pos hrejected]
    obtain ⟨hquiet', hiter', hsent'⟩ := hanswers
    exact ⟨hquiet', by rw [hiter', hiter], by rw [hsent', hsent]⟩
  case isFalse hrejected =>
    rw [if_neg hrejected]
    rw [hanswers, LoopState.report_returnWith, hsent, hexecuted]
    exact ⟨Bool.false_ne_true, rfl⟩

theorem After.fail (h : After loop provider script context k s) (hk : k < loop.maxIterations)
    (hcalls : ¬ (script.turn k).CallsTools) (hanswers : ¬ (script.turn k).Answers) :
    ∃ s', PlainState.step loop s (next loop script k s) = some s' ∧ ¬ s'.running ∧
      s'.report.answer = none := by
  obtain ⟨hquiet, -⟩ := send_spec loop h.toQuiet
  obtain ⟨what, hwhat⟩ := handle_fails loop
    (s := { s with toLoopState := s.resetToolChoice.toLoopState.send loop }) hquiet hcalls hanswers
  refine ⟨_, step_next h.toQuiet (by rw [h.iterations]; exact hk), ?_⟩
  rw [hwhat]
  exact ⟨Bool.false_ne_true, rfl⟩

theorem handle_quiet (loop : AgentLoop) (turn : ProviderTurn) (hs : s.Quiet) :
    let s' := s.handle loop turn.tools false (.response turn.response)
    s'.sent = s.sent ∧ (s'.running → s'.Quiet ∧ s'.iterations = s.iterations + 1) := by
  by_cases hcalls : turn.CallsTools
  · obtain ⟨hquiet, hiter, hsent, -⟩ := handle_callsTools loop hs hcalls
    exact ⟨hsent, fun _ => ⟨hquiet, hiter⟩⟩
  · by_cases hanswers : turn.Answers
    · obtain ⟨hnone, htext⟩ := hanswers
      have hcorrect : s.Quiet := hs
      rw [handle, ProviderTurn.toolCalls_response, ProviderTurn.content_response,
        if_neg (not_not.2 hnone), if_pos htext, answer]
      dsimp only
      split
      · exact ⟨rfl, fun _ => ⟨⟨hs.outcome, hs.overflowed, hs.stopRequested⟩, rfl⟩⟩
      · split
        · exact ⟨rfl, fun _ => ⟨⟨hs.outcome, hs.overflowed, hs.stopRequested⟩, rfl⟩⟩
        · exact ⟨rfl, fun hrunning => absurd hrunning Bool.false_ne_true⟩
    · obtain ⟨what, hwhat⟩ := handle_fails loop hs hcalls hanswers
      dsimp only
      rw [hwhat]
      exact ⟨rfl, fun hrunning => absurd hrunning Bool.false_ne_true⟩

theorem step_quiet (script : Script) (k : Nat) (hs : s.Quiet)
    (hgo : s.iterations < loop.maxIterations) :
    ∃ s', step loop s (next loop script k s) = some s' ∧ s'.sent.length = s.sent.length + 1 ∧
      (s'.running → s'.Quiet ∧ s'.iterations = s.iterations + 1) := by
  obtain ⟨hquiet, hiter, hsent, -⟩ := send_spec loop hs
  obtain ⟨hsent', hmore⟩ := handle_quiet loop (script.turn k)
    (s := { s with toLoopState := s.resetToolChoice.toLoopState.send loop }) hquiet
  refine ⟨_, step_next hs hgo, by rw [hsent', hsent], fun hrunning => ?_⟩
  obtain ⟨hquiet', hiter'⟩ := hmore hrunning
  exact ⟨hquiet', by rw [hiter', hiter]⟩

theorem follow_quiet (script : Script) (k : Nat) {fuel : Nat} (hs : s.Quiet) (hpos : 0 < fuel)
    (hfuel : loop.maxIterations < s.iterations + fuel) :
    ∃ s', follow (step loop) (next loop script) (!·.running) fuel k s = some s' ∧
      (s'.report.answer = none ∨ s.sent.length < s'.report.requests) := by
  -- as long as the loop goes on, the actions left are enough for the iterations left and the end
  let motive (fuel : Nat) (s' : PlainState) : Prop :=
    (s'.running → s'.Quiet ∧ 0 < fuel ∧ loop.maxIterations < s'.iterations + fuel ∧
      s.sent.length ≤ s'.sent.length) ∧
    (¬ s'.running → s'.report.answer = none ∨ s.sent.length < s'.report.requests)
  have hzero (s' : PlainState) (h : motive 0 s') : !s'.running := by
    by_contra hfinal
    exact absurd (h.1 (by simpa using hfinal)).2.1 (lt_irrefl 0)
  have hstep (fuel k : Nat) (s' : PlainState) (h : motive (fuel + 1) s') (hfinal : ¬ !s'.running) :
      ∃ s'', step loop s' (next loop script k s') = some s'' ∧ motive fuel s'' := by
    obtain ⟨hquiet, -, hfuel, hsent⟩ := h.1 (by simpa using hfinal)
    by_cases hgo : s'.iterations < loop.maxIterations
    · obtain ⟨s'', hstep, hsent', hmore⟩ := step_quiet script k hquiet hgo
      refine ⟨s'', hstep, fun h => ?_, fun _ => .inr ?_⟩
      · obtain ⟨hquiet', hiter'⟩ := hmore h
        exact ⟨hquiet', by omega, by omega, by omega⟩
      · show s.sent.length < s''.sent.length
        omega
    · obtain ⟨s'', hstep, hended, hnone⟩ := step_leave script k hquiet hgo
      exact ⟨s'', hstep, fun h => absurd h hended, fun _ => .inl hnone⟩
  have hrunning : s.running := Option.isNone_iff_eq_none.2 hs.outcome
  obtain ⟨s', hrun, hfinal, left, -, hended⟩ := follow_rule hzero hstep k
    ⟨fun _ => ⟨hs, hpos, hfuel, le_rfl⟩, fun h => absurd hrunning h⟩
  exact ⟨s', hrun, hended (by simpa using hfinal)⟩

theorem follow_calls (loop : AgentLoop) (provider : Provider) (context : List Message)
    (hcalls : ∀ j < k, (script.turn j).CallsTools)
    (hk : k ≤ loop.maxIterations.toNat) (fuel : Nat) :
    ∃ s, After loop provider script context k s ∧
      follow (step loop) (next loop script) (!·.running) (k + fuel) 0
          (start loop provider context) =
        follow (step loop) (next loop script) (!·.running) fuel k s := by
  exact follow_steps (fun j s hj hs => ⟨hs.running, hs.step (by omega) (hcalls j hj)⟩) after_start
    fuel

theorem follow_next {s' : PlainState} (hs : s.Quiet)
    (hstep : step loop s (next loop script k s) = some s') (fuel : Nat) :
    follow (step loop) (next loop script) (!·.running) (fuel + 1) k s =
      follow (step loop) (next loop script) (!·.running) fuel (k + 1) s' := by
  refine follow_of_step ?_ hstep fuel
  exact hs.running

theorem follow_end {s' : PlainState} (hs : s.Quiet)
    (hstep : step loop s (next loop script k s) = some s') (hended : ¬ s'.running) (fuel : Nat) :
    follow (step loop) (next loop script) (!·.running) (fuel + 1) k s = some s' := by
  refine follow_last ?_ hstep ?_ fuel
  · exact hs.running
  · simpa using hended

end PlainState

section Plain

variable {dumpSize : Json → Nat} {loop : AgentLoop} {script : Script} {occurrences : Nat}
  {context : List Message}

/-- A turn of `ProcessMessage` without a text before the limit, with nothing but tool calls before
it, ends without an answer. -/
theorem plainReport_none (provider : Provider)
    (hcontext : loop.context dumpSize occurrences = some context)
    (h : ¬ ∃ k : Nat, k < loop.maxIterations ∧ (∀ j < k, (script.turn j).CallsTools) ∧
      (script.turn k).Answers) :
    ∃ report, plainReport dumpSize loop provider script occurrences = some report ∧
      report.answer = none := by
  by_cases hall : ∀ j < loop.maxIterations.toNat, (script.turn j).CallsTools
  · -- the limit
    obtain ⟨s, hs, hrun⟩ := PlainState.follow_calls loop provider context hall le_rfl 2
    obtain ⟨s', hstep, hended, hnone⟩ := PlainState.step_leave script loop.maxIterations.toNat
      hs.toQuiet (show ¬ (s.iterations : Int) < loop.maxIterations by rw [hs.iterations]; omega)
    refine ⟨s'.report, ?_, hnone⟩
    rw [plainReport, hcontext, AgentLoop.horizon]
    show (follow _ _ _ _ _ _).bind _ = _
    rw [hrun, PlainState.follow_end hs.toQuiet hstep hended]
    rfl
  · -- the first answer that does not call tools
    classical
    push Not at hall
    obtain ⟨hk, hcalls⟩ := Nat.find_spec hall
    have hbefore (j : Nat) (hj : j < Nat.find hall) : (script.turn j).CallsTools := by
      by_contra hnot
      exact Nat.find_min hall hj ⟨hj.trans hk, hnot⟩
    generalize Nat.find hall = k at hk hcalls hbefore
    obtain ⟨fuel, hfuel⟩ : ∃ fuel : Nat, loop.horizon = k + (fuel + 1) :=
      ⟨loop.maxIterations.toNat + 1 - k, by rw [AgentLoop.horizon]; omega⟩
    obtain ⟨s, hs, hrun⟩ := PlainState.follow_calls loop provider context hbefore hk.le (fuel + 1)
    obtain ⟨s', hstep, hended, hnone⟩ := hs.fail (by omega) hcalls fun hanswers =>
      h ⟨k, by omega, hbefore, hanswers⟩
    refine ⟨s'.report, ?_, hnone⟩
    rw [plainReport, hcontext, hfuel]
    show (follow _ _ _ _ _ _).bind _ = _
    rw [hrun, PlainState.follow_end hs.toQuiet hstep hended]
    rfl

/-- A turn of `ProcessMessage` with a text before the limit, and nothing but tool calls before it:
the text is the answer, or one more request is sent. -/
theorem plainReport_answer (provider : Provider) (hlookup : hasLookupIntent loop.message = false)
    (hcontext : loop.context dumpSize occurrences = some context) {k : Nat}
    (hk : k < loop.maxIterations) (hcalls : ∀ j < k, (script.turn j).CallsTools)
    (hanswers : (script.turn k).Answers) :
    ∃ report, plainReport dumpSize loop provider script occurrences = some report ∧
      if script.rejected loop provider context k then
        report.answer = none ∨ k + 1 < report.requests
      else report =
        ⟨k + 1, (List.range k).map fun j => (script.turn j).toolCalls, some (script.turn k).text⟩ := by
  obtain ⟨fuel, hfuel, hlimit, hpos⟩ : ∃ fuel : Nat, loop.horizon = k + (fuel + 1) ∧
      loop.maxIterations < (k + 1 : Nat) + fuel ∧ 0 < fuel :=
    ⟨loop.maxIterations.toNat + 1 - k, by rw [AgentLoop.horizon]; omega, by omega, by omega⟩
  obtain ⟨s, hs, hrun⟩ := PlainState.follow_calls loop provider context hcalls (by omega) (fuel + 1)
  obtain ⟨s', hstep, hs'⟩ := hs.answer hk hlookup hanswers
  rw [plainReport, hcontext, hfuel]
  show ∃ report, (follow _ _ _ _ _ _).bind _ = _ ∧ _
  rw [hrun, PlainState.follow_next hs.toQuiet hstep]
  split at hs'
  case isTrue hrejected =>
    obtain ⟨hquiet, hiter, hsent⟩ := hs'
    obtain ⟨s'', hrun', hmore⟩ := PlainState.follow_quiet script (k + 1) hquiet hpos
      (by rw [hiter]; exact hlimit)
    refine ⟨s''.report, ?_, ?_⟩
    · rw [hrun']
      rfl
    · rw [if_pos hrejected, ← hsent]
      exact hmore
  case isFalse hrejected =>
    obtain ⟨hended, hreport⟩ := hs'
    refine ⟨s'.report, ?_, ?_⟩
    · rw [follow_of_final (by simpa using hended)]
      rfl
    · rw [if_neg hrejected, hreport]

theorem plainReport_eq_some (provider : Provider) (script : Script)
    (hlookup : hasLookupIntent loop.message = false)
    (hcontext : loop.context dumpSize occurrences = some context) :
    ∃ report, plainReport dumpSize loop provider script occurrences = some report := by
  by_cases h : ∃ k : Nat, k < loop.maxIterations ∧ (∀ j < k, (script.turn j).CallsTools) ∧
      (script.turn k).Answers
  · obtain ⟨k, hk, hcalls, hanswers⟩ := h
    obtain ⟨report, hreport, -⟩ := plainReport_answer provider hlookup hcontext hk hcalls hanswers
    exact ⟨report, hreport⟩
  · obtain ⟨report, hreport, -⟩ := plainReport_none provider hcontext h
    exact ⟨report, hreport⟩

end Plain

/-! ## Rounds of `ProcessMessageStream` -/

namespace Streaming

variable {turn : ProviderTurn} {st : Streaming}

theorem receiveText_frame (st : Streaming) (content : String) :
    (st.receiveText content).toLoopState = st.toLoopState ∧
      (st.receiveText content).fullResponse = st.fullResponse ++ content := by
  rw [receiveText]
  split
  case isTrue hempty =>
    rw [hempty, String.append_empty]
    exact ⟨rfl, rfl⟩
  case isFalse => exact ⟨rfl, rfl⟩

variable {chunks : List ChatCompletionResponse}

theorem foldl_receive_text (tools : Nat → ToolAnswer)
    (h : ∀ chunk ∈ chunks, chunk.toolCalls = []) (st : Streaming) :
    let st' := chunks.foldl (receive tools) st
    st'.toLoopState = st.toLoopState ∧
      st'.fullResponse = chunks.foldl (fun text chunk => text ++ chunk.content) st.fullResponse := by
  induction chunks generalizing st with
  | nil => exact ⟨rfl, rfl⟩
  | cons chunk chunks ih =>
    rw [forall_mem_cons] at h
    obtain ⟨hstate, hfull⟩ := ih h.2 (st.receive tools chunk)
    have hreceive : (st.receive tools chunk).toLoopState = st.toLoopState ∧
        (st.receive tools chunk).fullResponse = st.fullResponse ++ chunk.content := by
      have htext := receiveText_frame st chunk.content
      rw [receive, if_neg (not_not.2 h.1)]
      split <;> exact htext
    obtain ⟨hstate', hfull'⟩ := hreceive
    rw [foldl_cons, foldl_cons]
    exact ⟨hstate.trans hstate', by rw [hfull, hfull']⟩

theorem foldl_callTool_turn (turn : ProviderTurn) (toolCalls : List ToolCall) (hst : st.Quiet) :
    let st' := toolCalls.foldl (callTool turn.tools) st
    st'.Quiet ∧ st'.iterations = st.iterations ∧ st'.sent = st.sent ∧
      st'.executed = st.executed ∧ st'.executedNow = st.executedNow ++ toolCalls ∧
      (toolCalls ≠ [] → st'.fullResponse = "") := by
  induction toolCalls generalizing st with
  | nil => exact ⟨hst, rfl, rfl, rfl, (append_nil _).symm, fun h => absurd rfl h⟩
  | cons tc toolCalls ih =>
    have hstop : (st.stopRequested || (turn.tools st.calls).stopped) = false := by
      rw [hst.stopRequested]
      rfl
    have hquiet : (st.callTool turn.tools tc).Quiet := ⟨hst.outcome, hst.overflowed, hstop⟩
    have hnow : (st.callTool turn.tools tc).executedNow = st.executedNow ++ [tc] := by
      rw [callTool]
      dsimp only
      rw [hstop]
      rfl
    obtain ⟨hquiet', hiter, hsent, hexecuted, hnow', hfull⟩ := ih hquiet
    refine ⟨hquiet', hiter, hsent, hexecuted, ?_, fun _ => ?_⟩
    · rw [foldl_cons, hnow', hnow, append_assoc]
      rfl
    · cases toolCalls with
      | nil => rfl
      | cons tc' toolCalls => exact hfull (cons_ne_nil _ _)

theorem receiveCalls_turn (hsome : turn.toolCalls ≠ []) (hst : st.Quiet) :
    let st' := st.receiveCalls turn.tools turn.toolCalls
    st'.Quiet ∧ st'.iterations = st.iterations + 1 ∧ st'.sent = st.sent ∧
      st'.executed = st.executed ++ [turn.toolCalls] ∧ st'.fullResponse = "" := by
  have hquiet : ({ st with executedNow := [] } : Streaming).Quiet := hst
  obtain ⟨hquiet', hiter, hsent, hexecuted, hnow, hfull⟩ :=
    foldl_callTool_turn turn turn.toolCalls hquiet
  rw [receiveCalls]
  refine ⟨⟨hquiet'.outcome, hquiet'.overflowed, hquiet'.stopRequested⟩, ?_, hsent, ?_, hfull hsome⟩
  · exact congrArg (· + 1) hiter
  · rw [hexecuted, hnow]
    rfl

theorem foldl_empty (h : ∀ chunk ∈ chunks, chunk.content = "")
    (text : String) : chunks.foldl (fun text chunk => text ++ chunk.content) text = text := by
  induction chunks with
  | nil => rfl
  | cons chunk chunks ih =>
    rw [forall_mem_cons] at h
    rw [foldl_cons, h.1, String.append_empty, ih h.2]

theorem foldl_receive_delivers (h : Delivers turn chunks)
    (st : Streaming) (hst : st.Quiet) (hfull : st.fullResponse = "") :
    let st' := chunks.foldl (receive turn.tools) st
    st'.Quiet ∧ st'.sent = st.sent ∧
      if turn.toolCalls = [] then
        st'.fullResponse = turn.text ∧ st'.iterations = st.iterations ∧ st'.executed = st.executed
      else
        st'.fullResponse = "" ∧ st'.iterations = st.iterations + 1 ∧
          st'.executed = st.executed ++ [turn.toolCalls] := by
  cases h with
  | text hnone hchunks htext =>
    obtain ⟨hstate, hfull'⟩ := foldl_receive_text turn.tools hchunks st
    rw [hfull] at hfull'
    dsimp only at hstate ⊢
    rw [hstate, if_pos hnone]
    exact ⟨hst, rfl, hfull'.trans htext, rfl, rfl⟩
  | @calls before after call hsome hbefore hcall htext hafter =>
    obtain ⟨hstate, -⟩ := foldl_receive_text turn.tools hbefore st
    rw [foldl_append, foldl_cons]
    generalize before.foldl (receive turn.tools) st = st₁ at hstate
    have hquiet : (st₁.receiveText call.content).toLoopState = st.toLoopState :=
      (receiveText_frame st₁ call.content).1.trans hstate
    -- the chunk with the calls leaves no text, and after it comes none
    have hreceive : st₁.receive turn.tools call =
        (st₁.receiveText call.content).receiveCalls turn.tools turn.toolCalls := by
      rw [receive, hcall, if_pos hsome]
    generalize st₁.receiveText call.content = st₂ at hquiet hreceive
    rw [hreceive]
    obtain ⟨hquiet', hiter, hsent, hexecuted, hempty⟩ :=
      receiveCalls_turn hsome (show st₂.Quiet by rw [hquiet]; exact hst)
    obtain ⟨hstate', hfull'⟩ := foldl_receive_text turn.tools (fun c hc => (hafter c hc).1)
      (st₂.receiveCalls turn.tools turn.toolCalls)
    rw [hempty, foldl_empty fun c hc => (hafter c hc).2] at hfull'
    dsimp only at hstate' ⊢
    rw [hstate', if_neg hsome, hsent, hiter, hexecuted, hquiet]
    exact ⟨hquiet', rfl, hfull', rfl, rfl⟩

end Streaming

namespace StreamState

variable {loop : AgentLoop} {script : Script} {s : StreamState} {k : Nat}

/-- The next action is a round: tool calls take two iterations, and an answer with nothing at all
takes one. -/
theorem step_next (script : Script) (k : Nat) (hs : s.Quiet)
    (hgo : s.iterations < loop.maxIterations) :
    ∃ s', step loop s (next loop script k s) = some s' ∧
      if (script.turn k).toolCalls ≠ [] then
        s'.Quiet ∧ s'.iterations = s.iterations + 2 ∧ s'.sent.length = s.sent.length + 1 ∧
          s'.executed = s.executed ++ [(script.turn k).toolCalls]
      else if (script.turn k).text ≠ "" then
        ¬ s'.running ∧ s'.report = ⟨s.sent.length + 1, s.executed, some (script.turn k).text⟩
      else s'.Quiet ∧ s'.iterations = s.iterations + 1 := by
  have hgoesOn : s.goesOn loop := by
    rw [LoopState.goesOn, hs.stopRequested, Bool.not_false, Bool.and_true]
    exact decide_eq_true hgo
  have hrunning : s.running && !s.overflowed && s.goesOn loop := by
    rw [LoopState.running, hs.outcome, hs.overflowed, hgoesOn]
    rfl
  have hsend : (s.send loop).Quiet := ⟨hs.outcome, hs.overflowed, hs.stopRequested⟩
  have hlength : (s.send loop).sent.length = s.sent.length + 1 := length_append
  rw [next, if_pos hgoesOn, Script.streamRound, step, if_pos hrunning]
  refine ⟨_, rfl, ?_⟩
  obtain ⟨hquiet, hsent, hcases⟩ := Streaming.foldl_receive_delivers (script.delivers k)
    { s with toLoopState := s.send loop } hsend rfl
  rw [handle, complete]
  dsimp only
  generalize (script.chunks k).foldl (Streaming.receive (script.turn k).tools)
    { s with toLoopState := s.send loop } = st at hquiet hsent hcases ⊢
  have hsent : st.sent.length = s.sent.length + 1 := by rw [hsent, hlength]
  by_cases hnone : (script.turn k).toolCalls = []
  · rw [if_pos hnone] at hcases
    obtain ⟨hfull, hiter, hexecuted⟩ := hcases
    rw [if_neg (not_not.2 hnone), hfull]
    split
    case isTrue htext =>
      refine ⟨Bool.false_ne_true, ?_⟩
      rw [LoopState.report_returnWith, hsent, hexecuted]
      rfl
    case isFalse htext =>
      exact ⟨⟨hquiet.outcome, hquiet.overflowed, hquiet.stopRequested⟩, congrArg (· + 1) hiter⟩
  · rw [if_neg hnone] at hcases
    obtain ⟨hfull, hiter, hexecuted⟩ := hcases
    rw [if_pos hnone, if_neg (not_not.2 hfull)]
    exact ⟨⟨hquiet.outcome, hquiet.overflowed, hquiet.stopRequested⟩, congrArg (· + 1) hiter, hsent,
      hexecuted⟩

theorem step_leave (script : Script) (k : Nat) (hs : s.Quiet)
    (hgo : ¬ s.iterations < loop.maxIterations) :
    ∃ s', step loop s (next loop script k s) = some s' ∧ ¬ s'.running ∧
      s'.report.answer.isSome ∧ s'.report.requests = s.sent.length := by
  obtain ⟨⟨request, provider, iterations, overflowRetries, newMessages, stopRequested, overflowed,
    outcome, sent, executed⟩, lastProviderId, events⟩ := s
  obtain ⟨hout, hover, hstop⟩ := hs
  cases hout
  cases hover
  cases hstop
  have hgo : ¬ iterations < loop.maxIterations := hgo
  simp only [next, LoopState.goesOn, hgo, decide_false, Bool.false_and, Bool.false_eq_true,
    if_false, step, LoopState.running, Option.isNone_none, Bool.not_false, Bool.and_self, if_true]
  refine ⟨_, rfl, Bool.false_ne_true, ?_⟩
  rw [finish]
  dsimp only
  rw [LoopState.report_returnWith]
  exact ⟨rfl, rfl⟩

theorem follow_quiet (script : Script) (k : Nat) {fuel : Nat} (hs : s.Quiet) (hpos : 0 < fuel)
    (hfuel : loop.maxIterations < s.iterations + fuel) :
    ∃ s', follow (step loop) (next loop script) (!·.running) fuel k s = some s' ∧
      s'.report.answer.isSome := by
  let motive (fuel : Nat) (s' : StreamState) : Prop :=
    (s'.running → s'.Quiet ∧ 0 < fuel ∧ loop.maxIterations < s'.iterations + fuel) ∧
    (¬ s'.running → s'.report.answer.isSome)
  have hzero (s' : StreamState) (h : motive 0 s') : !s'.running := by
    by_contra hfinal
    exact absurd (h.1 (by simpa using hfinal)).2.1 (lt_irrefl 0)
  have hstep (fuel k : Nat) (s' : StreamState) (h : motive (fuel + 1) s')
      (hfinal : ¬ !s'.running) :
      ∃ s'', step loop s' (next loop script k s') = some s'' ∧ motive fuel s'' := by
    obtain ⟨hquiet, -, hfuel⟩ := h.1 (by simpa using hfinal)
    have hrunning {s : StreamState} (hs : s.Quiet) : s.running := by simpa using hs.running
    by_cases hgo : s'.iterations < loop.maxIterations
    · obtain ⟨s'', hstep, hcases⟩ := step_next script k hquiet hgo
      refine ⟨s'', hstep, ?_⟩
      split at hcases
      · obtain ⟨hquiet', hiter', -⟩ := hcases
        exact ⟨fun _ => ⟨hquiet', by omega, by omega⟩, fun h => absurd (hrunning hquiet') h⟩
      · split at hcases
        · obtain ⟨hended, hreport⟩ := hcases
          exact ⟨fun h => absurd h hended, fun _ => by rw [hreport]; rfl⟩
        · obtain ⟨hquiet', hiter'⟩ := hcases
          exact ⟨fun _ => ⟨hquiet', by omega, by omega⟩, fun h => absurd (hrunning hquiet') h⟩
    · obtain ⟨s'', hstep, hended, hsome, -⟩ := step_leave script k hquiet hgo
      exact ⟨s'', hstep, fun h => absurd h hended, fun _ => hsome⟩
  have hrunning : s.running := by simpa using hs.running
  obtain ⟨s', hrun, hfinal, left, -, hended⟩ := follow_rule hzero hstep k
    ⟨fun _ => ⟨hs, hpos, hfuel⟩, fun h => absurd hrunning h⟩
  exact ⟨s', hrun, hended (by simpa using hfinal)⟩

theorem follow_end {s' : StreamState} (hs : s.Quiet)
    (hstep : step loop s (next loop script k s) = some s') (hended : ¬ s'.running) (fuel : Nat) :
    follow (step loop) (next loop script) (!·.running) (fuel + 1) k s = some s' := by
  refine follow_last ?_ hstep ?_ fuel
  · exact hs.running
  · simpa using hended

/-- The loop has had `k` answers, which all call tools. -/
structure After (script : Script) (k : Nat) (s : StreamState) : Prop
    extends LoopState.Quiet s.toLoopState where
  iterations : s.iterations = 2 * k
  sent : s.sent.length = k
  executed : s.executed = (List.range k).map fun j => (script.turn j).toolCalls

theorem follow_calls (loop : AgentLoop) (provider : Provider) (providerId : String)
    (context : List Message) (hcalls : ∀ j < k, (script.turn j).toolCalls ≠ [])
    (hk : ∀ j < k, 2 * j < loop.maxIterations) (fuel : Nat) :
    ∃ s, After script k s ∧
      follow (step loop) (next loop script) (!·.running) (k + fuel) 0
          (start loop provider providerId context) =
        follow (step loop) (next loop script) (!·.running) fuel k s := by
  refine follow_steps (fun j s hj hs => ⟨hs.running, ?_⟩) (motive := After script)
    ⟨⟨rfl, rfl, rfl⟩, rfl, rfl, rfl⟩ fuel
  obtain ⟨s', hstep, hcases⟩ := step_next script j hs.toQuiet
    (by rw [hs.iterations]; exact hk j hj)
  rw [if_pos (hcalls j hj)] at hcases
  obtain ⟨hquiet, hiter, hsent, hexecuted⟩ := hcases
  refine ⟨s', hstep, hquiet, ?_, ?_, ?_⟩
  · rw [hiter, hs.iterations, Nat.mul_succ]
  · rw [hsent, hs.sent]
  · rw [hexecuted, hs.executed, range_succ, map_append]
    rfl

end StreamState

section Stream

variable {dumpSize : Json → Nat} {loop : AgentLoop} {script : Script} {context : List Message}

theorem streamReport_isSome (provider : Provider) (script : Script) (providerId : String)
    (hcontext : loop.streamContext dumpSize = some context) :
    ∃ report, streamReport dumpSize loop provider script providerId = some report ∧
      report.answer.isSome := by
  obtain ⟨s, hrun, hsome⟩ := StreamState.follow_quiet script 0
    (s := .start loop provider providerId context) ⟨rfl, rfl, rfl⟩
    (show 0 < loop.horizon by rw [AgentLoop.horizon]; omega)
    (show loop.maxIterations < (0 : Nat) + (loop.horizon : Int) by
      rw [AgentLoop.horizon]
      omega)
  refine ⟨s.report, ?_, hsome⟩
  rw [streamReport, hcontext]
  show (follow _ _ _ _ _ _).bind _ = _
  rw [hrun]
  rfl

/-- A turn of `ProcessMessageStream` with nothing but tool calls before a text: the text is the
answer when there are twice as many iterations as tool rounds, and otherwise it is never asked
for. -/
theorem streamReport_answer (provider : Provider) (providerId : String)
    (hcontext : loop.streamContext dumpSize = some context) {k : Nat}
    (hcalls : ∀ j < k, (script.turn j).toolCalls ≠ []) (hanswers : (script.turn k).Answers) :
    ∃ report, streamReport dumpSize loop provider script providerId = some report ∧
      if 2 * k < loop.maxIterations then report =
        ⟨k + 1, (List.range k).map fun j => (script.turn j).toolCalls, some (script.turn k).text⟩
      else report.requests ≤ k := by
  rw [streamReport, hcontext]
  show ∃ report, (follow _ _ _ _ _ _).bind _ = _ ∧ _
  by_cases hk : 2 * k < loop.maxIterations
  · obtain ⟨fuel, hfuel⟩ : ∃ fuel : Nat, loop.horizon = k + (fuel + 1) :=
      ⟨loop.maxIterations.toNat + 1 - k, by rw [AgentLoop.horizon]; omega⟩
    obtain ⟨s, hs, hrun⟩ := StreamState.follow_calls loop provider providerId context hcalls
      (by omega) (fuel + 1)
    obtain ⟨s', hstep, hcases⟩ := StreamState.step_next script k hs.toQuiet
      (show (s.iterations : Int) < loop.maxIterations by rw [hs.iterations]; exact hk)
    rw [if_neg (not_not.2 hanswers.1), if_pos hanswers.2] at hcases
    obtain ⟨hended, hreport⟩ := hcases
    refine ⟨s'.report, ?_, ?_⟩
    · rw [hfuel, hrun, StreamState.follow_end hs.toQuiet hstep hended]
      rfl
    · rw [if_pos hk, hreport, hs.sent, hs.executed]
  · -- the rounds that there are iterations for
    obtain ⟨m, hm, hlimit, hbefore⟩ : ∃ m ≤ k, loop.maxIterations ≤ (2 * m : Nat) ∧
        ∀ j < m, 2 * j < loop.maxIterations :=
      ⟨(loop.maxIterations.toNat + 1) / 2, by omega, by omega, by omega⟩
    obtain ⟨fuel, hfuel⟩ : ∃ fuel : Nat, loop.horizon = m + (fuel + 1) :=
      ⟨loop.maxIterations.toNat + 1 - m, by
        rw [AgentLoop.horizon]
        cases m with
        | zero => omega
        | succ m =>
          have := hbefore m m.lt_succ_self
          omega⟩
    obtain ⟨s, hs, hrun⟩ := StreamState.follow_calls loop provider providerId context
      (fun j hj => hcalls j (hj.trans_le hm)) hbefore (fuel + 1)
    obtain ⟨s', hstep, hended, -, hrequests⟩ := StreamState.step_leave script m hs.toQuiet
      (show ¬ (s.iterations : Int) < loop.maxIterations by rw [hs.iterations]; omega)
    refine ⟨s'.report, ?_, ?_⟩
    · rw [hfuel, hrun, StreamState.follow_end hs.toQuiet hstep hended]
      rfl
    · rw [if_neg hk, hrequests, hs.sent]
      exact hm

end Stream

section Agreement

variable {dumpSize : Json → Nat} {loop : AgentLoop} {provider : Provider} {providerId : String}
  {script : Script} {occurrences : Nat} {context context' : List Message}

theorem report_eq_iff_of_context (hlookup : hasLookupIntent loop.message = false)
    (hcontext : loop.context dumpSize occurrences = some context)
    (hstream : loop.streamContext dumpSize = some context') :
    plainReport dumpSize loop provider script occurrences =
        streamReport dumpSize loop provider script providerId ↔
      ∃ k : Nat, (∀ j < k, (script.turn j).CallsTools) ∧ (script.turn k).Answers ∧
        2 * k < loop.maxIterations ∧ script.rejected loop provider context k = false := by
  constructor
  · intro heq
    obtain ⟨report, hreport, hsome⟩ := streamReport_isSome provider script providerId hstream
    rw [hreport] at heq
    by_cases hanswer : ∃ k : Nat, k < loop.maxIterations ∧
        (∀ j < k, (script.turn j).CallsTools) ∧ (script.turn k).Answers
    case neg =>
      obtain ⟨_, hplain, hnone⟩ := plainReport_none provider hcontext hanswer
      rw [heq] at hplain
      cases hplain
      rw [hnone] at hsome
      cases hsome
    case pos =>
      obtain ⟨k, hk, hcalls, hanswers⟩ := hanswer
      obtain ⟨_, hplain, hcases⟩ := plainReport_answer provider hlookup hcontext hk hcalls hanswers
      obtain ⟨_, hreport', hcases'⟩ := streamReport_answer provider providerId hstream
        (fun j hj => (hcalls j hj).1) hanswers
      rw [heq] at hplain
      rw [hreport] at hreport'
      cases hplain
      cases hreport'
      refine ⟨k, hcalls, hanswers, ?_⟩
      cases hrejected : script.rejected loop provider context k with
      | true =>
        -- one more request than the stream has
        rw [hrejected, if_pos rfl] at hcases
        rcases hcases with hnone | hmore
        · rw [hnone] at hsome
          cases hsome
        · split at hcases'
          · rw [hcases'] at hmore
            exact absurd hmore (lt_irrefl _)
          · omega
      | false =>
        rw [hrejected, if_neg Bool.false_ne_true] at hcases
        refine ⟨?_, rfl⟩
        by_contra hk'
        rw [if_neg hk', hcases] at hcases'
        exact absurd hcases' (Nat.not_succ_le_self k)
  · rintro ⟨k, hcalls, hanswers, hk, hnot⟩
    obtain ⟨report, hreport, heq⟩ :=
      plainReport_answer provider hlookup hcontext (by omega) hcalls hanswers
    obtain ⟨report', hreport', heq'⟩ := streamReport_answer provider providerId hstream
      (fun j hj => (hcalls j hj).1) hanswers
    rw [hnot, if_neg Bool.false_ne_true] at heq
    rw [if_pos hk] at heq'
    rw [hreport, hreport', heq, heq']

end Agreement

/-- **The two loops agree** exactly when no context can be built for either, or when both contexts
can be built, the provider answers with a text after `k` answers whose tool calls have arguments
that can be dumped, there are more than `2 * k` iterations, and the text does not pass for a dump
of the results of a web search that the request replays. -/
theorem report_eq_iff (dumpSize : Json → Nat) (loop : AgentLoop) (provider : Provider)
    (providerId : String) (script : Script) (occurrences : Nat)
    (hlookup : hasLookupIntent loop.message = false) :
    plainReport dumpSize loop provider script occurrences =
        streamReport dumpSize loop provider script providerId ↔
      (loop.context dumpSize occurrences = none ∧ loop.streamContext dumpSize = none) ∨
      ∃ context, loop.context dumpSize occurrences = some context ∧
        (loop.streamContext dumpSize).isSome ∧
        ∃ k : Nat, (∀ j < k, (script.turn j).CallsTools) ∧ (script.turn k).Answers ∧
          2 * k < loop.maxIterations ∧ script.rejected loop provider context k = false := by
  cases hcontext : loop.context dumpSize occurrences with
  | none =>
    have hplain : plainReport dumpSize loop provider script occurrences = none := by
      rw [plainReport, hcontext]
      rfl
    rw [hplain]
    cases hstream : loop.streamContext dumpSize with
    | none =>
      have hreport : streamReport dumpSize loop provider script providerId = none := by
        rw [streamReport, hstream]
        rfl
      rw [hreport]
      exact iff_of_true rfl (.inl ⟨rfl, rfl⟩)
    | some context' =>
      obtain ⟨report, hreport, -⟩ := streamReport_isSome provider script providerId hstream
      rw [hreport]
      exact iff_of_false nofun (by rintro (⟨-, h⟩ | ⟨_, h, -⟩) <;> cases h)
  | some context =>
    cases hstream : loop.streamContext dumpSize with
    | none =>
      obtain ⟨report, hreport⟩ := plainReport_eq_some provider script hlookup hcontext
      have hnone : streamReport dumpSize loop provider script providerId = none := by
        rw [streamReport, hstream]
        rfl
      rw [hreport, hnone]
      exact iff_of_false nofun (by rintro (⟨h, -⟩ | ⟨_, -, h, -⟩) <;> cases h)
    | some context' =>
      rw [report_eq_iff_of_context hlookup hcontext hstream]
      constructor
      · exact fun h => .inr ⟨context, rfl, rfl, h⟩
      · rintro (⟨h, -⟩ | ⟨_, h, -, hagree⟩)
        · cases h
        · cases h
          exact hagree

/-- A tool round, and then the same text all the time. -/
def callThenText : Script where
  turn
    | 0 => ⟨"", [⟨"t1", "read", .obj []⟩], fun _ => .ok "r"⟩
    | _ + 1 => ⟨"hi", [], fun _ => .ok ""⟩
  chunks
    | 0 => [⟨"", [⟨"t1", "read", .obj []⟩], false⟩, ⟨"", [], true⟩]
    | _ + 1 => [⟨"h", [], false⟩, ⟨"i", [], true⟩]
  delivers
    | 0 => by
        refine .calls (cons_ne_nil _ _) (fun _ h => absurd h not_mem_nil) rfl rfl ?_
        intro chunk hchunk
        rw [mem_singleton.1 hchunk]
        exact ⟨rfl, rfl⟩
    | _ + 1 => by
        refine .text rfl ?_ rfl
        rw [forall_mem_cons, forall_mem_singleton]
        exact ⟨rfl, rfl⟩

/-- A tool round and a text, within three iterations. -/
theorem report_eq_iff_callThenText :
    plainReport (fun _ => 0) { message := "q", maxIterations := 3 } ⟨0, "openai"⟩ callThenText 0 =
      streamReport (fun _ => 0) { message := "q", maxIterations := 3 } ⟨0, "openai"⟩ callThenText
        "" := by
  have hcontext : (TurnInput.context (fun _ => 0) { message := "q" } 0).isSome := by decide
  have hdump : responseLooksLikeRawSearchResultsDump "hi" = false := by decide
  obtain ⟨context, hcontext⟩ := Option.isSome_iff_exists.1 hcontext
  refine (report_eq_iff (fun _ => 0) { message := "q", maxIterations := 3 } ⟨0, "openai"⟩ ""
    callThenText 0 (by decide)).2 (.inr ⟨context, hcontext, by decide, 1, ?_, ?_, by decide, ?_⟩)
  · intro j hj
    obtain rfl : j = 0 := by omega
    refine ⟨cons_ne_nil _ _, ?_⟩
    intro tc htc
    rw [mem_singleton.1 htc]
    rfl
  · exact ⟨rfl, by decide⟩
  · exact Bool.and_eq_false_imp.2 fun _ => hdump

/-- With two iterations, there is none left for the text after the tool round of a stream. -/
theorem not_report_eq : ¬ ∀ (dumpSize : Json → Nat) (loop : AgentLoop) (provider : Provider)
    (providerId : String) (script : Script) (occurrences : Nat),
    hasLookupIntent loop.message = false →
    (∀ k, ((script.turn k).text ≠ "" ∨ (script.turn k).toolCalls ≠ []) ∧
      ∀ tc ∈ (script.turn k).toolCalls, tc.name ≠ "web_search") →
    plainReport dumpSize loop provider script occurrences =
      streamReport dumpSize loop provider script providerId := by
  intro h
  have hdomain (k : Nat) : ((callThenText.turn k).text ≠ "" ∨ (callThenText.turn k).toolCalls ≠ []) ∧
      ∀ tc ∈ (callThenText.turn k).toolCalls, tc.name ≠ "web_search" := by
    cases k with
    | zero =>
      refine ⟨.inr (cons_ne_nil _ _), fun tc htc => ?_⟩
      rw [mem_singleton.1 htc]
      decide
    | succ k => exact ⟨.inl (show "hi" ≠ "" by decide), fun tc htc => absurd htc not_mem_nil⟩
  have heq := h (fun _ => 0) { message := "q", maxIterations := 2 } ⟨0, "openai"⟩ "" callThenText 0
    (by decide) hdomain
  have hrequests := congrArg (Option.map Report.requests) heq
  exact absurd hrequests (by decide)

end RavBot.Core
