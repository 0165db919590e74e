import RavBot.Core.AgentLoop

/-!
# The streaming agent loop

`ProcessMessageStream` has a loop of its own.  The provider passes the chunks of its reply to a
callback, which runs the tools as they are called and passes events on.  An iteration ends with the
stream, which is over or broken off by an error.

The callback that receives the events is taken not to throw.
-/

namespace RavBot.Core

open RavBot.Lib RavBot.Providers

/-- `AgentEvent`.  The end of a message carries a content or an error. -/
inductive AgentEvent where
  | textDelta (text : String)
  | toolUse (id name : String) (input : Json)
  | toolResult (toolUseId content : String) (isError : Bool)
  | messageEnd (content : Except String String)

inductive StreamEnding where
  | done
  | error (error : ProviderError)
  | raised (what : String)

/-- An action of the loop: an iteration with the chunks of the stream, what comes of the tool calls
in them, how the stream ends, whether `Stop` is called before the failover and what
`resolve_provider` then returns; the recovery after an overflow; or the end of the loop. -/
inductive StreamAction where
  | round (chunks : List ChatCompletionResponse) (tools : Nat → ToolAnswer)
      (ending : StreamEnding) (stoppedAfter : Bool) (resolution : Resolution)
  | recover
  | leave (stopped : Bool)

/-- The variables of the loop of `ProcessMessageStream`, with the events passed on so far. -/
structure StreamState extends LoopState where
  lastProviderId : String
  events : List AgentEvent := []

/-- The variables of one iteration: `full_response`, and the calls so far, those executed in the
current chunk apart. -/
structure Streaming extends StreamState where
  fullResponse : String := ""
  calls : Nat := 0
  executedNow : List ToolCall := []

namespace Streaming

def emit (st : Streaming) (event : AgentEvent) : Streaming :=
  { st with events := st.events ++ [event] }

/-- What a tool call comes to: its result, and whether that is an error. -/
def resultOf (stopRequested : Bool) : Except String String → String × Bool
  | .ok result =>
    if stopRequested then (abortedResult, true)
    else (truncateToolResult result kToolResultMaxChars kToolResultKeepLines, false)
  | .error what => if stopRequested then (abortedResult, true) else ("Error: " ++ what, true)

/-- One tool call in a chunk. -/
def callTool (tools : Nat → ToolAnswer) (st : Streaming) (tc : ToolCall) : Streaming :=
  let answer := tools st.calls
  let stopRequested := st.stopRequested || answer.stopped
  let (result, isError) := resultOf stopRequested answer.outcome
  { st with
    events := st.events ++
      [.toolUse tc.id tc.name tc.arguments, .toolResult tc.id result isError]
    toLoopState :=
      { st.push [assistantMessage st.fullResponse [tc], resultsMessage [tc] [result]] with
        stopRequested }
    fullResponse := ""
    calls := st.calls + 1
    executedNow := st.executedNow ++ if stopRequested then [] else [tc] }

def receiveText (st : Streaming) (content : String) : Streaming :=
  if content = "" then st
  else { st.emit (.textDelta content) with fullResponse := st.fullResponse ++ content }

def receiveCalls (tools : Nat → ToolAnswer) (st : Streaming) (toolCalls : List ToolCall) :
    Streaming :=
  let st := toolCalls.foldl (callTool tools) { st with executedNow := [] }
  { st with executed := st.executed ++ [st.executedNow], iterations := st.iterations + 1 }

/-- The chunk callback. -/
def receive (tools : Nat → ToolAnswer) (st : Streaming) (chunk : ChatCompletionResponse) :
    Streaming :=
  let st := st.receiveText chunk.content
  if chunk.toolCalls ≠ [] then st.receiveCalls tools chunk.toolCalls
  else if chunk.isStreamEnd then st.emit (.messageEnd (.ok st.fullResponse))
  else st

/-- **The rule for a stream.**  What survives a call with its result and the end of a tool round
holds when the stream is over, or broken off. -/
theorem foldl_receive_rule {motive : LoopState → Prop}
    (hcall : ∀ s content tc result stopRequested, motive s → motive
      { s.push [assistantMessage content [tc], resultsMessage [tc] [result]] with stopRequested })
    (hround : ∀ s executed iterations, motive s → motive { s with executed, iterations })
    (tools : Nat → ToolAnswer) (chunks : List ChatCompletionResponse) (st : Streaming)
    (hst : motive st.toLoopState) : motive (chunks.foldl (receive tools) st).toLoopState := by
  have hcalls (toolCalls : List ToolCall) {st : Streaming} (hst : motive st.toLoopState) :
      motive (toolCalls.foldl (callTool tools) st).toLoopState := by
    induction toolCalls generalizing st with
    | nil => exact hst
    | cons tc toolCalls ih => exact ih (hcall st.toLoopState _ tc _ _ hst)
  induction chunks generalizing st with
  | nil => exact hst
  | cons chunk chunks ih =>
    refine ih _ ?_
    have htext : motive (st.receiveText chunk.content).toLoopState := by
      rw [receiveText]
      split <;> exact hst
    rw [receive]
    split
    · exact hround _ _ _ (hcalls chunk.toolCalls htext)
    · split <;> exact htext

end Streaming

namespace StreamState

/-- What comes after the loop. -/
def finish (s : StreamState) : StreamState :=
  let stopText := if s.stopRequested then "[Stopped]" else "[Max iterations reached]"
  { s with
    events := s.events ++ [.messageEnd (.ok stopText)]
    toLoopState := s.returnWith (textMessage stopText) }

def fail (s : StreamState) (what : String) : StreamState :=
  { s with
    events := s.events ++ [.messageEnd (.error what)]
    outcome := some .returned }

def complete (st : Streaming) : StreamState :=
  if st.fullResponse ≠ "" then
    { st.toStreamState with toLoopState := st.returnWith (textMessage st.fullResponse) }
  else { st.toStreamState with iterations := st.iterations + 1 }

/-- A provider error that is no overflow: fail over to another provider, or end the turn. -/
def failover (loop : AgentLoop) (s : StreamState) (what : String) (stoppedAfter : Bool)
    (resolution : Resolution) : StreamState :=
  if loop.hasFailoverResolver && s.lastProviderId ≠ "" then
    let s := { s with stopRequested := s.stopRequested || stoppedAfter }
    if s.stopRequested then s.finish
    else
      let s := { s with lastProviderId := resolution.providerId }
      match resolution.provider with
      | some resolved =>
        if resolved ≠ s.provider then
          { s with
            provider := resolved
            request := { s.request with model := resolution.model }
            iterations := s.iterations + 1 }
        else s.fail what
      | none => s.fail what
  else s.fail what

/-- What the loop does when a stream ends. -/
def handle (loop : AgentLoop) (st : Streaming) (stoppedAfter : Bool) (resolution : Resolution) :
    StreamEnding → StreamState
  | .done => complete st
  | .error error =>
    if error.kind = .contextOverflow then
      match st.overflow with
      | some s => { st.toStreamState with toLoopState := s }
      | none => st.toStreamState.fail error.what
    else st.toStreamState.failover loop error.what stoppedAfter resolution
  | .raised what => st.toStreamState.fail what

/-- One action of the loop. -/
def step (loop : AgentLoop) (s : StreamState) : StreamAction → Option StreamState
  | .round chunks tools ending stoppedAfter resolution =>
    if s.running && !s.overflowed && s.goesOn loop then
      let st : Streaming := { s with toLoopState := s.send loop }
      some (handle loop (chunks.foldl (Streaming.receive tools) st) stoppedAfter resolution ending)
    else none
  | .recover =>
    if s.running && s.overflowed then some { s with toLoopState := s.recover loop } else none
  | .leave stopped =>
    let s := { s with stopRequested := s.stopRequested || stopped }
    if s.running && !s.overflowed && !s.goesOn loop then some s.finish else none

/-- The state in which the loop begins, with the messages of the first request. -/
def start (loop : AgentLoop) (provider : Provider) (providerId : String) (context : List Message) :
    StreamState where
  request := { messages := context, model := loop.resolvedModel, toolChoiceType := "auto" }
  provider
  lastProviderId := providerId

end StreamState

end RavBot.Core
