import RavBot.Core.LookupGuards
import RavBot.Core.ContextWindow
import RavBot.Lib.Run
import RavBot.Providers.CooldownTracker

/-!
# The agent loop

`ProcessMessage` sends requests to a provider until it answers with a text, and runs the tools that
it calls in between.  One action of the system is one iteration of its loop (`round`), the recovery
that follows when a request was too long (`recover`), or the end of the loop (`leave`).

What comes from outside is part of the action: what the provider replies to each attempt, what the
tools do, what `resolve_provider` returns, and when `Stop` is called.  `stop_requested_` is set once
and never reset during a turn, so that at each place where the loop reads it, it is enough to know
whether `Stop` was called since the last one.
-/

namespace RavBot.Core

open RavBot.Lib RavBot.Providers

/-! ## Requests and replies -/

structure ToolCall where
  id : String
  name : String
  arguments : Json
  deriving Inhabited, Repr

/-- `ChatCompletionResponse`: a reply, or one chunk of it. -/
structure ChatCompletionResponse where
  content : String
  toolCalls : List ToolCall
  isStreamEnd : Bool := false
  deriving Inhabited, Repr

structure ProviderError where
  kind : ProviderErrorKind
  what : String
  deriving DecidableEq, Repr

/-- A provider object, with its name. -/
structure Provider where
  identity : Nat
  name : String
  deriving DecidableEq, Repr

structure ChatCompletionRequest where
  messages : List Message
  model : String
  toolChoiceType : String
  deriving Inhabited, Repr

/-- What `resolve_provider` returns, and what it leaves in `resolved_model_name_` and
`last_provider_id_`. -/
structure Resolution where
  provider : Option Provider
  model : String
  providerId : String

/-- What a provider does with a request. -/
inductive Reply where
  | response (response : ChatCompletionResponse)
  | error (error : ProviderError)
  | raised (what : String)

/-- A tool call comes up: whether `Stop` was called before, and what the tool returns or throws. -/
structure ToolAnswer where
  stopped : Bool
  outcome : Except String String

/-- An attempt to send a request: whether `Stop` is called before it, what the provider replies,
whether `Stop` is called after an error, and what `resolve_provider` then returns. -/
structure Attempt where
  stopped : Bool
  reply : Reply
  stoppedAfter : Bool
  resolution : Resolution

/-- `AgentLoop`, as far as it is the same during a turn, with what the turn is called with. -/
structure AgentLoop extends TurnInput where
  maxIterations : Int
  turnValidator : Option TurnValidator := none
  hasFailoverResolver : Bool := false

/-! ## Messages -/

def assistantMessage (content : String) (toolCalls : List ToolCall) : Message where
  role := "assistant"
  content := (if content = "" then [] else [.makeText content]) ++
    toolCalls.map fun tc => .makeToolUse tc.id tc.name tc.arguments

def resultsMessage (toolCalls : List ToolCall) (results : List String) : Message where
  role := "user"
  content := List.zipWith (fun tc result => .makeToolResult tc.id result) toolCalls results

def textMessage (content : String) : Message where
  role := "assistant"
  content := [.makeText content]

def truncateToolResult (result : String) (maxChars : Nat) (keepLines : Int) : String :=
  let lines := Text.lines result.toList
  if result.length ≤ maxChars ∨ lines.length ≤ keepLines * 2 then result
  else
    let joined (lines : List (List Char)) : List Char := lines.flatMap (· ++ ['\n'])
    let omitted := toString (lines.length - keepLines * 2)
    String.ofList (joined (lines.take keepLines.toNat) ++ "\n... [".toList ++ omitted.toList ++
      " lines omitted] ...\n\n".toList ++ joined (lines.drop (lines.length - keepLines).toNat))

def kToolResultMaxChars : Nat := 30000

def kToolResultKeepLines : Nat := 20

def abortedResult : String := "[Tool execution aborted by user]"

/-! ## The state of a turn -/

inductive Outcome where
  | returned
  | threw (what : String)
  | undefined
  deriving DecidableEq, Repr

/-- The variables that both loops have, with the requests sent so far and the calls executed in each
tool round.  `overflowed` is set between a request that was too long and the recovery. -/
structure LoopState where
  request : ChatCompletionRequest
  provider : Provider
  iterations : Nat := 0
  overflowRetries : Nat := 0
  newMessages : List Message := []
  stopRequested : Bool := false
  overflowed : Bool := false
  outcome : Option Outcome := none
  sent : List (List Message) := []
  executed : List (List ToolCall) := []

namespace LoopState

def running (s : LoopState) : Bool := s.outcome.isNone

def goesOn (loop : AgentLoop) (s : LoopState) : Bool :=
  s.iterations < loop.maxIterations && !s.stopRequested

/-- Sanitize the messages of the request in place and send it. -/
def send (loop : AgentLoop) (s : LoopState) : LoopState :=
  let messages := sanitizeRequestMessages (some s.provider.name) loop.turnValidator
    s.request.messages
  { s with
    request := { s.request with messages }
    sent := s.sent ++ [messages] }

def pushRequest (s : LoopState) (messages : List Message) : LoopState :=
  { s with request := { s.request with messages := s.request.messages ++ messages } }

def push (s : LoopState) (messages : List Message) : LoopState :=
  { s.pushRequest messages with newMessages := s.newMessages ++ messages }

def overflow (s : LoopState) : Option LoopState :=
  if s.overflowRetries < kOverflowCompactionMaxRetries then
    some { s with overflowRetries := s.overflowRetries + 1, overflowed := true }
  else none

def recover (loop : AgentLoop) (s : LoopState) : LoopState :=
  match recoverFromOverflow loop.systemPrompt s.request.messages with
  | some messages => { s with request := { s.request with messages }, overflowed := false }
  | none => { s with outcome := some .undefined }

def returnWith (s : LoopState) (last : Message) : LoopState :=
  { s with newMessages := s.newMessages ++ [last], outcome := some .returned }

def throw (s : LoopState) (what : String) : LoopState := { s with outcome := some (.threw what) }

end LoopState

/-! ## Sending -/

def shouldRetryProviderError (error : ProviderError) : Bool :=
  match error.kind with
  | .rateLimit | .transient | .timeout => true
  | _ => false

def kDefaultMaxRetries : Nat := 1

def kMaxFailoverAttempts : Nat := 20

/-- What `execute_with_retry` returns or throws. -/
inductive CallResult where
  | response (response : ChatCompletionResponse)
  | overflow (what : String)
  | threw (what : String)

/-- What `execute_with_retry` throws when `Stop` was called. -/
def stoppedByUser : CallResult := .threw "Agent turn stopped by user"

/-- The failover in `execute_with_retry`: the state with the next provider, or what is thrown. -/
def failover (loop : AgentLoop) (failovers : Nat) (s : LoopState) (error : ProviderError)
    (resolution : Resolution) : Except String LoopState :=
  if !loop.hasFailoverResolver then .error error.what
  else match resolution.provider with
    | none => .error s!"All failover options exhausted. Tried {failovers + 1} provider(s) for model '{loop.config.model}'. All providers/profiles are in cooldown or unavailable."
    | some resolved =>
      if resolved = s.provider ∧ 0 < failovers then
        .error s!"Failover chain exhausted after {failovers + 1} attempt(s). No healthy provider available for model '{loop.config.model}'."
      else if failovers + 1 < kMaxFailoverAttempts then
        .ok { s with provider := resolved, request := { s.request with model := resolution.model } }
      else
        .error s!"Maximum failover attempts ({kMaxFailoverAttempts}) reached for model '{loop.config.model}'"

/-- `execute_with_retry`, in its `retry`-th try on the current provider and after some failovers.
`none` when the attempts given do not last until it returns. -/
def executeWithRetry (loop : AgentLoop) (maxRetries retry failovers : Nat) (s : LoopState) :
    List Attempt → Option (LoopState × CallResult)
  | [] => none
  | attempt :: rest =>
    let s := { s with stopRequested := s.stopRequested || attempt.stopped }
    if s.stopRequested then some (s, stoppedByUser)
    else
      let s := s.send loop
      match attempt.reply with
      | .response response => some (s, .response response)
      | .raised what => some (s, .threw what)
      | .error error =>
        if error.kind = .contextOverflow then some (s, .overflow error.what)
        else
          let s := { s with stopRequested := attempt.stoppedAfter }
          if s.stopRequested then some (s, stoppedByUser)
          else if shouldRetryProviderError error && retry < maxRetries then
            executeWithRetry loop maxRetries (retry + 1) failovers s rest
          else match failover loop failovers s error attempt.resolution with
            | .ok s => executeWithRetry loop maxRetries 0 (failovers + 1) s rest
            | .error what => some (s, .threw what)

theorem failover_eq_ok {loop : AgentLoop} {failovers : Nat} {s s' : LoopState}
    {error : ProviderError} {resolution : Resolution}
    (h : failover loop failovers s error resolution = .ok s') :
    ∃ provider ∈ resolution.provider,
      s' = { s with provider, request := { s.request with model := resolution.model } } := by
  rw [failover] at h
  cases hprovider : resolution.provider with
  | none =>
    rw [hprovider] at h
    split at h <;> cases h
  | some provider =>
    rw [hprovider] at h
    dsimp only at h
    split at h
    · cases h
    · split at h
      · cases h
      · split at h
        · cases h
          exact ⟨provider, rfl, rfl⟩
        · cases h

/-- **The rule for sending.**  What survives a call of `Stop`, the sending of a request and the
switch to a provider that one of the attempts resolves holds when `execute_with_retry` is done. -/
theorem executeWithRetry_rule {loop : AgentLoop} {motive : LoopState → Prop}
    {attempts : List Attempt}
    (hstop : ∀ s stopRequested, motive s → motive { s with stopRequested })
    (hsend : ∀ s, motive s → motive (s.send loop))
    (hfailover : ∀ s, ∀ attempt ∈ attempts, ∀ provider ∈ attempt.resolution.provider, motive s →
      motive { s with provider, request := { s.request with model := attempt.resolution.model } })
    {maxRetries retry failovers : Nat} {s s' : LoopState} {result : CallResult} (hs : motive s)
    (h : executeWithRetry loop maxRetries retry failovers s attempts = some (s', result)) :
    motive s' := by
  induction attempts generalizing retry failovers s with
  | nil => cases h
  | cons attempt rest ih =>
    have hrest {retry failovers : Nat} {s : LoopState} (hs : motive s)
        (h : executeWithRetry loop maxRetries retry failovers s rest = some (s', result)) :
        motive s' :=
      ih (fun s attempt hattempt => hfailover s attempt (List.mem_cons_of_mem _ hattempt)) hs h
    have hs := hstop s (s.stopRequested || attempt.stopped) hs
    rw [executeWithRetry] at h
    generalize ({ s with stopRequested := s.stopRequested || attempt.stopped } : LoopState) = s₁
      at h hs
    dsimp only at h
    split at h
    · cases h
      exact hs
    · have hsent := hsend s₁ hs
      cases hreply : attempt.reply with
      | response response =>
        rw [hreply] at h
        cases h
        exact hsent
      | raised what =>
        rw [hreply] at h
        cases h
        exact hsent
      | error error =>
        rw [hreply] at h
        have hstopped := hstop _ attempt.stoppedAfter hsent
        dsimp only at h
        split at h
        · cases h
          exact hsent
        · split at h
          · cases h
            exact hstopped
          · split at h
            · exact hrest hstopped h
            · generalize ({ s₁.send loop with stopRequested := attempt.stoppedAfter } :
                LoopState) = s₂ at h hstopped
              cases hresult : failover loop failovers s₂ error attempt.resolution with
              | error what =>
                rw [hresult] at h
                cases h
                exact hstopped
              | ok s₃ =>
                rw [hresult] at h
                obtain ⟨provider, hprovider, rfl⟩ := failover_eq_ok hresult
                exact hrest
                  (hfailover s₂ attempt List.mem_cons_self provider hprovider hstopped) h

/-! ## Tool calls -/

/-- `handle_tool_calls`, with the calls that it executes and whether `Stop` was called. -/
def handleToolCalls (stopRequested : Bool) (tools : Nat → ToolAnswer) (i : Nat) :
    List ToolCall → List String × List ToolCall × Bool
  | [] => ([], [], stopRequested)
  | tc :: rest =>
    if stopRequested || (tools i).stopped then
      ((tc :: rest).map fun _ => abortedResult, [], true)
    else
      let result := match (tools i).outcome with
        | .ok result => result
        | .error what => "Error executing tool: " ++ what
      let (results, executed, stopRequested) := handleToolCalls false tools (i + 1) rest
      (result :: results, tc :: executed, stopRequested)

/-! ## The loop of `ProcessMessage` -/

/-- The variables of the loop of `ProcessMessage`. -/
structure PlainState extends LoopState where
  forcedLookupRetry : Bool := false
  forcedWebSearchSynthesisRetry : Bool := false

inductive PlainAction where
  | round (attempts : List Attempt) (tools : Nat → ToolAnswer) (stoppedAfter : Bool)
  | recover
  | leave (stopped : Bool)

namespace PlainState

def finish (loop : AgentLoop) (s : PlainState) : PlainState :=
  { s with toLoopState :=
      if s.stopRequested then s.returnWith (textMessage "[Agent turn stopped by user]")
      else s.throw s!"Failed to get valid response after {loop.maxIterations} iterations" }

/-- The provider calls tools. -/
def callTools (loop : AgentLoop) (s : PlainState) (response : ChatCompletionResponse)
    (tools : Nat → ToolAnswer) (stoppedAfter : Bool) : PlainState :=
  -- the arguments of the calls are dumped before anything else is done
  if response.toolCalls.any (!·.arguments.isUtf8) then
    { s with toLoopState := s.throw "[json.exception.type_error.316] invalid UTF-8 byte" }
  else
    let (results, executed, stopRequested) :=
      handleToolCalls s.stopRequested tools 0 response.toolCalls
    let results := results.map (truncateToolResult · kToolResultMaxChars kToolResultKeepLines)
    let s := { s with toLoopState :=
      { s.push [assistantMessage response.content response.toolCalls,
          resultsMessage response.toolCalls results] with
        executed := s.executed ++ [executed]
        stopRequested := stopRequested || stoppedAfter } }
    if s.stopRequested then s.finish loop else { s with iterations := s.iterations + 1 }

def correct (s : PlainState) (content correction : String) : PlainState :=
  { s with toLoopState :=
    { s.pushRequest [textMessage content, .ofText "user" correction] with
      iterations := s.iterations + 1 } }

/-- The provider answers with a text. -/
def answer (loop : AgentLoop) (s : PlainState) (content : String) : PlainState :=
  let replayToolNames := collectTrailingReplayToolNames s.request.messages
  if !s.forcedLookupRetry && hasLookupIntent loop.message &&
      (responseLooksLikeUnfulfilledLookupPreamble content ||
        responseContainsNegativeConclusion content) then
    { s.correct content lookupCorrection with forcedLookupRetry := true }
  else if !s.forcedWebSearchSynthesisRetry && replayToolNames.contains "web_search" &&
      responseLooksLikeRawSearchResultsDump content then
    { s.correct content synthesisCorrection with forcedWebSearchSynthesisRetry := true }
  else { s with toLoopState := s.returnWith (textMessage content) }

/-- What the loop does with what `execute_with_retry` returns. -/
def handle (loop : AgentLoop) (s : PlainState) (tools : Nat → ToolAnswer) (stoppedAfter : Bool) :
    CallResult → PlainState
  | .response response =>
    if response.toolCalls ≠ [] then s.callTools loop response tools stoppedAfter
    else if response.content ≠ "" then s.answer loop response.content
    else { s with stopRequested := s.stopRequested || stoppedAfter }.finish loop
  | .overflow what =>
    { s with toLoopState := s.overflow.getD (s.throw what) }
  | .threw what => { s with toLoopState := s.throw what }

/-- The head of the loop body: `tool_choice_type` is reset after the first request. -/
def resetToolChoice (s : PlainState) : PlainState :=
  if 0 < s.iterations && !s.forcedLookupRetry then
    { s with request := { s.request with toolChoiceType := "auto" } }
  else s

/-- One action of the loop. -/
def step (loop : AgentLoop) (s : PlainState) : PlainAction → Option PlainState
  | .round attempts tools stoppedAfter =>
    if s.running && !s.overflowed && s.goesOn loop then
      (executeWithRetry loop kDefaultMaxRetries 0 0 s.resetToolChoice.toLoopState attempts).map
        fun (s', result) => { s with toLoopState := s' }.handle loop tools stoppedAfter result
    else none
  | .recover =>
    if s.running && s.overflowed then some { s with toLoopState := s.recover loop } else none
  | .leave stopped =>
    let s := { s with stopRequested := s.stopRequested || stopped }
    if s.running && !s.overflowed && !s.goesOn loop then some (s.finish loop) else none

/-- The state in which the loop begins, with the messages of the first request. -/
def start (loop : AgentLoop) (provider : Provider) (context : List Message) : PlainState where
  request :=
    { messages := context
      model := loop.resolvedModel
      toolChoiceType := if hasLookupIntent loop.message then "any" else "auto" }
  provider

end PlainState

end RavBot.Core
