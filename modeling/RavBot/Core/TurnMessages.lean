import RavBot.Core.ToolAnswers
import RavBot.Core.AgentStream

/-!
# The new messages of a turn

Both loops build the messages that they return while they go.  Whatever the provider replies and
wherever the loop is left, each assistant message with calls is followed by the message with their
results, one for each call and in the order of the calls (`callsAnswered`).
-/

namespace RavBot.Core

open RavBot.Lib

/-- Right after each assistant message with calls comes a message with the results of exactly these
calls, in their order. -/
def CallsAnswered (messages : List Message) : Prop :=
  ∀ i msg, messages[i]? = some msg → msg.role = "assistant" → hasToolUseBlocks msg →
    ∃ answer, messages[i + 1]? = some answer ∧ resultIds answer = useIds msg

theorem callsAnswered_nil : CallsAnswered [] := by
  intro i msg hmsg
  rw [List.getElem?_nil] at hmsg
  cases hmsg

theorem callsAnswered_singleton {msg : Message} (h : ¬ hasToolUseBlocks msg) :
    CallsAnswered [msg] := by
  intro i msg' hmsg hrole huse
  match i with
  | 0 =>
    cases hmsg
    exact absurd huse h
  | i + 1 => cases hmsg

theorem callsAnswered_pair {msg answer : Message} (hids : resultIds answer = useIds msg)
    (hrole : answer.role ≠ "assistant") : CallsAnswered [msg, answer] := by
  intro i msg' hmsg hassistant huse
  match i with
  | 0 =>
    cases hmsg
    exact ⟨answer, rfl, hids⟩
  | 1 =>
    cases hmsg
    exact absurd hassistant hrole
  | i + 2 => cases hmsg

theorem CallsAnswered.append {messages messages' : List Message} (h : CallsAnswered messages)
    (h' : CallsAnswered messages') : CallsAnswered (messages ++ messages') := by
  intro i msg hmsg hrole huse
  rcases Nat.lt_or_ge i messages.length with hi | hi
  · rw [List.getElem?_append_left hi] at hmsg
    obtain ⟨answer, hanswer, hids⟩ := h i msg hmsg hrole huse
    obtain ⟨hi', -⟩ := List.getElem?_eq_some_iff.1 hanswer
    exact ⟨answer, by rw [List.getElem?_append_left hi', hanswer], hids⟩
  · rw [List.getElem?_append_right hi] at hmsg
    obtain ⟨answer, hanswer, hids⟩ := h' _ msg hmsg hrole huse
    refine ⟨answer, ?_, hids⟩
    rw [List.getElem?_append_right (hi.trans i.le_succ), Nat.succ_sub hi]
    exact hanswer

/-! ## The messages of a round -/

theorem useIds_assistantMessage (content : String) (toolCalls : List ToolCall) :
    useIds (assistantMessage content toolCalls) = toolCalls.map (·.id) := by
  have htext : ((if content = "" then [] else [ContentBlock.makeText content]).filter
      (·.isToolUse)) = [] := by
    split_ifs <;> rfl
  have hcalls : (toolCalls.map fun tc => ContentBlock.makeToolUse tc.id tc.name tc.arguments).filter
      (·.isToolUse) = toolCalls.map fun tc => .makeToolUse tc.id tc.name tc.arguments := by
    rw [List.filter_eq_self, List.forall_mem_map]
    intro tc _
    rfl
  rw [useIds, assistantMessage, List.filter_append, htext, hcalls, List.nil_append, List.map_map]
  rfl

theorem resultIds_resultsMessage {toolCalls : List ToolCall} {results : List String}
    (h : results.length = toolCalls.length) :
    resultIds (resultsMessage toolCalls results) = toolCalls.map (·.id) := by
  rw [resultIds, resultsMessage]
  induction toolCalls generalizing results with
  | nil => rfl
  | cons tc toolCalls ih =>
    cases results with
    | nil => cases h
    | cons result results =>
      rw [List.zipWith_cons_cons, List.filter_cons_of_pos rfl, List.map_cons, List.map_cons,
        ih (Nat.succ.inj h)]
      rfl

theorem callsAnswered_round (content : String) {toolCalls : List ToolCall} {results : List String}
    (h : results.length = toolCalls.length) :
    CallsAnswered [assistantMessage content toolCalls, resultsMessage toolCalls results] :=
  callsAnswered_pair
    ((resultIds_resultsMessage h).trans (useIds_assistantMessage content toolCalls).symm)
    (show "user" ≠ "assistant" by decide)

theorem callsAnswered_text (content : String) : CallsAnswered [textMessage content] :=
  callsAnswered_singleton Bool.false_ne_true

theorem length_handleToolCalls (stopRequested : Bool) (tools : Nat → ToolAnswer) (i : Nat)
    (toolCalls : List ToolCall) :
    (handleToolCalls stopRequested tools i toolCalls).1.length = toolCalls.length := by
  induction toolCalls generalizing stopRequested i with
  | nil => rfl
  | cons tc rest ih =>
    rw [handleToolCalls]
    split_ifs
    · rw [List.length_map]
    · rw [List.length_cons, List.length_cons, ih]

/-! ## The loop of `ProcessMessage` -/

def LoopState.Answered (s : LoopState) : Prop := CallsAnswered s.newMessages

theorem answered_executeWithRetry {loop : AgentLoop} {maxRetries : Nat} {s s' : LoopState}
    {attempts : List Attempt} {result : CallResult} (hs : s.Answered)
    (h : executeWithRetry loop maxRetries 0 0 s attempts = some (s', result)) : s'.Answered :=
  executeWithRetry_rule (fun _ _ h => h) (fun _ h => h) (fun _ _ _ _ _ h => h) hs h

theorem LoopState.Answered.recover {s : LoopState} (hs : s.Answered) (loop : AgentLoop) :
    (s.recover loop).Answered := by
  rw [LoopState.recover]
  cases recoverFromOverflow loop.systemPrompt s.request.messages <;> exact hs

theorem LoopState.Answered.returnWith {s : LoopState} (hs : s.Answered) (content : String) :
    (s.returnWith (textMessage content)).Answered := hs.append (callsAnswered_text content)

namespace PlainState

variable {s : PlainState}

theorem answered_finish (loop : AgentLoop) (hs : s.Answered) : (s.finish loop).Answered := by
  rw [finish]
  dsimp only
  split
  · exact hs.returnWith _
  · exact hs

theorem answered_callTools (loop : AgentLoop) (hs : s.Answered)
    (response : ChatCompletionResponse) (tools : Nat → ToolAnswer) (stoppedAfter : Bool) :
    (s.callTools loop response tools stoppedAfter).Answered := by
  rw [callTools]
  split
  · exact hs
  · have hlength := length_handleToolCalls s.stopRequested tools 0 response.toolCalls
    generalize handleToolCalls s.stopRequested tools 0 response.toolCalls = handled at hlength
    obtain ⟨results, executed, stopRequested⟩ := handled
    have hround : CallsAnswered (s.newMessages ++
        [assistantMessage response.content response.toolCalls, resultsMessage response.toolCalls
          (results.map (truncateToolResult · kToolResultMaxChars kToolResultKeepLines))]) :=
      hs.append (callsAnswered_round _ ((List.length_map _).trans hlength))
    dsimp only
    split
    · exact answered_finish loop hround
    · exact hround

theorem answered_answer (loop : AgentLoop) (hs : s.Answered) (content : String) :
    (s.answer loop content).Answered := by
  rw [answer]
  dsimp only
  split
  · exact hs
  · split
    · exact hs
    · exact hs.returnWith content

theorem answered_handle (loop : AgentLoop) (hs : s.Answered)
    (tools : Nat → ToolAnswer) (stoppedAfter : Bool) (result : CallResult) :
    (s.handle loop tools stoppedAfter result).Answered := by
  cases result with
  | response response =>
    rw [handle]
    split
    · exact answered_callTools loop hs response tools stoppedAfter
    · split
      · exact answered_answer loop hs response.content
      · exact answered_finish loop hs
  | overflow what =>
    show (s.overflow.getD (s.throw what)).Answered
    rw [LoopState.overflow]
    split <;> exact hs
  | threw what => exact hs

theorem answered_step {loop : AgentLoop} {s' : PlainState} {action : PlainAction}
    (hs : s.Answered) (h : step loop s action = some s') : s'.Answered := by
  cases action with
  | round attempts tools stoppedAfter =>
    rw [step] at h
    split at h
    · obtain ⟨⟨sent, result⟩, hsent, rfl⟩ := Option.map_eq_some_iff.1 h
      have hreset : s.resetToolChoice.Answered := by
        rw [resetToolChoice]
        split <;> exact hs
      exact answered_handle loop (s := { s with toLoopState := sent })
        (answered_executeWithRetry hreset hsent) tools stoppedAfter result
    · cases h
  | recover =>
    rw [step] at h
    split at h
    · cases h
      exact hs.recover loop
    · cases h
  | leave stopped =>
    rw [step] at h
    dsimp only at h
    split at h
    · cases h
      exact answered_finish loop hs
    · cases h

end PlainState

/-! ## The loop of `ProcessMessageStream` -/

namespace StreamState

theorem answered_finish {s : StreamState} (hs : s.Answered) : s.finish.Answered :=
  hs.returnWith _

theorem answered_handle (loop : AgentLoop) {st : Streaming} (hst : st.Answered)
    (stoppedAfter : Bool) (resolution : Resolution) (ending : StreamEnding) :
    (handle loop st stoppedAfter resolution ending).Answered := by
  cases ending with
  | done =>
    rw [handle, complete]
    split
    · exact hst.returnWith st.fullResponse
    · exact hst
  | error error =>
    rw [handle]
    split
    · have hover : ∀ s ∈ st.overflow, s.Answered := by
        rw [LoopState.overflow]
        split
        · intro s hs
          cases hs
          exact hst
        · exact nofun
      cases hs : st.overflow with
      | some s => exact hover s hs
      | none => exact hst
    · rw [failover]
      split
      · dsimp only
        split
        · exact answered_finish hst
        · split
          · split <;> exact hst
          · exact hst
      · exact hst
  | raised what => exact hst

theorem answered_step {loop : AgentLoop} {s s' : StreamState} {action : StreamAction}
    (hs : s.Answered) (h : step loop s action = some s') : s'.Answered := by
  cases action with
  | round chunks tools ending stoppedAfter resolution =>
    rw [step] at h
    split at h
    · cases h
      have hround (s : LoopState) (content : String) (tc : ToolCall) (result : String)
          (hs : s.Answered) : CallsAnswered (s.newMessages ++
            [assistantMessage content [tc], resultsMessage [tc] [result]]) :=
        hs.append (callsAnswered_round content rfl)
      have hchunks := Streaming.foldl_receive_rule (motive := LoopState.Answered)
        (fun s content tc result _ hs => hround s content tc result hs) (fun _ _ _ hs => hs) tools
        chunks { s with toLoopState := s.send loop } hs
      exact answered_handle loop hchunks stoppedAfter resolution ending
    · cases h
  | recover =>
    rw [step] at h
    split at h
    · cases h
      exact hs.recover loop
    · cases h
  | leave stopped =>
    rw [step] at h
    dsimp only at h
    split at h
    · cases h
      exact answered_finish hs
    · cases h

end StreamState

/-- **The new messages of a turn are well formed.**  Whatever either loop has added to them when it
is left, and all the time before, has the results of its calls. -/
theorem callsAnswered (loop : AgentLoop) (provider : Provider) (providerId : String)
    (context : List Message) :
    (∀ actions s, exec (PlainState.step loop) (.start loop provider context) actions = some s →
      CallsAnswered s.newMessages) ∧
    ∀ actions s, exec (StreamState.step loop) (.start loop provider providerId context) actions =
      some s → CallsAnswered s.newMessages :=
  ⟨fun _ _ hrun => exec_invariant' (motive := fun s : PlainState => s.Answered)
      (fun _ _ _ hs h => PlainState.answered_step hs h)
      (s := .start loop provider context) callsAnswered_nil hrun,
    fun _ _ hrun => exec_invariant' (motive := fun s : StreamState => s.Answered)
      (fun _ _ _ hs h => StreamState.answered_step hs h)
      (s := .start loop provider providerId context) callsAnswered_nil hrun⟩

/-- The run of a turn in which the provider calls a tool twice and the second call is aborted. -/
def abortedRun : List PlainAction :=
  [.round [⟨false, .response ⟨"", [⟨"t1", "read", .obj []⟩, ⟨"t2", "read", .obj []⟩], false⟩, false,
      ⟨none, "", ""⟩⟩] (fun i => ⟨i = 1, .ok "r"⟩) false]

/-- The second call has a result as well. -/
theorem callsAnswered_abortedRun :
    ∃ s, exec (PlainState.step { message := "q", maxIterations := 3 })
        (.start { message := "q", maxIterations := 3 } ⟨0, "openai"⟩ []) abortedRun = some s ∧
      s.outcome = some .returned ∧ s.newMessages.length = 3 ∧ CallsAnswered s.newMessages :=
  ⟨_, rfl, by decide, by decide,
    (callsAnswered { message := "q", maxIterations := 3 } ⟨0, "openai"⟩ "" []).1 abortedRun _ rfl⟩

end RavBot.Core
