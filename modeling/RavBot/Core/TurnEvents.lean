import RavBot.Core.AgentStream

/-!
# The events of a turn

`ProcessMessageStream` passes the end of a message on at two kinds of places: the chunk callback
does so when a chunk ends the stream, and so does every way out of the loop but one.  The calls and
their results always come in pairs, but there is exactly one end, and it comes last, only when the
streams are orderly: a stream that ends the turn with a text has one end of its own after
everything else, and any other stream has none (`eventsWellFormed_iff`).
-/

open List

namespace RavBot.Core

open RavBot.Lib

/-! ## Events -/

namespace AgentEvent

def isMessageEnd : AgentEvent → Bool
  | messageEnd _ => true
  | _ => false

def isToolUse : AgentEvent → Bool
  | toolUse _ _ _ => true
  | _ => false

def isToolResult : AgentEvent → Bool
  | toolResult _ _ _ => true
  | _ => false

end AgentEvent

/-- Before the next call, each call has exactly one result, and that with its id. -/
def CallsReported (events : List AgentEvent) : Prop :=
  ∀ before id name input after, events = before ++ .toolUse id name input :: after →
    ∃ content isError, (after.takeWhile (!·.isToolUse)).filter (·.isToolResult) =
      [.toolResult id content isError]

def FinalText (messages : List Message) (text : String) : Prop :=
  ∃ msg ∈ (messages.filter (·.role = "assistant")).getLast?, msg.text = text

/-- There is one end of a message, and it is the last event; its content, when it has one, is the
text of the last message of the assistant. -/
structure EndsOnce (s : StreamState) : Prop where
  once : s.events.countP (·.isMessageEnd) = 1
  last : ∃ content, s.events.getLast? = some (.messageEnd content) ∧
    ∀ text, content = .ok text → FinalText s.newMessages text

/-- The events of a turn are well formed. -/
structure EventsWellFormed (s : StreamState) : Prop where
  endsOnce : EndsOnce s
  callsReported : CallsReported s.events

/-! ## Orderly streams -/

namespace ChatCompletionResponse

/-- The chunk makes the callback pass the end of the message on. -/
def endsMessage (chunk : ChatCompletionResponse) : Bool :=
  chunk.toolCalls.isEmpty && chunk.isStreamEnd

def silent (chunk : ChatCompletionResponse) : Bool :=
  chunk.content = "" && chunk.toolCalls.isEmpty && !chunk.isStreamEnd

end ChatCompletionResponse

/-- What a chunk makes of the text so far: text after tool calls is a new text. -/
def nextText (text : String) (chunk : ChatCompletionResponse) : String :=
  if chunk.toolCalls.isEmpty then text ++ chunk.content else ""

def trailingText (chunks : List ChatCompletionResponse) : String := chunks.foldl nextText ""

def StreamEnding.isDone : StreamEnding → Bool
  | done => true
  | _ => false

namespace StreamAction

def endings : StreamAction → Nat
  | round chunks _ _ _ _ => chunks.countP (·.endsMessage)
  | _ => 0

/-- A stream that ends the turn with a text has exactly one chunk that ends the message, and that is
the last one for which anything is passed on.  Another stream has none. -/
def Orderly : StreamAction → Prop
  | round chunks _ ending _ _ =>
    if ending.isDone ∧ trailingText chunks ≠ "" then
      chunks.countP (·.endsMessage) = 1 ∧
        ∃ last ∈ (chunks.filter (!·.silent)).getLast?, last.endsMessage
    else chunks.countP (·.endsMessage) = 0
  | _ => True

end StreamAction

/-! ## Calls and their results -/

variable {events : List AgentEvent}

theorem CallsReported.append {events' : List AgentEvent} (h : CallsReported events)
    (h' : CallsReported events')
    (hstart : (events'.takeWhile (!·.isToolUse)).filter (·.isToolResult) = []) :
    CallsReported (events ++ events') := by
  intro before id name input after heq
  rcases append_eq_append_iff.1 heq with ⟨rest, rfl, hrest⟩ | ⟨rest, hevents, hrest⟩
  · exact h' rest id name input after hrest
  · cases rest with
    | nil =>
      rw [nil_append] at hrest
      exact h' [] id name input after hrest.symm
    | cons event rest =>
      rw [cons_append] at hrest
      obtain ⟨rfl, rfl⟩ := cons_eq_cons.1 hrest
      obtain ⟨content, isError, hresults⟩ := h before id name input rest hevents
      refine ⟨content, isError, ?_⟩
      rw [takeWhile_append]
      split
      case isTrue hall =>
        rw [( takeWhile_prefix _).eq_of_length hall] at hresults
        rw [filter_append, hstart, append_nil, hresults]
      case isFalse => exact hresults

theorem callsReported_nil : CallsReported [] := by
  intro before id name input after heq
  cases before <;> cases heq

theorem CallsReported.push (h : CallsReported events)
    {event : AgentEvent} (huse : ¬ event.isToolUse) (hresult : ¬ event.isToolResult) :
    CallsReported (events ++ [event]) := by
  refine h.append ?_ (by simp [huse, hresult])
  intro before id name input after heq
  cases before with
  | nil =>
    cases heq
    exact absurd rfl huse
  | cons _ before => cases before <;> cases heq

theorem CallsReported.pushCall (h : CallsReported events)
    (id name : String) (input : Json) (content : String) (isError : Bool) :
    CallsReported (events ++ [.toolUse id name input, .toolResult id content isError]) := by
  refine h.append ?_ rfl
  intro before id' name' input' after heq
  match before with
  | [] =>
    cases heq
    exact ⟨content, isError, rfl⟩
  | [_] => cases heq
  | _ :: _ :: before => cases before <;> cases heq

/-! ## One stream -/

namespace Streaming

variable (tools : Nat → ToolAnswer)

theorem foldl_callTool (toolCalls : List ToolCall) (st : Streaming) :
    let st' := toolCalls.foldl (callTool tools) st
    st'.events.countP (·.isMessageEnd) = st.events.countP (·.isMessageEnd) ∧
      (CallsReported st.events → CallsReported st'.events) ∧
      (toolCalls ≠ [] → st'.fullResponse = "" ∧
        ∃ event, st'.events.getLast? = some event ∧ ¬ event.isMessageEnd) := by
  induction toolCalls generalizing st with
  | nil => exact ⟨rfl, id, fun h => absurd rfl h⟩
  | cons tc toolCalls ih =>
    obtain ⟨hcount, hreported, hlast⟩ := ih (st.callTool tools tc)
    refine ⟨?_, fun h => hreported (h.pushCall _ _ _ _ _), fun _ => ?_⟩
    · rw [foldl_cons, hcount, callTool, countP_append]
      rfl
    · cases toolCalls with
      | nil => exact ⟨rfl, _, getLast?_append_cons .., Bool.false_ne_true⟩
      | cons tc' toolCalls => exact hlast (cons_ne_nil _ _)

theorem receiveText_spec (st : Streaming) (content : String) :
    let st' := st.receiveText content
    st'.fullResponse = st.fullResponse ++ content ∧
      st'.events.countP (·.isMessageEnd) = st.events.countP (·.isMessageEnd) ∧
      (CallsReported st.events → CallsReported st'.events) ∧
      (content ≠ "" → ∃ event, st'.events.getLast? = some event ∧ ¬ event.isMessageEnd) ∧
      (content = "" → st' = st) := by
  rw [receiveText]
  split_ifs with hcontent
  · rw [hcontent]
    exact ⟨String.append_empty.symm, rfl, id, fun h => absurd rfl h, fun _ => rfl⟩
  · refine ⟨rfl, ?_, fun h => h.push Bool.false_ne_true Bool.false_ne_true,
      fun _ => ⟨_, getLast?_append_cons .., Bool.false_ne_true⟩, fun h => absurd h hcontent⟩
    rw [emit, countP_append]
    rfl

/-- One chunk.  When anything is passed on for it, the last event ends the message, with the text so
far, exactly when the chunk does. -/
theorem receive_spec (st : Streaming) (chunk : ChatCompletionResponse) :
    let st' := st.receive tools chunk
    st'.fullResponse = nextText st.fullResponse chunk ∧
      st'.events.countP (·.isMessageEnd) =
        st.events.countP (·.isMessageEnd) + (if chunk.endsMessage then 1 else 0) ∧
      (CallsReported st.events → CallsReported st'.events) ∧
      if chunk.silent then st'.events = st.events ∧ st'.fullResponse = st.fullResponse
      else ∃ event, st'.events.getLast? = some event ∧
        if chunk.endsMessage then event = .messageEnd (.ok st'.fullResponse)
        else ¬ event.isMessageEnd := by
  obtain ⟨content, toolCalls, isStreamEnd⟩ := chunk
  obtain ⟨hfull, hcount, hreported, htext, hsame⟩ := receiveText_spec st content
  cases toolCalls with
  | cons tc toolCalls =>
    obtain ⟨hcount', hreported', hlast⟩ := foldl_callTool tools (tc :: toolCalls)
      { st.receiveText content with executedNow := [] }
    obtain ⟨hempty, event, hevent, hend⟩ := hlast (cons_ne_nil _ _)
    refine ⟨hempty, hcount'.trans hcount, hreported' ∘ hreported, ?_⟩
    rw [if_neg (by simp [ChatCompletionResponse.silent])]
    exact ⟨event, hevent, hend⟩
  | nil =>
    cases isStreamEnd with
    | true =>
      refine ⟨hfull, ?_, fun h => (hreported h).push Bool.false_ne_true Bool.false_ne_true, ?_⟩
      · show ((st.receiveText content).events ++ [_]).countP _ = _
        rw [countP_append, hcount]
        rfl
      · rw [if_neg (by simp [ChatCompletionResponse.silent])]
        exact ⟨_, getLast?_append_cons .., rfl⟩
    | false =>
      refine ⟨hfull, hcount, hreported, ?_⟩
      by_cases hcontent : content = ""
      · rw [if_pos (by simp [ChatCompletionResponse.silent, hcontent])]
        have hst : st.receive tools ⟨content, [], false⟩ = st := hsame hcontent
        rw [hst]
        exact ⟨rfl, rfl⟩
      · rw [if_neg (by simp [ChatCompletionResponse.silent, hcontent])]
        obtain ⟨event, hevent, hend⟩ := htext hcontent
        exact ⟨event, hevent, hend⟩

/-- **One stream.**  There are as many ends of a message as chunks that end it, and the last event is
one, with the text of the stream, when the last chunk for which anything is passed on ends the
message. -/
theorem foldl_receive_spec (chunks : List ChatCompletionResponse) (st : Streaming) :
    let st' := chunks.foldl (receive tools) st
    st'.fullResponse = chunks.foldl nextText st.fullResponse ∧
      st'.events.countP (·.isMessageEnd) =
        st.events.countP (·.isMessageEnd) + chunks.countP (·.endsMessage) ∧
      (CallsReported st.events → CallsReported st'.events) ∧
      match (chunks.filter (!·.silent)).getLast? with
      | none => st'.events = st.events ∧ st'.fullResponse = st.fullResponse
      | some chunk => ∃ event, st'.events.getLast? = some event ∧
          if chunk.endsMessage then event = .messageEnd (.ok st'.fullResponse)
          else ¬ event.isMessageEnd := by
  -- chunk by chunk from the end, as the last chunk that is not silent decides
  induction chunks using List.reverseRecOn with
  | nil => exact ⟨rfl, rfl, id, rfl, rfl⟩
  | append_singleton chunks chunk ih =>
    obtain ⟨hfull, hcount, hreported, hlast⟩ := ih
    obtain ⟨hfull', hcount', hreported', hlast'⟩ :=
      receive_spec tools (chunks.foldl (receive tools) st) chunk
    rw [foldl_concat, foldl_concat, countP_append, filter_append]
    refine ⟨by rw [hfull', hfull], ?_, hreported' ∘ hreported, ?_⟩
    · rw [hcount', hcount, Nat.add_assoc, countP_singleton]
    · cases hsilent : chunk.silent with
      | true =>
        rw [hsilent] at hlast'
        rw [filter_cons_of_neg (by simp [hsilent]), filter_nil, append_nil]
        obtain ⟨hevents, hsame⟩ := hlast'
        rw [hevents, hsame]
        exact hlast
      | false =>
        rw [hsilent] at hlast'
        rw [filter_cons_of_pos (by simp [hsilent]), filter_nil, getLast?_concat]
        exact hlast'

end Streaming

/-! ## One action -/

theorem finalText_append (messages : List Message) (text : String) :
    FinalText (messages ++ [textMessage text]) text := by
  refine ⟨textMessage text, ?_, String.empty_append⟩
  rw [filter_append]
  exact getLast?_concat ..

theorem endsOnce_iff {s : StreamState}
    {content : Except String String} (hevents : s.events = events ++ [.messageEnd content])
    (hcontent : ∀ text, content = .ok text → FinalText s.newMessages text) :
    EndsOnce s ↔ events.countP (·.isMessageEnd) = 0 := by
  have hcount : s.events.countP (·.isMessageEnd) = events.countP (·.isMessageEnd) + 1 := by
    rw [hevents, countP_append]
    rfl
  constructor
  · rintro ⟨honce, -⟩
    omega
  · intro hzero
    refine ⟨by omega, content, ?_, hcontent⟩
    rw [hevents]
    exact getLast?_concat ..

namespace StreamState

theorem finish_spec (s : StreamState) :
    s.finish.outcome = some .returned ∧ ∃ text, s.finish.events = s.events ++ [.messageEnd (.ok text)] ∧
      FinalText s.finish.newMessages text :=
  ⟨rfl, _, rfl, finalText_append _ _⟩

/-- What the end of a stream leads to: the turn goes on, without an event; or it ends with an end of
a message, after an error; or it ends with a text that the provider has sent, without an event. -/
theorem handle_cases (loop : AgentLoop) {st : Streaming} (hst : st.outcome = none)
    (stoppedAfter : Bool) (resolution : Resolution) (ending : StreamEnding) :
    let s := handle loop st stoppedAfter resolution ending
    (s.outcome = none ∧ s.events = st.events ∧ ¬ (ending.isDone ∧ st.fullResponse ≠ "")) ∨
      (s.outcome = some .returned ∧ ¬ ending.isDone ∧
        ∃ content, s.events = st.events ++ [.messageEnd content] ∧
          ∀ text, content = .ok text → FinalText s.newMessages text) ∨
      (s.outcome = some .returned ∧ ending.isDone ∧ st.fullResponse ≠ "" ∧ s.events = st.events ∧
        FinalText s.newMessages st.fullResponse) := by
  have hfail (s : StreamState) (what : String) :
      ∃ content, (s.fail what).events = s.events ++ [.messageEnd content] ∧
        ∀ text, content = .ok text → FinalText (s.fail what).newMessages text :=
    ⟨_, rfl, nofun⟩
  cases ending with
  | done =>
    rw [handle, complete]
    split
    case isTrue hfull => exact .inr (.inr ⟨rfl, rfl, hfull, rfl, finalText_append _ _⟩)
    case isFalse hfull => exact .inl ⟨hst, rfl, fun h => hfull h.2⟩
  | raised what => exact .inr (.inl ⟨rfl, Bool.false_ne_true, hfail _ what⟩)
  | error error =>
    have hdone : ¬ (StreamEnding.error error).isDone := Bool.false_ne_true
    rw [handle]
    split
    · rw [LoopState.overflow]
      split_ifs
      · exact .inl ⟨hst, rfl, fun h => hdone h.1⟩
      · exact .inr (.inl ⟨rfl, hdone, hfail _ _⟩)
    · rw [failover]
      split
      · dsimp only
        split
        · obtain ⟨hout, text, hevents, hfinal⟩ := finish_spec { st.toStreamState with
            stopRequested := st.stopRequested || stoppedAfter }
          refine .inr (.inl ⟨hout, hdone, _, hevents, ?_⟩)
          rintro _ ⟨⟩
          exact hfinal
        · split
          · split
            · exact .inl ⟨hst, rfl, fun h => hdone h.1⟩
            · exact .inr (.inl ⟨rfl, hdone, hfail _ _⟩)
          · exact .inr (.inl ⟨rfl, hdone, hfail _ _⟩)
      · exact .inr (.inl ⟨rfl, hdone, hfail _ _⟩)

variable {loop : AgentLoop}

theorem step_events {s s' : StreamState} {action : StreamAction}
    (hs : s.outcome = none) (h : step loop s action = some s') :
    (CallsReported s.events → CallsReported s'.events) ∧
      ((s'.outcome ≠ some .returned →
          s'.events.countP (·.isMessageEnd) =
            s.events.countP (·.isMessageEnd) + action.endings ∧
          (action.Orderly ↔ action.endings = 0)) ∧
        (s'.outcome = some .returned →
          (EndsOnce s' ↔ s.events.countP (·.isMessageEnd) = 0 ∧ action.Orderly))) := by
  cases action with
  | recover =>
    rw [step] at h
    split at h
    · cases h
      have hrecover : (s.toLoopState.recover loop).outcome ≠ some .returned := by
        rw [LoopState.recover]
        cases recoverFromOverflow loop.systemPrompt s.request.messages with
        | none => exact nofun
        | some messages =>
          show s.outcome ≠ _
          rw [hs]
          exact nofun
      exact ⟨id, fun _ => ⟨rfl, iff_of_true trivial rfl⟩, fun h => absurd h hrecover⟩
    · cases h
  | leave stopped =>
    rw [step] at h
    dsimp only at h
    split at h
    · cases h
      obtain ⟨hout, text, hevents, hfinal⟩ :=
        finish_spec { s with stopRequested := s.stopRequested || stopped }
      refine ⟨fun h => ?_, fun hnot => absurd hout hnot, fun _ => ?_⟩
      · rw [hevents]
        exact h.push Bool.false_ne_true Bool.false_ne_true
      · rw [endsOnce_iff hevents (by rintro _ ⟨⟩; exact hfinal)]
        exact (and_iff_left trivial).symm
    · cases h
  | round chunks tools ending stoppedAfter resolution =>
    rw [step] at h
    split at h
    · cases h
      let st : Streaming := { s with toLoopState := s.send loop }
      obtain ⟨htext, hcount, hreported, hlast⟩ := Streaming.foldl_receive_spec tools chunks st
      have hst : (chunks.foldl (Streaming.receive tools) st).outcome = none :=
        Streaming.foldl_receive_rule (motive := fun s => s.outcome = none)
          (fun _ _ _ _ _ h => h) (fun _ _ _ h => h) tools chunks _ hs
      replace htext : (chunks.foldl (Streaming.receive tools) st).fullResponse =
          trailingText chunks := htext
      replace hcount : (chunks.foldl (Streaming.receive tools) st).events.countP (·.isMessageEnd) =
          s.events.countP (·.isMessageEnd) + chunks.countP (·.endsMessage) := hcount
      generalize chunks.foldl (Streaming.receive tools) st = st' at htext hcount hreported hlast hst
      rw [StreamAction.Orderly, ← htext]
      rcases handle_cases loop hst stoppedAfter resolution ending with
        ⟨hout, hevents, hnot⟩ | ⟨hout, hdone, content, hevents, hfinal⟩ |
        ⟨hout, hdone, hfull, hevents, hfinal⟩
      · rw [hevents, hout, if_neg hnot]
        exact ⟨hreported, fun _ => ⟨hcount, Iff.rfl⟩, nofun⟩
      · refine ⟨fun h => ?_, fun hnot => absurd hout hnot, fun _ => ?_⟩
        · rw [hevents]
          exact (hreported h).push Bool.false_ne_true Bool.false_ne_true
        · rw [endsOnce_iff hevents hfinal, hcount, if_neg fun h => hdone h.1]
          exact Nat.add_eq_zero_iff
      · rw [if_pos ⟨hdone, hfull⟩]
        refine ⟨by rw [hevents]; exact hreported, fun hnot => absurd hout hnot, fun _ => ?_⟩
        cases hloud : (chunks.filter (!·.silent)).getLast? with
        | none =>
          rw [hloud] at hlast
          exact absurd hlast.2 hfull
        | some last =>
          rw [hloud] at hlast
          obtain ⟨event, hevent, hend⟩ := hlast
          simp only [Option.mem_some_iff, exists_eq_left']
          cases hlastEnds : last.endsMessage with
          | false =>
            -- the last event is no end, neither is the last chunk
            rw [hlastEnds] at hend
            refine iff_of_false ?_ fun h => Bool.false_ne_true h.2.2
            rintro ⟨-, content, hcontent, -⟩
            rw [hevents, hevent] at hcontent
            cases hcontent
            exact hend rfl
          | true =>
            rw [hlastEnds] at hend
            have hpos : 0 < chunks.countP (·.endsMessage) :=
              countP_pos_iff.2 ⟨last,
                (mem_filter.1 (mem_of_getLast? hloud)).1, hlastEnds⟩
            constructor
            · rintro ⟨honce, -⟩
              rw [hevents, hcount] at honce
              exact ⟨by omega, by omega, rfl⟩
            · rintro ⟨hzero, hone, -⟩
              rw [if_pos rfl] at hend
              refine ⟨by rw [hevents, hcount, hzero, hone], .ok st'.fullResponse, ?_, ?_⟩
              · rw [hevents, hevent, hend]
              · rintro _ ⟨⟩
                exact hfinal
    · cases h

theorem step_of_ended {s : StreamState} (h : s.outcome ≠ none)
    (action : StreamAction) : step loop s action = none := by
  have hrunning : s.running = false := by
    rw [LoopState.running]
    exact Option.isNone_eq_false_iff.2 (Option.isSome_iff_ne_none.2 h)
  cases action with
  | round => rw [step, hrunning]; rfl
  | recover => rw [step, hrunning]; rfl
  | leave stopped =>
    rw [step]
    dsimp only
    rw [show LoopState.running { s.toLoopState with
      stopRequested := s.stopRequested || stopped } = false from hrunning]
    rfl

theorem endsOnce_exec {s s' : StreamState} {actions : List StreamAction}
    (hs : s.outcome = none) (h : exec (step loop) s actions = some s')
    (hret : s'.outcome = some .returned) :
    EndsOnce s' ↔
      s.events.countP (·.isMessageEnd) = 0 ∧ ∀ action ∈ actions, action.Orderly := by
  induction actions generalizing s with
  | nil =>
    cases h
    rw [hs] at hret
    cases hret
  | cons action actions ih =>
    obtain ⟨s₁, hstep, h⟩ := exec_cons.1 h
    obtain ⟨-, hrunning, hreturned⟩ := step_events hs hstep
    rw [forall_mem_cons]
    cases hs₁ : s₁.outcome with
    | none =>
      obtain ⟨hcount, horderly⟩ := hrunning (by rw [hs₁]; exact nofun)
      rw [ih hs₁ h, hcount, Nat.add_eq_zero_iff, horderly, and_assoc]
    | some outcome =>
      cases actions with
      | nil =>
        cases h
        rw [hreturned hret]
        simp
      | cons action' actions =>
        obtain ⟨s₂, hstep', -⟩ := exec_cons.1 h
        rw [step_of_ended (by rw [hs₁]; exact nofun)] at hstep'
        cases hstep'

/-- **The events of a turn are well formed exactly when its streams are orderly.** -/
theorem eventsWellFormed_iff (loop : AgentLoop) (provider : Provider) (providerId : String)
    (context : List Message) {actions : List StreamAction} {s : StreamState}
    (h : exec (step loop) (start loop provider providerId context) actions = some s)
    (hret : s.outcome = some .returned) :
    EventsWellFormed s ↔ ∀ action ∈ actions, action.Orderly := by
  have hreported : CallsReported s.events := by
    refine exec_invariant' (motive := fun s : StreamState => CallsReported s.events) ?_
      (s := start loop provider providerId context) callsReported_nil h
    intro s action s' hs hstep
    by_cases hout : s.outcome = none
    · exact (step_events hout hstep).1 hs
    · rw [step_of_ended hout] at hstep
      cases hstep
  have hends := endsOnce_exec (s := start loop provider providerId context) rfl h hret
  constructor
  · rintro ⟨honce, -⟩
    exact (hends.1 honce).2
  · intro horderly
    exact ⟨hends.2 ⟨rfl, horderly⟩, hreported⟩

def quietRound (chunks : List ChatCompletionResponse) : StreamAction :=
  .round chunks (fun _ => ⟨false, .ok "r"⟩) .done false ⟨none, "", ""⟩

/-- A turn that is one text. -/
theorem eventsWellFormed_iff_text :
    ∃ s, exec (step { message := "q", maxIterations := 3 })
        (start { message := "q", maxIterations := 3 } ⟨0, "openai"⟩ "" [])
        [quietRound [⟨"hi", [], false⟩, ⟨"", [], true⟩]] = some s ∧ EventsWellFormed s := by
  refine ⟨_, rfl, (eventsWellFormed_iff { message := "q", maxIterations := 3 } ⟨0, "openai"⟩ "" []
    (show exec _ _ [quietRound [⟨"hi", [], false⟩, ⟨"", [], true⟩]] = some _ from rfl) rfl).2 ?_⟩
  intro action haction
  rw [mem_singleton.1 haction]
  exact ⟨by decide, _, rfl, rfl⟩

/-- The end of a stream with tool calls passes an end of the message on. -/
theorem not_eventsWellFormed : ¬ ∀ (loop : AgentLoop) (provider : Provider)
    (providerId : String) (context : List Message) (actions : List StreamAction)
    (s : StreamState), exec (step loop) (start loop provider providerId context) actions = some s →
      s.outcome = some .returned → EventsWellFormed s := by
  intro h
  have hwell := h { message := "q", maxIterations := 3 } ⟨0, "anthropic"⟩ "" []
    [quietRound [⟨"", [⟨"t1", "read", .obj []⟩], false⟩, ⟨"", [], true⟩],
      quietRound [⟨"hi", [], false⟩, ⟨"", [], true⟩]] _ rfl rfl
  exact absurd hwell.endsOnce.once (by decide)

end StreamState

end RavBot.Core
