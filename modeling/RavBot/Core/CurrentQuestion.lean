import RavBot.Core.Conversation
import RavBot.Core.AgentStream

/-!
# The current question

A turn is about the message that it was called with, and under the system prompt.  Both are in the
messages of the first request, the prompt at the start.  What happens to these messages later keeps
them there, with two exceptions.  Overflow recovery adds the prompt again and keeps the later half
of the messages, or the last two: with two messages the prompt is there twice, and after some tool
rounds the question is gone.  And after a correction by one of the lookup guards, the question is
no longer what the user said last, so that a replay for Anthropic is trimmed to the correction
(`carries_sent`).
-/

open List

namespace RavBot.Core

open RavBot.Lib RavBot.Providers

/-- A request has the current question in a user message, and the system prompt in exactly one
system message. -/
structure Carries (loop : AgentLoop) (messages : List Message) : Prop where
  question : ∃ msg ∈ messages, msg.role = "user" ∧ .makeText loop.message ∈ msg.content
  prompt : messages.countP (·.isPrompt loop.systemPrompt) = 1

/-- The notices that the loops add to the messages, apart from those that count something. -/
def loopNotices : List String := [guardNotice, streamGuardNotice, overflowNotice, replayHint]

/-- What the texts of a turn should be like: there is a question and a prompt, and the prompt is none
of the notices that the loops add, nor a system message of the history that goes into the context.
The validator, when there is one, has its built-in functions. -/
structure AgentLoop.WellPosed (dumpSize : Json → Nat) (loop : AgentLoop) : Prop where
  question : loop.message ≠ ""
  prompt : loop.systemPrompt ≠ ""
  notices : loop.systemPrompt ∉ loopNotices
  duplicates : ∀ occurrences, loop.systemPrompt ≠ duplicateNotice occurrences
  history : ∀ history ∈ loop.effectiveHistory dumpSize, ∀ msg ∈ history,
    ¬ msg.isPrompt loop.systemPrompt
  validator : ∀ v ∈ loop.turnValidator, v = .builtin

theorem AgentLoop.WellPosed.ne_notice {dumpSize : Json → Nat} {loop : AgentLoop}
    (h : loop.WellPosed dumpSize) {notice : String} (hnotice : notice ∈ loopNotices) :
    loop.systemPrompt ≠ notice := by
  rintro rfl
  exact h.notices hnotice

theorem carries_of_asked {loop : AgentLoop} {messages : List Message}
    (hopens : Opens loop.systemPrompt messages) (hasked : Asked loop.message messages) :
    Carries loop messages := by
  refine ⟨?_, hopens.once⟩
  obtain ⟨blocks, hblocks, hquestion⟩ := hasked
  obtain ⟨msg, hmsg, rfl⟩ := mem_map.1 (mem_of_mem_filter hblocks)
  have hrole : msg.role = "user" := by
    by_contra hrole
    rw [Message.spoken_of_ne hrole] at hquestion
    cases hquestion
  rw [Message.spoken, if_pos hrole] at hquestion
  exact ⟨msg, hmsg, hrole, mem_of_mem_filter hquestion⟩

/-! ## The first request -/

theorem askedLast_concat {question : String} (hquestion : question ≠ "") (messages : List Message) :
    AskedLast question (messages ++ [.ofText "user" question]) := by
  have hcontent : (Message.ofText "user" question).content = [.makeText question] := if_neg hquestion
  have hspoken : (Message.ofText "user" question).spoken = [.makeText question] := by
    rw [Message.spoken, hcontent]
    rfl
  refine ⟨[.makeText question], ?_, mem_singleton_self _⟩
  rw [said_append, said_cons, hspoken]
  exact getLast?_concat ..

theorem opens_cons {systemPrompt : String} (hprompt : systemPrompt ≠ "") {messages : List Message}
    (hmessages : ∀ msg ∈ messages, ¬ msg.isPrompt systemPrompt) :
    Opens systemPrompt (promptMessages systemPrompt ++ messages) := by
  rw [promptMessages, if_neg hprompt, singleton_append]
  refine ⟨rfl, ?_⟩
  rw [countP_cons_of_pos (isPrompt_ofText hprompt).2.2, countP_eq_zero.2 hmessages]

theorem lastMessages_cons {keep : Int} {first : Message} {rest kept : List Message}
    (h : lastMessages keep (first :: rest) = some kept) (hlt : keep < (first :: rest).length) :
    ∃ before, rest = before ++ kept ∧ kept.length = keep.toNat := by
  rw [lastMessages] at h
  split at h
  case isFalse => cases h
  case isTrue hkeep =>
    cases h
    obtain ⟨n, hn⟩ : ∃ n, (first :: rest).length - keep.toNat = n + 1 :=
      ⟨(first :: rest).length - keep.toNat - 1, by omega⟩
    rw [hn, drop_succ_cons]
    refine ⟨rest.take n, (take_append_drop n rest).symm, ?_⟩
    rw [length_drop]
    rw [length_cons] at hn hlt
    omega

theorem contextWith_spec {dumpSize : Json → Nat} {loop : AgentLoop} {notice duplicate : String}
    {context : List Message} (hloop : loop.WellPosed dumpSize)
    (hkeep : 1 ≤ loop.config.compactKeepRecent) (hnotice : notice ∈ loopNotices)
    (hduplicate : loop.systemPrompt ≠ duplicate)
    (h : loop.contextWith dumpSize notice duplicate = some context) :
    Opens loop.systemPrompt context ∧ AskedLast loop.message context := by
  obtain ⟨history, hhist, h⟩ := Option.bind_eq_some_iff.1 h
  -- everything between the prompt and the question
  have hbetween : ∀ msg ∈ promptMessages duplicate ++ history ++ [.ofText "user" loop.message],
      ¬ msg.isPrompt loop.systemPrompt := by
    intro msg hmsg
    rcases mem_append.1 hmsg with hmsg | hmsg
    · rcases mem_append.1 hmsg with hmsg | hmsg
      · rw [promptMessages] at hmsg
        split at hmsg
        · cases hmsg
        · rw [mem_singleton.1 hmsg]
          exact not_isPrompt_ofText hduplicate
      · exact hloop.history history hhist msg hmsg
    · rw [mem_singleton.1 hmsg]
      exact Bool.false_ne_true
  rw [append_assoc, append_assoc, ← append_assoc (promptMessages duplicate)] at h
  obtain ⟨estimated, -, h⟩ := Option.bind_eq_some_iff.1 h
  dsimp only at h
  split at h
  case isFalse =>
    cases h
    refine ⟨opens_cons hloop.prompt hbetween, ?_⟩
    rw [← append_assoc]
    exact askedLast_concat hloop.question _
  case isTrue hguard =>
    obtain ⟨kept, hkept, h⟩ := Option.bind_eq_some_iff.1 h
    cases h
    rw [promptMessages, if_neg hloop.prompt, singleton_append] at hkept hguard
    obtain ⟨before, hbefore, hlength⟩ := lastMessages_cons hkept hguard.2
    have hne : kept ≠ [] := by
      rintro rfl
      rw [length_nil] at hlength
      rw [length_cons, length_append, length_singleton] at hlength
      omega
    refine ⟨opens_cons hloop.prompt ?_, ?_⟩
    · rw [forall_mem_cons]
      refine ⟨not_isPrompt_ofText (hloop.ne_notice hnotice), fun msg hmsg => hbetween msg ?_⟩
      rw [hbefore]
      exact mem_append_right _ hmsg
    · have hlast : kept.getLast? = some (.ofText "user" loop.message) := by
        rw [← getLast?_append_of_ne_nil before hne, ← hbefore]
        exact getLast?_concat ..
      obtain ⟨kept', rfl⟩ := getLast?_eq_some_iff.1 hlast
      rw [append_cons, ← append_assoc]
      exact askedLast_concat hloop.question _

/-! ## What a turn keeps -/

/-- The requests that were sent carry the question and the prompt, and so will the next one.  Until
there was a correction, the question is what the user said last. -/
structure LoopState.Holds (loop : AgentLoop) (corrected : Bool) (s : LoopState) : Prop where
  sent : ∀ messages ∈ s.sent, Carries loop messages
  opens : Opens loop.systemPrompt s.request.messages
  asked : Asked loop.message s.request.messages
  last : corrected = false → AskedLast loop.message s.request.messages

namespace LoopState

variable {dumpSize : Json → Nat} {loop : AgentLoop} {corrected : Bool} {s : LoopState}

theorem holds_start (hopens : Opens loop.systemPrompt s.request.messages)
    (hlast : AskedLast loop.message s.request.messages) (hsent : s.sent = []) :
    s.Holds loop corrected := by
  refine ⟨?_, hopens, hlast.asked, fun _ => hlast⟩
  rw [hsent]
  nofun

/-- A request can be trimmed to a correction: there was one, the user does not have the last word,
and the request goes to Anthropic. -/
def MayTrim (corrected : Bool) (s : LoopState) : Prop :=
  corrected ∧ ¬ EndsSpoken s.request.messages ∧ s.provider.name = "anthropic"

theorem Holds.send (hloop : loop.WellPosed dumpSize) (h : s.Holds loop corrected)
    (htrim : ¬ s.MayTrim corrected) :
    (s.send loop).Holds loop corrected ∧
      (EndsSpoken s.request.messages → EndsSpoken (s.send loop).request.messages) := by
  obtain ⟨hkeeps, hasked⟩ := keeps_sanitize loop.message hloop.prompt
    (hloop.ne_notice (by simp [loopNotices])) hloop.validator s.provider.name s.request.messages
  have hopens := hkeeps.opens h.opens
  have hasked' : Asked loop.message (s.send loop).request.messages := by
    cases corrected with
    | false => exact (hkeeps.askedLast (h.last rfl)).asked
    | true =>
      refine hasked ?_ h.asked
      by_contra hnot
      push Not at hnot
      exact htrim ⟨rfl, hnot.2, hnot.1⟩
  refine ⟨⟨fun messages hmessages => ?_, hopens, hasked', fun hnot => hkeeps.askedLast (h.last hnot)⟩,
    hkeeps.ends⟩
  rcases mem_append.1 hmessages with hmessages | hmessages
  · exact h.sent messages hmessages
  · rw [mem_singleton.1 hmessages]
    exact carries_of_asked hopens hasked'

theorem Holds.pushRequest (corrected' : Bool) (messages : List Message) (h : s.Holds loop corrected)
    (hsystem : ∀ msg ∈ messages, ¬ msg.isSystem) (hsaid : corrected' = false → said messages = [])
    (hcorrected : corrected' = false → corrected = false) :
    (s.pushRequest messages).Holds loop corrected' := by
  refine ⟨h.sent, ⟨?_, ?_⟩, ?_, fun hnot => ?_⟩
  · show (s.request.messages ++ messages).head? = _
    rw [head?_append, h.opens.head]
    rfl
  · show (s.request.messages ++ messages).countP _ = 1
    rw [countP_append, h.opens.once, countP_eq_zero.2]
    intro msg hmsg hprompt
    rw [Message.isPrompt, Bool.and_eq_true] at hprompt
    exact hsystem msg hmsg hprompt.1
  · obtain ⟨blocks, hblocks, hquestion⟩ := h.asked
    refine ⟨blocks, ?_, hquestion⟩
    show blocks ∈ said (s.request.messages ++ messages)
    rw [said_append]
    exact mem_append_left _ hblocks
  · show AskedLast loop.message (s.request.messages ++ messages)
    rw [AskedLast, said_append, hsaid hnot, append_nil]
    exact h.last (hcorrected hnot)

/-- The half of the request that overflow recovery keeps has the question and not the prompt. -/
def KeepsQuestion (loop : AgentLoop) (s : LoopState) : Prop :=
  2 < s.request.messages.length ∧
    ∀ messages ∈ lastMessages (overflowKeep s.request.messages) s.request.messages,
      Asked loop.message messages

theorem Holds.recover (hloop : loop.WellPosed dumpSize) (h : s.Holds loop corrected)
    (hkeeps : s.KeepsQuestion loop) : (s.recover loop).Holds loop corrected := by
  obtain ⟨hlength, hasked⟩ := hkeeps
  rw [LoopState.recover, recoverFromOverflow]
  cases hkept : lastMessages (overflowKeep s.request.messages) s.request.messages with
  | none => exact ⟨h.sent, h.opens, h.asked, h.last⟩
  | some kept =>
    have hasked := hasked kept hkept
    obtain ⟨rest, hrest⟩ := head?_eq_some_iff.1 h.opens.head
    have hkeep : overflowKeep s.request.messages < s.request.messages.length := by
      rw [overflowKeep]
      omega
    rw [hrest] at hkept hkeep
    obtain ⟨before, hbefore, -⟩ := lastMessages_cons hkept (by exact_mod_cast hkeep)
    -- the prompt is not in the half that is kept
    have hnot : ∀ msg ∈ kept, ¬ msg.isPrompt loop.systemPrompt := by
      have honce := h.opens.once
      rw [hrest, countP_cons_of_pos (isPrompt_ofText hloop.prompt).2.2, hbefore] at honce
      rw [← countP_eq_zero]
      rw [countP_append] at honce
      omega
    have hsaid : said (promptMessages loop.systemPrompt ++ .ofText "system" overflowNotice ::
        kept) = said kept := by
      rw [promptMessages, if_neg hloop.prompt, singleton_append,
        said_cons_of_eq_nil rfl, said_cons_of_eq_nil rfl]
    refine ⟨h.sent, opens_cons hloop.prompt ?_, ?_, fun hcorrected => ?_⟩
    · rw [forall_mem_cons]
      exact ⟨not_isPrompt_ofText (hloop.ne_notice (by simp [loopNotices])), hnot⟩
    · obtain ⟨blocks, hblocks, hquestion⟩ := hasked
      refine ⟨blocks, ?_, hquestion⟩
      rw [← hsaid] at hblocks
      exact hblocks
    · obtain ⟨blocks, hblocks, hquestion⟩ := h.last hcorrected
      refine ⟨blocks, ?_, hquestion⟩
      have hne : said kept ≠ [] := by
        obtain ⟨blocks', hblocks', -⟩ := hasked
        exact ne_nil_of_mem hblocks'
      rw [hrest, hbefore, ← cons_append, getLast?_said_append _ hne, ← hsaid] at hblocks
      exact hblocks

theorem said_round (content : String) (toolCalls : List ToolCall) (results : List String) :
    said [assistantMessage content toolCalls, resultsMessage toolCalls results] = [] := by
  have hresults : (resultsMessage toolCalls results).spoken = [] := by
    rw [Message.spoken, resultsMessage, if_pos rfl]
    induction toolCalls generalizing results with
    | nil => rfl
    | cons tc toolCalls ih =>
      cases results with
      | nil => rfl
      | cons result results => exact ih results
  rw [said_cons_of_eq_nil (Message.spoken_of_ne (show "assistant" ≠ "user" by decide)),
    said_cons_of_eq_nil hresults, said_nil]

theorem Holds.push (h : s.Holds loop corrected) (content : String) (toolCalls : List ToolCall)
    (results : List String) :
    (s.push [assistantMessage content toolCalls, resultsMessage toolCalls results]).Holds loop
      corrected := by
  have hpush := h.pushRequest corrected
    [assistantMessage content toolCalls, resultsMessage toolCalls results] ?_
    (fun _ => said_round content toolCalls results) id
  · exact ⟨hpush.sent, hpush.opens, hpush.asked, hpush.last⟩
  · rw [forall_mem_cons, forall_mem_singleton]
    exact ⟨Bool.false_ne_true, Bool.false_ne_true⟩

end LoopState

/-! ## The loop of `ProcessMessage` -/

namespace PlainState

def corrected (s : PlainState) : Bool := s.forcedLookupRetry || s.forcedWebSearchSynthesisRetry

/-- The action does no harm to the question and the prompt: after a correction, a request in which
the user does not have the last word does not go to Anthropic, and overflow recovery keeps the
question, and not the prompt. -/
def Harmless (loop : AgentLoop) (s : PlainState) : PlainAction → Prop
  | .round attempts _ _ => s.corrected → EndsSpoken s.request.messages ∨
      s.provider.name ≠ "anthropic" ∧ ∀ attempt ∈ attempts,
        ∀ provider ∈ attempt.resolution.provider, provider.name ≠ "anthropic"
  | .recover => s.KeepsQuestion loop
  | .leave _ => True

variable {dumpSize : Json → Nat} {loop : AgentLoop} {s : PlainState}

def Holds (loop : AgentLoop) (s : PlainState) : Prop := s.toLoopState.Holds loop s.corrected

theorem holds_executeWithRetry (hloop : loop.WellPosed dumpSize) {corrected : Bool} {s s' : LoopState}
    {attempts : List Attempt} {result : CallResult} (hs : s.Holds loop corrected)
    (hharmless : corrected → EndsSpoken s.request.messages ∨
      s.provider.name ≠ "anthropic" ∧ ∀ attempt ∈ attempts,
        ∀ provider ∈ attempt.resolution.provider, provider.name ≠ "anthropic")
    (h : executeWithRetry loop kDefaultMaxRetries 0 0 s attempts = some (s', result)) :
    s'.Holds loop corrected := by
  have hmotive := executeWithRetry_rule
    (motive := fun s => s.Holds loop corrected ∧ (corrected → EndsSpoken s.request.messages ∨
      s.provider.name ≠ "anthropic" ∧ ∀ attempt ∈ attempts,
        ∀ provider ∈ attempt.resolution.provider, provider.name ≠ "anthropic"))
    ?_ ?_ ?_ ⟨hs, hharmless⟩ h
  · exact hmotive.1
  · rintro s stopRequested ⟨hs, hharmless⟩
    exact ⟨⟨hs.sent, hs.opens, hs.asked, hs.last⟩, hharmless⟩
  · rintro s ⟨hs, hharmless⟩
    obtain ⟨hsend, hends⟩ := hs.send hloop fun ⟨hcorrected, hnot, hname⟩ =>
      (hharmless hcorrected).elim hnot fun h => h.1 hname
    exact ⟨hsend, fun hcorrected => (hharmless hcorrected).imp_left hends⟩
  · rintro s attempt hattempt provider hprovider ⟨hs, hharmless⟩
    refine ⟨⟨hs.sent, hs.opens, hs.asked, hs.last⟩, fun hcorrected => ?_⟩
    exact (hharmless hcorrected).imp_right fun h => ⟨h.2 attempt hattempt provider hprovider, h.2⟩

theorem holds_finish (hs : s.Holds loop) : (s.finish loop).Holds loop := by
  rw [Holds, finish]
  dsimp only
  split <;> exact ⟨hs.sent, hs.opens, hs.asked, hs.last⟩

theorem holds_callTools (hs : s.Holds loop) (response : ChatCompletionResponse)
    (tools : Nat → ToolAnswer) (stoppedAfter : Bool) :
    (s.callTools loop response tools stoppedAfter).Holds loop := by
  rw [callTools]
  split
  · exact ⟨hs.sent, hs.opens, hs.asked, hs.last⟩
  · generalize handleToolCalls s.stopRequested tools 0 response.toolCalls = handled
    obtain ⟨results, executed, stopRequested⟩ := handled
    have hpush := LoopState.Holds.push hs response.content response.toolCalls
      (results.map (truncateToolResult · kToolResultMaxChars kToolResultKeepLines))
    dsimp only
    split
    · exact holds_finish ⟨hpush.sent, hpush.opens, hpush.asked, hpush.last⟩
    · exact ⟨hpush.sent, hpush.opens, hpush.asked, hpush.last⟩

theorem holds_answer (hs : s.Holds loop) (content : String) :
    (s.answer loop content).Holds loop := by
  have hcorrect {corrected : Bool} (correction : String) (hcorrected : corrected = true) :
      (s.correct content correction).toLoopState.Holds loop corrected := by
    have hpush := LoopState.Holds.pushRequest corrected
      [textMessage content, .ofText "user" correction] hs ?_
      (fun hnot => absurd hnot (by rw [hcorrected]; decide))
      (fun hnot => absurd hnot (by rw [hcorrected]; decide))
    · exact ⟨hpush.sent, hpush.opens, hpush.asked, hpush.last⟩
    · rw [forall_mem_cons, forall_mem_singleton]
      exact ⟨Bool.false_ne_true, Bool.false_ne_true⟩
  rw [answer]
  split
  · exact hcorrect lookupCorrection (Bool.true_or _)
  · split
    · exact hcorrect synthesisCorrection (Bool.or_true _)
    · exact ⟨hs.sent, hs.opens, hs.asked, hs.last⟩

theorem holds_handle (hs : s.Holds loop) (tools : Nat → ToolAnswer) (stoppedAfter : Bool)
    (result : CallResult) : (s.handle loop tools stoppedAfter result).Holds loop := by
  cases result with
  | response response =>
    rw [handle]
    split
    · exact holds_callTools hs response tools stoppedAfter
    · split
      · exact holds_answer hs response.content
      · exact holds_finish ⟨hs.sent, hs.opens, hs.asked, hs.last⟩
  | overflow what =>
    show (s.overflow.getD (s.throw what)).Holds loop s.corrected
    rw [LoopState.overflow]
    split <;> exact ⟨hs.sent, hs.opens, hs.asked, hs.last⟩
  | threw what => exact ⟨hs.sent, hs.opens, hs.asked, hs.last⟩

theorem holds_step (hloop : loop.WellPosed dumpSize) {s' : PlainState} {action : PlainAction}
    (hs : s.Holds loop) (hharmless : s.Harmless loop action) (h : step loop s action = some s') :
    s'.Holds loop := by
  cases action with
  | round attempts tools stoppedAfter =>
    rw [step] at h
    split at h
    · obtain ⟨⟨sent, result⟩, hsent, rfl⟩ := Option.map_eq_some_iff.1 h
      have hreset : s.resetToolChoice.toLoopState.Holds loop s.corrected ∧
          s.resetToolChoice.request.messages = s.request.messages ∧
          s.resetToolChoice.provider = s.provider := by
        rw [resetToolChoice]
        split <;> exact ⟨⟨hs.sent, hs.opens, hs.asked, hs.last⟩, rfl, rfl⟩
      obtain ⟨hreset, hmessages, hprovider⟩ := hreset
      have hharmless := hharmless
      rw [Harmless, ← hmessages, ← hprovider] at hharmless
      exact holds_handle (s := { s with toLoopState := sent })
        (holds_executeWithRetry hloop hreset hharmless hsent) tools stoppedAfter result
    · cases h
  | recover =>
    rw [step] at h
    split at h
    · cases h
      exact LoopState.Holds.recover hloop hs hharmless
    · cases h
  | leave stopped =>
    rw [step] at h
    dsimp only at h
    split at h
    · cases h
      exact holds_finish ⟨hs.sent, hs.opens, hs.asked, hs.last⟩
    · cases h

end PlainState

/-! ## The loop of `ProcessMessageStream` -/

namespace StreamState

/-- The action does no harm to the question and the prompt: overflow recovery keeps the question, and
not the prompt. -/
def Harmless (loop : AgentLoop) (s : StreamState) : StreamAction → Prop
  | .recover => s.KeepsQuestion loop
  | _ => True

variable {dumpSize : Json → Nat} {loop : AgentLoop} {s : StreamState}

def Holds (loop : AgentLoop) (s : StreamState) : Prop := s.toLoopState.Holds loop false

theorem holds_handle {st : Streaming} (hst : st.toLoopState.Holds loop false) (stoppedAfter : Bool)
    (resolution : Resolution) (ending : StreamEnding) :
    (handle loop st stoppedAfter resolution ending).Holds loop := by
  cases ending with
  | done =>
    rw [handle, complete]
    split <;> exact ⟨hst.sent, hst.opens, hst.asked, hst.last⟩
  | error error =>
    rw [handle]
    split
    · have hover : ∀ s ∈ st.overflow, s.Holds loop false := by
        rw [LoopState.overflow]
        split
        · intro s hs
          cases hs
          exact ⟨hst.sent, hst.opens, hst.asked, hst.last⟩
        · exact nofun
      cases hs : st.overflow with
      | some s => exact hover s hs
      | none => exact ⟨hst.sent, hst.opens, hst.asked, hst.last⟩
    · rw [failover]
      split
      · dsimp only
        split
        · exact ⟨hst.sent, hst.opens, hst.asked, hst.last⟩
        · split
          · split <;> exact ⟨hst.sent, hst.opens, hst.asked, hst.last⟩
          · exact ⟨hst.sent, hst.opens, hst.asked, hst.last⟩
      · exact ⟨hst.sent, hst.opens, hst.asked, hst.last⟩
  | raised what => exact ⟨hst.sent, hst.opens, hst.asked, hst.last⟩

theorem holds_step (hloop : loop.WellPosed dumpSize) {s' : StreamState} {action : StreamAction}
    (hs : s.Holds loop) (hharmless : s.Harmless loop action) (h : step loop s action = some s') :
    s'.Holds loop := by
  cases action with
  | round chunks tools ending stoppedAfter resolution =>
    rw [step] at h
    split at h
    · cases h
      obtain ⟨hsend, -⟩ := LoopState.Holds.send hloop hs fun h => Bool.false_ne_true h.1
      have hround (s : LoopState) (content : String) (tc : ToolCall) (result : String)
          (stopRequested : Bool) (hs : s.Holds loop false) : LoopState.Holds loop false
            { s.push [assistantMessage content [tc], resultsMessage [tc] [result]] with
              stopRequested } := by
        have hpush := hs.push content [tc] [result]
        exact ⟨hpush.sent, hpush.opens, hpush.asked, hpush.last⟩
      have hchunks := Streaming.foldl_receive_rule (motive := LoopState.Holds loop false) hround
        (fun _ _ _ hs => ⟨hs.sent, hs.opens, hs.asked, hs.last⟩) tools chunks
        { s with toLoopState := s.send loop } hsend
      exact holds_handle hchunks stoppedAfter resolution ending
    · cases h
  | recover =>
    rw [step] at h
    split at h
    · cases h
      exact LoopState.Holds.recover hloop hs hharmless
    · cases h
  | leave stopped =>
    rw [step] at h
    dsimp only at h
    split at h
    · cases h
      exact ⟨hs.sent, hs.opens, hs.asked, hs.last⟩
    · cases h

end StreamState

/-- **The question always reaches the model**, and so does the prompt, in every run of either loop in
which no action does harm to them. -/
theorem carries_sent (dumpSize : Json → Nat) (loop : AgentLoop) (provider : Provider)
    (providerId : String) (occurrences : Nat) (hkeep : 1 ≤ loop.config.compactKeepRecent)
    (hloop : loop.WellPosed dumpSize) :
    (∀ context actions s, loop.context dumpSize occurrences = some context →
      exec (PlainState.step loop) (.start loop provider context) actions = some s →
      Along (PlainState.step loop) (PlainState.Harmless loop) (.start loop provider context)
        actions →
      ∀ messages ∈ s.sent, Carries loop messages) ∧
    ∀ context actions s, loop.streamContext dumpSize = some context →
      exec (StreamState.step loop) (.start loop provider providerId context) actions = some s →
      Along (StreamState.step loop) (StreamState.Harmless loop)
        (.start loop provider providerId context) actions →
      ∀ messages ∈ s.sent, Carries loop messages := by
  constructor
  · intro context actions s hcontext hrun halong
    obtain ⟨hopens, hlast⟩ := contextWith_spec hloop hkeep (by simp [loopNotices])
      (hloop.duplicates occurrences) hcontext
    have hholds : s.Holds loop := exec_invariant
      (fun _ _ _ hs hharmless h => PlainState.holds_step hloop hs hharmless h)
      (s := .start loop provider context) (LoopState.holds_start hopens hlast rfl) halong hrun
    exact hholds.sent
  · intro context actions s hcontext hrun halong
    obtain ⟨hopens, hlast⟩ := contextWith_spec hloop hkeep (by simp [loopNotices]) hloop.prompt
      hcontext
    have hholds : s.Holds loop := exec_invariant
      (fun _ _ _ hs hharmless h => StreamState.holds_step hloop hs hharmless h)
      (s := .start loop provider providerId context) (LoopState.holds_start hopens hlast rfl)
      halong hrun
    exact hholds.sent

def promptedLoop : AgentLoop where
  message := "q"
  systemPrompt := "p"
  maxIterations := 9

def roundOf (reply : Reply) : PlainAction :=
  .round [⟨false, reply, false, ⟨none, "", ""⟩⟩] (fun _ => ⟨false, .ok "r"⟩) false

def overflowRun : List PlainAction :=
  [roundOf (.error ⟨.contextOverflow, "too long"⟩), .recover, roundOf (.response ⟨"hi", [], false⟩)]

theorem wellPosed_promptedLoop : promptedLoop.WellPosed fun _ => 0 where
  question := by decide
  prompt := by decide
  notices := by decide
  duplicates occurrences := by
    rw [duplicateNotice]
    split
    · decide
    · intro heq
      have hfirst := congrArg (·.toList.head?) heq
      simp [promptedLoop] at hfirst
  history history hhistory := by
    have hempty : (promptedLoop.effectiveHistory fun _ => 0).all List.isEmpty := by decide
    rw [Option.mem_def.1 hhistory, Option.all_some, List.isEmpty_iff] at hempty
    rw [hempty]
    nofun
  validator := nofun

set_option maxRecDepth 10000 in
theorem context_promptedLoop : promptedLoop.context (fun _ => 0) 1 =
    some [.ofText "system" "p", .ofText "system" (duplicateNotice 1), .ofText "user" "q"] := by
  rfl

/-- With a notice between the prompt and the question, overflow recovery keeps the question and not
the prompt. -/
theorem carries_sent_overflowRun :
    ∃ s, exec (PlainState.step promptedLoop) (.start promptedLoop ⟨0, "openai"⟩
        [.ofText "system" "p", .ofText "system" (duplicateNotice 1), .ofText "user" "q"])
        overflowRun = some s ∧
      s.sent.length = 2 ∧ ∀ messages ∈ s.sent, Carries promptedLoop messages := by
  refine ⟨_, rfl, rfl, (carries_sent (fun _ => 0) promptedLoop ⟨0, "openai"⟩ "" 1 (by decide)
    wellPosed_promptedLoop).1 _ overflowRun _ context_promptedLoop rfl ?_⟩
  -- the overflow, the recovery and the answer
  refine ⟨fun h => absurd h Bool.false_ne_true, fun s₁ h₁ => ?_⟩
  cases h₁
  refine ⟨⟨by decide, fun messages hmessages => ?_⟩, fun s₂ h₂ => ?_⟩
  · cases hmessages
    exact ⟨[.makeText "q"], mem_singleton_self _, mem_singleton_self _⟩
  · cases h₂
    exact ⟨fun h => absurd h Bool.false_ne_true, fun _ _ => trivial⟩

/-- After a tool round, overflow recovery keeps the call and its result, and not the question. -/
theorem not_carries_sent : ¬ ∀ (dumpSize : Json → Nat) (loop : AgentLoop) (provider : Provider)
    (occurrences : Nat) (context : List Message) (actions : List PlainAction) (s : PlainState),
    1 ≤ loop.config.compactKeepRecent → loop.message ≠ "" → loop.systemPrompt ≠ "" →
    loop.context dumpSize occurrences = some context →
    exec (PlainState.step loop) (.start loop provider context) actions = some s →
    ∀ messages ∈ s.sent, Carries loop messages := by
  intro h
  have hcarries := h (fun _ => 0) promptedLoop ⟨0, "openai"⟩ 0
    [.ofText "system" "p", .ofText "user" "q"]
    (roundOf (.response ⟨"", [⟨"t1", "read", .obj []⟩], false⟩) :: overflowRun) _ (by decide)
    (by decide) (by decide) rfl rfl
  -- the third request
  obtain ⟨msg, hmsg, hrole, hquestion⟩ := (hcarries
    [.ofText "system" "p", .ofText "system" overflowNotice,
      assistantMessage "" [⟨"t1", "read", .obj []⟩],
      resultsMessage [⟨"t1", "read", .obj []⟩] ["r"]] (mem_of_getElem? (i := 2) rfl)).question
  have hnone : ∀ msg ∈ [Message.ofText "system" "p", .ofText "system" overflowNotice,
      assistantMessage "" [⟨"t1", "read", .obj []⟩],
      resultsMessage [⟨"t1", "read", .obj []⟩] ["r"]], msg.role = "user" →
      ∀ b ∈ msg.content, b.type ≠ "text" := by decide
  exact hnone msg hmsg hrole _ hquestion rfl

end RavBot.Core
