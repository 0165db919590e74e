import Mathlib.Tactic.Linarith
import RavBot.Core.AgentStream

/-!
# A turn ends

A request is sent again on a retry and after a failover, and the loops send another one in the next iteration
and after the recovery from an overflow; each of these has a counter of its own, and each counter has a bound.
`executeWithRetry_bounds` is about the two counters of `execute_with_retry`.  A round of a loop ends the turn,
or raises one of the two counters of the loop and leaves the other (`Advances`), so that their sum bounds the
number of rounds (`turn_ends`).
-/

namespace RavBot.Core

open RavBot.Lib

variable {loop : AgentLoop}

/-! ## `execute_with_retry` -/

/-- How many calls of a provider are left in the `retry`-th try after some failovers. -/
def callsLeft (maxRetries retry failovers : Nat) : Nat :=
  (kMaxFailoverAttempts - 1 - failovers) * (maxRetries + 1) + (maxRetries - retry + 1)

theorem callsLeft_retry {maxRetries retry : Nat} (h : retry < maxRetries) (failovers : Nat) :
    callsLeft maxRetries (retry + 1) failovers + 1 = callsLeft maxRetries retry failovers := by
  rw [callsLeft, callsLeft]
  omega

variable {failovers : Nat}

theorem callsLeft_failover (maxRetries retry : Nat)
    (h : failovers + 1 < kMaxFailoverAttempts) :
    callsLeft maxRetries 0 (failovers + 1) + 1 ≤ callsLeft maxRetries retry failovers := by
  obtain ⟨left, hleft⟩ : ∃ left, kMaxFailoverAttempts - 1 - failovers = left + 1 :=
    ⟨kMaxFailoverAttempts - 1 - (failovers + 1), by omega⟩
  have hnext : kMaxFailoverAttempts - 1 - (failovers + 1) = left := by omega
  rw [callsLeft, callsLeft, hleft, hnext, Nat.succ_mul]
  omega

theorem callsLeft_zero (maxRetries : Nat) :
    callsLeft maxRetries 0 0 = kMaxFailoverAttempts * (maxRetries + 1) := by
  rw [callsLeft, kMaxFailoverAttempts]
  omega

theorem lt_of_failover_eq_ok {s s' : LoopState} {error : ProviderError}
    {resolution : Resolution} (h : failover loop failovers s error resolution = .ok s') :
    failovers + 1 < kMaxFailoverAttempts := by
  rw [failover] at h
  split at h
  · cases h
  · split at h
    · cases h
    · split at h
      · cases h
      · split at h
        · assumption
        · cases h

theorem sent_of_failover_eq_ok {s s' : LoopState} {error : ProviderError}
    {resolution : Resolution} (h : failover loop failovers s error resolution = .ok s') :
    s'.sent = s.sent := by
  obtain ⟨provider, -, rfl⟩ := failover_eq_ok h
  rfl

@[simp] theorem LoopState.length_sent_send (s : LoopState) :
    (s.send loop).sent.length = s.sent.length + 1 := by
  rw [send, List.length_append, List.length_singleton]

theorem executeWithRetry_cons (loop : AgentLoop) (maxRetries retry failovers : Nat) (s : LoopState)
    (attempt : Attempt) (rest : List Attempt) :
    (∃ s' result, executeWithRetry loop maxRetries retry failovers s (attempt :: rest) =
        some (s', result) ∧ s'.sent.length ≤ s.sent.length + 1) ∨
      ∃ s', s'.sent.length = s.sent.length + 1 ∧
        (retry < maxRetries ∧ executeWithRetry loop maxRetries retry failovers s (attempt :: rest) =
            executeWithRetry loop maxRetries (retry + 1) failovers s' rest ∨
          failovers + 1 < kMaxFailoverAttempts ∧
            executeWithRetry loop maxRetries retry failovers s (attempt :: rest) =
              executeWithRetry loop maxRetries 0 (failovers + 1) s' rest) := by
  have hs₁ : s.sent = { s with stopRequested := s.stopRequested || attempt.stopped }.sent := rfl
  rw [executeWithRetry]
  generalize ({ s with stopRequested := s.stopRequested || attempt.stopped } : LoopState) = s₁ at hs₁ ⊢
  have hsent : (s₁.send loop).sent.length = s.sent.length + 1 := by
    rw [LoopState.length_sent_send, hs₁]
  dsimp only
  split
  · exact .inl ⟨_, _, rfl, hs₁ ▸ Nat.le_succ _⟩
  · cases attempt.reply with
    | response response => exact .inl ⟨_, _, rfl, hsent.le⟩
    | raised what => exact .inl ⟨_, _, rfl, hsent.le⟩
    | error error =>
      dsimp only
      split
      · exact .inl ⟨_, _, rfl, hsent.le⟩
      · split
        · exact .inl ⟨_, _, rfl, hsent.le⟩
        · split
          · next hretry =>
              rw [Bool.and_eq_true, decide_eq_true_eq] at hretry
              refine .inr ⟨_, ?_, .inl ⟨hretry.2, rfl⟩⟩
              exact hsent
          · split
            · next s₂ hs₂ =>
                refine .inr ⟨s₂, ?_, .inr ⟨lt_of_failover_eq_ok hs₂, rfl⟩⟩
                rw [sent_of_failover_eq_ok hs₂]
                exact hsent
            · exact .inl ⟨_, _, rfl, hsent.le⟩

/-- **The calls of `execute_with_retry`.**  It returns or throws when it has had the attempts that are left,
and has not sent more requests than these. -/
theorem executeWithRetry_bounds (loop : AgentLoop) (maxRetries : Nat) (attempts : List Attempt)
    (retry failovers : Nat) (s : LoopState) :
    (callsLeft maxRetries retry failovers ≤ attempts.length →
        (executeWithRetry loop maxRetries retry failovers s attempts).isSome) ∧
      ∀ s' result, executeWithRetry loop maxRetries retry failovers s attempts = some (s', result) →
        s'.sent.length ≤ s.sent.length + callsLeft maxRetries retry failovers := by
  induction attempts generalizing retry failovers s with
  | nil =>
    refine ⟨fun hleft => ?_, nofun⟩
    exact absurd hleft (by rw [callsLeft, List.length_nil]; omega)
  | cons attempt rest ih =>
    have hpos : 0 < callsLeft maxRetries retry failovers := by
      rw [callsLeft]
      omega
    -- a retry or a failover leaves fewer calls
    have hrest {retry' failovers' : Nat} {s₁ : LoopState} (hs₁ : s₁.sent.length = s.sent.length + 1)
        (hless : callsLeft maxRetries retry' failovers' + 1 ≤ callsLeft maxRetries retry failovers)
        (heq : executeWithRetry loop maxRetries retry failovers s (attempt :: rest) =
          executeWithRetry loop maxRetries retry' failovers' s₁ rest) :
        (callsLeft maxRetries retry failovers ≤ (attempt :: rest).length →
            (executeWithRetry loop maxRetries retry failovers s (attempt :: rest)).isSome) ∧
          ∀ s' result, executeWithRetry loop maxRetries retry failovers s (attempt :: rest) =
            some (s', result) →
              s'.sent.length ≤ s.sent.length + callsLeft maxRetries retry failovers := by
      obtain ⟨hends, hsent⟩ := ih retry' failovers' s₁
      rw [heq, List.length_cons]
      refine ⟨fun hleft => hends (by omega), fun s' result h => ?_⟩
      have hle := hsent s' result h
      omega
    rcases executeWithRetry_cons loop maxRetries retry failovers s attempt rest with
      ⟨s', result, heq, hsent⟩ | ⟨s₁, hs₁, ⟨hretry, heq⟩ | ⟨hfailover, heq⟩⟩
    · rw [heq]
      refine ⟨fun _ => rfl, fun s'' result' h => ?_⟩
      cases h
      omega
    · exact hrest hs₁ (callsLeft_retry hretry failovers).le heq
    · exact hrest hs₁ (callsLeft_failover maxRetries retry hfailover) heq

/-! ## The counters of a loop -/

/-- Nothing that a round looks at has changed since the turn began it, but for the state of the request. -/
structure SameCounters (s s' : LoopState) : Prop where
  iterations : s'.iterations = s.iterations
  overflowRetries : s'.overflowRetries = s.overflowRetries
  overflowed : s'.overflowed = s.overflowed

/-- What a round does: it ends the turn or raises `iterations`; or it raises `overflow_retries`, which it
finds below its bound, and leaves the recovery to be done. -/
def Advances (s s' : LoopState) : Prop :=
  s'.overflowRetries = s.overflowRetries ∧ s'.overflowed = s.overflowed ∧
      (s'.running → s.iterations < s'.iterations) ∨
    s.overflowRetries < kOverflowCompactionMaxRetries ∧
      s'.overflowRetries = s.overflowRetries + 1 ∧ s.iterations ≤ s'.iterations

/-- The counters after a number of rounds and of actions altogether. -/
structure Counted (loop : AgentLoop) (rounds actions : Nat) (s : LoopState) : Prop where
  retries : s.overflowRetries ≤ kOverflowCompactionMaxRetries
  started : rounds ≠ 0 → 0 < loop.maxIterations
  total : rounds ≤ loop.maxIterations.toNat + s.overflowRetries
  running : s.running → rounds ≤ s.iterations + s.overflowRetries
  actions : actions + (if s.running && s.overflowed then 1 else 0) ≤
    rounds + s.overflowRetries + (if s.running then 0 else 1)

theorem Counted.start (loop : AgentLoop) {s : LoopState} (hretries : s.overflowRetries = 0)
    (hoverflowed : s.overflowed = false) : Counted loop 0 0 s where
  retries := by omega
  started h := absurd rfl h
  total := Nat.zero_le _
  running _ := Nat.zero_le _
  actions := by simp [hoverflowed]

variable {rounds actions : Nat} {s s' : LoopState}

theorem Counted.round (h : Counted loop rounds actions s) (hrunning : s.running)
    (hoverflowed : s.overflowed = false) (hgoes : s.goesOn loop) (hadvances : Advances s s') :
    Counted loop (rounds + 1) (actions + 1) s' := by
  have hless : (s.iterations : Int) < loop.maxIterations := by
    rw [LoopState.goesOn, Bool.and_eq_true, decide_eq_true_eq] at hgoes
    exact hgoes.1
  have hbefore := h.running hrunning
  have hactions := h.actions
  rw [hoverflowed, hrunning] at hactions
  have hretries := h.retries
  rcases hadvances with ⟨hsame, hsame', hmore⟩ | ⟨hbound, hnext, hle⟩
  · refine ⟨hsame ▸ hretries, fun _ => by omega, by omega, fun hrunning' => ?_, ?_⟩
    · have hmore := hmore hrunning'
      omega
    · rw [hsame', hoverflowed, hsame]
      simp at hactions ⊢
      omega
  · refine ⟨by omega, fun _ => by omega, by omega, fun _ => by omega, ?_⟩
    rw [hnext]
    simp at hactions
    split_ifs <;> omega

theorem Counted.recover (h : Counted loop rounds actions s) (hrunning : s.running)
    (hoverflowed : s.overflowed) : Counted loop rounds (actions + 1) (s.recover loop) := by
  have hactions := h.actions
  rw [hoverflowed, hrunning] at hactions
  have hbefore := h.running hrunning
  rw [LoopState.recover]
  cases recoverFromOverflow loop.systemPrompt s.request.messages with
  | some messages =>
    refine ⟨h.retries, h.started, h.total, fun _ => hbefore, ?_⟩
    simp at hactions ⊢
    omega
  | none =>
    refine ⟨h.retries, h.started, h.total, fun _ => hbefore, ?_⟩
    simp [LoopState.running] at hactions ⊢
    omega

theorem Counted.leave (h : Counted loop rounds actions s) (hrunning : s.running)
    (hoverflowed : s.overflowed = false) (hsame : SameCounters s s') (hended : s'.running = false) :
    Counted loop rounds (actions + 1) s' := by
  have hactions := h.actions
  rw [hoverflowed, hrunning] at hactions
  refine ⟨hsame.overflowRetries ▸ h.retries, h.started, hsame.overflowRetries ▸ h.total, ?_, ?_⟩
  · rw [hended]
    nofun
  · rw [hended, hsame.overflowRetries]
    simp at hactions ⊢
    omega

theorem Counted.rounds_le (h : Counted loop rounds actions s) :
    (rounds : Int) ≤ max 0 (loop.maxIterations + kOverflowCompactionMaxRetries) := by
  have htotal := h.total
  have hretries := h.retries
  by_cases hnone : rounds = 0
  · omega
  · have hstarted := h.started hnone
    omega

theorem Counted.actions_le (h : Counted loop rounds actions s) :
    actions ≤ rounds + kOverflowCompactionMaxRetries + 1 := by
  have hactions := h.actions
  have hretries := h.retries
  split_ifs at hactions <;> omega

theorem LoopState.goesOn_stopped (h : s.goesOn loop = false) (stopped : Bool) :
    ({ s with stopRequested := s.stopRequested || stopped } : LoopState).goesOn loop = false := by
  rw [goesOn, Bool.and_eq_false_iff] at h ⊢
  refine h.imp_right fun hstopped => ?_
  rw [Bool.not_eq_false'] at hstopped ⊢
  exact Bool.or_eq_true_iff.2 (.inl hstopped)

/-! ## The loop of `ProcessMessage` -/

theorem Advances.of_ended (hsame : SameCounters s s') (hended : s'.running = false) : Advances s s' :=
  .inl ⟨hsame.overflowRetries, hsame.overflowed, fun h => absurd (hended ▸ h) Bool.false_ne_true⟩

theorem Advances.of_same {s₁ : LoopState} (h : Advances s₁ s') (hsame : SameCounters s s₁) :
    Advances s s' := by
  rw [Advances, hsame.overflowRetries, hsame.overflowed, hsame.iterations] at h
  exact h

theorem sameCounters_executeWithRetry {maxRetries : Nat} {attempts : List Attempt}
    {result : CallResult}
    (h : executeWithRetry loop maxRetries 0 0 s attempts = some (s', result)) : SameCounters s s' := by
  refine executeWithRetry_rule (motive := SameCounters s) ?_ ?_ ?_ ⟨rfl, rfl, rfl⟩ h
  · exact fun _ _ h => ⟨h.iterations, h.overflowRetries, h.overflowed⟩
  · exact fun _ h => ⟨h.iterations, h.overflowRetries, h.overflowed⟩
  · exact fun _ _ _ _ _ h => ⟨h.iterations, h.overflowRetries, h.overflowed⟩

namespace PlainState

theorem finish_ends (loop : AgentLoop) (s : PlainState) :
    SameCounters s.toLoopState (s.finish loop).toLoopState ∧ (s.finish loop).running = false := by
  rw [finish]
  dsimp only
  split <;> exact ⟨⟨rfl, rfl, rfl⟩, rfl⟩

theorem advances_callTools (loop : AgentLoop) (s : PlainState) (response : ChatCompletionResponse)
    (tools : Nat → ToolAnswer) (stoppedAfter : Bool) :
    Advances s.toLoopState (s.callTools loop response tools stoppedAfter).toLoopState := by
  rw [callTools]
  split
  · exact .of_ended ⟨rfl, rfl, rfl⟩ rfl
  · generalize handleToolCalls s.stopRequested tools 0 response.toolCalls = handled
    obtain ⟨results, executed, stopRequested⟩ := handled
    dsimp only
    split
    · obtain ⟨hsame, hended⟩ := finish_ends loop _
      exact .of_ended ⟨hsame.iterations, hsame.overflowRetries, hsame.overflowed⟩ hended
    · exact .inl ⟨rfl, rfl, fun _ => Nat.lt_succ_self _⟩

theorem advances_answer (loop : AgentLoop) (s : PlainState) (content : String) :
    Advances s.toLoopState (s.answer loop content).toLoopState := by
  rw [answer]
  dsimp only
  split
  · exact .inl ⟨rfl, rfl, fun _ => Nat.lt_succ_self _⟩
  · split
    · exact .inl ⟨rfl, rfl, fun _ => Nat.lt_succ_self _⟩
    · exact .of_ended ⟨rfl, rfl, rfl⟩ rfl

theorem advances_handle (loop : AgentLoop) (s : PlainState) (tools : Nat → ToolAnswer)
    (stoppedAfter : Bool) (result : CallResult) :
    Advances s.toLoopState (s.handle loop tools stoppedAfter result).toLoopState := by
  cases result with
  | response response =>
    rw [handle]
    split
    · exact advances_callTools loop s response tools stoppedAfter
    · split
      · exact advances_answer loop s response.content
      · obtain ⟨hsame, hended⟩ :=
          finish_ends loop { s with stopRequested := s.stopRequested || stoppedAfter }
        exact .of_ended ⟨hsame.iterations, hsame.overflowRetries, hsame.overflowed⟩ hended
  | overflow what =>
    show Advances _ (s.overflow.getD (s.throw what))
    rw [LoopState.overflow]
    split
    · next hbound => exact .inr ⟨hbound, rfl, le_rfl⟩
    · exact .of_ended ⟨rfl, rfl, rfl⟩ rfl
  | threw what => exact .of_ended ⟨rfl, rfl, rfl⟩ rfl

def isRound : PlainAction → Bool
  | .round .. => true
  | _ => false

theorem counted_step {loop : AgentLoop} {rounds actions : Nat} {s s' : PlainState} {a : PlainAction}
    (h : Counted loop rounds actions s.toLoopState) (hstep : step loop s a = some s') :
    Counted loop (rounds + [a].countP isRound) (actions + 1) s'.toLoopState := by
  cases a with
  | round attempts tools stoppedAfter =>
    rw [step, Option.ite_none_right_eq_some, Bool.and_eq_true, Bool.and_eq_true,
      Bool.not_eq_true', Option.map_eq_some_iff] at hstep
    obtain ⟨⟨⟨hrunning, hoverflowed⟩, hgoes⟩, ⟨s₁, result⟩, hsent, rfl⟩ := hstep
    have hreset : SameCounters s.toLoopState s.resetToolChoice.toLoopState := by
      rw [resetToolChoice]
      split <;> exact ⟨rfl, rfl, rfl⟩
    exact h.round hrunning hoverflowed hgoes
      (((advances_handle loop { s with toLoopState := s₁ } tools stoppedAfter result).of_same
        (sameCounters_executeWithRetry hsent)).of_same hreset)
  | recover =>
    rw [step, Option.ite_none_right_eq_some, Bool.and_eq_true] at hstep
    obtain ⟨⟨hrunning, hoverflowed⟩, hs'⟩ := hstep
    cases hs'
    exact h.recover hrunning hoverflowed
  | leave stopped =>
    rw [step] at hstep
    dsimp only at hstep
    rw [Option.ite_none_right_eq_some, Bool.and_eq_true, Bool.and_eq_true, Bool.not_eq_true'] at hstep
    obtain ⟨⟨⟨hrunning, hoverflowed⟩, -⟩, hs'⟩ := hstep
    cases hs'
    obtain ⟨hsame, hended⟩ :=
      finish_ends loop { s with stopRequested := s.stopRequested || stopped }
    exact h.leave hrunning hoverflowed
      ⟨hsame.iterations, hsame.overflowRetries, hsame.overflowed⟩ hended

/-- A turn that is not over goes on: with an iteration, for which `execute_with_retry` has attempts enough,
with the recovery or with the end of the loop. -/
theorem goes_on (loop : AgentLoop) {s : PlainState} (hrunning : s.running) {attempts : List Attempt}
    (hattempts : kMaxFailoverAttempts * (kDefaultMaxRetries + 1) ≤ attempts.length)
    (tools : Nat → ToolAnswer) (stoppedAfter stopped : Bool) :
    (step loop s (.round attempts tools stoppedAfter)).isSome ∨ (step loop s .recover).isSome ∨
      (step loop s (.leave stopped)).isSome := by
  cases hoverflowed : s.overflowed with
  | true => exact .inr (.inl (by rw [step, hrunning, hoverflowed]; rfl))
  | false =>
    cases hgoes : s.goesOn loop with
    | true =>
      refine .inl ?_
      rw [step, hrunning, hoverflowed, hgoes, if_pos (by rfl), Option.isSome_map]
      refine (executeWithRetry_bounds loop kDefaultMaxRetries attempts 0 0 _).1 ?_
      rwa [callsLeft_zero]
    | false =>
      refine .inr (.inr ?_)
      rw [step]
      dsimp only
      rw [if_pos]
      · rfl
      · rw [Bool.and_eq_true, Bool.and_eq_true, Bool.not_eq_true', Bool.not_eq_true']
        exact ⟨⟨hrunning, hoverflowed⟩, LoopState.goesOn_stopped hgoes stopped⟩

end PlainState

/-! ## The loop of `ProcessMessageStream` -/

namespace StreamState

/-- A stream leaves the counters of overflows alone, and `iterations` does not go down. -/
structure Streamed (s s' : LoopState) : Prop where
  iterations : s.iterations ≤ s'.iterations
  overflowRetries : s'.overflowRetries = s.overflowRetries
  overflowed : s'.overflowed = s.overflowed

theorem sameCounters_foldl_callTool (tools : Nat → ToolAnswer) (toolCalls : List ToolCall)
    (st : Streaming) :
    SameCounters st.toLoopState (toolCalls.foldl (Streaming.callTool tools) st).toLoopState := by
  induction toolCalls generalizing st with
  | nil => exact ⟨rfl, rfl, rfl⟩
  | cons tc toolCalls ih =>
    have hrest := ih (st.callTool tools tc)
    exact ⟨hrest.iterations, hrest.overflowRetries, hrest.overflowed⟩

theorem streamed_receive (tools : Nat → ToolAnswer) (st : Streaming) (chunk : ChatCompletionResponse) :
    Streamed st.toLoopState (st.receive tools chunk).toLoopState := by
  have htext : (st.receiveText chunk.content).toLoopState = st.toLoopState := by
    rw [Streaming.receiveText]
    split <;> rfl
  rw [Streaming.receive, ← htext]
  split
  · have hcalls := sameCounters_foldl_callTool tools chunk.toolCalls
      { st.receiveText chunk.content with executedNow := [] }
    exact ⟨hcalls.iterations.symm.le.trans (Nat.le_succ _), hcalls.overflowRetries, hcalls.overflowed⟩
  · split <;> exact ⟨le_rfl, rfl, rfl⟩

theorem streamed_foldl_receive (tools : Nat → ToolAnswer) (chunks : List ChatCompletionResponse)
    (st : Streaming) :
    Streamed st.toLoopState (chunks.foldl (Streaming.receive tools) st).toLoopState := by
  induction chunks generalizing st with
  | nil => exact ⟨le_rfl, rfl, rfl⟩
  | cons chunk chunks ih =>
    have hchunk := streamed_receive tools st chunk
    have hrest := ih (st.receive tools chunk)
    exact ⟨hchunk.iterations.trans hrest.iterations,
      hrest.overflowRetries.trans hchunk.overflowRetries, hrest.overflowed.trans hchunk.overflowed⟩

theorem advances_failover (loop : AgentLoop) (s : StreamState) (what : String) (stoppedAfter : Bool)
    (resolution : Resolution) :
    Advances s.toLoopState (s.failover loop what stoppedAfter resolution).toLoopState := by
  rw [failover]
  split
  · dsimp only
    split
    · exact .of_ended ⟨rfl, rfl, rfl⟩ rfl
    · split
      · split
        · exact .inl ⟨rfl, rfl, fun _ => Nat.lt_succ_self _⟩
        · exact .of_ended ⟨rfl, rfl, rfl⟩ rfl
      · exact .of_ended ⟨rfl, rfl, rfl⟩ rfl
  · exact .of_ended ⟨rfl, rfl, rfl⟩ rfl

theorem advances_handle (loop : AgentLoop) (st : Streaming) (stoppedAfter : Bool)
    (resolution : Resolution) (ending : StreamEnding) :
    Advances st.toLoopState (handle loop st stoppedAfter resolution ending).toLoopState := by
  cases ending with
  | done =>
    rw [handle, complete]
    split
    · exact .of_ended ⟨rfl, rfl, rfl⟩ rfl
    · exact .inl ⟨rfl, rfl, fun _ => Nat.lt_succ_self _⟩
  | error error =>
    rw [handle]
    split
    · rw [LoopState.overflow]
      by_cases hbound : st.overflowRetries < kOverflowCompactionMaxRetries
      · rw [if_pos hbound]
        exact .inr ⟨hbound, rfl, le_rfl⟩
      · rw [if_neg hbound]
        exact .of_ended ⟨rfl, rfl, rfl⟩ rfl
    · exact advances_failover loop st.toStreamState error.what stoppedAfter resolution
  | raised what => exact .of_ended ⟨rfl, rfl, rfl⟩ rfl

theorem Streamed.advances {s s₁ s' : LoopState} (h : Streamed s s₁) (hadvances : Advances s₁ s') :
    Advances s s' := by
  rcases hadvances with ⟨hsame, hsame', hmore⟩ | ⟨hbound, hnext, hle⟩
  · exact .inl ⟨hsame.trans h.overflowRetries, hsame'.trans h.overflowed,
      fun hrunning => h.iterations.trans_lt (hmore hrunning)⟩
  · rw [h.overflowRetries] at hbound hnext
    exact .inr ⟨hbound, hnext, h.iterations.trans hle⟩

def isRound : StreamAction → Bool
  | .round .. => true
  | _ => false

theorem counted_step {loop : AgentLoop} {rounds actions : Nat} {s s' : StreamState} {a : StreamAction}
    (h : Counted loop rounds actions s.toLoopState) (hstep : step loop s a = some s') :
    Counted loop (rounds + [a].countP isRound) (actions + 1) s'.toLoopState := by
  cases a with
  | round chunks tools ending stoppedAfter resolution =>
    rw [step, Option.ite_none_right_eq_some, Bool.and_eq_true, Bool.and_eq_true,
      Bool.not_eq_true'] at hstep
    obtain ⟨⟨⟨hrunning, hoverflowed⟩, hgoes⟩, hs'⟩ := hstep
    cases hs'
    have hstreamed := streamed_foldl_receive tools chunks { s with toLoopState := s.send loop }
    have hsent : Streamed s.toLoopState (s.send loop) := ⟨le_rfl, rfl, rfl⟩
    exact h.round hrunning hoverflowed hgoes
      (hsent.advances (hstreamed.advances (advances_handle loop _ stoppedAfter resolution ending)))
  | recover =>
    rw [step, Option.ite_none_right_eq_some, Bool.and_eq_true] at hstep
    obtain ⟨⟨hrunning, hoverflowed⟩, hs'⟩ := hstep
    cases hs'
    exact h.recover hrunning hoverflowed
  | leave stopped =>
    rw [step] at hstep
    dsimp only at hstep
    rw [Option.ite_none_right_eq_some, Bool.and_eq_true, Bool.and_eq_true, Bool.not_eq_true'] at hstep
    obtain ⟨⟨⟨hrunning, hoverflowed⟩, -⟩, hs'⟩ := hstep
    cases hs'
    exact h.leave hrunning hoverflowed ⟨rfl, rfl, rfl⟩ rfl

theorem goes_on (loop : AgentLoop) {s : StreamState} (hrunning : s.running)
    (chunks : List ChatCompletionResponse) (tools : Nat → ToolAnswer) (ending : StreamEnding)
    (stoppedAfter : Bool) (resolution : Resolution) (stopped : Bool) :
    (step loop s (.round chunks tools ending stoppedAfter resolution)).isSome ∨
      (step loop s .recover).isSome ∨ (step loop s (.leave stopped)).isSome := by
  cases hoverflowed : s.overflowed with
  | true => exact .inr (.inl (by rw [step, hrunning, hoverflowed]; rfl))
  | false =>
    cases hgoes : s.goesOn loop with
    | true => exact .inl (by rw [step, hrunning, hoverflowed, hgoes]; rfl)
    | false =>
      refine .inr (.inr ?_)
      rw [step]
      dsimp only
      rw [if_pos]
      · rfl
      · rw [Bool.and_eq_true, Bool.and_eq_true, Bool.not_eq_true', Bool.not_eq_true']
        exact ⟨⟨hrunning, hoverflowed⟩, LoopState.goesOn_stopped hgoes stopped⟩

end StreamState

/-! ## The turn -/

/-- A turn that begins with a context ends: there is a bound on the rounds that it starts, and one on all
that it does, and as long as it has not ended it goes on, whatever comes from outside. -/
structure TurnEnds {σ α : Type} (step : σ → α → Option σ) (loopState : σ → LoopState)
    (isRound : α → Bool) (rounds : Int) (GoesOn : σ → Prop) (start : σ) : Prop where
  rounds_le : ∀ actions s, exec step start actions = some s → (actions.countP isRound : Int) ≤ rounds
  actions_le : ∀ actions s, exec step start actions = some s →
    actions.length ≤ actions.countP isRound + kOverflowCompactionMaxRetries + 1
  goesOn : ∀ actions s, exec step start actions = some s → (loopState s).running → GoesOn s

theorem turnEnds_of_counted {σ α : Type} {step : σ → α → Option σ} {loopState : σ → LoopState}
    {isRound : α → Bool} {GoesOn : σ → Prop} {start : σ}
    (hstep : ∀ {rounds actions s a s'}, Counted loop rounds actions (loopState s) →
      step s a = some s' →
        Counted loop (rounds + [a].countP isRound) (actions + 1) (loopState s'))
    (hgoes : ∀ s, (loopState s).running → GoesOn s) (hstart : Counted loop 0 0 (loopState start)) :
    TurnEnds step loopState isRound (max 0 (loop.maxIterations + kOverflowCompactionMaxRetries)) GoesOn
      start := by
  have hrun (as : List α) {rounds actions : Nat} {s s' : σ}
      (h : Counted loop rounds actions (loopState s)) (hrun : exec step s as = some s') :
      Counted loop (rounds + as.countP isRound) (actions + as.length) (loopState s') := by
    induction as generalizing s rounds actions with
    | nil =>
      cases hrun
      exact h
    | cons a as ih =>
      obtain ⟨s₁, hs₁, hrun⟩ := exec_cons.1 hrun
      have hrest := ih (hstep h hs₁) hrun
      rwa [Nat.add_assoc, ← List.countP_append, List.singleton_append, Nat.add_assoc,
        Nat.add_comm 1, ← List.length_cons] at hrest
  refine ⟨fun as s hs => ?_, fun as s hs => ?_, fun as s _ hrunning => hgoes s hrunning⟩
  · have hcounted := (hrun as hstart hs).rounds_le
    rwa [Nat.zero_add] at hcounted
  · have hcounted := (hrun as hstart hs).actions_le
    rwa [Nat.zero_add, Nat.zero_add] at hcounted

/-- **A turn ends.**  Whatever the providers reply and `resolve_provider` answers: `execute_with_retry`
returns or throws after at most `20 * (max_retries + 1)` calls of a provider, and each loop ends after at
most `max_iterations + kOverflowCompactionMaxRetries` rounds. -/
theorem turn_ends (loop : AgentLoop) (provider : Provider) (providerId : String)
    (context : List Message) :
    (∀ (maxRetries : Nat) (s : LoopState) (attempts : List Attempt),
      (kMaxFailoverAttempts * (maxRetries + 1) ≤ attempts.length →
          (executeWithRetry loop maxRetries 0 0 s attempts).isSome) ∧
        ∀ s' result, executeWithRetry loop maxRetries 0 0 s attempts = some (s', result) →
          s'.sent.length ≤ s.sent.length + kMaxFailoverAttempts * (maxRetries + 1)) ∧
      TurnEnds (PlainState.step loop) PlainState.toLoopState PlainState.isRound
        (max 0 (loop.maxIterations + kOverflowCompactionMaxRetries))
        (fun s => ∀ attempts tools stoppedAfter stopped,
          kMaxFailoverAttempts * (kDefaultMaxRetries + 1) ≤ attempts.length →
            (s.step loop (.round attempts tools stoppedAfter)).isSome ∨ (s.step loop .recover).isSome ∨
              (s.step loop (.leave stopped)).isSome)
        (.start loop provider context) ∧
      TurnEnds (StreamState.step loop) StreamState.toLoopState StreamState.isRound
        (max 0 (loop.maxIterations + kOverflowCompactionMaxRetries))
        (fun s => ∀ chunks tools ending stoppedAfter resolution stopped,
          (s.step loop (.round chunks tools ending stoppedAfter resolution)).isSome ∨
            (s.step loop .recover).isSome ∨ (s.step loop (.leave stopped)).isSome)
        (.start loop provider providerId context) := by
  refine ⟨fun maxRetries s attempts => ?_, ?_, ?_⟩
  · have hbounds := executeWithRetry_bounds loop maxRetries attempts 0 0 s
    rwa [callsLeft_zero] at hbounds
  · exact turnEnds_of_counted (fun h hstep => PlainState.counted_step h hstep)
      (fun s hrunning attempts tools stoppedAfter stopped hattempts =>
        PlainState.goes_on loop hrunning hattempts tools stoppedAfter stopped)
      (Counted.start loop rfl rfl)
  · exact turnEnds_of_counted (fun h hstep => StreamState.counted_step h hstep)
      (fun s hrunning => StreamState.goes_on loop hrunning) (Counted.start loop rfl rfl)

end RavBot.Core
