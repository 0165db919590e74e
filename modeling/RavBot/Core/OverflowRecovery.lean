import RavBot.Core.AgentStream

/-!
# Recovery from an overflow

When a request was too long, both loops keep the second half of its messages, but at least two, and put the
system prompt and a notice before them.  So of a short request more may be kept than it has, which is
undefined, or as much is put before it as is removed.  Recovery makes progress exactly for the requests of
all other lengths (`recovered_iff`).
-/

namespace RavBot.Core

open RavBot.Lib

variable {loop : AgentLoop}

def recoveryHead (loop : AgentLoop) : List Message :=
  promptMessages loop.systemPrompt ++ [.ofText "system" overflowNotice]

/-- The messages that are kept lie in the request, recovery is defined, and it leaves fewer messages where
there were more than those that it puts before the others, and the last one. -/
structure Recovered (loop : AgentLoop) (s s' : LoopState) : Prop where
  inRange : overflowKeep s.request.messages ≤ s.request.messages.length
  running : s'.running
  fewer : (recoveryHead loop).length + 1 < s.request.messages.length →
    s'.request.messages.length < s.request.messages.length

/-- There are two messages or more, and not just two more than recovery puts before them. -/
def Recoverable (loop : AgentLoop) (messages : List Message) : Prop :=
  2 ≤ messages.length ∧ messages.length ≠ (recoveryHead loop).length + 2

instance (loop : AgentLoop) (messages : List Message) : Decidable (Recoverable loop messages) :=
  inferInstanceAs (Decidable (_ ∧ _))

theorem length_recoveryHead (loop : AgentLoop) :
    (recoveryHead loop).length = if loop.systemPrompt = "" then 1 else 2 := by
  rw [recoveryHead, promptMessages]
  split_ifs <;> rfl

theorem overflowKeep_le_iff (messages : List Message) :
    overflowKeep messages ≤ messages.length ↔ 2 ≤ messages.length := by
  rw [overflowKeep]
  omega

variable {s : LoopState}

theorem LoopState.recover_of_two_le (h : 2 ≤ s.request.messages.length) :
    s.recover loop =
      { s with
        request :=
          { s.request with
            messages := recoveryHead loop ++
              s.request.messages.drop (s.request.messages.length - overflowKeep s.request.messages) }
        overflowed := false } := by
  have hkeep : (0 : Int) ≤ overflowKeep s.request.messages ∧
      (overflowKeep s.request.messages : Int) ≤ s.request.messages.length :=
    ⟨Int.natCast_nonneg _, Int.ofNat_le.2 ((overflowKeep_le_iff _).2 h)⟩
  rw [recover, recoverFromOverflow, lastMessages, if_pos hkeep, recoveryHead, List.append_assoc]
  rfl

theorem LoopState.length_recover (h : 2 ≤ s.request.messages.length) :
    (s.recover loop).request.messages.length =
      (recoveryHead loop).length + overflowKeep s.request.messages := by
  have hkeep := (overflowKeep_le_iff s.request.messages).2 h
  rw [recover_of_two_le h]
  dsimp only
  rw [List.length_append, List.length_drop, Nat.sub_sub_self hkeep]

theorem LoopState.length_recover_eq
    (h : s.request.messages.length = (recoveryHead loop).length + 2) :
    (s.recover loop).request.messages.length = s.request.messages.length := by
  have hhead := length_recoveryHead loop
  rw [length_recover (by omega), overflowKeep, h]
  split_ifs at hhead <;> omega

theorem LoopState.recovered_recover_iff (hrunning : s.running) :
    Recovered loop s (s.recover loop) ↔ Recoverable loop s.request.messages := by
  by_cases htwo : 2 ≤ s.request.messages.length
  · have hhead := length_recoveryHead loop
    have hlength : (s.recover loop).request.messages.length =
        (recoveryHead loop).length + overflowKeep s.request.messages := length_recover htwo
    constructor
    · rintro ⟨-, -, hfewer⟩
      refine ⟨htwo, fun heq => ?_⟩
      have hless := hfewer (by omega)
      rw [length_recover_eq heq] at hless
      exact lt_irrefl _ hless
    · rintro ⟨-, hne⟩
      refine ⟨(overflowKeep_le_iff _).2 htwo, ?_, fun hmore => ?_⟩
      · rw [recover_of_two_le htwo]
        exact hrunning
      · rw [hlength, overflowKeep]
        split_ifs at hhead <;> omega
  · refine iff_of_false (fun h => ?_) fun h => htwo h.1
    exact htwo ((overflowKeep_le_iff _).1 h.inRange)

/-- **Recovery makes progress** in both loops, exactly for the requests with two messages or more, but not
just two more than recovery puts before them. -/
theorem recovered_iff (loop : AgentLoop) :
    (∀ s : PlainState, s.running → s.overflowed →
      ((∃ s', s.step loop .recover = some s' ∧ Recovered loop s.toLoopState s'.toLoopState) ↔
        Recoverable loop s.request.messages)) ∧
    ∀ s : StreamState, s.running → s.overflowed →
      ((∃ s', s.step loop .recover = some s' ∧ Recovered loop s.toLoopState s'.toLoopState) ↔
        Recoverable loop s.request.messages) := by
  constructor
  · intro s hrunning hoverflowed
    have hstep : s.step loop .recover = some { s with toLoopState := s.recover loop } := by
      rw [PlainState.step, hrunning, hoverflowed]
      rfl
    rw [← LoopState.recovered_recover_iff hrunning, hstep]
    constructor
    · rintro ⟨s', hs', hrecovered⟩
      cases hs'
      exact hrecovered
    · exact fun hrecovered => ⟨_, rfl, hrecovered⟩
  · intro s hrunning hoverflowed
    have hstep : s.step loop .recover = some { s with toLoopState := s.recover loop } := by
      rw [StreamState.step, hrunning, hoverflowed]
      rfl
    rw [← LoopState.recovered_recover_iff hrunning, hstep]
    constructor
    · rintro ⟨s', hs', hrecovered⟩
      cases hs'
      exact hrecovered
    · exact fun hrecovered => ⟨_, rfl, hrecovered⟩

def bareLoop : AgentLoop where
  message := "hi"
  maxIterations := 5

def tooLong (messages : Nat) : PlainState where
  request := ⟨List.replicate messages (.ofText "user" "hi"), "m", "auto"⟩
  provider := ⟨0, "openai"⟩
  overflowed := true

/-- Of six messages three are left, and the notice. -/
theorem recovered_six : ∃ s', (tooLong 6).step bareLoop .recover = some s' ∧
    Recovered bareLoop (tooLong 6).toLoopState s'.toLoopState :=
  ((recovered_iff bareLoop).1 (tooLong 6) rfl rfl).2 (by decide)

/-- The first message of a conversation that is too long by itself: two messages of one are kept. -/
theorem not_recovered : ¬ ∀ (loop : AgentLoop) (context : List Message) (actions : List PlainAction)
    (s : PlainState),
    exec (PlainState.step loop) (.start loop ⟨0, "openai"⟩ context) actions = some s →
      s.running → s.overflowed → s.request.messages ≠ [] →
        ∃ s', s.step loop .recover = some s' ∧ Recovered loop s.toLoopState s'.toLoopState := by
  intro h
  obtain ⟨s', -, hrange, -, -⟩ := h bareLoop [.ofText "user" "hi"]
    [.round [⟨false, .error ⟨.contextOverflow, "too long"⟩, false, ⟨none, "", ""⟩⟩]
      (fun _ => ⟨false, .ok ""⟩) false] _ rfl rfl rfl (by decide)
  exact absurd hrange (by decide)

end RavBot.Core
