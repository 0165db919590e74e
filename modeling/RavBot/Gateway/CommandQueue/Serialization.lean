import RavBot.Gateway.CommandQueue.System

/-!
# Per-session serialization

A lane lets the dispatcher activate a command only while its active slot is empty, so as
long as the slot tells the truth a session has at most one worker.  `InterruptActive` makes
it lie: it empties the slot of a lane whose worker goes on running.  The next pass then
activates a second command of the session, and the completion of the first worker empties
the slot under the second one.

`serialized` shows that this is the only way to lose serialization: in every run in which
nothing interrupts a lane with an active command, a session has a worker exactly when its
slot is full, and then it has one.
-/

open List

namespace RavBot.Gateway.System

open RavBot.Lib

/-- The step runs `InterruptActive` on a lane with an active command: a `Submit` whose
effective mode is `interrupt`, or an `AbortSession`, of a session with an active command. -/
def InterruptsActive (sys : System) : Action → Prop
  | .submit _ _ s =>
    (sys.queue.getLane s.sessionKey).effectiveMode s.mode = .interrupt ∧
      (sys.queue.activeOf s.sessionKey).isSome
  | .abortSession sessionKey => (sys.queue.activeOf sessionKey).isSome
  | _ => False

/-- Whether a step interrupts an active command can be computed. -/
instance : ∀ sys a, Decidable (InterruptsActive sys a)
  | sys, .submit _ _ s =>
    inferInstanceAs (Decidable
      ((sys.queue.getLane s.sessionKey).effectiveMode s.mode = .interrupt ∧
        (sys.queue.activeOf s.sessionKey).isSome))
  | sys, .abortSession sessionKey =>
    inferInstanceAs (Decidable ((sys.queue.activeOf sessionKey).isSome = true))
  | _, .cancel _ | _, .configureSession .. | _, .setConfig _ | _, .dispatch .. | _, .start _
  | _, .respond .. | _, .complete _ => .isFalse id

/-! ## The slot counts the workers -/

def workersOf (workers : List Worker) (key : String) : Nat :=
  workers.countP (·.command.sessionKey = key)

/-- The slot of every session is full exactly when it has a worker, it never has two, and
the requests that wait in a lane are those of its session. -/
structure Serial (q : CommandQueue) (workers : List Worker) : Prop where
  slot : ∀ key, workersOf workers key = if (q.activeOf key).isSome then 1 else 0
  home : ∀ key, ∀ r ∈ q.pendingOf key, r.sessionKey = key

variable {q : CommandQueue} {workers : List Worker}

variable {q' : CommandQueue}

theorem Serial.congr (h : Serial q workers)
    (hp : ∀ key, q'.pendingOf key = q.pendingOf key)
    (ha : ∀ key, q'.activeOf key = q.activeOf key) : Serial q' workers where
  slot key := by rw [ha, h.slot]
  home key r hr := h.home key r (hp key ▸ hr)

theorem Serial.sublist (h : Serial q workers)
    (hp : ∀ key, q'.pendingOf key ⊆ q.pendingOf key)
    (ha : ∀ key, q'.activeOf key = q.activeOf key) : Serial q' workers where
  slot key := by rw [ha, h.slot]
  home key r hr := h.home key r (hp key hr)

variable {command : QueuedCommand}

theorem Serial.restage {l₁ l₂ : List Worker}
    {phase phase' : WorkerPhase} (h : Serial q (l₁ ++ ⟨command, phase⟩ :: l₂)) :
    Serial q (l₁ ++ ⟨command, phase'⟩ :: l₂) where
  slot key := by
    rw [← h.slot key]
    simp [workersOf, countP_append, countP_cons]
  home := h.home

theorem Serial.submit (h : Serial q workers)
    (cmdId : String) (now : Int) (s : Submission)
    (hno : ¬ ((q.getLane s.sessionKey).effectiveMode s.mode = .interrupt ∧
      (q.activeOf s.sessionKey).isSome)) :
    Serial (q.submit cmdId now s).1 workers := by
  obtain ⟨lost, hperm, -, hother, hactive, -⟩ := q.submit_spec cmdId now s
  constructor
  · intro key
    rw [h.slot, hactive]
    by_cases hk : key = s.sessionKey ∧
        (q.getLane s.sessionKey).effectiveMode s.mode = .interrupt
    · obtain ⟨rfl, hmode⟩ := hk
      have : (q.activeOf s.sessionKey).isSome = false := by
        simpa [hmode] using hno
      simp [this, hmode]
    · rw [if_neg hk]
  · intro key r hr
    by_cases hk : key = s.sessionKey
    · subst hk
      have hmem := hperm.symm.subset (mem_append_left _ (mem_append_left _ hr))
      rcases mem_append.1 hmem with hold | hnew
      · exact h.home _ r hold
      · obtain rfl := mem_singleton.1 hnew
        rfl
    · exact h.home key r (hother key hk ▸ hr)

theorem Serial.cancel (h : Serial q workers)
    (commandId : String) : Serial (q.cancel commandId).1 workers := by
  rcases q.cancel_spec commandId with
    ⟨-, heq⟩ | ⟨key, -, -, hother, hactive, -, -, hlane⟩
  · rw [heq]
    exact h
  · refine h.sublist (fun k => ?_) hactive
    by_cases hk : k = key
    · subst hk
      rcases hlane with ⟨front, r, rest, hbefore, -, hafter, -⟩ | ⟨-, hsame, -⟩
      · rw [hbefore, hafter]
        exact append_subset.2 ⟨subset_append_left .., fun x hx =>
          mem_append_right _ (mem_cons_of_mem _ hx)⟩
      · rw [hsame]
        exact fun _ hx => hx
    · rw [hother k hk]
      exact fun _ hx => hx

theorem Serial.abortSession (h : Serial q workers)
    (sessionKey : String) (hno : ¬ (q.activeOf sessionKey).isSome) :
    Serial (q.abortSession sessionKey).1 workers := by
  obtain ⟨hbefore, hother, hactive, -⟩ := q.abortSession_spec sessionKey
  refine h.sublist (fun k => ?_) (fun k => ?_)
  · by_cases hk : k = sessionKey
    · subst hk
      rw [hbefore]
      exact subset_append_right ..
    · rw [hother k hk]
      exact fun _ hx => hx
  · rw [hactive]
    by_cases hk : k = sessionKey
    · subst hk
      rw [if_pos rfl, Option.not_isSome_iff_eq_none.1 hno]
    · rw [if_neg hk]

theorem Serial.activate {key : String} {lane : SessionLane}
    {front : QueuedCommand} {rest : List QueuedCommand}
    (hact : Activation q key lane front rest q' command) (h : Serial q workers) :
    Serial q' (workers ++ [⟨command, .dispatched⟩]) := by
  have hhome : command.sessionKey = key := by
    have := h.home key front.request (by rw [hact.pendingOf_before]; exact mem_cons_self ..)
    rw [← this, ← hact.request_eq]
    rfl
  constructor
  · intro k
    have hslot := h.slot k
    simp only [workersOf, countP_append, countP_singleton] at hslot ⊢
    rw [hslot, hact.activeOf_after, hhome]
    by_cases hk : k = key
    · subst hk
      simp [hact.activeOf_before]
    · simp [hk, Ne.symm hk]
  · intro k r hr
    rw [hact.pendingOf_after] at hr
    by_cases hk : k = key
    · subst hk
      rw [if_pos rfl] at hr
      refine h.home _ r ?_
      rw [hact.pendingOf_before]
      obtain ⟨c, hc, rfl⟩ := mem_map.1 hr
      refine mem_cons_of_mem _ (mem_map_of_mem ?_)
      exact (SessionLane.batched_perm front.mode rest).subset (mem_append_left _ hc)
    · rw [if_neg hk] at hr
      exact h.home k r hr

/-- The last critical section of a worker empties the slot that its session's only worker
had filled. -/
theorem Serial.finish {l₁ l₂ : List Worker}
    {phase : WorkerPhase} (h : Serial q (l₁ ++ ⟨command, phase⟩ :: l₂)) :
    Serial (q.finish command) (l₁ ++ l₂) := by
  constructor
  · intro k
    have hslot := h.slot k
    simp only [workersOf, countP_append, countP_cons] at hslot ⊢
    rw [(q.finish_spec command k).2]
    by_cases hk : k = command.sessionKey
    · subst hk
      simp only [decide_true, if_true] at hslot
      have : (if (q.activeOf command.sessionKey).isSome then 1 else 0) ≤ 1 := by split <;> omega
      simp only [if_true, Option.isSome_none, Bool.false_eq_true, if_false]
      omega
    · simp only [if_neg hk, Ne.symm hk, decide_false, Bool.false_eq_true, if_false] at hslot ⊢
      omega
  · intro k r hr
    exact h.home k r ((q.finish_spec command k).1 ▸ hr)

/-! ## Serialization along runs -/

theorem serial_step (sys : System) (a : Action) (sys' : System)
    (h : Serial sys.queue sys.workers) (hno : ¬ InterruptsActive sys a)
    (hstep : sys.step a = some sys') : Serial sys'.queue sys'.workers := by
  cases a with
  | submit cmdId now s =>
    obtain ⟨-, rfl⟩ := step_submit hstep
    exact h.submit cmdId now s hno
  | cancel commandId =>
    cases hstep
    exact h.cancel commandId
  | abortSession sessionKey =>
    cases hstep
    exact h.abortSession sessionKey hno
  | configureSession sessionKey mode debounceMs cap drop =>
    cases hstep
    exact h.congr
      (fun k => (sys.queue.configureSession_spec sessionKey mode debounceMs cap drop k).1)
      (fun k => (sys.queue.configureSession_spec sessionKey mode debounceMs cap drop k).2)
  | setConfig config =>
    cases hstep
    exact h.congr (fun _ => rfl) (fun _ => rfl)
  | dispatch now order =>
    obtain ⟨-, q, out, hkeys, rfl⟩ := step_dispatch hstep
    have hpass : Serial q (sys.workers ++ out.map (⟨·, .dispatched⟩)) := by
      refine CommandQueue.dispatchKeys_induction (P := fun _ _ => True)
        (motive := fun q out => Serial q (sys.workers ++ out.map (⟨·, .dispatched⟩)))
        (fun hact _ hserial => ?_) (CommandQueue.eachActivation_true ..) hkeys (by simpa using h)
      rw [map_append, ← append_assoc]
      exact hserial.activate hact
    exact hpass.congr (fun k => q.pendingOf_cleanUpIdle k) (fun k => q.activeOf_cleanUpIdle k)
  | start i =>
    obtain ⟨l₁, command, l₂, hw, rfl⟩ := step_start hstep
    rw [hw] at h
    exact h.restage
  | respond i outcome =>
    obtain ⟨l₁, command, l₂, hw, rfl⟩ := step_respond hstep
    rw [hw] at h
    exact h.restage
  | complete i =>
    obtain ⟨l₁, command, l₂, hw, rfl⟩ := step_complete hstep
    rw [hw] at h
    exact h.finish

theorem serial_init (config : QueueConfig) : Serial (init config).queue (init config).workers where
  slot _ := rfl
  home _ _ hr := by cases hr

/-- **Per-session serialization.**  In every run in which no step interrupts a lane with an
active command, no session ever has more than one worker in flight. -/
theorem serialized {config : QueueConfig} {as : List Action} {sys : System}
    (hok : Along step (fun sys a => ¬ InterruptsActive sys a) (init config) as)
    (hrun : Reaches config as sys) (key : String) : sys.inFlight key ≤ 1 := by
  have hserial : Serial sys.queue sys.workers :=
    exec_invariant (motive := fun sys => Serial sys.queue sys.workers) serial_step
      (serial_init config) hok hrun
  have hslot : sys.inFlight key = _ := hserial.slot key
  rw [hslot]
  split <;> omega

/-- A run in which two sessions work side by side and one of them is interrupted while
idle. -/
theorem serialized_two_sessions :
    ∃ sys, Reaches {}
      [.submit "a" 0 { sessionKey := "s", message := "one" },
        .submit "b" 0 { sessionKey := "t", message := "two", mode := .interrupt },
        .dispatch 2000000000 ["t", "s"], .start 0,
        .submit "c" 2000000000 { sessionKey := "s", message := "three" },
        .respond 0 (.returned .null), .complete 0, .dispatch 4000000000 ["s", "t"]] sys ∧
      sys.inFlight "s" ≤ 1 := by
  refine ⟨_, (Option.some_get (by decide)).symm, ?_⟩
  exact serialized (by decide) (Option.some_get _).symm "s"

/-- An interrupt of a running command costs serialization: the next pass dispatches the
interrupting command while the interrupted one is still executed. -/
theorem not_serialized : ¬ ∀ config as sys, Reaches config as sys → ∀ key,
    sys.inFlight key ≤ 1 := by
  intro h
  have := h {}
    [.submit "a" 0 { sessionKey := "s", message := "one" }, .dispatch 2000000000 ["s"],
      .submit "b" 2000000000 { sessionKey := "s", message := "two", mode := .interrupt },
      .dispatch 4000000000 ["s"]] _ (Option.some_get (by decide)).symm "s"
  revert this
  decide

end RavBot.Gateway.System
