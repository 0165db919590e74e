import RavBot.Gateway.CommandQueue.System

/-!
# The cap of a lane

`ApplyCapOverflow` brings the queue of a lane down to its cap, but `Submit` does not call it for
a command that steers a running one: such a command is added to the queue and the call returns.
`submit_length_le_iff` says that a lane within its cap stays within it exactly when the
submission is not of that kind or leaves room, and `lane_cap` that in every run without such
submissions to a full lane no queue exceeds its cap.
-/

namespace RavBot.Gateway

open RavBot.Lib

namespace SessionLane

variable {lane : SessionLane}

theorem overflowTurn_length (hlen : 1 < lane.pending.length) :
    lane.overflowTurn.1.cap = lane.cap ∧
      lane.overflowTurn.1.pending.length + 1 = lane.pending.length := by
  obtain ⟨key, mode, debounceMs, cap, drop, pending, activeCommand⟩ := lane
  match pending, hlen with
  | oldest :: second :: rest, hlen =>
    cases drop with
    | summarize => exact ⟨rfl, by simp only [overflowTurn, List.length_cons]⟩
    | dropOldest => exact ⟨rfl, by simp only [overflowTurn, List.length_cons]⟩
    | reject =>
      obtain ⟨back, hback⟩ : ∃ back, (oldest :: second :: rest).getLast? = some back :=
        ⟨_, List.getLast?_eq_some_getLast (List.cons_ne_nil _ _)⟩
      simp only [overflowTurn, hback]
      simp

theorem overflowLoop_length {fuel : Nat} (hcap : 1 ≤ lane.cap)
    (hlen : lane.pending.length ≤ lane.cap + fuel) :
    (lane.overflowLoop fuel).1.cap = lane.cap ∧
      (lane.overflowLoop fuel).1.pending.length ≤ lane.cap := by
  induction fuel generalizing lane with
  | zero =>
    rw [overflowLoop]
    exact ⟨rfl, by simpa using hlen⟩
  | succ fuel ih =>
    by_cases hfits : lane.pending.length ≤ lane.cap
    · rw [overflowLoop, if_pos hfits]
      exact ⟨rfl, hfits⟩
    · have hlong : 1 < lane.pending.length := by omega
      obtain ⟨hturn, hshort⟩ := overflowTurn_length hlong
      have hcapTurn : 1 ≤ lane.overflowTurn.1.cap := by omega
      obtain ⟨hcap', hlen'⟩ := ih hcapTurn (by omega)
      have hloop : (lane.overflowLoop (fuel + 1)).1 =
          (lane.overflowTurn.1.overflowLoop fuel).1 := by
        rw [overflowLoop, if_neg hfits]
        dsimp only
        rw [if_neg (by omega)]
      rw [hloop]
      exact ⟨hcap'.trans hturn, hturn ▸ hlen'⟩

theorem applyCapOverflow_length (hcap : 1 ≤ lane.cap) :
    lane.applyCapOverflow.1.cap = lane.cap ∧
      lane.applyCapOverflow.1.pending.length ≤ lane.cap :=
  overflowLoop_length hcap (by omega)

/-- A command that steers a running one comes to a lane that is full. -/
def Overfills (lane : SessionLane) (mode : QueueMode) : Prop :=
  ((mode = .steer ∨ mode = .steerBacklog) ∧ lane.hasActive) ∧ lane.cap ≤ lane.pending.length

/-- Whether a command overfills a lane can be computed. -/
instance (lane : SessionLane) (mode : QueueMode) : Decidable (lane.Overfills mode) :=
  inferInstanceAs (Decidable (((mode = .steer ∨ mode = .steerBacklog) ∧ lane.hasActive) ∧
    lane.cap ≤ lane.pending.length))

theorem submit_length_le_iff (cmd : QueuedCommand) (hcap : 1 ≤ lane.cap)
    (hlen : lane.pending.length ≤ lane.cap) :
    (lane.submit cmd).1.cap = lane.cap ∧
      ((lane.submit cmd).1.pending.length ≤ lane.cap ↔ ¬ lane.Overfills cmd.mode) := by
  rw [submit, Overfills]
  by_cases hint : cmd.mode = .interrupt ∧ lane.hasActive
  · have hmode := hint.1
    have hcap' : 1 ≤ (lane.interruptActive.1.enqueue cmd).cap := hcap
    have hover := applyCapOverflow_length hcap'
    have hsteer : ¬ (cmd.mode = .steer ∨ cmd.mode = .steerBacklog) := by
      rw [hmode]
      decide
    rw [if_pos hint, if_neg fun h => hsteer h.1]
    exact ⟨hover.1, iff_of_true hover.2 fun h => hsteer h.1.1⟩
  · rw [if_neg hint]
    split_ifs with hsteer
    · refine ⟨rfl, ?_⟩
      rw [and_iff_right hsteer, enqueue, List.length_append, List.length_singleton]
      push_cast
      omega
    · have hcap' : 1 ≤ (lane.enqueue cmd).cap := hcap
      have hover := applyCapOverflow_length hcap'
      exact ⟨hover.1, iff_of_true hover.2 fun h => hsteer h.1⟩

end SessionLane

namespace CommandQueue

def Capped (q : CommandQueue) : Prop :=
  1 ≤ q.config.cap ∧ ∀ key lane, q.lanes.lookup key = some lane →
    1 ≤ lane.cap ∧ lane.pending.length ≤ lane.cap

variable {q : CommandQueue}

theorem Capped.getLane (h : Capped q) (key : String) :
    1 ≤ (q.getLane key).cap ∧ (q.getLane key).pending.length ≤ (q.getLane key).cap := by
  rw [CommandQueue.getLane]
  cases hl : q.lanes.lookup key with
  | none =>
    have hcap := h.1
    exact ⟨hcap, by simp [SessionLane.ofConfig]; omega⟩
  | some lane => exact h.2 key lane hl

theorem Capped.insert {q' : CommandQueue} {key : String} {lane : SessionLane} (h : Capped q)
    (hconfig : q'.config = q.config) (hlanes : q'.lanes = q.lanes.insert key lane)
    (hlane : 1 ≤ lane.cap ∧ lane.pending.length ≤ lane.cap) : Capped q' := by
  refine ⟨hconfig ▸ h.1, fun k l hl => ?_⟩
  rw [hlanes, Table.lookup_insert_ite] at hl
  split_ifs at hl
  · cases hl
    exact hlane
  · exact h.2 k l hl

theorem lanes_submit (q : CommandQueue) (cmdId : String) (now : Int) (s : Submission) :
    (q.submit cmdId now s).1.lanes = q.lanes.insert s.sessionKey
      ((q.getLane s.sessionKey).submit (q.makeCommand cmdId now s)).1 := by
  rw [submit]
  dsimp only
  split <;> rfl

theorem Capped.cancel (h : Capped q) (commandId : String) : Capped (q.cancel commandId).1 := by
  rw [CommandQueue.cancel]
  cases q.commandToSession.lookup commandId with
  | none => exact h
  | some key =>
    obtain ⟨hcap, hlen⟩ := h.getLane key
    have herase : ((q.getLane key).pending.eraseP (·.id = commandId)).length ≤
        (q.getLane key).pending.length := List.eraseP_sublist.length_le
    have hlane : 1 ≤ ((q.getLane key).cancelPending commandId).1.cap ∧
        ((q.getLane key).cancelPending commandId).1.pending.length ≤
          ((q.getLane key).cancelPending commandId).1.cap :=
      ⟨hcap, (Int.ofNat_le.2 herase).trans hlen⟩
    exact h.insert rfl rfl hlane

theorem Capped.abortSession (h : Capped q) (sessionKey : String) :
    Capped (q.abortSession sessionKey).1 := by
  obtain ⟨-, -, -, -, -, hconfig⟩ := q.abortSession_spec sessionKey
  cases hl : q.lanes.lookup sessionKey with
  | none =>
    rw [CommandQueue.abortSession, hl]
    exact h
  | some lane =>
    have hlanes : (q.abortSession sessionKey).1.lanes =
        q.lanes.insert sessionKey lane.interruptActive.1 := by
      rw [CommandQueue.abortSession, hl]
      dsimp only
      split <;> rfl
    obtain ⟨hcap, hlen⟩ := h.2 sessionKey lane hl
    refine h.insert hconfig hlanes ⟨hcap, ?_⟩
    have hkeep : (SessionLane.keepNewest lane.pending).length ≤ lane.pending.length := by
      conv_rhs => rw [← SessionLane.dropLast_append_keepNewest lane.pending]
      exact (List.sublist_append_right _ _).length_le
    exact (Int.ofNat_le.2 hkeep).trans hlen

theorem Capped.finish (h : Capped q) (command : QueuedCommand) : Capped (q.finish command) := by
  rw [CommandQueue.finish]
  cases hl : q.lanes.lookup command.sessionKey with
  | none => exact h
  | some lane =>
    have hlane : 1 ≤ lane.completeActive.1.cap ∧
        lane.completeActive.1.pending.length ≤ lane.completeActive.1.cap :=
      h.2 command.sessionKey lane hl
    exact h.insert rfl rfl hlane

end CommandQueue

namespace System

/-- A step that does not overfill a lane, and that sets a cap only to one or more and not below
what waits. -/
def KeepsCaps (sys : System) : Action → Prop
  | .submit _ _ s =>
    let lane := sys.queue.getLane s.sessionKey
    ¬ lane.Overfills (lane.effectiveMode s.mode)
  | .configureSession sessionKey _ _ cap _ =>
    cap < 0 ∨ 1 ≤ cap ∧ (sys.queue.getLane sessionKey).pending.length ≤ cap
  | .setConfig config => 1 ≤ config.cap
  | _ => True

/-- Whether a step keeps the caps can be computed. -/
instance : ∀ sys a, Decidable (KeepsCaps sys a)
  | sys, .submit _ _ s =>
    inferInstanceAs (Decidable (¬ (sys.queue.getLane s.sessionKey).Overfills
      ((sys.queue.getLane s.sessionKey).effectiveMode s.mode)))
  | sys, .configureSession sessionKey _ _ cap _ =>
    inferInstanceAs (Decidable
      (cap < 0 ∨ 1 ≤ cap ∧ (sys.queue.getLane sessionKey).pending.length ≤ cap))
  | _, .setConfig config => inferInstanceAs (Decidable (1 ≤ config.cap))
  | _, .cancel _ | _, .abortSession _ | _, .dispatch .. | _, .start _ | _, .respond ..
  | _, .complete _ => .isTrue trivial

theorem capped_step (sys : System) (a : Action) (sys' : System) (h : sys.queue.Capped)
    (hok : KeepsCaps sys a) (hstep : sys.step a = some sys') : sys'.queue.Capped := by
  cases a with
  | submit cmdId now s =>
    obtain ⟨-, rfl⟩ := step_submit hstep
    obtain ⟨-, -, -, -, -, -, -, hconfig⟩ := sys.queue.submit_spec cmdId now s
    obtain ⟨hcap, hlen⟩ := h.getLane s.sessionKey
    obtain ⟨hcap', hiff⟩ := SessionLane.submit_length_le_iff
      (sys.queue.makeCommand cmdId now s) hcap hlen
    refine h.insert hconfig (sys.queue.lanes_submit cmdId now s) ?_
    rw [hcap']
    exact ⟨hcap, hiff.2 hok⟩
  | cancel commandId =>
    cases hstep
    exact h.cancel commandId
  | abortSession sessionKey =>
    cases hstep
    exact h.abortSession sessionKey
  | configureSession sessionKey mode debounceMs cap drop =>
    cases hstep
    obtain ⟨hcap, hlen⟩ := h.getLane sessionKey
    refine h.insert rfl rfl ?_
    show 1 ≤ (if 0 ≤ cap then cap else (sys.queue.getLane sessionKey).cap) ∧
      (sys.queue.getLane sessionKey).pending.length ≤
        if 0 ≤ cap then cap else (sys.queue.getLane sessionKey).cap
    split_ifs with hneg
    · exact hok.resolve_left (not_lt.2 hneg)
    · exact ⟨hcap, hlen⟩
  | setConfig config =>
    cases hstep
    exact ⟨hok, h.2⟩
  | dispatch now order =>
    obtain ⟨-, q, out, hkeys, rfl⟩ := step_dispatch hstep
    have hpass : q.Capped := by
      refine CommandQueue.dispatchKeys_induction (P := fun _ _ => True)
        (motive := fun q _ => q.Capped)
        (fun {q out key lane front rest q' command} hact _ hcapped => ?_)
        (CommandQueue.eachActivation_true ..) hkeys h
      obtain ⟨hcap, hlen⟩ := hcapped.2 key lane hact.found
      refine hcapped.insert (by rw [hact.queue]) hact.lanes_after ⟨hcap, ?_⟩
      have hbatch : (SessionLane.unbatched front.mode rest).length ≤ rest.length := by
        rw [← (SessionLane.batched_perm front.mode rest).length_eq, List.length_append]
        exact Nat.le_add_right _ _
      rw [hact.pending, List.length_cons] at hlen
      show ((SessionLane.unbatched front.mode rest).length : Int) ≤ lane.cap
      omega
    refine ⟨hpass.1, fun key lane hl => hpass.2 key lane ?_⟩
    rw [CommandQueue.cleanUpIdle, Table.lookup_filterValues, Option.filter_eq_some_iff] at hl
    exact hl.1
  | start i =>
    obtain ⟨l₁, command, l₂, hw, rfl⟩ := step_start hstep
    exact h
  | respond i outcome =>
    obtain ⟨l₁, command, l₂, hw, rfl⟩ := step_respond hstep
    exact h
  | complete i =>
    obtain ⟨l₁, command, l₂, hw, rfl⟩ := step_complete hstep
    exact h.finish command

/-- **Lane cap.**  After a run, a lane within its cap stays within it after a `Submit` exactly
when the command does not steer a running one while the lane is full; and when no step of the
run overfilled a lane, and none set a cap below what waits, every lane is within its cap. -/
theorem lane_cap {config : QueueConfig} {as : List Action} {sys : System}
    (hrun : Reaches config as sys) :
    (∀ cmdId now s, 1 ≤ (sys.queue.getLane s.sessionKey).cap →
      (sys.queue.getLane s.sessionKey).pending.length ≤ (sys.queue.getLane s.sessionKey).cap →
        let after := (sys.queue.submit cmdId now s).1.getLane s.sessionKey
        (after.pending.length ≤ after.cap ↔ KeepsCaps sys (.submit cmdId now s))) ∧
      (1 ≤ config.cap → Along step KeepsCaps (init config) as →
        ∀ key lane, sys.queue.lanes.lookup key = some lane → lane.pending.length ≤ lane.cap) := by
  constructor
  · rintro cmdId now s hcap hlen
    obtain ⟨hcap', hiff⟩ := SessionLane.submit_length_le_iff
      (sys.queue.makeCommand cmdId now s) hcap hlen
    have hafter : (sys.queue.submit cmdId now s).1.getLane s.sessionKey =
        ((sys.queue.getLane s.sessionKey).submit (sys.queue.makeCommand cmdId now s)).1 := by
      rw [CommandQueue.getLane, sys.queue.lanes_submit, Table.lookup_insert_ite, if_pos rfl]
      rfl
    dsimp only
    rw [hafter, hcap', hiff]
    rfl
  · rintro hcap hok key lane hl
    have hinit : (init config).queue.Capped := ⟨hcap, fun _ _ h => by cases h⟩
    have hcapped : sys.queue.Capped :=
      exec_invariant (motive := fun sys => sys.queue.Capped) capped_step hinit hok hrun
    exact (hcapped.2 key lane hl).2

/-- A run with a cap of two that stays within it: the third command of a busy lane is merged. -/
theorem lane_cap_two :
    ∃ sys, Reaches { cap := 2 }
      [.submit "a" 0 { sessionKey := "s", message := "one" }, .dispatch 2000000000 ["s"],
        .submit "b" 0 { sessionKey := "s", message := "two" },
        .submit "c" 0 { sessionKey := "s", message := "three" },
        .submit "d" 0 { sessionKey := "s", message := "four" }] sys ∧
      ∀ key lane, sys.queue.lanes.lookup key = some lane → lane.pending.length ≤ lane.cap := by
  refine ⟨_, (Option.some_get (by decide)).symm, ?_⟩
  exact (lane_cap (Option.some_get _).symm).2 (by decide) (by decide)

/-- Commands that steer a running one pile up beyond the cap. -/
theorem not_lane_cap : ¬ ∀ config as sys, 1 ≤ config.cap → Reaches config as sys →
    (∀ a ∈ as, (∀ c, a ≠ .setConfig c) ∧ ∀ k m d c p, a ≠ .configureSession k m d c p) →
      ∀ key lane, sys.queue.lanes.lookup key = some lane → lane.pending.length ≤ lane.cap := by
  rintro h
  have hlane := h { cap := 1 }
    [.submit "a" 0 { sessionKey := "s", message := "one" }, .dispatch 2000000000 ["s"],
      .submit "b" 0 { sessionKey := "s", message := "two", mode := .steer },
      .submit "c" 0 { sessionKey := "s", message := "three", mode := .steer }] _ (by decide)
    (Option.some_get (by decide)).symm (by simp) "s" _ (Option.some_get (by decide)).symm
  revert hlane
  decide

end System

end RavBot.Gateway
