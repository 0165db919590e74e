import RavBot.Gateway.CommandQueue.Cap
import RavBot.Gateway.CommandQueue.Order

/-!
# Interrupts

An interrupt aborts the running command of its session and should run in its place.  `Submit`
clears the lane with `InterruptActive` before it enqueues the new command, so what
`InterruptActive` spares is not the interrupt but the newest command that waited before it, and
the cap is applied to these two.  `InterruptAlone` says when the interrupt is nevertheless alone
in its lane; then nothing that waited before it is ever activated.
-/

namespace RavBot.Gateway

open RavBot.Lib

namespace SessionLane

/-- The lane in which a command ends up alone when it interrupts a running one: nothing waits, and
the command is not dropped; or what waits is dropped as the oldest. -/
def InterruptAlone (lane : SessionLane) : Prop :=
  (lane.pending = [] ∧ (1 ≤ lane.cap ∨ lane.drop = .summarize)) ∨
    (lane.pending ≠ [] ∧ lane.drop = .dropOldest ∧ lane.cap ≤ 1)

theorem exists_keepNewest {cmds : List QueuedCommand} (h : cmds ≠ []) :
    ∃ newest ∈ cmds, keepNewest cmds = [newest] := by
  induction cmds using keepNewest.induct with
  | case1 first second rest ih =>
    obtain ⟨newest, hmem, hkeep⟩ := ih (List.cons_ne_nil _ _)
    exact ⟨newest, List.mem_cons_of_mem _ hmem, hkeep⟩
  | case2 short hshort =>
    cases short with
    | nil => exact absurd rfl h
    | cons first rest =>
      cases rest with
      | nil => exact ⟨first, List.mem_singleton_self _, rfl⟩
      | cons second rest => exact (hshort first second rest rfl).elim

variable {lane : SessionLane}

theorem overflowLoop_of_fits (h : lane.pending.length ≤ lane.cap) (fuel : Nat) :
    lane.overflowLoop fuel = (lane, []) := by
  cases fuel with
  | zero => rfl
  | succ fuel => rw [overflowLoop, if_pos h]

variable {cmd : QueuedCommand}

theorem applyCapOverflow_single
    (h : lane.pending = [cmd]) :
    lane.applyCapOverflow.1.pending = [cmd] ↔ 1 ≤ lane.cap ∨ lane.drop = .summarize := by
  obtain ⟨key, mode, debounceMs, cap, drop, pending, activeCommand⟩ := lane
  obtain rfl : pending = [cmd] := h
  by_cases hcap : 1 ≤ cap
  · rw [applyCapOverflow, overflowLoop_of_fits (by simpa using hcap)]
    exact iff_of_true rfl (.inl hcap)
  · have hover : ¬ (([cmd].length : Int) ≤ cap) := by simpa using hcap
    rw [applyCapOverflow, overflowLoop, if_neg hover, or_iff_right hcap]
    cases drop with
    | summarize => simp [overflowTurn, show cap ≤ 0 by omega]
    | dropOldest => simp [overflowTurn, show cap ≤ 0 by omega]
    | reject => simp [overflowTurn, show cap ≤ 0 by omega]

theorem applyCapOverflow_pair {older : QueuedCommand}
    (h : lane.pending = [older, cmd]) (hid : older.id ≠ cmd.id) :
    lane.applyCapOverflow.1.pending = [cmd] ↔ lane.drop = .dropOldest ∧ lane.cap ≤ 1 := by
  obtain ⟨key, mode, debounceMs, cap, drop, pending, activeCommand⟩ := lane
  obtain rfl : pending = [older, cmd] := h
  have hne {c : QueuedCommand} (hc : c.id = older.id) : [c] ≠ [cmd] := by
    intro heq
    rw [List.singleton_inj] at heq
    exact hid (hc ▸ heq ▸ rfl)
  by_cases htwo : 2 ≤ cap
  · rw [applyCapOverflow, overflowLoop_of_fits (by simpa using htwo)]
    refine iff_of_false (by simp) fun h => ?_
    have hone : cap ≤ 1 := h.2
    omega
  · have hover : ¬ (([older, cmd].length : Int) ≤ cap) := by simpa using htwo
    have hle : cap ≤ 1 := by omega
    -- whatever is left after one turn is short enough for a cap of one
    have hturn (fuel : Nat) (lane' : SessionLane) (hcap' : lane'.cap = cap)
        (hlen : lane'.pending.length = 1) (hpos : ¬ cap ≤ 0) :
        lane'.overflowLoop fuel = (lane', []) :=
      overflowLoop_of_fits (by rw [hcap', hlen]; omega) fuel
    rw [applyCapOverflow, overflowLoop, if_neg hover, and_iff_left hle]
    by_cases hpos : cap ≤ 0
    · cases drop with
      | summarize =>
        simp only [overflowTurn, hpos, if_true]
        exact iff_of_false (hne rfl) (by simp)
      | dropOldest => simp [overflowTurn, hpos]
      | reject => simpa [overflowTurn, hpos] using hne rfl
    · cases drop with
      | summarize =>
        simp only [overflowTurn, hpos, if_false]
        rw [hturn _ _ rfl rfl hpos]
        exact iff_of_false (hne rfl) (by simp)
      | dropOldest =>
        simp only [overflowTurn, hpos, if_false]
        rw [hturn _ _ rfl rfl hpos]
        simp
      | reject =>
        simp only [overflowTurn, List.getLast?_cons_cons, List.getLast?_singleton, hpos, if_false]
        rw [hturn _ _ rfl rfl hpos]
        simpa using hne rfl

/-- An interrupt of a running command ends up alone exactly in a lane of the kind
`InterruptAlone`. -/
theorem submit_interrupt_iff
    (hmode : cmd.mode = .interrupt) (hactive : lane.hasActive)
    (hfresh : ∀ c ∈ lane.pending, c.id ≠ cmd.id) :
    (lane.submit cmd).1.pending = [cmd] ↔ lane.InterruptAlone := by
  have hint : cmd.mode = .interrupt ∧ lane.hasActive := ⟨hmode, hactive⟩
  have hsubmit : lane.submit cmd = (lane.interruptActive.1.enqueue cmd).applyCapOverflow := by
    rw [submit]
    simp only [hint, and_self, if_true]
    rw [if_neg]
    simp
  rw [hsubmit, InterruptAlone]
  by_cases hp : lane.pending = []
  · have hpending : (lane.interruptActive.1.enqueue cmd).pending = [cmd] := by
      simp [interruptActive, enqueue, hp, keepNewest]
    rw [applyCapOverflow_single hpending]
    simp [hp, interruptActive, enqueue]
  · obtain ⟨newest, hmem, hkeep⟩ := exists_keepNewest hp
    have hpending : (lane.interruptActive.1.enqueue cmd).pending = [newest, cmd] := by
      simp [interruptActive, enqueue, hkeep]
    rw [applyCapOverflow_pair hpending (hfresh newest hmem)]
    simp [hp, interruptActive, enqueue]

end SessionLane

namespace System

/-- The requests that a run from a lane with one waiting command activates in its session: that
command and those submitted later, in this order. -/
theorem activated_of_alone {config : QueueConfig} {as : List Action} {sys sys' : System}
    (hrun : Reaches config as sys) {cmdId : String} {now : Int} {s : Submission}
    (hstep : sys.step (.submit cmdId now s) = some sys')
    (halone : (sys'.queue.getLane s.sessionKey).pending = [sys.queue.makeCommand cmdId now s])
    {bs : List Action} {sys'' : System} (hbs : exec step sys' bs = some sys'') :
    ∃ later, sys''.submitted = sys'.submitted ++ later ∧
      (ofSession s.sessionKey (outputs step activates sys' bs)).Sublist
        ((sys.queue.makeCommand cmdId now s).request :: ofSession s.sessionKey later) := by
  set command := sys.queue.makeCommand cmdId now s with hcommand
  -- the queues follow the list in which the session's older requests are left out
  let base := command.request :: sys.submitted.filter (·.sessionKey ≠ s.sessionKey)
  have hhome : command.request.sessionKey = s.sessionKey := rfl
  have hbase : ofSession s.sessionKey base = [command.request] := by
    have hrest : ofSession s.sessionKey (sys.submitted.filter (·.sessionKey ≠ s.sessionKey)) = [] := by
      rw [ofSession, List.filter_filter, List.filter_eq_nil_iff]
      simp
    simp only [base, ofSession, List.filter_cons, hhome, decide_true, if_true]
    rw [← ofSession, hrest]
  have hstart : InOrder sys'.queue [] base := by
    intro key
    obtain ⟨-, rfl⟩ := step_submit hstep
    by_cases hkey : key = s.sessionKey
    · subst hkey
      rw [hbase, ← CommandQueue.requests_getLane, SessionLane.requests, halone]
      exact .refl _
    · obtain ⟨-, -, -, hother, -⟩ := sys.queue.submit_spec cmdId now s
      have hsame : ofSession key base = ofSession key sys.submitted := by
        simp only [base, ofSession, List.filter_cons, hhome, Ne.symm hkey, decide_false,
          Bool.false_eq_true, if_false, List.filter_filter]
        refine List.filter_congr fun r _ => ?_
        by_cases hr : r.sessionKey = key <;> simp [hr, hkey]
      rw [hsame, hother key hkey]
      exact hrun.pendingOf_sublist key
  obtain ⟨later, hlater, horder⟩ := inOrder_exec hstart hbs
  refine ⟨later, hlater, (List.sublist_append_left _ _).trans ((horder s.sessionKey).trans ?_)⟩
  rw [ofSession, List.filter_append, ← ofSession, ← ofSession, hbase]
  exact .refl _

/-- **Interrupts.**  After a run, a command that interrupts the running one of its session is the
only one that waits there, and the first of those that were submitted by then to be activated in
any further run, exactly when the lane before was of the kind `InterruptAlone`. -/
theorem interrupt_alone_iff {config : QueueConfig} {as : List Action} {sys sys' : System}
    (hrun : Reaches config as sys) {cmdId : String} {now : Int} {s : Submission}
    (hactive : (sys.queue.getLane s.sessionKey).hasActive)
    (hmode : (sys.queue.getLane s.sessionKey).effectiveMode s.mode = .interrupt)
    (hstep : sys.step (.submit cmdId now s) = some sys') :
    let command := sys.queue.makeCommand cmdId now s
    ((sys'.queue.getLane s.sessionKey).pending = [command] ∧
        ∀ bs sys'', exec step sys' bs = some sys'' →
          ∃ later, sys''.submitted = sys'.submitted ++ later ∧
            (ofSession s.sessionKey (outputs step activates sys' bs)).Sublist
              (command.request :: ofSession s.sessionKey later)) ↔
      (sys.queue.getLane s.sessionKey).InterruptAlone := by
  dsimp only
  obtain ⟨hnew, hsys⟩ := step_submit hstep
  have hfresh : ∀ c ∈ (sys.queue.getLane s.sessionKey).pending,
      c.id ≠ (sys.queue.makeCommand cmdId now s).id := by
    rintro c hc heq
    have hmem : c.id ∈ sys.submitted.map Request.id := hrun.id_mem_submitted hc
    rw [heq] at hmem
    exact hnew hmem
  have hlane : (sys'.queue.getLane s.sessionKey).pending =
      ((sys.queue.getLane s.sessionKey).submit (sys.queue.makeCommand cmdId now s)).1.pending := by
    rw [hsys, CommandQueue.getLane, sys.queue.lanes_submit, Table.lookup_insert_ite, if_pos rfl]
    rfl
  have hiff : ((sys.queue.getLane s.sessionKey).submit (sys.queue.makeCommand cmdId now s)).1.pending =
      [sys.queue.makeCommand cmdId now s] ↔ (sys.queue.getLane s.sessionKey).InterruptAlone :=
    SessionLane.submit_interrupt_iff hmode hactive hfresh
  rw [← hiff, ← hlane]
  exact and_iff_left_of_imp fun halone _ _ hbs => activated_of_alone hrun hstep halone hbs

/-- A command runs, and two more wait in a lane of the given cap and policy. -/
def busyLane (cap : Int) (drop : DropPolicy) : List Action :=
  [.configureSession "s" .followup 0 cap (dropPolicyToString drop),
    .submit "a" 0 { sessionKey := "s", message := "one" }, .dispatch 2000000000 ["s"],
    .submit "b" 0 { sessionKey := "s", message := "two" },
    .submit "c" 0 { sessionKey := "s", message := "three" }]

def interruption : Submission := { sessionKey := "s", message := "stop", mode := .interrupt }

/-- With a cap of one and the oldest dropped, the interrupt is alone. -/
theorem interrupt_alone_dropOldest :
    ∃ sys sys', Reaches {} (busyLane 1 .dropOldest) sys ∧
      sys.step (.submit "d" 0 interruption) = some sys' ∧
      (sys'.queue.getLane "s").pending = [sys.queue.makeCommand "d" 0 interruption] := by
  refine ⟨_, _, (Option.some_get (by decide)).symm, (Option.some_get (by decide)).symm, ?_⟩
  refine ((interrupt_alone_iff (Option.some_get (by decide)).symm (by decide) (by decide)
    (Option.some_get _).symm).2 ?_).1
  exact .inr ⟨by decide, by decide, by decide⟩

/-- With the default cap and policy, the newest command that waited is activated before the
interrupt. -/
theorem not_interrupt_alone : ¬ ∀ config as sys sys' cmdId now s, Reaches config as sys →
    (sys.queue.getLane s.sessionKey).hasActive →
      (sys.queue.getLane s.sessionKey).effectiveMode s.mode = .interrupt →
        sys.step (.submit cmdId now s) = some sys' →
          ((sys'.queue.getLane s.sessionKey).pending.map (·.id) = [cmdId] ∧
            ∀ now order, ∀ r ∈ ofSession s.sessionKey (activates sys' (.dispatch now order)),
              r.id = cmdId) := by
  intro h
  have hall := h {} (busyLane 20 .summarize) _ _ "d" 0 interruption
    (Option.some_get (by decide)).symm (by decide) (by decide) (Option.some_get (by decide)).symm
  have hact := hall.2 4000000000 ["s"]
  revert hact
  decide

end System

end RavBot.Gateway
