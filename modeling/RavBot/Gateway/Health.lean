import RavBot.Gateway.Pending
import RavBot.Lib.Run

/-!
# Health probes

`ProbeHealth` counts the probes that find the server overloaded and calls it degraded once the
counter reaches a threshold.  A calm probe takes one from the counter instead of clearing it, and
the status that a stopped server is given is taken back only from a degraded one.  So the counter
is not the number of overloaded probes in a row.  It is when nothing is left over in it from an
earlier row, and the guarantees about probes in a row hold exactly along the runs in which no probe
goes by such a remainder or finds the status of a stopped server (`steady_iff`).
-/

namespace RavBot.Gateway

open RavBot.Lib

inductive HealthStatus where
  | healthy
  | degraded
  | unreachable
  deriving DecidableEq, Repr

/-- The health fields of `GatewayServer`. -/
structure HealthMonitor where
  healthStatus : HealthStatus := .healthy
  lastHealthCheckMs : Int := 0
  degradedCheckCount : Int := 0
  healthTimeoutThresholdPercent : Int := 80
  healthMaxTimeoutCount : Int := 5
  healthDegradedCheckCount : Int := 3
  deriving DecidableEq, Repr

inductive Finding where
  | stopped
  | overloaded
  | calm
  deriving DecidableEq, Repr

namespace HealthMonitor

def setHealthConfig (m : HealthMonitor)
    (timeoutThresholdPercent maxTimeoutCount degradedCheckCount : Int) : HealthMonitor :=
  { m with
    healthTimeoutThresholdPercent := max 1 (min timeoutThresholdPercent 100)
    healthMaxTimeoutCount := max 1 maxTimeoutCount
    healthDegradedCheckCount := max 1 degradedCheckCount }

/-- Whether a pending request counts as overdue: it is not one that may take any time, and most of
the time that the watchdog leaves it has passed. -/
def isOverdue (m : HealthMonitor) (server : GatewayServer) (nowMs : Int)
    (pending : PendingRequest) : Bool :=
  !pending.expectFinal &&
    decide ((server.requestTimeoutMs * m.healthTimeoutThresholdPercent).tdiv 100 <
      nowMs - pending.createdAt)

def timeoutCount (m : HealthMonitor) (server : GatewayServer) (nowMs : Int) : Int :=
  (server.connections.entries.map fun conn =>
    conn.2.pendingRequests.entries.countP fun e => m.isOverdue server nowMs e.2).sum

/-- What a probe finds: the server does not run, or more requests are overdue than may be, or
neither. -/
def finding (m : HealthMonitor) (running : Bool) (server : GatewayServer) (nowMs : Int) : Finding :=
  if !running then .stopped
  else if m.healthMaxTimeoutCount < m.timeoutCount server nowMs then .overloaded
  else .calm

def probeHealth (m : HealthMonitor) (running : Bool) (server : GatewayServer) (nowMs : Int) :
    HealthMonitor × HealthStatus :=
  let m := { m with lastHealthCheckMs := nowMs }
  match m.finding running server nowMs with
  | .stopped => ({ m with healthStatus := .unreachable, degradedCheckCount := 0 }, .unreachable)
  | .overloaded =>
    let m := { m with degradedCheckCount := m.degradedCheckCount + 1 }
    if m.healthDegradedCheckCount ≤ m.degradedCheckCount then
      ({ m with healthStatus := .degraded }, .degraded)
    else (m, m.healthStatus)
  | .calm =>
    let m := if 0 < m.degradedCheckCount then
      { m with degradedCheckCount := m.degradedCheckCount - 1 } else m
    if m.healthStatus = .degraded ∧ m.degradedCheckCount = 0 then
      ({ m with healthStatus := .healthy }, .healthy)
    else (m, m.healthStatus)

theorem probeHealth_snd (m : HealthMonitor) (running : Bool) (server : GatewayServer)
    (nowMs : Int) :
    (m.probeHealth running server nowMs).2 = (m.probeHealth running server nowMs).1.healthStatus := by
  unfold probeHealth
  dsimp only
  split
  · rfl
  · split <;> rfl
  · split <;> split <;> rfl

end HealthMonitor

/-- The health of a server, whether it runs, and what the probes found, the last one first. -/
structure HealthSystem where
  monitor : HealthMonitor
  running : Bool
  findings : List Finding

/-- A step: a probe of a server with its requests, or `Start`, which throws when the port is
taken, or `Stop`. -/
inductive HealthAction where
  | probe (server : GatewayServer) (nowMs : Int)
  | start (listening : Bool)
  | stop

namespace HealthSystem

/-- A server that was configured and not started. -/
def init (timeoutThresholdPercent maxTimeoutCount degradedCheckCount : Int) : HealthSystem where
  monitor := ({} : HealthMonitor).setHealthConfig timeoutThresholdPercent maxTimeoutCount
    degradedCheckCount
  running := false
  findings := []

/-- What an action does. -/
def step (s : HealthSystem) : HealthAction → Option HealthSystem
  | .probe server nowMs =>
    some { s with
      monitor := (s.monitor.probeHealth s.running server nowMs).1
      findings := s.monitor.finding s.running server nowMs :: s.findings }
  | .start listening => some { s with running := s.running || listening }
  | .stop => some { s with running := false }

def report (s : HealthSystem) : HealthAction → Option HealthStatus
  | .probe server nowMs => some (s.monitor.probeHealth s.running server nowMs).2
  | _ => none

def row (finding : Finding) (findings : List Finding) : Nat :=
  (findings.takeWhile (· = finding)).length

@[simp] theorem row_cons_self (finding : Finding) (findings : List Finding) :
    row finding (finding :: findings) = row finding findings + 1 := by
  simp [row]

theorem row_cons_ne {finding finding' : Finding} (h : finding' ≠ finding)
    (findings : List Finding) : row finding (finding' :: findings) = 0 := by
  simp [row, h]

/-- The guarantees at a step: the status becomes degraded only at a probe that ends a long enough
row of overloaded ones, a probe of a running server that ends a long enough row of calm ones reports
it healthy, and no probe of a running server reports it unreachable. -/
def Steady (s : HealthSystem) (a : HealthAction) : Prop :=
  ∀ s' ∈ step s a,
    (s.monitor.healthStatus ≠ .degraded → s'.monitor.healthStatus = .degraded →
      (report s a).isSome ∧
        s.monitor.healthDegradedCheckCount ≤ row .overloaded s'.findings) ∧
    ∀ status ∈ report s a, s.running →
      (s.monitor.healthDegradedCheckCount ≤ row .calm s'.findings → status = .healthy) ∧
        status ≠ .unreachable

/-- The probe does not go by what is left over in the counter, nor find the status of a server that
was stopped: when it brings the counter to the threshold, the counter held the overloaded probes just
before it and no others; when it is the last of a long enough row of calm probes, it clears the
counter; and when it finds the server unreachable, it makes it degraded. -/
def Undisturbed (s : HealthSystem) : HealthAction → Prop
  | .probe server nowMs =>
    match s.monitor.finding s.running server nowMs with
    | .stopped => True
    | .overloaded =>
      if s.monitor.healthDegradedCheckCount ≤ s.monitor.degradedCheckCount + 1 then
        s.monitor.healthStatus ≠ .degraded →
          s.monitor.degradedCheckCount = row .overloaded s.findings
      else s.monitor.healthStatus ≠ .unreachable
    | .calm =>
      s.monitor.healthStatus ≠ .unreachable ∧
        (s.monitor.healthDegradedCheckCount ≤ row .calm s.findings + 1 →
          s.monitor.healthStatus = .degraded → s.monitor.degradedCheckCount ≤ 1)
  | _ => True

/-- The counter counts the overloaded probes in a row, and maybe more, and is below the threshold
unless the server is degraded. -/
structure Inv (s : HealthSystem) : Prop where
  threshold_pos : 1 ≤ s.monitor.healthDegradedCheckCount
  row_le : row .overloaded s.findings ≤ s.monitor.degradedCheckCount
  below : s.monitor.healthStatus ≠ .degraded →
    s.monitor.degradedCheckCount < s.monitor.healthDegradedCheckCount

theorem step_probe (s : HealthSystem) (server : GatewayServer) (nowMs : Int) :
    ∃ m', step s (.probe server nowMs) =
        some { s with monitor := m'
                      findings := s.monitor.finding s.running server nowMs :: s.findings } ∧
      report s (.probe server nowMs) = some m'.healthStatus ∧
      m'.healthDegradedCheckCount = s.monitor.healthDegradedCheckCount ∧
      (s.running ↔ s.monitor.finding s.running server nowMs ≠ .stopped) ∧
      match s.monitor.finding s.running server nowMs with
      | .stopped => m'.healthStatus = .unreachable ∧ m'.degradedCheckCount = 0
      | .overloaded => m'.degradedCheckCount = s.monitor.degradedCheckCount + 1 ∧
          m'.healthStatus =
            if s.monitor.healthDegradedCheckCount ≤ s.monitor.degradedCheckCount + 1 then .degraded
            else s.monitor.healthStatus
      | .calm => m'.degradedCheckCount =
            (if 0 < s.monitor.degradedCheckCount then s.monitor.degradedCheckCount - 1
              else s.monitor.degradedCheckCount) ∧
          m'.healthStatus =
            if s.monitor.healthStatus = .degraded ∧ m'.degradedCheckCount = 0 then .healthy
            else s.monitor.healthStatus := by
  refine ⟨(s.monitor.probeHealth s.running server nowMs).1, rfl, ?_, ?_, ?_, ?_⟩
  · rw [report, HealthMonitor.probeHealth_snd]
  · unfold HealthMonitor.probeHealth
    dsimp only
    split
    · rfl
    · split <;> rfl
    · split <;> split <;> rfl
  · rw [HealthMonitor.finding]
    cases s.running with
    | false => simp
    | true =>
      simp only [Bool.not_true, Bool.false_eq_true, if_false, true_iff]
      split_ifs <;> nofun
  · have hfinding : ({ s.monitor with lastHealthCheckMs := nowMs } : HealthMonitor).finding s.running
        server nowMs = s.monitor.finding s.running server nowMs := rfl
    rw [HealthMonitor.probeHealth]
    dsimp only
    rw [hfinding]
    cases h : s.monitor.finding s.running server nowMs with
    | stopped => exact ⟨rfl, rfl⟩
    | overloaded =>
      dsimp only
      split_ifs <;> exact ⟨rfl, rfl⟩
    | calm =>
      dsimp only
      split_ifs <;> simp_all

theorem Inv.step {s s' : HealthSystem} {a : HealthAction} (h : Inv s) (hstep : step s a = some s') :
    Inv s' := by
  obtain ⟨hpos, hrow, hbelow⟩ := h
  cases a with
  | start listening =>
    cases hstep
    exact ⟨hpos, hrow, hbelow⟩
  | stop =>
    cases hstep
    exact ⟨hpos, hrow, hbelow⟩
  | probe server nowMs =>
    obtain ⟨m', heq, -, hthreshold, -, hcases⟩ := s.step_probe server nowMs
    rw [heq] at hstep
    cases hstep
    generalize s.monitor.finding s.running server nowMs = finding at hcases
    rw [← hthreshold] at hpos hbelow
    cases finding with
    | stopped =>
      obtain ⟨-, hcount⟩ := hcases
      refine ⟨hpos, ?_, fun _ => ?_⟩
      · rw [row_cons_ne (by decide), hcount]
        rfl
      · rw [hcount]
        exact hpos
    | overloaded =>
      obtain ⟨hcount, hstatus⟩ := hcases
      refine ⟨hpos, ?_, fun hne => ?_⟩
      · rw [row_cons_self, hcount]
        omega
      · split_ifs at hstatus with hreached
        · exact absurd hstatus hne
        · dsimp only
          omega
    | calm =>
      obtain ⟨hcount, hstatus⟩ := hcases
      have hle : 0 ≤ m'.degradedCheckCount ∧
          m'.degradedCheckCount ≤ s.monitor.degradedCheckCount := by
        split_ifs at hcount <;> omega
      refine ⟨hpos, ?_, fun hne => ?_⟩
      · rw [row_cons_ne (by decide)]
        exact hle.1
      · split_ifs at hstatus with hcleared
        · dsimp only
          omega
        · have hbefore : s.monitor.healthStatus ≠ .degraded := hstatus ▸ hne
          exact hle.2.trans_lt (hbelow hbefore)

theorem Inv.steadyAt_iff {s : HealthSystem} (h : Inv s) (a : HealthAction) :
    Steady s a ↔ Undisturbed s a := by
  obtain ⟨hpos, hrow, hbelow⟩ := h
  cases a with
  | start listening =>
    refine iff_of_true (fun s' hs' => ?_) trivial
    cases hs'
    exact ⟨fun hne hdegraded => absurd hdegraded hne, nofun⟩
  | stop =>
    refine iff_of_true (fun s' hs' => ?_) trivial
    cases hs'
    exact ⟨fun hne hdegraded => absurd hdegraded hne, nofun⟩
  | probe server nowMs =>
    obtain ⟨m', heq, hreport, -, hrunning, hcases⟩ := s.step_probe server nowMs
    rw [Steady, Undisturbed, heq, hreport, hrunning]
    simp only [Option.mem_some_iff, forall_eq', Option.isSome_some, true_and]
    generalize s.monitor.finding s.running server nowMs = finding at hcases
    cases finding with
    | stopped =>
      rw [hcases.1]
      simp
    | overloaded =>
      obtain ⟨-, hstatus⟩ := hcases
      rw [row_cons_self, row_cons_ne (by decide), hstatus]
      dsimp only
      split_ifs with hreached
      · constructor
        · rintro ⟨hdegrades, -⟩ hne
          have hlong := hdegrades hne rfl
          have hcount := hbelow hne
          omega
        · refine fun hcount => ⟨fun hne _ => ?_, fun _ => ⟨fun hzero => ?_, nofun⟩⟩
          · have hcount := hcount hne
            omega
          · omega
      · constructor
        · rintro ⟨-, hreport⟩
          exact (hreport (by decide)).2
        · refine fun hne => ⟨fun hnot heq => absurd heq hnot, fun _ => ⟨fun hzero => ?_, hne⟩⟩
          omega
    | calm =>
      obtain ⟨hcount, hstatus⟩ := hcases
      have hcleared : m'.degradedCheckCount = 0 ↔ s.monitor.degradedCheckCount ≤ 1 := by
        split_ifs at hcount <;> omega
      simp only [hcleared] at hstatus
      rw [row_cons_self, row_cons_ne (by decide), hstatus]
      dsimp only
      cases hs : s.monitor.healthStatus with
      | healthy => simp
      | unreachable => simp
      | degraded =>
        by_cases hone : s.monitor.degradedCheckCount ≤ 1
        · simp [hone]
        · simp [hone]

theorem Inv.start (timeoutThresholdPercent maxTimeoutCount degradedCheckCount : Int) :
    Inv (init timeoutThresholdPercent maxTimeoutCount degradedCheckCount) where
  threshold_pos := le_max_left 1 degradedCheckCount
  row_le := Int.le_refl 0
  below := fun _ => (by decide : (0 : Int) < 1).trans_le (le_max_left 1 degradedCheckCount)

/-- **When the health probes keep their guarantees.**  In a run of probes, `Start` and `Stop`, from
any configuration, the status is degraded and healthy after rows of probes and unreachable only while
the server is stopped exactly when no probe of the run is disturbed. -/
theorem steady_iff (timeoutThresholdPercent maxTimeoutCount degradedCheckCount : Int)
    (actions : List HealthAction) :
    Along step Steady (init timeoutThresholdPercent maxTimeoutCount degradedCheckCount) actions ↔
      Along step Undisturbed (init timeoutThresholdPercent maxTimeoutCount degradedCheckCount)
        actions :=
  along_congr (fun _ _ _ h _ hstep => h.step hstep) (fun _ a h => h.steadyAt_iff a)
    (Inv.start timeoutThresholdPercent maxTimeoutCount degradedCheckCount)

/-- A server with as many overdue requests as are listed. -/
def overdue (ids : List String) : GatewayServer :=
  let client : ClientConnection := { connectionId := "c" }
  { connections := (∅ : Table String ClientConnection).insert "c"
      { client with
        pendingRequests := ids.foldl (fun pending id => pending.insert id
          { requestId := id, method := "status", createdAt := 0, expectFinal := false }) ∅ } }

def overloadedProbe : HealthAction := .probe (overdue ["1", "2", "3", "4", "5", "6"]) 60000

def calmProbe : HealthAction := .probe (overdue []) 60000

/-- No guarantee holds in every run.  With the default configuration, a calm probe between two pairs
of overloaded ones does not keep the status from being degraded, three calm probes after four
overloaded ones leave it degraded, and a server that was probed before it was started is reported
unreachable ever after. -/
theorem not_steady :
    ¬ (∀ actions, Along step Steady (init 80 5 3) actions) ∧
    (∃ s, exec step (init 80 5 3) [.start true, overloadedProbe, overloadedProbe, calmProbe,
        overloadedProbe, overloadedProbe] = some s ∧ s.monitor.healthStatus = .degraded ∧
      row .overloaded s.findings = 2) ∧
    (∃ s, exec step (init 80 5 3) [.start true, overloadedProbe, overloadedProbe, overloadedProbe,
        overloadedProbe, calmProbe, calmProbe, calmProbe] = some s ∧
      s.monitor.healthStatus = .degraded ∧ row .calm s.findings = 3) ∧
    (∃ s, exec step (init 80 5 3) [.start true, .stop, calmProbe, .start true] = some s ∧
      report s calmProbe = some .unreachable) := by
  refine ⟨fun h => ?_, ⟨_, rfl, by decide, by decide⟩, ⟨_, rfl, by decide, by decide⟩,
    ⟨_, rfl, by decide⟩⟩
  have hfirst := h [calmProbe, .start true, calmProbe]
  have hreport := (hfirst.2 _ rfl).2 _ rfl
  exact ((hreport.1 _ rfl).2 .unreachable (by decide) rfl).2 rfl

end HealthSystem

end RavBot.Gateway
