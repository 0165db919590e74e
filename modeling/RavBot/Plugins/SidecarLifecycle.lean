import RavBot.Lib.Run
import RavBot.Lib.Table

/-!
# The life of the sidecar

`Start` spawns a child and starts the thread of `monitor_loop`, which looks after the child and spawns another when
it finds it dead; `Stop` kills the child and joins the thread.  The two threads share the flags, the number of
restarts and `pid_` without a lock.  Each step below is what a thread does between two accesses to what they share.

Whether `is_process_alive` notices the exit of a child that was not waited for depends on the platform; on Unix it
does not, and nothing waits for a child of which `pid_` is kept.  So there the monitor looks at a child that has
exited and sees it run; nothing else goes wrong, since it never gets to a restart (`lifecycle_iff`).  Where exits are
noticed, the laws hold as long as restarts do not fail too often, no `Start` or destruction comes after the monitor
has given up, and no `Stop` while it restarts the child (`lawful_of_sound`).

Clocks, messages and the connection are left out, and so is a change of the number of restarts.  A child that is
killed has exited.
-/

namespace RavBot.Plugins

open RavBot.Lib

/-- A child that was not waited for. -/
inductive ChildState where
  | running
  | exited
deriving DecidableEq, Repr

/-- Where `spawn_sidecar` is. -/
inductive SpawnPhase where
  /-- Before `spawn_process`. -/
  | forking
  /-- Before `pid_` is set. -/
  | storing (child : Nat)
  /-- The child is to connect. -/
  | accepting (child : Nat)
  /-- The child did not connect, and was killed. -/
  | waiting (child : Nat)
  /-- Before `pid_` is cleared. -/
  | clearing
deriving DecidableEq, Repr

/-- The child that `spawn_sidecar` has spawned and not killed. -/
def SpawnPhase.child : SpawnPhase → Option Nat
  | .storing child => some child
  | .accepting child => some child
  | _ => none

/-- Where `monitor_loop` is. -/
inductive MonitorPhase where
  /-- No thread was started, or it was joined. -/
  | absent
  /-- Before the condition of the loop. -/
  | looping
  /-- Before the test of `stopping_` after the interval. -/
  | woken
  /-- Before `IsRunning` reads `pid_`. -/
  | checking
  /-- Before `IsRunning` calls `is_process_alive`. -/
  | looking (pid : Option Nat)
  /-- The child was found dead; before the test of `stopping_`. -/
  | found
  /-- Before `pid_` is cleared. -/
  | forgetting
  /-- Before the number of restarts is tested. -/
  | counting
  /-- Before the test of `stopping_` after the backoff. -/
  | backingOff
  | spawning (phase : SpawnPhase)
  /-- The thread has ended and was not joined. -/
  | finished
deriving DecidableEq, Repr

/-- Where the thread is that calls `Start` and `Stop`. -/
inductive UserPhase where
  | idle
  | starting (phase : SpawnPhase)
  /-- Before `Start` sets the flags and starts the thread. -/
  | launching
  /-- Before `Stop` sets `stopping_`. -/
  | stopping
  /-- Before `Stop` clears `running_`. -/
  | halting
  /-- Before `kill_sidecar` reads `pid_`. -/
  | killing
  /-- `kill_sidecar` has asked the child to terminate, and waits for it. -/
  | awaiting (pid : Nat)
  /-- `kill_sidecar` has killed the child, and waits for it. -/
  | reaping (pid : Nat)
  /-- Before `kill_sidecar` clears `pid_`. -/
  | forgetting
  | joining
  | destroyed
deriving DecidableEq, Repr

/-- The manager, its thread, the thread that calls it, and its children.  Recorded are the restarts that were
attempted since the last `Start`, whether the monitor saw a child run that had exited, whether `Stop` was called by
the destructor, whether it has returned since the last `Start`, and whether the program was terminated because of a
thread. -/
structure SidecarLife where
  pid : Option Nat := none
  running : Bool := false
  stopping : Bool := false
  restartCount : Int := 0
  maxRestarts : Int := 0
  children : Table Nat ChildState := ∅
  user : UserPhase := .idle
  monitor : MonitorPhase := .absent
  destroying : Bool := false
  attempts : Int := 0
  blind : Bool := false
  returned : Bool := false
  terminated : Bool := false

/-- A step of a thread, a call, or the exit of a child.  What a step of a thread may depend on is the child that
was spawned, if any, and whether it connected or was waited for in time. -/
inductive LifeEvent where
  | start (maxRestarts : Int)
  | stop
  | destroy
  | user (child : Option Nat) (ok : Bool)
  | monitor (child : Option Nat) (ok : Bool)
  | exit (child : Nat)
deriving DecidableEq, Repr

namespace SidecarLife

/-! ## Processes -/

/-- `is_process_alive`, for `pid_`. -/
def isAlive (noticesExit : Bool) (s : SidecarLife) (pid : Option Nat) : Bool :=
  match pid.bind s.children.lookup with
  | none => false
  | some .running => true
  | some .exited => !noticesExit

def kill (s : SidecarLife) (child : Nat) : SidecarLife :=
  if s.children.lookup child = some .running then { s with children := s.children.insert child .exited } else s

/-- `wait_process`: whether the child was waited for in time. -/
def wait (s : SidecarLife) (child : Nat) (ok : Bool) : Option SidecarLife :=
  if ok = false then some s
  else if s.children.lookup child = some .exited then some { s with children := s.children.erase child }
  else none

/-- `spawn_sidecar`: a step, and where it is then, or whether it has succeeded. -/
def spawnSidecar (s : SidecarLife) (child : Option Nat) (ok : Bool) :
    SpawnPhase → Option (SidecarLife × (SpawnPhase ⊕ Bool))
  | .forking =>
    match child with
    | none => some (s, .inr false)
    | some child =>
      if (s.children.lookup child).isSome then none
      else some ({ s with children := s.children.insert child .running }, .inl (.storing child))
  | .storing child => some ({ s with pid := some child }, .inl (.accepting child))
  | .accepting child => if ok then some (s, .inr true) else some (s.kill child, .inl (.waiting child))
  | .waiting child => (s.wait child ok).map (·, .inl .clearing)
  | .clearing => some ({ s with pid := none }, .inr false)

/-! ## The threads -/

/-- `Stop` returns; the members are destroyed after it, if it was called for that. -/
def stopReturns (s : SidecarLife) : SidecarLife :=
  if s.destroying then
    { s with returned := true, user := .destroyed, terminated := s.terminated || s.monitor ≠ .absent }
  else { s with returned := true, user := .idle }

/-- A step of `Start` or `Stop`. -/
def userStep (s : SidecarLife) (child : Option Nat) (ok : Bool) : Option SidecarLife :=
  match s.user with
  | .idle => none
  | .starting phase => (s.spawnSidecar child ok phase).map fun r =>
    match r.2 with
    | .inl phase => { r.1 with user := .starting phase }
    | .inr true => { r.1 with user := .launching }
    | .inr false => { r.1 with user := .idle }
  | .launching =>
    -- A thread that was not joined is assigned to.
    if s.monitor ≠ .absent then some { s with terminated := true }
    else some { s with running := true, stopping := false, restartCount := 0, monitor := .looping, user := .idle }
  | .stopping => some { s with stopping := true, user := .halting }
  | .halting => some { s with running := false, user := .killing }
  | .killing =>
    match s.pid with
    | none => some { s with user := .joining }
    | some pid => some { s with user := .awaiting pid }
  | .awaiting pid =>
    if ok then (s.wait pid true).map fun s => { s with user := .forgetting }
    else some { s.kill pid with user := .reaping pid }
  | .reaping pid => (s.wait pid ok).map fun s => { s with user := .forgetting }
  | .forgetting => some { s with pid := none, user := .joining }
  | .joining =>
    match s.monitor with
    | .absent => some s.stopReturns
    | .finished => some ({ s with monitor := .absent } : SidecarLife).stopReturns
    | _ => none
  | .destroyed => none

/-- A step of `monitor_loop`. -/
def monitorStep (noticesExit : Bool) (s : SidecarLife) (child : Option Nat) (ok : Bool) : Option SidecarLife :=
  match s.monitor with
  | .absent => none
  | .looping => some { s with monitor := if s.running && !s.stopping then .woken else .finished }
  | .woken => some { s with monitor := if s.stopping then .finished else .checking }
  | .checking => some { s with monitor := .looking s.pid }
  | .looking pid =>
    if s.isAlive noticesExit pid then
      some { s with
        monitor := .looping
        blind := s.blind || decide (pid.bind s.children.lookup = some .exited) }
    else some { s with monitor := .found }
  | .found => some { s with monitor := if s.stopping then .finished else .forgetting }
  | .forgetting => some { s with pid := none, monitor := .counting }
  | .counting =>
    if s.maxRestarts ≤ s.restartCount then some { s with running := false, monitor := .finished }
    else some { s with monitor := .backingOff }
  | .backingOff =>
    if s.stopping then some { s with monitor := .finished }
    else some { s with attempts := s.attempts + 1, monitor := .spawning .forking }
  | .spawning phase => (s.spawnSidecar child ok phase).map fun r =>
    match r.2 with
    | .inl phase => { r.1 with monitor := .spawning phase }
    | .inr true => { r.1 with restartCount := r.1.restartCount + 1, monitor := .looping }
    | .inr false => { r.1 with monitor := .looping }
  | .finished => none

/-- `Start` is called. -/
def callStart (s : SidecarLife) (maxRestarts : Int) : Option SidecarLife :=
  if s.user ≠ .idle then none
  else if s.running then some s
  else some { s with maxRestarts, attempts := 0, returned := false, user := .starting .forking }

/-- `Stop` is called. -/
def callStop (s : SidecarLife) (destroying : Bool) : Option SidecarLife :=
  if s.user ≠ .idle then none
  else if s.running then some { s with destroying, user := .stopping }
  else some ({ s with destroying } : SidecarLife).stopReturns

def childExits (s : SidecarLife) (child : Nat) : Option SidecarLife :=
  if s.children.lookup child = some .running then some (s.kill child) else none

/-- What happens while the program runs; `none` where it cannot. -/
def proceed (noticesExit : Bool) (s : SidecarLife) : LifeEvent → Option SidecarLife
  | .start maxRestarts => s.callStart maxRestarts
  | .stop => s.callStop false
  | .destroy => s.callStop true
  | .user child ok => s.userStep child ok
  | .monitor child ok => s.monitorStep noticesExit child ok
  | .exit child => s.childExits child

def step (noticesExit : Bool) (s : SidecarLife) (e : LifeEvent) : Option SidecarLife :=
  if s.terminated then none else s.proceed noticesExit e

/-! ## The laws -/

def Alive (s : SidecarLife) (child : Nat) : Prop := s.children.lookup child = some .running

/-- The monitor has not tried too often and has seen every exit, no thread was destroyed or assigned to that was not
joined, and no child is alive once `Stop` has returned. -/
structure Lawful (s : SidecarLife) : Prop where
  bounded : s.attempts ≤ max s.maxRestarts 0
  seen : s.blind = false
  joined : s.terminated = false
  dead : s.returned = true → ∀ child, ¬ s.Alive child


/-- The monitor does not look at a child that has exited and was not waited for. -/
def Noticed (s : SidecarLife) : LifeEvent → Prop
  | .monitor _ _ => ∀ pid, s.monitor = .looking (some pid) → s.children.lookup pid ≠ some .exited
  | _ => True

/-- The thread of the monitor is in `spawn_sidecar`. -/
def IsSpawning (s : SidecarLife) : Prop := ∃ phase, s.monitor = .spawning phase

/-- No step goes wrong: exits are noticed where the monitor looks for them, restarts have not been tried too often,
no thread is lost, and `Stop` does not come while the child is restarted. -/
structure Sound (noticesExit : Bool) (s : SidecarLife) (e : LifeEvent) : Prop where
  noticed : noticesExit = true ∨ s.Noticed e
  bounded : ∀ child ok, e = .monitor child ok → s.monitor = .backingOff → s.stopping = false →
    s.attempts < s.maxRestarts
  launched : ∀ child ok, e = .user child ok → s.user = .launching → s.monitor = .absent
  destroyed : e = .destroy → s.user = .idle → s.running = false → s.monitor = .absent
  alone : ∀ child ok, e = .user child ok → s.user = .stopping → ¬ s.IsSpawning

/-! ## Which children are alive -/

def AtMost (s : SidecarLife) (pid : Option Nat) : Prop := ∀ child, s.Alive child → pid = some child

variable {s s' : SidecarLife}

theorem AtMost.mono {pid : Option Nat} (h : s.AtMost pid)
    (halive : ∀ child, s'.Alive child → s.Alive child) : s'.AtMost pid := fun child hchild =>
  h child (halive child hchild)

theorem AtMost.of_none (h : s.AtMost none) (pid : Option Nat) : s.AtMost pid := fun child hchild =>
  absurd (h child hchild) nofun

theorem alive_kill_iff {child child' : Nat} :
    (s.kill child).Alive child' ↔ s.Alive child' ∧ child' ≠ child := by
  rw [Alive, Alive, kill]
  split_ifs with h
  · dsimp only
    rw [Table.lookup_insert_ite]
    split_ifs with hchild
    · simp [hchild]
    · simp [hchild]
  · constructor
    · intro hchild
      refine ⟨hchild, ?_⟩
      rintro rfl
      exact h hchild
    · exact And.left

theorem AtMost.kill {child : Nat} (h : s.AtMost (some child)) : (s.kill child).AtMost none := by
  intro child' hchild'
  obtain ⟨halive, hne⟩ := alive_kill_iff.1 hchild'
  exact absurd (Option.some.inj (h child' halive)).symm hne

/-- A step that changes nothing but children, of which no other is alive after it. -/
structure Fewer (s s' : SidecarLife) : Prop where
  same : ∃ children, s' = { s with children }
  alive : ∀ child, s'.Alive child → s.Alive child

theorem fewer_kill (s : SidecarLife) (child : Nat) : s.Fewer (s.kill child) where
  same := by
    rw [kill]
    split_ifs
    · exact ⟨_, rfl⟩
    · exact ⟨s.children, rfl⟩
  alive child' hchild' := (alive_kill_iff.1 hchild').1

variable {ok noticesExit : Bool}

theorem fewer_of_wait {child : Nat} (h : s.wait child ok = some s') :
    s.Fewer s' ∧ (ok = true → ¬ s'.Alive child) := by
  rw [wait] at h
  split_ifs at h with hok hexited
  · cases h
    exact ⟨⟨⟨s.children, rfl⟩, fun _ hchild' => hchild'⟩, fun htrue => absurd (hok.symm.trans htrue) nofun⟩
  · cases h
    have halive (child' : Nat) (hchild' : ({ s with children := s.children.erase child } : SidecarLife).Alive child') :
        child' ≠ child ∧ s.Alive child' := by
      rw [Alive] at hchild'
      dsimp only at hchild'
      rw [Table.lookup_erase_ite] at hchild'
      split_ifs at hchild' with hne
      exact ⟨hne, hchild'⟩
    exact ⟨⟨⟨_, rfl⟩, fun child' hchild' => (halive child' hchild').2⟩, fun _ hchild => (halive child hchild).1 rfl⟩

/-- Where `spawn_sidecar` is, all children that are alive are known. -/
def Tracks (s : SidecarLife) (phase : SpawnPhase) : Prop :=
  s.AtMost phase.child ∧ (s.AtMost s.pid ∨ ∃ child, phase = .storing child)

variable {child : Option Nat} {phase : SpawnPhase}

/-- What a step of `spawn_sidecar` does: it changes `pid_` and the children only, and no child is alive but the one
that it is at. -/
theorem spawnSidecar_spec
    {r : SidecarLife × (SpawnPhase ⊕ Bool)} (h : s.spawnSidecar child ok phase = some r) (htracks : s.Tracks phase) :
    (∃ pid children, r.1 = { s with pid, children }) ∧
      (match r.2 with
      | .inl phase' => r.1.Tracks phase'
      | .inr true => r.1.AtMost r.1.pid
      | .inr false => r.1.AtMost none ∧ r.1.AtMost r.1.pid) := by
  obtain ⟨hphase, hpid⟩ := htracks
  cases phase with
  | forking =>
    cases child with
    | none =>
      cases h
      exact ⟨⟨s.pid, s.children, rfl⟩, hphase, hphase.of_none _⟩
    | some child =>
      simp only [spawnSidecar] at h
      split_ifs at h
      cases h
      refine ⟨⟨s.pid, _, rfl⟩, fun child' hchild' => ?_, .inr ⟨child, rfl⟩⟩
      rw [Alive] at hchild'
      dsimp only at hchild'
      rw [Table.lookup_insert_ite] at hchild'
      split_ifs at hchild' with hsame
      · rw [hsame]
        rfl
      · exact absurd (hphase child' hchild') nofun
  | storing child' =>
    cases h
    exact ⟨⟨_, s.children, rfl⟩, hphase, .inl hphase⟩
  | accepting child' =>
    simp only [spawnSidecar] at h
    have hpid : s.AtMost s.pid := hpid.resolve_right (fun ⟨_, hstoring⟩ => SpawnPhase.noConfusion hstoring)
    split_ifs at h with hok
    · cases h
      exact ⟨⟨s.pid, s.children, rfl⟩, hpid⟩
    · cases h
      obtain ⟨children, hchildren⟩ := (s.fewer_kill child').same
      exact ⟨⟨s.pid, children, hchildren⟩, AtMost.kill hphase, .inl ((AtMost.kill hphase).of_none _)⟩
  | waiting child' =>
    obtain ⟨s', hwait, rfl⟩ := Option.map_eq_some_iff.1 h
    obtain ⟨⟨⟨children, rfl⟩, hfewer⟩, -⟩ := fewer_of_wait hwait
    have hnone := hphase.mono hfewer
    exact ⟨⟨s.pid, children, rfl⟩, hnone, .inl (hnone.of_none _)⟩
  | clearing =>
    cases h
    exact ⟨⟨none, s.children, rfl⟩, hphase, hphase⟩

/-! ## The invariant -/

def Ended (s : SidecarLife) : Prop := s.monitor = .absent ∨ s.monitor = .finished

/-- What the monitor relies on where it is. -/
def MonitorSound (s : SidecarLife) : Prop :=
  match s.monitor with
  | .looking pid => s.AtMost pid
  | .found => s.AtMost none
  | .forgetting => s.AtMost none
  | .counting => s.AtMost none
  | .backingOff => s.AtMost none
  | .spawning phase => s.Tracks phase
  | _ => True

/-- What `Start` and `Stop` rely on where they are. -/
def UserSound (s : SidecarLife) : Prop :=
  match s.user with
  | .idle => s.running = false → s.Ended ∧ s.AtMost none
  | .starting phase => s.Ended ∧ s.returned = false ∧ s.Tracks phase
  | .launching => s.Ended ∧ s.returned = false
  | .stopping => True
  | .halting => s.stopping = true ∧ ¬ s.IsSpawning
  | .killing => s.stopping = true ∧ ¬ s.IsSpawning
  | .awaiting pid => s.stopping = true ∧ ¬ s.IsSpawning ∧ s.AtMost (some pid)
  | .reaping _ => s.stopping = true ∧ ¬ s.IsSpawning ∧ s.AtMost none
  | .forgetting => s.stopping = true ∧ ¬ s.IsSpawning ∧ s.AtMost none
  | .joining => s.stopping = true ∧ ¬ s.IsSpawning ∧ s.AtMost none
  | .destroyed => s.Ended ∧ s.AtMost none

/-- What holds in every run of sound steps. -/
structure Inv (s : SidecarLife) : Prop where
  tracked : s.AtMost s.pid ∨ (∃ child, s.monitor = .spawning (.storing child)) ∨
    ∃ child, s.user = .starting (.storing child)
  monitor : s.MonitorSound
  user : s.UserSound
  returned : s.returned = true → s.Ended ∧ s.AtMost none

theorem Tracks.mono (h : s.Tracks phase) (hpid : s'.pid = s.pid)
    (halive : ∀ child, s'.Alive child → s.Alive child) : s'.Tracks phase := by
  refine ⟨h.1.mono halive, ?_⟩
  rw [hpid]
  exact h.2.imp_left (·.mono halive)

theorem MonitorSound.of_pid (h : s.MonitorSound) (hmonitor : ¬ s.IsSpawning)
    (hsame : s'.monitor = s.monitor) (halive : ∀ child, s'.Alive child → s.Alive child) : s'.MonitorSound := by
  rw [MonitorSound] at h ⊢
  rw [hsame]
  cases hphase : s.monitor with
  | spawning phase => exact absurd ⟨phase, hphase⟩ hmonitor
  | looking pid =>
    rw [hphase] at h
    exact h.mono halive
  | _ =>
    rw [hphase] at h
    first | trivial | exact h.mono halive

theorem Ended.monitorSound (h : s.Ended) : s.MonitorSound := by
  rw [MonitorSound]
  rcases h with h | h
  · rw [h]
    trivial
  · rw [h]
    trivial

theorem Ended.not_isSpawning (h : s.Ended) : ¬ s.IsSpawning := by
  rintro ⟨phase, hphase⟩
  rcases h with h | h
  · rw [h] at hphase
    cases hphase
  · rw [h] at hphase
    cases hphase

theorem Inv.fewer (h : s.Inv) (hfewer : s.Fewer s') : s'.Inv := by
  obtain ⟨⟨children, rfl⟩, halive⟩ := hfewer
  refine ⟨h.tracked.imp_left (·.mono halive), ?_, ?_, fun hreturned => ?_⟩
  · have hmonitor := h.monitor
    rw [MonitorSound] at hmonitor ⊢
    dsimp only
    cases hphase : s.monitor with
    | looking pid =>
      rw [hphase] at hmonitor
      exact hmonitor.mono halive
    | spawning phase =>
      rw [hphase] at hmonitor
      exact hmonitor.mono rfl halive
    | _ =>
      rw [hphase] at hmonitor
      first | trivial | exact hmonitor.mono halive
  · have huser := h.user
    rw [UserSound] at huser ⊢
    dsimp only
    cases hphase : s.user with
    | idle =>
      rw [hphase] at huser
      exact fun hrunning => (huser hrunning).imp_right (·.mono halive)
    | starting phase =>
      rw [hphase] at huser
      exact ⟨huser.1, huser.2.1, huser.2.2.mono rfl halive⟩
    | launching =>
      rw [hphase] at huser
      exact huser
    | stopping => trivial
    | halting =>
      rw [hphase] at huser
      exact huser
    | killing =>
      rw [hphase] at huser
      exact huser
    | destroyed =>
      rw [hphase] at huser
      exact huser.imp_right (·.mono halive)
    | _ =>
      rw [hphase] at huser
      exact ⟨huser.1, huser.2.1, huser.2.2.mono halive⟩
  · exact (h.returned hreturned).imp_right (·.mono halive)

theorem Inv.stopReturns (hended : s.Ended) (hnone : s.AtMost none) : s.stopReturns.Inv := by
  rw [SidecarLife.stopReturns]
  split_ifs
  · exact ⟨.inl (hnone.of_none _), Ended.monitorSound hended, ⟨hended, hnone⟩, fun _ => ⟨hended, hnone⟩⟩
  · exact ⟨.inl (hnone.of_none _), Ended.monitorSound hended, fun _ => ⟨hended, hnone⟩, fun _ => ⟨hended, hnone⟩⟩

theorem Inv.tracked_of_user (h : s.Inv) (huser : ∀ phase, s.user ≠ .starting phase) :
    s.AtMost s.pid ∨ ∃ child, s.monitor = .spawning (.storing child) := by
  rcases h.tracked with hpid | hmonitor | ⟨child, hstoring⟩
  · exact .inl hpid
  · exact .inr hmonitor
  · exact absurd hstoring (huser _)

theorem Inv.atMost_pid (h : s.Inv) (huser : ∀ phase, s.user ≠ .starting phase)
    (hmonitor : ¬ s.IsSpawning) : s.AtMost s.pid :=
  (h.tracked_of_user huser).resolve_right fun ⟨_, hstoring⟩ => hmonitor ⟨_, hstoring⟩

/-- A step of `Start` or `Stop`. -/
theorem Inv.userStep (h : s.Inv)
    (hlaunched : s.user = .launching → s.monitor = .absent) (halone : s.user = .stopping → ¬ s.IsSpawning)
    (hstep : s.userStep child ok = some s') : s'.Inv := by
  have huser := h.user
  rw [UserSound] at huser
  rw [SidecarLife.userStep] at hstep
  cases hphase : s.user with
  | idle =>
    rw [hphase] at hstep
    cases hstep
  | starting phase =>
    rw [hphase] at huser hstep
    obtain ⟨hended, hreturned, htracks⟩ := huser
    obtain ⟨⟨s₁, result⟩, hspawn, rfl⟩ := Option.map_eq_some_iff.1 hstep
    obtain ⟨⟨pid, children, hs₁⟩, hresult⟩ := spawnSidecar_spec hspawn htracks
    dsimp only at hs₁ hresult ⊢
    subst hs₁
    have hended' (user : UserPhase) : ({ s with pid, children, user } : SidecarLife).Ended := hended
    cases result with
    | inl phase' =>
      refine ⟨?_, Ended.monitorSound (hended' _), ⟨hended, hreturned, hresult⟩,
        fun hreturned' => absurd (hreturned.symm.trans hreturned') nofun⟩
      rcases hresult.2 with hpid | ⟨child, rfl⟩
      · exact .inl hpid
      · exact .inr (.inr ⟨child, rfl⟩)
    | inr success =>
      cases success with
      | true =>
        exact ⟨.inl hresult, Ended.monitorSound (hended' _), ⟨hended, hreturned⟩,
          fun hreturned' => absurd (hreturned.symm.trans hreturned') nofun⟩
      | false =>
        exact ⟨.inl hresult.2, Ended.monitorSound (hended' _), fun _ => ⟨hended, hresult.1⟩,
          fun hreturned' => absurd (hreturned.symm.trans hreturned') nofun⟩
  | launching =>
    rw [hphase] at huser hstep
    have hnot : ∀ phase, s.user ≠ .starting phase := by
      rw [hphase]
      exact nofun
    have hmonitor := hlaunched hphase
    dsimp only at hstep
    rw [if_neg (not_not.2 hmonitor)] at hstep
    cases hstep
    have hpid := h.atMost_pid hnot huser.1.not_isSpawning
    exact ⟨.inl hpid, trivial, nofun, fun hreturned => absurd (huser.2.symm.trans hreturned) nofun⟩
  | stopping =>
    rw [hphase] at hstep
    cases hstep
    have hnot : ∀ phase, s.user ≠ .starting phase := by
      rw [hphase]
      exact nofun
    have hpid := h.atMost_pid hnot (halone hphase)
    exact ⟨.inl hpid, h.monitor, ⟨rfl, halone hphase⟩, h.returned⟩
  | halting =>
    rw [hphase] at huser hstep
    cases hstep
    have hnot : ∀ phase, s.user ≠ .starting phase := by
      rw [hphase]
      exact nofun
    exact ⟨.inl (h.atMost_pid hnot huser.2), h.monitor, huser, h.returned⟩
  | killing =>
    rw [hphase] at huser hstep
    have hnot : ∀ phase, s.user ≠ .starting phase := by
      rw [hphase]
      exact nofun
    have hpid := h.atMost_pid hnot huser.2
    dsimp only at hstep
    split at hstep
    · next hload =>
        cases hstep
        refine ⟨.inl hpid, h.monitor, ⟨huser.1, huser.2, ?_⟩, h.returned⟩
        rwa [hload] at hpid
    · next pid hload =>
        cases hstep
        refine ⟨.inl hpid, h.monitor, ⟨huser.1, huser.2, ?_⟩, h.returned⟩
        rwa [hload] at hpid
  | awaiting pid =>
    rw [hphase] at huser hstep
    obtain ⟨hstopping, hmonitor, hpid⟩ := huser
    dsimp only at hstep
    split_ifs at hstep with hok
    · obtain ⟨s₁, hwait, rfl⟩ := Option.map_eq_some_iff.1 hstep
      obtain ⟨hfewer, hdead⟩ := fewer_of_wait hwait
      have hnone : s₁.AtMost none := by
        intro child hchild
        cases hpid child (hfewer.alive child hchild)
        exact absurd hchild (hdead rfl)
      have hinv := h.fewer hfewer
      obtain ⟨⟨children, rfl⟩, -⟩ := hfewer
      exact ⟨.inl (hnone.of_none _), hinv.monitor, ⟨hstopping, hmonitor, hnone⟩, hinv.returned⟩
    · cases hstep
      have hnone : (s.kill pid).AtMost none := hpid.kill
      have hinv := h.fewer (s.fewer_kill pid)
      obtain ⟨children, hchildren⟩ := (s.fewer_kill pid).same
      rw [hchildren] at hnone hinv ⊢
      exact ⟨.inl (hnone.of_none _), hinv.monitor, ⟨hstopping, hmonitor, hnone⟩, hinv.returned⟩
  | reaping pid =>
    rw [hphase] at huser hstep
    obtain ⟨hstopping, hmonitor, hnone⟩ := huser
    obtain ⟨s₁, hwait, rfl⟩ := Option.map_eq_some_iff.1 hstep
    obtain ⟨hfewer, -⟩ := fewer_of_wait hwait
    have hnone' := hnone.mono hfewer.alive
    have hinv := h.fewer hfewer
    obtain ⟨⟨children, rfl⟩, -⟩ := hfewer
    exact ⟨.inl (hnone'.of_none _), hinv.monitor, ⟨hstopping, hmonitor, hnone'⟩, hinv.returned⟩
  | forgetting =>
    rw [hphase] at huser hstep
    cases hstep
    exact ⟨.inl huser.2.2, h.monitor.of_pid huser.2.1 rfl fun _ => id, huser, h.returned⟩
  | joining =>
    rw [hphase] at huser hstep
    obtain ⟨-, -, hnone⟩ := huser
    dsimp only at hstep
    split at hstep
    · next habsent =>
        cases hstep
        exact Inv.stopReturns (.inl habsent) hnone
    · cases hstep
      exact Inv.stopReturns (.inl rfl) hnone
    · cases hstep
  | destroyed =>
    rw [hphase] at hstep
    cases hstep

theorem UserSound.monitor (h : s.UserSound) (hactive : ¬ s.Ended)
    (huser : s'.user = s.user) (hrunning : s'.running = s.running ∨ s'.Ended ∧ s'.AtMost none)
    (hquiet : s.stopping = true → ¬ s.IsSpawning →
      s'.stopping = true ∧ ¬ s'.IsSpawning ∧ ∀ child, s'.Alive child → s.Alive child) : s'.UserSound := by
  rw [UserSound] at h ⊢
  rw [huser]
  cases hphase : s.user with
  | idle =>
    rw [hphase] at h
    intro hfalse
    rcases hrunning with hsame | hended
    · exact absurd (h (hsame.symm.trans hfalse)).1 hactive
    · exact hended
  | starting phase =>
    rw [hphase] at h
    exact absurd h.1 hactive
  | launching =>
    rw [hphase] at h
    exact absurd h.1 hactive
  | stopping => trivial
  | halting =>
    rw [hphase] at h
    obtain ⟨hstopping, hmonitor, -⟩ := hquiet h.1 h.2
    exact ⟨hstopping, hmonitor⟩
  | killing =>
    rw [hphase] at h
    obtain ⟨hstopping, hmonitor, -⟩ := hquiet h.1 h.2
    exact ⟨hstopping, hmonitor⟩
  | destroyed =>
    rw [hphase] at h
    exact absurd h.1 hactive
  | _ =>
    rw [hphase] at h
    obtain ⟨hstopping, hmonitor, halive⟩ := hquiet h.1 h.2.1
    exact ⟨hstopping, hmonitor, h.2.2.mono halive⟩

theorem not_ended {phase : MonitorPhase} (hphase : s.monitor = phase) (habsent : phase ≠ .absent)
    (hfinished : phase ≠ .finished) : ¬ s.Ended := by
  rw [Ended, hphase]
  exact not_or.2 ⟨habsent, hfinished⟩

theorem not_isSpawning {phase : MonitorPhase} (hphase : s.monitor = phase)
    (hspawning : ∀ p, phase ≠ .spawning p) : ¬ s.IsSpawning := by
  rintro ⟨p, hp⟩
  exact hspawning p (hphase.symm.trans hp)

theorem Inv.goOn (h : s.Inv) (hactive : ¬ s.Ended) (hmonitor : ¬ s.IsSpawning)
    (monitor : MonitorPhase) (hnext : ∀ phase, monitor ≠ .spawning phase)
    (hsound : ({ s with monitor } : SidecarLife).MonitorSound) : ({ s with monitor } : SidecarLife).Inv := by
  have hnext' : ¬ ({ s with monitor } : SidecarLife).IsSpawning := fun ⟨phase, hphase⟩ => hnext phase hphase
  refine ⟨?_, hsound, h.user.monitor hactive rfl (.inl rfl) fun hstopping _ => ⟨hstopping, hnext', fun _ => id⟩,
    fun hreturned => absurd (h.returned hreturned).1 hactive⟩
  rcases h.tracked with hpid | ⟨child, hstoring⟩ | hstoring
  · exact .inl hpid
  · exact absurd ⟨_, hstoring⟩ hmonitor
  · exact .inr (.inr hstoring)

theorem not_alive_of_isAlive {pid : Option Nat}
    (h : ¬ s.isAlive noticesExit pid = true) (hpid : s.AtMost pid) : s.AtMost none := by
  intro child hchild
  refine absurd ?_ h
  rw [hpid child hchild, isAlive, Option.bind_some, hchild]

/-- A step of the monitor. -/
theorem Inv.monitorStep (h : s.Inv)
    (hstep : s.monitorStep noticesExit child ok = some s') : s'.Inv := by
  have hmonitor := h.monitor
  rw [MonitorSound] at hmonitor
  rw [SidecarLife.monitorStep] at hstep
  cases hphase : s.monitor with
  | absent =>
    rw [hphase] at hstep
    cases hstep
  | looping =>
    rw [hphase] at hstep
    cases hstep
    refine h.goOn (not_ended hphase nofun nofun) (not_isSpawning hphase nofun) _ ?_ ?_
    · split_ifs <;> exact nofun
    · split_ifs <;> trivial
  | woken =>
    rw [hphase] at hstep
    cases hstep
    refine h.goOn (not_ended hphase nofun nofun) (not_isSpawning hphase nofun) _ ?_ ?_
    · split_ifs <;> exact nofun
    · split_ifs <;> trivial
  | checking =>
    rw [hphase] at hstep
    cases hstep
    have hactive := not_ended hphase nofun nofun
    have hspawning := not_isSpawning hphase nofun
    have huser : ∀ phase, s.user ≠ .starting phase := by
      intro phase hstarting
      have huser := h.user
      rw [UserSound, hstarting] at huser
      exact hactive huser.1
    exact h.goOn hactive hspawning _ nofun (h.atMost_pid huser hspawning)
  | looking pid =>
    rw [hphase] at hmonitor hstep
    dsimp only at hstep
    split_ifs at hstep with halive
    · cases hstep
      have hnext := h.goOn (not_ended hphase nofun nofun) (not_isSpawning hphase nofun)
        .looping nofun trivial
      exact ⟨hnext.tracked, hnext.monitor, hnext.user, hnext.returned⟩
    · cases hstep
      exact h.goOn (not_ended hphase nofun nofun) (not_isSpawning hphase nofun) _ nofun
        (not_alive_of_isAlive halive hmonitor)
  | found =>
    rw [hphase] at hmonitor hstep
    cases hstep
    refine h.goOn (not_ended hphase nofun nofun) (not_isSpawning hphase nofun) _ ?_ ?_
    · split_ifs <;> exact nofun
    · split_ifs
      · trivial
      · exact hmonitor
  | forgetting =>
    rw [hphase] at hmonitor hstep
    cases hstep
    have hactive := not_ended hphase nofun nofun
    have hnext := h.goOn hactive (not_isSpawning hphase nofun) .counting nofun hmonitor
    refine ⟨.inl hmonitor, hmonitor, ?_, hnext.returned⟩
    exact h.user.monitor hactive rfl (.inl rfl) fun hstopping _ => ⟨hstopping, not_isSpawning rfl nofun, fun _ => id⟩
  | counting =>
    rw [hphase] at hmonitor hstep
    dsimp only at hstep
    have hactive := not_ended hphase nofun nofun
    split_ifs at hstep with hmany
    · cases hstep
      have hnext := h.goOn hactive (not_isSpawning hphase nofun) .finished nofun trivial
      refine ⟨hnext.tracked, trivial, ?_, hnext.returned⟩
      refine h.user.monitor hactive rfl (.inr ⟨.inr rfl, hmonitor⟩) fun hstopping _ => ?_
      exact ⟨hstopping, not_isSpawning rfl nofun, fun _ => id⟩
    · cases hstep
      exact h.goOn hactive (not_isSpawning hphase nofun) _ nofun hmonitor
  | backingOff =>
    rw [hphase] at hmonitor hstep
    dsimp only at hstep
    have hactive := not_ended hphase nofun nofun
    split_ifs at hstep with hstopping
    · cases hstep
      exact h.goOn hactive (not_isSpawning hphase nofun) _ nofun trivial
    · cases hstep
      refine ⟨.inl (hmonitor.of_none _), ⟨hmonitor, .inl (hmonitor.of_none _)⟩, ?_,
        fun hreturned => absurd (h.returned hreturned).1 hactive⟩
      exact h.user.monitor hactive rfl (.inl rfl) fun hstopping' => absurd hstopping' hstopping
  | spawning phase =>
    rw [hphase] at hmonitor hstep
    have hactive := not_ended hphase nofun nofun
    have hspawning : s.IsSpawning := ⟨phase, hphase⟩
    obtain ⟨⟨s₁, result⟩, hspawn, rfl⟩ := Option.map_eq_some_iff.1 hstep
    obtain ⟨⟨pid, children, hs₁⟩, hresult⟩ := spawnSidecar_spec hspawn hmonitor
    dsimp only at hs₁ hresult ⊢
    subst hs₁
    have huser (s' : SidecarLife) (huser : s'.user = s.user) (hrunning : s'.running = s.running) : s'.UserSound :=
      h.user.monitor hactive huser (.inl hrunning) fun _ hnot => absurd hspawning hnot
    have hreturned (hreturned : s.returned = true) : s.Ended ∧ s.AtMost none := h.returned hreturned
    cases result with
    | inl phase' =>
      refine ⟨?_, hresult, huser _ rfl rfl, fun hreturned' => absurd (hreturned hreturned').1 hactive⟩
      rcases hresult.2 with hpid | ⟨child, rfl⟩
      · exact .inl hpid
      · exact .inr (.inl ⟨child, rfl⟩)
    | inr success =>
      cases success with
      | true =>
        exact ⟨.inl hresult, trivial, huser _ rfl rfl, fun hreturned' => absurd (hreturned hreturned').1 hactive⟩
      | false =>
        exact ⟨.inl hresult.2, trivial, huser _ rfl rfl,
          fun hreturned' => absurd (hreturned hreturned').1 hactive⟩
  | finished =>
    rw [hphase] at hstep
    cases hstep

theorem Inv.callStop (h : s.Inv) {destroying : Bool}
    (hstep : s.callStop destroying = some s') : s'.Inv := by
  rw [SidecarLife.callStop] at hstep
  split_ifs at hstep with hidle hrunning
  · cases hstep
    have hnot : ∀ phase, s.user ≠ .starting phase := by
      rw [not_not.1 hidle]
      exact nofun
    exact ⟨(h.tracked_of_user hnot).imp_right .inl, h.monitor, trivial, h.returned⟩
  · cases hstep
    have huser := h.user
    rw [UserSound, not_not.1 hidle] at huser
    obtain ⟨hended, hnone⟩ := huser (Bool.eq_false_iff.2 hrunning)
    exact Inv.stopReturns hended hnone

theorem Inv.callStart (h : s.Inv) {maxRestarts : Int}
    (hstep : s.callStart maxRestarts = some s') : s'.Inv := by
  rw [SidecarLife.callStart] at hstep
  split_ifs at hstep with hidle hrunning
  · cases hstep
    exact h
  · cases hstep
    have huser := h.user
    rw [UserSound, not_not.1 hidle] at huser
    obtain ⟨hended, hnone⟩ := huser (Bool.eq_false_iff.2 hrunning)
    exact ⟨.inl (hnone.of_none _), Ended.monitorSound hended, ⟨hended, rfl, hnone, .inl (hnone.of_none _)⟩, nofun⟩

theorem fewer_of_childExits {child : Nat} (h : s.childExits child = some s') : s.Fewer s' := by
  rw [childExits] at h
  split_ifs at h
  cases h
  exact s.fewer_kill child

variable {e : LifeEvent}

theorem step_eq_some_iff :
    s.step noticesExit e = some s' ↔ s.terminated = false ∧ s.proceed noticesExit e = some s' := by
  rw [step]
  split_ifs with hterminated
  · simp [hterminated]
  · simp [hterminated]

theorem Inv.step (h : s.Inv) (hsound : s.Sound noticesExit e)
    (hstep : s.step noticesExit e = some s') : s'.Inv := by
  obtain ⟨-, hstep⟩ := step_eq_some_iff.1 hstep
  cases e with
  | start maxRestarts => exact h.callStart hstep
  | stop => exact h.callStop hstep
  | destroy => exact h.callStop hstep
  | user child ok => exact h.userStep (hsound.launched child ok rfl) (hsound.alone child ok rfl) hstep
  | monitor child ok => exact h.monitorStep hstep
  | exit child => exact h.fewer (fewer_of_childExits hstep)

/-! ## The laws hold in sound runs -/

/-- What the laws are about besides the children. -/
structure Regular (s : SidecarLife) : Prop where
  bounded : s.attempts ≤ max s.maxRestarts 0
  seen : s.blind = false
  joined : s.terminated = false

theorem Regular.of_same (h : s.Regular) (hattempts : s'.attempts = s.attempts)
    (hmax : s'.maxRestarts = s.maxRestarts) (hblind : s'.blind = s.blind)
    (hterminated : s'.terminated = s.terminated) : s'.Regular where
  bounded := by
    rw [hattempts, hmax]
    exact h.bounded
  seen := hblind.trans h.seen
  joined := hterminated.trans h.joined

theorem Regular.fewer (h : s.Regular) (hfewer : s.Fewer s') : s'.Regular := by
  obtain ⟨⟨children, rfl⟩, -⟩ := hfewer
  exact h.of_same rfl rfl rfl rfl

theorem Regular.stopReturns (h : s.Regular) (hmonitor : s.destroying = true → s.monitor = .absent) :
    s.stopReturns.Regular := by
  rw [SidecarLife.stopReturns]
  split_ifs with hdestroying
  · refine h.of_same rfl rfl rfl ?_
    dsimp only
    rw [hmonitor hdestroying]
    simp
  · exact h.of_same rfl rfl rfl rfl

theorem Regular.spawn (h : s.Regular)
    {r : SidecarLife × (SpawnPhase ⊕ Bool)} (hspawn : s.spawnSidecar child ok phase = some r)
    (htracks : s.Tracks phase) : r.1.Regular := by
  obtain ⟨⟨pid, children, hr⟩, -⟩ := spawnSidecar_spec hspawn htracks
  rw [hr]
  exact h.of_same rfl rfl rfl rfl

theorem Regular.userStep (h : s.Regular) (hinv : s.Inv)
    (hlaunched : s.user = .launching → s.monitor = .absent) (hstep : s.userStep child ok = some s') :
    s'.Regular := by
  have huser := hinv.user
  rw [UserSound] at huser
  rw [SidecarLife.userStep] at hstep
  cases hphase : s.user with
  | starting phase =>
    rw [hphase] at huser hstep
    obtain ⟨r, hspawn, rfl⟩ := Option.map_eq_some_iff.1 hstep
    have hr := h.spawn hspawn huser.2.2
    split <;> exact hr.of_same rfl rfl rfl rfl
  | launching =>
    rw [hphase] at hstep
    dsimp only at hstep
    rw [if_neg (not_not.2 (hlaunched hphase))] at hstep
    cases hstep
    exact h.of_same rfl rfl rfl rfl
  | killing =>
    rw [hphase] at hstep
    dsimp only at hstep
    split at hstep <;> cases hstep <;> exact h.of_same rfl rfl rfl rfl
  | awaiting pid =>
    rw [hphase] at hstep
    dsimp only at hstep
    split_ifs at hstep with hok
    · obtain ⟨s₁, hwait, rfl⟩ := Option.map_eq_some_iff.1 hstep
      exact (h.fewer (fewer_of_wait hwait).1).of_same rfl rfl rfl rfl
    · cases hstep
      exact (h.fewer (s.fewer_kill pid)).of_same rfl rfl rfl rfl
  | reaping pid =>
    rw [hphase] at hstep
    obtain ⟨s₁, hwait, rfl⟩ := Option.map_eq_some_iff.1 hstep
    exact (h.fewer (fewer_of_wait hwait).1).of_same rfl rfl rfl rfl
  | joining =>
    rw [hphase] at hstep
    dsimp only at hstep
    split at hstep
    · next habsent =>
        cases hstep
        exact h.stopReturns fun _ => habsent
    · cases hstep
      exact Regular.stopReturns (h.of_same rfl rfl rfl rfl) fun _ => rfl
    · cases hstep
  | idle =>
    rw [hphase] at hstep
    cases hstep
  | destroyed =>
    rw [hphase] at hstep
    cases hstep
  | _ =>
    rw [hphase] at hstep
    cases hstep
    exact h.of_same rfl rfl rfl rfl

theorem Regular.monitorStep (h : s.Regular) (hinv : s.Inv) (hnoticed : noticesExit = true ∨ s.Noticed (.monitor child ok))
    (hbounded : s.monitor = .backingOff → s.stopping = false → s.attempts < s.maxRestarts)
    (hstep : s.monitorStep noticesExit child ok = some s') : s'.Regular := by
  have hmonitor := hinv.monitor
  rw [MonitorSound] at hmonitor
  rw [SidecarLife.monitorStep] at hstep
  cases hphase : s.monitor with
  | absent =>
    rw [hphase] at hstep
    cases hstep
  | finished =>
    rw [hphase] at hstep
    cases hstep
  | looking pid =>
    rw [hphase] at hstep
    dsimp only at hstep
    split_ifs at hstep with halive
    · cases hstep
      refine ⟨h.bounded, ?_, h.joined⟩
      dsimp only
      rw [h.seen, Bool.false_or, decide_eq_false_iff_not]
      intro hexited
      rw [isAlive, hexited] at halive
      rcases hnoticed with hnoticed | hnoticed
      · rw [hnoticed] at halive
        cases halive
      · obtain ⟨pid, rfl, hlookup⟩ := Option.bind_eq_some_iff.1 hexited
        exact hnoticed pid hphase hlookup
    · cases hstep
      exact h.of_same rfl rfl rfl rfl
  | counting =>
    rw [hphase] at hstep
    dsimp only at hstep
    split_ifs at hstep <;> cases hstep <;> exact h.of_same rfl rfl rfl rfl
  | backingOff =>
    rw [hphase] at hstep
    dsimp only at hstep
    split_ifs at hstep with hstopping
    · cases hstep
      exact h.of_same rfl rfl rfl rfl
    · cases hstep
      have hless := hbounded hphase (Bool.eq_false_iff.2 hstopping)
      exact ⟨Int.le_trans (Int.add_one_le_of_lt hless) (Int.le_max_left _ _), h.seen, h.joined⟩
  | spawning phase =>
    rw [hphase] at hmonitor hstep
    obtain ⟨r, hspawn, rfl⟩ := Option.map_eq_some_iff.1 hstep
    have hr := h.spawn hspawn hmonitor
    split <;> exact hr.of_same rfl rfl rfl rfl
  | _ =>
    rw [hphase] at hstep
    cases hstep
    exact h.of_same rfl rfl rfl rfl

theorem Regular.step (h : s.Regular) (hinv : s.Inv)
    (hsound : s.Sound noticesExit e) (hstep : s.step noticesExit e = some s') : s'.Regular := by
  obtain ⟨-, hstep⟩ := step_eq_some_iff.1 hstep
  cases e with
  | start maxRestarts =>
    rw [proceed, callStart] at hstep
    split_ifs at hstep
    · cases hstep
      exact h
    · cases hstep
      exact ⟨Int.le_max_right _ _, h.seen, h.joined⟩
  | stop =>
    rw [proceed, callStop] at hstep
    split_ifs at hstep
    · cases hstep
      exact h.of_same rfl rfl rfl rfl
    · cases hstep
      exact Regular.stopReturns (h.of_same rfl rfl rfl rfl) nofun
  | destroy =>
    rw [proceed, callStop] at hstep
    split_ifs at hstep with hidle hrunning
    · cases hstep
      exact h.of_same rfl rfl rfl rfl
    · cases hstep
      exact Regular.stopReturns (h.of_same rfl rfl rfl rfl) fun _ =>
        hsound.destroyed rfl (not_not.1 hidle) (Bool.eq_false_iff.2 hrunning)
  | user child ok => exact h.userStep hinv (hsound.launched child ok rfl) hstep
  | monitor child ok => exact h.monitorStep hinv hsound.noticed (hsound.bounded child ok rfl) hstep
  | exit child => exact h.fewer (fewer_of_childExits hstep)

def LawfulAfter (noticesExit : Bool) (s : SidecarLife) (e : LifeEvent) : Prop :=
  ∀ s', s.step noticesExit e = some s' → s'.Lawful

theorem lawful_of_sound {es : List LifeEvent}
    (h : Along (step noticesExit) (Sound noticesExit) {} es) :
    Along (step noticesExit) (LawfulAfter noticesExit) {} es := by
  have hstep (s : SidecarLife) (e : LifeEvent) (s' : SidecarLife) (hs : s.Inv ∧ s.Regular)
      (hsound : s.Sound noticesExit e) (hs' : s.step noticesExit e = some s') : s'.Inv ∧ s'.Regular :=
    ⟨hs.1.step hsound hs', hs.2.step hs.1 hsound hs'⟩
  have hinit : Inv {} ∧ Regular {} := by
    have hnone : AtMost {} none := fun child hchild => by cases hchild
    exact ⟨⟨.inl hnone, trivial, fun _ => ⟨.inl rfl, hnone⟩, nofun⟩, Int.le_max_right _ _, rfl, rfl⟩
  refine h.imp hstep (fun s e hs hsound s' hs' => ?_) hinit
  obtain ⟨hinv, hregular⟩ := hstep s e s' hs hsound hs'
  refine ⟨hregular.bounded, hregular.seen, hregular.joined, fun hreturned child hchild => ?_⟩
  exact absurd ((hinv.returned hreturned).2 child hchild) nofun

/-! ## Where exits are not noticed -/

def Known (s : SidecarLife) (child : Nat) : Prop := s.children.lookup child ≠ none

/-- The monitor looks after a child that was not waited for, and `Stop` has not come. -/
def Watching (s : SidecarLife) : Prop :=
  s.stopping = false ∧ ∃ pid, s.pid = some pid ∧ s.Known pid ∧
    (s.monitor = .looping ∨ s.monitor = .woken ∨ s.monitor = .checking ∨ s.monitor = .looking (some pid))

/-- The monitor does not get beyond the test of `stopping_`. -/
def Heedful (s : SidecarLife) : Prop :=
  s.stopping = true ∧ (s.monitor = .looping ∨ s.monitor = .woken ∨ s.monitor = .checking ∨
    (∃ pid, s.monitor = .looking pid) ∨ s.monitor = .found ∨ s.Ended)

/-- What holds in every run where exits are not noticed: the monitor finds no child dead before `Stop` has come. -/
def Unnoticing (s : SidecarLife) : Prop :=
  match s.user with
  | .idle => s.monitor = .absent ∧ s.running = false ∨ s.running = true ∧ s.Watching
  | .starting (.storing child) => s.monitor = .absent ∧ s.running = false ∧ s.Known child
  | .starting (.accepting child) => s.monitor = .absent ∧ s.running = false ∧ s.pid = some child ∧ s.Known child
  | .starting _ => s.monitor = .absent ∧ s.running = false
  | .launching => s.monitor = .absent ∧ ∃ pid, s.pid = some pid ∧ s.Known pid
  | .stopping => s.running = true ∧ s.Watching
  | .halting => s.Heedful
  | .destroyed => s.monitor = .absent
  | _ => s.Heedful ∧ s.running = false

theorem known_kill_iff {child child' : Nat} : (s.kill child).Known child' ↔ s.Known child' := by
  rw [Known, Known, kill]
  split_ifs with h
  · dsimp only
    rw [Table.lookup_insert_ite]
    split_ifs with hchild
    · rw [hchild, h]
      simp
    · exact Iff.rfl
  · exact Iff.rfl

theorem Watching.monitorStep (h : s.Watching) (hrunning : s.running = true) (hstep : s.monitorStep false child ok = some s') :
    s'.Watching ∧ s'.running = true ∧ s'.user = s.user := by
  obtain ⟨hstopping, pid, hpid, hknown, hmonitor⟩ := h
  rw [SidecarLife.monitorStep] at hstep
  rcases hmonitor with hphase | hphase | hphase | hphase
  · rw [hphase, hrunning, hstopping] at hstep
    cases hstep
    exact ⟨⟨rfl, pid, hpid, hknown, .inr (.inl rfl)⟩, rfl, rfl⟩
  · rw [hphase, hstopping] at hstep
    cases hstep
    exact ⟨⟨rfl, pid, hpid, hknown, .inr (.inr (.inl rfl))⟩, hrunning, rfl⟩
  · rw [hphase, hpid] at hstep
    cases hstep
    exact ⟨⟨hstopping, pid, rfl, hknown, .inr (.inr (.inr rfl))⟩, hrunning, rfl⟩
  · have halive : s.isAlive false (some pid) = true := by
      rw [isAlive, Option.bind_some]
      cases hlookup : s.children.lookup pid with
      | none => exact absurd hlookup hknown
      | some state => cases state <;> rfl
    rw [hphase] at hstep
    dsimp only at hstep
    rw [if_pos halive] at hstep
    cases hstep
    exact ⟨⟨hstopping, pid, hpid, hknown, .inl rfl⟩, hrunning, rfl⟩

theorem Heedful.monitorStep (h : s.Heedful) (hstep : s.monitorStep noticesExit child ok = some s') :
    s'.Heedful ∧ s'.running = s.running ∧ s'.user = s.user := by
  obtain ⟨hstopping, hmonitor⟩ := h
  rw [SidecarLife.monitorStep] at hstep
  rcases hmonitor with hphase | hphase | hphase | ⟨pid, hphase⟩ | hphase | hphase | hphase
  · rw [hphase, hstopping, Bool.not_true, Bool.and_false] at hstep
    cases hstep
    exact ⟨⟨rfl, .inr (.inr (.inr (.inr (.inr (.inr rfl)))))⟩, rfl, rfl⟩
  · rw [hphase, hstopping] at hstep
    cases hstep
    exact ⟨⟨rfl, .inr (.inr (.inr (.inr (.inr (.inr rfl)))))⟩, rfl, rfl⟩
  · rw [hphase] at hstep
    cases hstep
    exact ⟨⟨hstopping, .inr (.inr (.inr (.inl ⟨_, rfl⟩)))⟩, rfl, rfl⟩
  · rw [hphase] at hstep
    dsimp only at hstep
    split_ifs at hstep
    · cases hstep
      exact ⟨⟨hstopping, .inl rfl⟩, rfl, rfl⟩
    · cases hstep
      exact ⟨⟨hstopping, .inr (.inr (.inr (.inr (.inl rfl))))⟩, rfl, rfl⟩
  · rw [hphase, hstopping] at hstep
    cases hstep
    exact ⟨⟨rfl, .inr (.inr (.inr (.inr (.inr (.inr rfl)))))⟩, rfl, rfl⟩
  · rw [hphase] at hstep
    cases hstep
  · rw [hphase] at hstep
    cases hstep

theorem monitorStep_absent (h : s.monitor = .absent) (child : Option Nat)
    (ok : Bool) : s.monitorStep noticesExit child ok = none := by
  rw [monitorStep, h]

theorem Unnoticing.monitorStep (h : s.Unnoticing)
    (hstep : s.monitorStep false child ok = some s') : s'.Unnoticing := by
  have hpresent (habsent : s.monitor = .absent) : False := by
    rw [monitorStep_absent habsent] at hstep
    cases hstep
  rw [Unnoticing.eq_def] at h ⊢
  cases hphase : s.user with
  | idle =>
    rw [hphase] at h
    rcases h with ⟨habsent, -⟩ | ⟨hrunning, hwatching⟩
    · exact (hpresent habsent).elim
    · obtain ⟨hwatching', hrunning', huser⟩ := hwatching.monitorStep hrunning hstep
      rw [huser, hphase]
      exact .inr ⟨hrunning', hwatching'⟩
  | starting phase =>
    rw [hphase] at h
    cases phase with
    | storing child => exact (hpresent h.1).elim
    | accepting child => exact (hpresent h.1).elim
    | _ => exact (hpresent h.1).elim
  | launching =>
    rw [hphase] at h
    exact (hpresent h.1).elim
  | stopping =>
    rw [hphase] at h
    obtain ⟨hwatching', hrunning', huser⟩ := h.2.monitorStep h.1 hstep
    rw [huser, hphase]
    exact ⟨hrunning', hwatching'⟩
  | halting =>
    rw [hphase] at h
    obtain ⟨hheedful, -, huser⟩ := Heedful.monitorStep h hstep
    rw [huser, hphase]
    exact hheedful
  | destroyed =>
    rw [hphase] at h
    exact (hpresent h).elim
  | _ =>
    rw [hphase] at h
    obtain ⟨hheedful, hrunning, huser⟩ := h.1.monitorStep hstep
    rw [huser, hphase]
    exact ⟨hheedful, hrunning.trans h.2⟩

theorem Unnoticing.stopReturns (habsent : s.monitor = .absent) (hrunning : s.running = false) :
    s.stopReturns.Unnoticing := by
  rw [SidecarLife.stopReturns]
  split_ifs
  · exact habsent
  · exact .inl ⟨habsent, hrunning⟩

theorem Unnoticing.callStop (h : s.Unnoticing) {destroying : Bool}
    (hstep : s.callStop destroying = some s') : s'.Unnoticing := by
  rw [SidecarLife.callStop] at hstep
  split_ifs at hstep with hidle hrunning
  · cases hstep
    rw [Unnoticing.eq_def, not_not.1 hidle] at h
    rcases h with ⟨-, hfalse⟩ | ⟨-, hwatching⟩
    · exact absurd (hfalse.symm.trans hrunning) nofun
    · exact ⟨hrunning, hwatching⟩
  · cases hstep
    rw [Unnoticing.eq_def, not_not.1 hidle] at h
    rcases h with ⟨habsent, hfalse⟩ | ⟨htrue, -⟩
    · exact Unnoticing.stopReturns habsent hfalse
    · exact absurd htrue hrunning

theorem Unnoticing.callStart (h : s.Unnoticing) {maxRestarts : Int}
    (hstep : s.callStart maxRestarts = some s') : s'.Unnoticing := by
  rw [SidecarLife.callStart] at hstep
  split_ifs at hstep with hidle hrunning
  · cases hstep
    exact h
  · cases hstep
    rw [Unnoticing.eq_def, not_not.1 hidle] at h
    rcases h with hnone | ⟨htrue, -⟩
    · exact hnone
    · exact absurd htrue hrunning

theorem Unnoticing.kill (h : s.Unnoticing) (child : Nat) : (s.kill child).Unnoticing := by
  obtain ⟨children, hchildren⟩ := (s.fewer_kill child).same
  have hknown (other : Nat) : ({ s with children } : SidecarLife).Known other ↔ s.Known other := by
    rw [← hchildren]
    exact known_kill_iff
  have hwatching (hw : s.Watching) : ({ s with children } : SidecarLife).Watching := by
    obtain ⟨hstopping, pid, hpid, hk, hmonitor⟩ := hw
    exact ⟨hstopping, pid, hpid, (hknown pid).2 hk, hmonitor⟩
  rw [hchildren]
  rw [Unnoticing.eq_def] at h ⊢
  dsimp only
  cases hphase : s.user with
  | idle =>
    rw [hphase] at h
    exact h.imp_right fun hw => ⟨hw.1, hwatching hw.2⟩
  | starting phase =>
    rw [hphase] at h
    cases phase with
    | storing other => exact ⟨h.1, h.2.1, (hknown other).2 h.2.2⟩
    | accepting other => exact ⟨h.1, h.2.1, h.2.2.1, (hknown other).2 h.2.2.2⟩
    | _ => exact h
  | launching =>
    rw [hphase] at h
    obtain ⟨habsent, pid, hpid, hk⟩ := h
    exact ⟨habsent, pid, hpid, (hknown pid).2 hk⟩
  | stopping =>
    rw [hphase] at h
    exact ⟨h.1, hwatching h.2⟩
  | _ =>
    rw [hphase] at h
    exact h

theorem Unnoticing.spawn (h : s.Unnoticing) (hphase : s.user = .starting phase) (hstep : s.userStep child ok = some s') :
    s'.Unnoticing := by
  rw [Unnoticing.eq_def, hphase] at h
  rw [SidecarLife.userStep, hphase] at hstep
  obtain ⟨r, hspawn, rfl⟩ := Option.map_eq_some_iff.1 hstep
  cases phase with
  | forking =>
    cases child with
    | none =>
      cases hspawn
      exact .inl h
    | some child =>
      simp only [spawnSidecar] at hspawn
      split_ifs at hspawn
      cases hspawn
      refine ⟨h.1, h.2, ?_⟩
      rw [Known]
      dsimp only
      rw [Table.lookup_insert_ite, if_pos rfl]
      exact nofun
  | storing child' =>
    cases hspawn
    exact ⟨h.1, h.2.1, rfl, h.2.2⟩
  | accepting child' =>
    simp only [spawnSidecar] at hspawn
    split_ifs at hspawn
    · cases hspawn
      exact ⟨h.1, child', h.2.2.1, h.2.2.2⟩
    · cases hspawn
      obtain ⟨children, hchildren⟩ := (s.fewer_kill child').same
      rw [hchildren]
      exact ⟨h.1, h.2.1⟩
  | waiting child' =>
    obtain ⟨s₁, hwait, rfl⟩ := Option.map_eq_some_iff.1 hspawn
    obtain ⟨⟨⟨children, rfl⟩, -⟩, -⟩ := fewer_of_wait hwait
    exact h
  | clearing =>
    cases hspawn
    exact .inl h

theorem Unnoticing.userStep (h : s.Unnoticing)
    (hstep : s.userStep child ok = some s') : s'.Unnoticing := by
  have hnext := h
  rw [Unnoticing.eq_def] at h
  cases hphase : s.user with
  | starting phase => exact hnext.spawn hphase hstep
  | idle =>
    rw [SidecarLife.userStep, hphase] at hstep
    cases hstep
  | launching =>
    rw [SidecarLife.userStep, hphase] at hstep
    rw [hphase] at h
    obtain ⟨habsent, pid, hpid, hknown⟩ := h
    dsimp only at hstep
    rw [if_neg (not_not.2 habsent)] at hstep
    cases hstep
    exact .inr ⟨rfl, rfl, pid, hpid, hknown, .inl rfl⟩
  | stopping =>
    rw [SidecarLife.userStep, hphase] at hstep
    rw [hphase] at h
    obtain ⟨-, -, pid, -, -, hmonitor⟩ := h
    cases hstep
    refine ⟨rfl, ?_⟩
    rcases hmonitor with hm | hm | hm | hm
    · exact .inl hm
    · exact .inr (.inl hm)
    · exact .inr (.inr (.inl hm))
    · exact .inr (.inr (.inr (.inl ⟨_, hm⟩)))
  | halting =>
    rw [SidecarLife.userStep, hphase] at hstep
    rw [hphase] at h
    cases hstep
    exact ⟨h, rfl⟩
  | killing =>
    rw [SidecarLife.userStep, hphase] at hstep
    rw [hphase] at h
    dsimp only at hstep
    split at hstep <;> cases hstep <;> exact h
  | awaiting pid =>
    rw [SidecarLife.userStep, hphase] at hstep
    rw [hphase] at h
    dsimp only at hstep
    split_ifs at hstep
    · obtain ⟨s₁, hwait, rfl⟩ := Option.map_eq_some_iff.1 hstep
      obtain ⟨⟨⟨children, rfl⟩, -⟩, -⟩ := fewer_of_wait hwait
      exact h
    · cases hstep
      obtain ⟨children, hchildren⟩ := (s.fewer_kill pid).same
      rw [hchildren]
      exact h
  | reaping pid =>
    rw [SidecarLife.userStep, hphase] at hstep
    rw [hphase] at h
    obtain ⟨s₁, hwait, rfl⟩ := Option.map_eq_some_iff.1 hstep
    obtain ⟨⟨⟨children, rfl⟩, -⟩, -⟩ := fewer_of_wait hwait
    exact h
  | forgetting =>
    rw [SidecarLife.userStep, hphase] at hstep
    rw [hphase] at h
    cases hstep
    exact h
  | joining =>
    rw [SidecarLife.userStep, hphase] at hstep
    rw [hphase] at h
    dsimp only at hstep
    split at hstep
    · next habsent =>
        cases hstep
        exact Unnoticing.stopReturns habsent h.2
    · cases hstep
      exact Unnoticing.stopReturns rfl h.2
    · cases hstep
  | destroyed =>
    rw [SidecarLife.userStep, hphase] at hstep
    cases hstep

theorem Unnoticing.step (h : s.Unnoticing)
    (hstep : s.step false e = some s') : s'.Unnoticing := by
  obtain ⟨-, hstep⟩ := step_eq_some_iff.1 hstep
  cases e with
  | start maxRestarts => exact h.callStart hstep
  | stop => exact h.callStop hstep
  | destroy => exact h.callStop hstep
  | user child ok => exact h.userStep hstep
  | monitor child ok => exact h.monitorStep hstep
  | exit child =>
    rw [proceed, childExits] at hstep
    split_ifs at hstep
    cases hstep
    exact h.kill child

theorem Unnoticing.not_restarting (h : s.Unnoticing) :
    s.monitor ≠ .backingOff ∧ ¬ s.IsSpawning := by
  have hplaces : s.monitor = .absent ∨ s.Watching ∨ s.Heedful := by
    rw [Unnoticing.eq_def] at h
    cases hphase : s.user with
    | idle =>
      rw [hphase] at h
      rcases h with ⟨habsent, -⟩ | ⟨-, hwatching⟩
      · exact .inl habsent
      · exact .inr (.inl hwatching)
    | starting phase =>
      rw [hphase] at h
      cases phase <;> exact .inl h.1
    | launching =>
      rw [hphase] at h
      exact .inl h.1
    | stopping =>
      rw [hphase] at h
      exact .inr (.inl h.2)
    | halting =>
      rw [hphase] at h
      exact .inr (.inr h)
    | destroyed =>
      rw [hphase] at h
      exact .inl h
    | _ =>
      rw [hphase] at h
      exact .inr (.inr h.1)
  have hplace (phase : MonitorPhase) (hphase : s.monitor = phase) (hbacking : phase ≠ .backingOff)
      (hspawning : ∀ p, phase ≠ .spawning p) : s.monitor ≠ .backingOff ∧ ¬ s.IsSpawning :=
    ⟨hphase ▸ hbacking, not_isSpawning hphase hspawning⟩
  rcases hplaces with hm | ⟨-, pid, -, -, hm | hm | hm | hm⟩ | ⟨-, hm | hm | hm | ⟨pid, hm⟩ | hm | hm | hm⟩ <;>
    exact hplace _ hm nofun nofun

theorem Unnoticing.sound (h : s.Unnoticing) (hnoticed : s.Noticed e) : s.Sound false e where
  noticed := .inr hnoticed
  bounded _ _ _ hmonitor := absurd hmonitor h.not_restarting.1
  launched child ok _ huser := by
    rw [Unnoticing.eq_def, huser] at h
    exact h.1
  destroyed _ huser hrunning := by
    rw [Unnoticing.eq_def, huser] at h
    rcases h with ⟨habsent, -⟩ | ⟨htrue, -⟩
    · exact habsent
    · exact absurd (hrunning.symm.trans htrue) nofun
  alone _ _ _ _ := h.not_restarting.2

def exitRun : List LifeEvent :=
  [.start 10, .user (some 1) true, .user none true, .user none true, .user none true, .monitor none true,
    .monitor none true, .exit 1, .monitor none true, .monitor none true]

/-- The monitor sees a child run that has exited. -/
theorem not_lawful_exitRun : ¬ Along (step false) (LawfulAfter false) {} exitRun := by
  intro h
  have hrun : (exec (step false) {} exitRun).map (·.blind) = some true := by decide
  obtain ⟨s, hs, hblind⟩ := Option.map_eq_some_iff.1 hrun
  have hinit : Lawful {} := ⟨Int.le_max_right _ _, rfl, rfl, nofun⟩
  have hlawful : s.Lawful := exec_invariant (fun _ _ s' _ hok hstep => hok s' hstep) hinit h hs
  exact absurd (hlawful.seen.symm.trans hblind) nofun

/-- **The laws hold where exits are not noticed** exactly in the runs in which the monitor never looks at a child that
has exited and was not waited for. -/
theorem lifecycle_iff (es : List LifeEvent) :
    Along (step false) (LawfulAfter false) {} es ↔ Along (step false) Noticed {} es := by
  constructor
  · intro h
    refine h.imp (motive := fun s => s.terminated = false) (fun s e s' _ hlawful hstep => (hlawful s' hstep).joined)
      (fun s e hs hlawful => ?_) rfl
    cases e with
    | monitor child ok =>
      intro pid hmonitor hexited
      have hbind : (some pid).bind s.children.lookup = some .exited := hexited
      have hstep : s.step false (.monitor child ok) =
          some { s with monitor := .looping, blind := s.blind || true } := by
        rw [step_eq_some_iff, proceed, monitorStep, hmonitor]
        dsimp only
        rw [isAlive, hbind]
        exact ⟨hs, rfl⟩
      have hseen := (hlawful _ hstep).seen
      rw [Bool.or_true] at hseen
      cases hseen
    | _ => trivial
  · intro h
    have hsound : Along (step false) (Sound false) {} es :=
      h.imp (motive := Unnoticing) (fun s e s' hs _ hstep => hs.step hstep)
        (fun s e hs hnoticed => hs.sound hnoticed) (.inl ⟨rfl, rfl⟩)
    exact lawful_of_sound hsound

end SidecarLife

end RavBot.Plugins
