import RavBot.Gateway.CommandQueue.Lane
import RavBot.Lib.Table

/-!
# The command queue

`CommandQueue` holds one lane per session, the number of running commands and the map from
command ids to session keys that `Cancel` looks ids up in.  Every function below is one
critical section of the source: it runs from taking to releasing the queue's mutex.

A dispatcher pass walks over the session keys in the order in which the hash table happens
to list them.  The order is an argument of `dispatcherPass`, so that a result about every
order is a result about every hash table.  `dispatchKeys_induction` is the rule for
reasoning about a pass: a property that survives the activation of one lane survives the
whole walk.
-/

namespace RavBot.Gateway

open RavBot.Lib

/-- The `queue.overflow` event.  The source sends the number of dropped ids; the model
keeps the ids themselves. -/
structure QueueOverflow where
  connectionId : String
  sessionKey : String
  droppedIds : List String
  policy : DropPolicy
  pendingCount : Nat
  deriving DecidableEq, Inhabited, Repr

/-- The state that the queue's mutex guards. -/
structure CommandQueue where
  config : QueueConfig
  lanes : Table String SessionLane := ∅
  activeCount : Int := 0
  commandToSession : Table String String := ∅

/-- What a client passes to `Submit`. -/
structure Submission where
  sessionKey : String
  message : String
  params : Json := .obj []
  connectionId : String := ""
  rpcRequestId : String := ""
  mode : QueueMode := .collect
  deriving Inhabited, Repr

namespace SessionLane

/-- The lane that `get_lane` creates for a session that has none. -/
def ofConfig (config : QueueConfig) (sessionKey : String) : SessionLane where
  sessionKey := sessionKey
  mode := config.defaultMode
  debounceMs := config.debounceMs
  cap := config.cap
  drop := config.drop

/-- The mode a command runs under: `collect` stands for "not given" and is replaced by the
mode of the lane. -/
def effectiveMode (lane : SessionLane) (mode : QueueMode) : QueueMode :=
  if mode = .collect then lane.mode else mode

/-- What `Submit` does to the lane: an interrupt clears it, a command that steers a running
one is only enqueued, any other is enqueued under the cap.  Returns the dropped ids. -/
def submit (lane : SessionLane) (cmd : QueuedCommand) : SessionLane × List String :=
  let lane := if cmd.mode = .interrupt ∧ lane.hasActive then lane.interruptActive.1 else lane
  if (cmd.mode = .steer ∨ cmd.mode = .steerBacklog) ∧ lane.hasActive then
    (lane.enqueue cmd, [])
  else (lane.enqueue cmd).applyCapOverflow

/-- What the dispatcher does with the other waiting commands of a lane it just activated:
`collect` joins them into the parameters of the activated command, `followup` discards them
when there are several.  Setting a field of parameters that are no object throws. -/
def takeBatch (lane : SessionLane) (command : QueuedCommand) :
    Option (SessionLane × QueuedCommand) :=
  if command.mode = .collect ∧ lane.hasPending then
    let (lane, steering) := lane.drainPendingAsSteeringText
    if steering ≠ "" then
      (command.params.set "collectedMessages" (.str steering)).map fun params =>
        (lane, { command with params })
    else some (lane, command)
  else if command.mode = .followup ∧ 1 < lane.pending.length then
    some (lane.drainPendingAsSteeringText.1, command)
  else some (lane, command)

/-- The waiting commands that `takeBatch` removes from the queue. -/
def batched (mode : QueueMode) (pending : List QueuedCommand) : List QueuedCommand :=
  match mode with
  | .collect => pending
  | .followup => if 1 < pending.length then pending else []
  | _ => []

/-- The waiting commands that `takeBatch` leaves in the queue. -/
def unbatched (mode : QueueMode) (pending : List QueuedCommand) : List QueuedCommand :=
  match mode with
  | .collect => []
  | .followup => if 1 < pending.length then [] else pending
  | _ => pending

end SessionLane

namespace CommandQueue

/-- The lane of a session, created from the current configuration when there is none. -/
def getLane (q : CommandQueue) (sessionKey : String) : SessionLane :=
  (q.lanes.lookup sessionKey).getD (.ofConfig q.config sessionKey)

/-- The command that `Submit` builds. -/
def makeCommand (q : CommandQueue) (cmdId : String) (now : Int) (s : Submission) :
    QueuedCommand where
  id := cmdId
  sessionKey := s.sessionKey
  message := s.message
  params := s.params
  connectionId := s.connectionId
  rpcRequestId := s.rpcRequestId
  mode := (q.getLane s.sessionKey).effectiveMode s.mode
  enqueuedAt := now

/-- Submit a command.  `cmdId` is the id that `generate_id` returned and `now` the time at
which the command was built. -/
def submit (q : CommandQueue) (cmdId : String) (now : Int) (s : Submission) :
    CommandQueue × Option QueueOverflow :=
  let (lane, dropped) := (q.getLane s.sessionKey).submit (q.makeCommand cmdId now s)
  let q' : CommandQueue := { q with
    lanes := q.lanes.insert s.sessionKey lane
    commandToSession := Table.eraseAll (q.commandToSession.insert cmdId s.sessionKey) dropped }
  if dropped = [] then (q', none)
  else (q', some ⟨s.connectionId, s.sessionKey, dropped, lane.drop, lane.pending.length⟩)

/-- Cancel a waiting command.  The id is forgotten whether or not it was found. -/
def cancel (q : CommandQueue) (commandId : String) : CommandQueue × Bool :=
  match q.commandToSession.lookup commandId with
  | none => (q, false)
  | some sessionKey =>
    let (lane, cancelled) := (q.getLane sessionKey).cancelPending commandId
    ({ q with
      lanes := q.lanes.insert sessionKey lane
      commandToSession := q.commandToSession.erase commandId }, cancelled)

/-- Abort the active run of a session. -/
def abortSession (q : CommandQueue) (sessionKey : String) : CommandQueue × Bool :=
  match q.lanes.lookup sessionKey with
  | none => (q, false)
  | some lane =>
    let (lane, abortedId) := lane.interruptActive
    let q := { q with lanes := q.lanes.insert sessionKey lane }
    match abortedId with
    | some id => ({ q with commandToSession := q.commandToSession.erase id }, true)
    | none => (q, false)

/-- Override the settings of a session.  A negative number or an empty policy name leaves
the field as it is. -/
def configureSession (q : CommandQueue) (sessionKey : String) (mode : QueueMode)
    (debounceMs cap : Int) (drop : String) : CommandQueue :=
  let lane := q.getLane sessionKey
  let lane := { lane with
    mode
    debounceMs := if 0 ≤ debounceMs then debounceMs else lane.debounceMs
    cap := if 0 ≤ cap then cap else lane.cap
    drop := if drop ≠ "" then dropPolicyFromString drop else lane.drop }
  { q with lanes := q.lanes.insert sessionKey lane }

/-- Replace the global configuration.  Lanes that exist keep their settings. -/
def setConfig (q : CommandQueue) (config : QueueConfig) : CommandQueue := { q with config }

/-! ## Dispatching -/

/-- What a pass does for a lane that `TryActivate` activated: batch the other waiting
commands, count the command and forget its id. -/
def activate (q : CommandQueue) (key : String) (lane : SessionLane) (command : QueuedCommand) :
    Option (CommandQueue × QueuedCommand) :=
  (lane.takeBatch command).map fun (lane, command) =>
    ({ q with
      lanes := q.lanes.insert key lane
      activeCount := q.activeCount + 1
      commandToSession := q.commandToSession.erase command.id }, command)

/-- The loop of a pass over the session keys; `toDispatch` collects the activated commands.
`none` is the exception that `activate` lets escape, which ends the process. -/
def dispatchKeys (now : Int) :
    List String → CommandQueue → List QueuedCommand → Option (CommandQueue × List QueuedCommand)
  | [], q, toDispatch => some (q, toDispatch)
  | key :: keys, q, toDispatch =>
    match q.lanes.lookup key with
    | none => dispatchKeys now keys q toDispatch
    | some lane =>
      if lane.hasActive then dispatchKeys now keys q toDispatch
      else if q.config.maxConcurrent ≤ q.activeCount then some (q, toDispatch)
      else match lane.tryActivate now with
        | none => dispatchKeys now keys q toDispatch
        | some (lane, command) =>
          match q.activate key lane command with
          | none => none
          | some (q, command) => dispatchKeys now keys q (toDispatch ++ [command])

def cleanUpIdle (q : CommandQueue) : CommandQueue :=
  { q with lanes := Table.filterValues (fun lane => !lane.isIdle) q.lanes }

/-- One pass of the dispatcher, at time `now`, over the session keys in the given order.
Returns the commands for which worker threads are created. -/
def dispatcherPass (q : CommandQueue) (now : Int) (order : List String) :
    Option (CommandQueue × List QueuedCommand) :=
  (dispatchKeys now order q []).map fun (q, toDispatch) => (q.cleanUpIdle, toDispatch)

/-- `P` holds of every lane that a walk over `keys` activates, with the lane and the rest of
its queue as they are when its turn comes. -/
def EachActivation (P : QueueMode → List QueuedCommand → Prop) (now : Int) :
    List String → CommandQueue → Prop
  | [], _ => True
  | key :: keys, q =>
    match q.lanes.lookup key with
    | none => EachActivation P now keys q
    | some lane =>
      if lane.hasActive then EachActivation P now keys q
      else if q.config.maxConcurrent ≤ q.activeCount then True
      else match lane.tryActivate now with
        | none => EachActivation P now keys q
        | some (lane, command) =>
          P command.mode lane.pending ∧
            match q.activate key lane command with
            | none => True
            | some (q, _) => EachActivation P now keys q

/-- The end of a worker: empty the active slot of the session's lane, if there is one, and
count the command as finished. -/
def finish (q : CommandQueue) (command : QueuedCommand) : CommandQueue :=
  let lanes := match q.lanes.lookup command.sessionKey with
    | some lane => q.lanes.insert command.sessionKey lane.completeActive.1
    | none => q.lanes
  { q with lanes, activeCount := q.activeCount - 1 }

theorem eachActivation_true (now : Int) (keys : List String) (q : CommandQueue) :
    EachActivation (fun _ _ => True) now keys q := by
  induction keys generalizing q with
  | nil => trivial
  | cons key keys ih =>
    simp only [EachActivation]
    split
    · exact ih _
    · split
      · exact ih _
      · split
        · trivial
        · split
          · exact ih _
          · refine ⟨trivial, ?_⟩
            split
            · trivial
            · exact ih _

/-- Whether a pass only activates lanes of a decidable kind can be computed. -/
instance EachActivation.instDecidable (P : QueueMode → List QueuedCommand → Prop)
    [∀ m cmds, Decidable (P m cmds)] (now : Int) :
    ∀ keys q, Decidable (EachActivation P now keys q)
  | [], _ => .isTrue trivial
  | key :: keys, q =>
    have ih := EachActivation.instDecidable P now keys
    match h : q.lanes.lookup key with
    | none => decidable_of_iff (EachActivation P now keys q) (by simp [EachActivation, h])
    | some lane =>
      if h₁ : lane.hasActive then
        decidable_of_iff (EachActivation P now keys q) (by simp [EachActivation, h, h₁])
      else if h₂ : q.config.maxConcurrent ≤ q.activeCount then
        .isTrue (by simp [EachActivation, h, h₁, h₂])
      else match h₃ : lane.tryActivate now with
        | none =>
          decidable_of_iff (EachActivation P now keys q)
            (by simp [EachActivation, h, h₁, h₂, h₃])
        | some (lane', command) =>
          match h₄ : q.activate key lane' command with
          | none =>
            decidable_of_iff (P command.mode lane'.pending)
              (by simp [EachActivation, h, h₁, h₂, h₃, h₄])
          | some (q', _) =>
            decidable_of_iff
              (P command.mode lane'.pending ∧ EachActivation P now keys q')
              (by simp [EachActivation, h, h₁, h₂, h₃, h₄])

end CommandQueue

/-! ## What a pass does -/

theorem SessionLane.batched_perm (mode : QueueMode) (pending : List QueuedCommand) :
    (unbatched mode pending ++ batched mode pending).Perm pending := by
  cases mode with
  | followup =>
    by_cases h : 1 < pending.length <;> simp [unbatched, batched, h]
  | _ => simp [unbatched, batched]

theorem SessionLane.takeBatch_eq_some {lane lane' : SessionLane}
    {command command' : QueuedCommand} (h : lane.takeBatch command = some (lane', command')) :
    lane' = { lane with pending := unbatched command.mode lane.pending } ∧
      ∃ params, command' = { command with params } := by
  obtain ⟨id, key, message, params, conn, rpc, mode, time, state⟩ := command
  obtain ⟨laneKey, laneMode, debounceMs, cap, drop, pending, activeCommand⟩ := lane
  unfold takeBatch at h
  cases mode with
  | collect =>
    cases pending with
    | nil =>
      cases h
      exact ⟨rfl, params, rfl⟩
    | cons first others =>
      simp only [hasPending, List.isEmpty_cons, Bool.not_false, and_self, if_true] at h
      split at h
      · obtain ⟨params, -, heq⟩ := Option.map_eq_some_iff.1 h
        cases heq
        exact ⟨rfl, params, rfl⟩
      · cases h
        exact ⟨rfl, params, rfl⟩
  | followup =>
    by_cases hp : 1 < pending.length
    · simp only [reduceCtorEq, false_and, if_false, hp, and_self, if_true] at h
      cases h
      exact ⟨by simp [unbatched, hp, drainPendingAsSteeringText], params, rfl⟩
    · simp only [reduceCtorEq, false_and, if_false, hp, and_false] at h
      cases h
      exact ⟨by simp [unbatched, hp], params, rfl⟩
  | _ =>
    cases h
    exact ⟨rfl, params, rfl⟩

/-- The activation of one lane by a pass: `front` leaves the queue of the lane under `key`
and becomes both the active command of the lane and, with its batch in the parameters, the
command handed to a worker. -/
structure Activation (q : CommandQueue) (key : String) (lane : SessionLane)
    (front : QueuedCommand) (rest : List QueuedCommand) (q' : CommandQueue)
    (command : QueuedCommand) : Prop where
  found : q.lanes.lookup key = some lane
  idle : lane.activeCommand = none
  pending : lane.pending = front :: rest
  room : q.activeCount < q.config.maxConcurrent
  queue : q' = { q with
    lanes := q.lanes.insert key { lane with
      pending := SessionLane.unbatched front.mode rest
      activeCommand := some { front with state := .active } }
    activeCount := q.activeCount + 1
    commandToSession := q.commandToSession.erase front.id }
  command : ∃ params, command = { front with state := .active, params }

namespace CommandQueue

theorem activation_of_activate {q q' : CommandQueue} {key : String} {lane lane' : SessionLane}
    {now : Int} {command command' : QueuedCommand} (hl : q.lanes.lookup key = some lane)
    (hm : ¬ q.config.maxConcurrent ≤ q.activeCount)
    (ht : lane.tryActivate now = some (lane', command))
    (hv : q.activate key lane' command = some (q', command')) :
    ∃ front, command.mode = front.mode ∧
      Activation q key lane front lane'.pending q' command' := by
  obtain ⟨front, rest, hpending, hidle, rfl, rfl⟩ := SessionLane.tryActivate_eq_some ht
  obtain ⟨⟨lane₁, command₁⟩, hbatch, heq⟩ := Option.map_eq_some_iff.1 hv
  obtain ⟨rfl, params, rfl⟩ := SessionLane.takeBatch_eq_some hbatch
  cases heq
  exact ⟨front, rfl, hl, hidle, hpending, Int.not_le.1 hm, rfl, params, rfl⟩

/-- **Induction over a pass.**  A property of the queue and of the commands collected so far
that survives every activation survives the walk over the keys. -/
theorem dispatchKeys_induction {P : QueueMode → List QueuedCommand → Prop} {now : Int}
    {motive : CommandQueue → List QueuedCommand → Prop}
    (hact : ∀ {q out key lane front rest q' command},
      Activation q key lane front rest q' command → P front.mode rest →
        motive q out → motive q' (out ++ [command]))
    {keys : List String} {q q' : CommandQueue} {out out' : List QueuedCommand}
    (hP : EachActivation P now keys q) (h : dispatchKeys now keys q out = some (q', out'))
    (hq : motive q out) : motive q' out' := by
  induction keys generalizing q out with
  | nil =>
    cases h
    exact hq
  | cons key keys ih =>
    simp only [dispatchKeys] at h
    simp only [EachActivation] at hP
    -- the cases are those of the loop body, in its order
    cases hl : q.lanes.lookup key with
    | none =>
      simp only [hl] at h hP
      exact ih hP h hq
    | some lane =>
      simp only [hl] at h hP
      by_cases ha : lane.hasActive
      · simp only [ha, if_true] at h hP
        exact ih hP h hq
      by_cases hm : q.config.maxConcurrent ≤ q.activeCount
      · simp only [ha, hm, if_true] at h
        cases h
        exact hq
      simp only [ha, hm, if_false] at h hP
      cases ht : lane.tryActivate now with
      | none =>
        simp only [ht] at h hP
        exact ih hP h hq
      | some r =>
        obtain ⟨lane₁, command₁⟩ := r
        simp only [ht] at h hP
        cases hv : q.activate key lane₁ command₁ with
        | none =>
          simp only [hv] at h
          cases h
        | some r =>
          obtain ⟨q₁, command⟩ := r
          simp only [hv] at h hP
          obtain ⟨front, hmode, hactivation⟩ := activation_of_activate hl hm ht hv
          exact ih hP.2 h (hact hactivation (hmode ▸ hP.1) hq)

/-! ## The queue, seen session by session

A lane that does not exist and a lane that has nothing to do look the same from outside.
`pendingOf` and `activeOf` do not tell them apart, so neither the creation of a lane nor the
removal of an idle one shows in them. -/

def pendingOf (q : CommandQueue) (key : String) : List Request :=
  (q.lanes.lookup key).elim [] SessionLane.requests

def activeOf (q : CommandQueue) (key : String) : Option QueuedCommand :=
  (q.lanes.lookup key).bind SessionLane.activeCommand

@[simp] theorem requests_getLane (q : CommandQueue) (key : String) :
    (q.getLane key).requests = q.pendingOf key := by
  cases h : q.lanes.lookup key with
  | none => simp [getLane, pendingOf, h, SessionLane.ofConfig, SessionLane.requests]
  | some lane => simp [getLane, pendingOf, h]

@[simp] theorem activeCommand_getLane (q : CommandQueue) (key : String) :
    (q.getLane key).activeCommand = q.activeOf key := by
  cases h : q.lanes.lookup key with
  | none => simp [getLane, activeOf, h, SessionLane.ofConfig]
  | some lane => simp [getLane, activeOf, h]

theorem pendingOf_insert {q q' : CommandQueue} {key : String} {lane : SessionLane}
    (h : q'.lanes = q.lanes.insert key lane) (k : String) :
    q'.pendingOf k = if k = key then lane.requests else q.pendingOf k := by
  simp only [pendingOf, h, Table.lookup_insert_ite]
  split <;> rfl

theorem activeOf_insert {q q' : CommandQueue} {key : String} {lane : SessionLane}
    (h : q'.lanes = q.lanes.insert key lane) (k : String) :
    q'.activeOf k = if k = key then lane.activeCommand else q.activeOf k := by
  simp only [activeOf, h, Table.lookup_insert_ite]
  split <;> rfl

theorem pending_getLane_insert {q q' : CommandQueue} {key : String} {lane : SessionLane}
    (h : q'.lanes = q.lanes.insert key lane) (k : String) :
    (q'.getLane k).pending = if k = key then lane.pending else (q.getLane k).pending := by
  rw [getLane, h, Table.lookup_insert_ite]
  split_ifs
  · rfl
  · rw [getLane]
    cases q.lanes.lookup k <;> rfl

@[simp] theorem pendingOf_cleanUpIdle (q : CommandQueue) (key : String) :
    q.cleanUpIdle.pendingOf key = q.pendingOf key := by
  simp only [cleanUpIdle, pendingOf, Table.lookup_filterValues]
  cases q.lanes.lookup key with
  | none => rfl
  | some lane =>
    by_cases h : lane.isIdle
    · have hp : lane.pending = [] := by
        simpa [SessionLane.isIdle, SessionLane.hasPending] using (Bool.and_eq_true_iff.1 h).2
      simp [Option.filter, h, SessionLane.requests, hp]
    · simp [Option.filter, h]

@[simp] theorem activeOf_cleanUpIdle (q : CommandQueue) (key : String) :
    q.cleanUpIdle.activeOf key = q.activeOf key := by
  simp only [cleanUpIdle, activeOf, Table.lookup_filterValues]
  cases q.lanes.lookup key with
  | none => rfl
  | some lane =>
    by_cases h : lane.isIdle
    · have ha : lane.activeCommand = none := by
        simpa [SessionLane.isIdle, SessionLane.hasActive] using (Bool.and_eq_true_iff.1 h).1
      simp [Option.filter, h, ha]
    · simp [Option.filter, h]

end CommandQueue

/-- The waiting commands that a `Submit` throws away without reporting them: those that an
interrupt of a running command clears. -/
def SessionLane.discardedBySubmit (lane : SessionLane) (mode : QueueMode) :
    List QueuedCommand :=
  if mode = .interrupt ∧ lane.hasActive then lane.pending.dropLast else []

/-- `Submit` changes the queue and the active slot of the lane, and every request that
waited, or comes in, waits afterwards, is reported as dropped or was discarded. -/
theorem SessionLane.submit_spec (lane : SessionLane) (cmd : QueuedCommand) :
    ∃ pending lost, lane.submit cmd =
        ({ lane with
            pending
            activeCommand :=
              if cmd.mode = .interrupt ∧ lane.hasActive then none else lane.activeCommand },
          lost.map Request.id) ∧
      (lane.requests ++ [cmd.request]).Perm
        (pending.map QueuedCommand.request ++ lost ++
          (lane.discardedBySubmit cmd.mode).map QueuedCommand.request) := by
  by_cases hint : cmd.mode = .interrupt ∧ lane.hasActive
  · obtain ⟨pending, lost, hover, hperm⟩ :=
      applyCapOverflow_spec (lane.interruptActive.1.enqueue cmd)
    refine ⟨pending, lost, ?_, ?_⟩
    · simp only [submit, hint, and_self, if_true, reduceCtorEq, or_self, false_and, if_false]
      rw [hover]
      rfl
    · simp only [discardedBySubmit, hint, and_self, if_true]
      have hsplit : lane.requests =
          lane.pending.dropLast.map QueuedCommand.request ++
            lane.interruptActive.1.requests := by
        simp only [requests, interruptActive, ← List.map_append, dropLast_append_keepNewest]
      rw [hsplit, List.append_assoc]
      refine List.perm_append_comm.trans (.append_right _ ?_)
      simpa using hperm
  · by_cases hsteer : (cmd.mode = .steer ∨ cmd.mode = .steerBacklog) ∧ lane.hasActive
    · refine ⟨lane.pending ++ [cmd], [], ?_, ?_⟩
      · simp only [submit, if_neg hint, if_pos hsteer]
        rfl
      · simp [discardedBySubmit, if_neg hint, requests]
    · obtain ⟨pending, lost, hover, hperm⟩ := applyCapOverflow_spec (lane.enqueue cmd)
      refine ⟨pending, lost, ?_, ?_⟩
      · simp only [submit, if_neg hint, if_neg hsteer]
        rw [hover]
        rfl
      · simpa [discardedBySubmit, if_neg hint] using hperm

namespace CommandQueue

/-- The ids that the overflow event of a `Submit` reports. -/
def overflowIds : Option QueueOverflow → List String
  | some event => event.droppedIds
  | none => []

/-- **What `Submit` does.**  In its own session, every request that waited, or comes in,
waits afterwards, is reported as dropped or was discarded; the map has the new id and not
the dropped ones; no other session changes. -/
theorem submit_spec (q : CommandQueue) (cmdId : String) (now : Int) (s : Submission) :
    ∃ lost : List Request,
      (q.pendingOf s.sessionKey ++ [(q.makeCommand cmdId now s).request]).Perm
        ((q.submit cmdId now s).1.pendingOf s.sessionKey ++ lost ++
          ((q.getLane s.sessionKey).discardedBySubmit
            ((q.getLane s.sessionKey).effectiveMode s.mode)).map QueuedCommand.request) ∧
      overflowIds (q.submit cmdId now s).2 = lost.map Request.id ∧
      (∀ k ≠ s.sessionKey, (q.submit cmdId now s).1.pendingOf k = q.pendingOf k) ∧
      (∀ k, (q.submit cmdId now s).1.activeOf k =
        if k = s.sessionKey ∧ (q.getLane s.sessionKey).effectiveMode s.mode = .interrupt then none
        else q.activeOf k) ∧
      (q.submit cmdId now s).1.commandToSession =
        Table.eraseAll (q.commandToSession.insert cmdId s.sessionKey) (lost.map Request.id) ∧
      (q.submit cmdId now s).1.activeCount = q.activeCount ∧
      (q.submit cmdId now s).1.config = q.config := by
  obtain ⟨pending, lost, hsub, hperm⟩ :=
    (q.getLane s.sessionKey).submit_spec (q.makeCommand cmdId now s)
  set mode := (q.getLane s.sessionKey).effectiveMode s.mode with hmode
  have hm : (q.makeCommand cmdId now s).mode = mode := rfl
  rw [hm] at hsub hperm
  obtain ⟨lane, hlane⟩ : ∃ lane : SessionLane, lane = { q.getLane s.sessionKey with
      pending
      activeCommand := if mode = .interrupt ∧ (q.getLane s.sessionKey).hasActive then none
        else (q.getLane s.sessionKey).activeCommand } := ⟨_, rfl⟩
  rw [← hlane] at hsub
  have hlanes : (q.submit cmdId now s).1.lanes = q.lanes.insert s.sessionKey lane := by
    simp only [submit, hsub]
    split <;> rfl
  refine ⟨lost, ?_, ?_, ?_, ?_, ?_, ?_, ?_⟩
  · rw [pendingOf_insert hlanes, if_pos rfl, hlane]
    rw [requests_getLane] at hperm
    exact hperm
  · simp only [submit, hsub]
    split
    · next h => rw [h]; rfl
    · rfl
  · intro k hk
    rw [pendingOf_insert hlanes, if_neg hk]
  · intro k
    rw [activeOf_insert hlanes, hlane]
    by_cases hk : k = s.sessionKey
    · subst hk
      simp only [true_and, if_true, SessionLane.hasActive, activeCommand_getLane]
      cases q.activeOf s.sessionKey with
      | none => simp
      | some c => simp
    · simp [hk]
  · simp only [submit, hsub]
    split <;> rfl
  · simp only [submit, hsub]
    split <;> rfl
  · simp only [submit, hsub]
    split <;> rfl

/-- **What `Cancel` does.**  An id that the map does not know changes nothing.  An id that it
knows is forgotten, and the first request with that id leaves the queue of its session if
there is one; then, and only then, the answer is true. -/
theorem cancel_spec (q : CommandQueue) (commandId : String) :
    (q.commandToSession.lookup commandId = none ∧ q.cancel commandId = (q, false)) ∨
    ∃ key, q.commandToSession.lookup commandId = some key ∧
      (q.cancel commandId).1.commandToSession = q.commandToSession.erase commandId ∧
      (∀ k ≠ key, (q.cancel commandId).1.pendingOf k = q.pendingOf k) ∧
      (∀ k, (q.cancel commandId).1.activeOf k = q.activeOf k) ∧
      (q.cancel commandId).1.activeCount = q.activeCount ∧
      (q.cancel commandId).1.config = q.config ∧
      ((∃ front r rest, q.pendingOf key = front ++ r :: rest ∧ r.id = commandId ∧
          (q.cancel commandId).1.pendingOf key = front ++ rest ∧
          (q.cancel commandId).2 = true) ∨
        ((∀ r ∈ q.pendingOf key, r.id ≠ commandId) ∧
          (q.cancel commandId).1.pendingOf key = q.pendingOf key ∧
          (q.cancel commandId).2 = false)) := by
  cases hl : q.commandToSession.lookup commandId with
  | none => exact .inl ⟨rfl, by simp [cancel, hl]⟩
  | some key =>
    refine .inr ⟨key, rfl, ?_⟩
    have hlanes : (q.cancel commandId).1.lanes =
        q.lanes.insert key ((q.getLane key).cancelPending commandId).1 := by
      simp [cancel, hl]
    refine ⟨by simp [cancel, hl], fun k hk => ?_, fun k => ?_, by simp [cancel, hl],
      by simp [cancel, hl], ?_⟩
    · rw [pendingOf_insert hlanes, if_neg hk]
    · rw [activeOf_insert hlanes]
      by_cases hk : k = key
      · subst hk
        simp [SessionLane.cancelPending]
      · simp [hk]
    · rw [pendingOf_insert hlanes, if_pos rfl]
      have hanswer : (q.cancel commandId).2 =
          ((q.getLane key).cancelPending commandId).2 := by
        simp [cancel, hl]
      rw [hanswer, ← requests_getLane]
      rcases (q.getLane key).cancelPending_spec commandId with
        ⟨front, c, rest, hpending, hid, hcancel⟩ | ⟨hno, hcancel⟩
      · left
        rw [hcancel]
        exact ⟨front.map QueuedCommand.request, c.request, rest.map QueuedCommand.request,
          by simp [SessionLane.requests, hpending], hid, by simp [SessionLane.requests], rfl⟩
      · right
        rw [hcancel]
        exact ⟨by simpa [SessionLane.requests] using hno, rfl, rfl⟩

/-- **What `AbortSession` does.**  The slot of the session is emptied, the waiting commands
before the newest are discarded, and the id of the aborted command is forgotten. -/
theorem abortSession_spec (q : CommandQueue) (sessionKey : String) :
    q.pendingOf sessionKey =
        ((q.getLane sessionKey).pending.dropLast.map QueuedCommand.request) ++
          (q.abortSession sessionKey).1.pendingOf sessionKey ∧
      (∀ k ≠ sessionKey, (q.abortSession sessionKey).1.pendingOf k = q.pendingOf k) ∧
      (∀ k, (q.abortSession sessionKey).1.activeOf k =
        if k = sessionKey then none else q.activeOf k) ∧
      (q.abortSession sessionKey).1.commandToSession =
        ((q.activeOf sessionKey).elim q.commandToSession
          fun c => q.commandToSession.erase c.id) ∧
      (q.abortSession sessionKey).1.activeCount = q.activeCount ∧
      (q.abortSession sessionKey).1.config = q.config := by
  cases hl : q.lanes.lookup sessionKey with
  | none =>
    refine ⟨?_, fun k _ => ?_, fun k => ?_, ?_, ?_, ?_⟩
    · simp [abortSession, hl, getLane, SessionLane.ofConfig]
    · simp [abortSession, hl]
    · by_cases hk : k = sessionKey
      · subst hk
        simp [abortSession, hl, activeOf]
      · simp [abortSession, hl, hk]
    · simp [abortSession, hl, activeOf]
    · simp [abortSession, hl]
    · simp [abortSession, hl]
  | some lane =>
    have hlanes : (q.abortSession sessionKey).1.lanes =
        q.lanes.insert sessionKey lane.interruptActive.1 := by
      simp only [abortSession, hl]
      split <;> rfl
    refine ⟨?_, fun k hk => ?_, fun k => ?_, ?_, ?_, ?_⟩
    · rw [pendingOf_insert hlanes, if_pos rfl]
      simp only [pendingOf, getLane, hl, Option.elim_some, Option.getD_some,
        SessionLane.requests, SessionLane.interruptActive, ← List.map_append,
        SessionLane.dropLast_append_keepNewest]
    · rw [pendingOf_insert hlanes, if_neg hk]
    · rw [activeOf_insert hlanes]
      rfl
    · cases ha : lane.activeCommand <;>
        simp [abortSession, hl, activeOf, SessionLane.interruptActive, ha]
    · simp only [abortSession, hl]
      split <;> rfl
    · simp only [abortSession, hl]
      split <;> rfl

theorem configureSession_spec (q : CommandQueue) (sessionKey : String) (mode : QueueMode)
    (debounceMs cap : Int) (drop : String) (k : String) :
    (q.configureSession sessionKey mode debounceMs cap drop).pendingOf k = q.pendingOf k ∧
      (q.configureSession sessionKey mode debounceMs cap drop).activeOf k = q.activeOf k := by
  rw [pendingOf_insert rfl, activeOf_insert rfl]
  constructor
  · split
    · next h => rw [h, ← requests_getLane]; rfl
    · rfl
  · split
    · next h => rw [h]; exact activeCommand_getLane q sessionKey
    · rfl

theorem finish_spec (q : CommandQueue) (command : QueuedCommand) (k : String) :
    (q.finish command).pendingOf k = q.pendingOf k ∧
      (q.finish command).activeOf k =
        if k = command.sessionKey then none else q.activeOf k := by
  cases hl : q.lanes.lookup command.sessionKey with
  | none =>
    refine ⟨by simp [finish, hl, pendingOf], ?_⟩
    by_cases hk : k = command.sessionKey
    · subst hk
      simp [finish, hl, activeOf]
    · simp [finish, hl, activeOf, hk]
  | some lane =>
    have hlanes : (q.finish command).lanes =
        q.lanes.insert command.sessionKey lane.completeActive.1 := by
      simp [finish, hl]
    rw [pendingOf_insert hlanes, activeOf_insert hlanes]
    constructor
    · split
      · next h => subst h; simp [pendingOf, hl]; rfl
      · rfl
    · rfl

end CommandQueue

namespace Activation

variable {q q' : CommandQueue} {key : String} {lane : SessionLane} {front command : QueuedCommand}
  {rest : List QueuedCommand}

theorem request_eq (h : Activation q key lane front rest q' command) :
    command.request = front.request := by
  obtain ⟨params, rfl⟩ := h.command
  rfl

theorem pendingOf_before (h : Activation q key lane front rest q' command) :
    q.pendingOf key = front.request :: rest.map QueuedCommand.request := by
  simp [CommandQueue.pendingOf, h.found, SessionLane.requests, h.pending]

theorem activeOf_before (h : Activation q key lane front rest q' command) :
    q.activeOf key = none := by
  simp [CommandQueue.activeOf, h.found, h.idle]

theorem lanes_after (h : Activation q key lane front rest q' command) :
    q'.lanes = q.lanes.insert key { lane with
      pending := SessionLane.unbatched front.mode rest
      activeCommand := some { front with state := .active } } := by
  rw [h.queue]

theorem pendingOf_after (h : Activation q key lane front rest q' command) (k : String) :
    q'.pendingOf k =
      if k = key then (SessionLane.unbatched front.mode rest).map QueuedCommand.request
      else q.pendingOf k := by
  rw [CommandQueue.pendingOf_insert h.lanes_after k]
  rfl

theorem activeOf_after (h : Activation q key lane front rest q' command) (k : String) :
    q'.activeOf k =
      if k = key then some { front with state := .active } else q.activeOf k := by
  rw [CommandQueue.activeOf_insert h.lanes_after k]

theorem commandToSession_after (h : Activation q key lane front rest q' command) :
    q'.commandToSession = q.commandToSession.erase front.id := by
  rw [h.queue]

end Activation

end RavBot.Gateway
