import RavBot.Lib.Json

/-!
# Session lanes

A `SessionLane` is the queue of one session: the commands that wait (`pending`), the one
that runs (`activeCommand`) and the settings that say how the two interact.  The functions
of this file are the members of `SessionLane`; the caller holds the queue's mutex, so each
is one atomic change of the lane.

The results at the end say what each operation does to the *requests* that wait in the
lane.  The text of a waiting command can change (an overflow merges two texts), but who
asked for it cannot: `QueuedCommand.request` is the part of a command that identifies the
request, and the specifications account for requests, as a permutation between those that
were there and those that stay, leave or are dropped.
-/

namespace RavBot.Gateway

open RavBot.Lib

/-! ## Modes, policies and the queue configuration -/

/-- How a new message interacts with a run of the same session that is in progress. -/
inductive QueueMode where
  | collect
  | followup
  | steer
  | steerBacklog
  | interrupt
  deriving DecidableEq, Inhabited, Repr

/-- The mode a string names; anything unknown is `collect`. -/
def queueModeFromString (s : String) : QueueMode :=
  if s = "collect" then .collect
  else if s = "followup" then .followup
  else if s = "steer" then .steer
  else if s = "steer-backlog" then .steerBacklog
  else if s = "interrupt" then .interrupt
  else .collect

/-- The name of a mode. -/
def queueModeToString : QueueMode → String
  | .collect => "collect"
  | .followup => "followup"
  | .steer => "steer"
  | .steerBacklog => "steer-backlog"
  | .interrupt => "interrupt"

/-- What happens when a lane holds more commands than its cap. -/
inductive DropPolicy where
  | summarize
  | dropOldest
  | reject
  deriving DecidableEq, Inhabited, Repr

/-- The policy a string names; anything unknown is `summarize`. -/
def dropPolicyFromString (s : String) : DropPolicy :=
  if s = "summarize" then .summarize
  else if s = "drop-oldest" then .dropOldest
  else if s = "reject" then .reject
  else .summarize

def dropPolicyToString : DropPolicy → String
  | .summarize => "summarize"
  | .dropOldest => "drop-oldest"
  | .reject => "reject"

structure QueueConfig where
  maxConcurrent : Int := 4
  debounceMs : Int := 1000
  cap : Int := 20
  drop : DropPolicy := .summarize
  defaultMode : QueueMode := .collect
  deriving DecidableEq, Inhabited, Repr

/-! ## Commands -/

inductive CommandState where
  | pending
  | debouncing
  | active
  | complete
  | dropped
  deriving DecidableEq, Inhabited, Repr

/-- A submitted message.  `enqueuedAt` is a reading of the steady clock in nanoseconds. -/
structure QueuedCommand where
  id : String
  sessionKey : String
  message : String
  params : Json
  connectionId : String
  rpcRequestId : String
  mode : QueueMode
  enqueuedAt : Int
  state : CommandState := .pending
  deriving Inhabited, Repr

/-- The part of a command that says whose request it is.  No operation changes it. -/
structure Request where
  id : String
  sessionKey : String
  connectionId : String
  rpcRequestId : String
  deriving DecidableEq, Inhabited, Repr

def QueuedCommand.request (c : QueuedCommand) : Request :=
  ⟨c.id, c.sessionKey, c.connectionId, c.rpcRequestId⟩

structure LaneSettings where
  mode : QueueMode
  debounceMs : Int
  cap : Int
  drop : DropPolicy
  deriving DecidableEq, Inhabited, Repr

structure SessionLane where
  sessionKey : String
  mode : QueueMode := .collect
  debounceMs : Int := 1000
  cap : Int := 20
  drop : DropPolicy := .summarize
  pending : List QueuedCommand := []
  activeCommand : Option QueuedCommand := none
  deriving Inhabited, Repr

namespace SessionLane

def settings (lane : SessionLane) : LaneSettings :=
  ⟨lane.mode, lane.debounceMs, lane.cap, lane.drop⟩

def requests (lane : SessionLane) : List Request :=
  lane.pending.map QueuedCommand.request

def hasActive (lane : SessionLane) : Bool := lane.activeCommand.isSome

def hasPending (lane : SessionLane) : Bool := !lane.pending.isEmpty

def isIdle (lane : SessionLane) : Bool := !lane.hasActive && !lane.hasPending

def enqueue (lane : SessionLane) (cmd : QueuedCommand) : SessionLane :=
  { lane with pending := lane.pending ++ [cmd] }

/-- Pop the next command and mark it active, unless one is active already, none waits, or
the debounce time of the first has not passed.  `duration_cast` rounds towards zero. -/
def tryActivate (lane : SessionLane) (now : Int) : Option (SessionLane × QueuedCommand) :=
  match lane.pending, lane.activeCommand with
  | front :: rest, none =>
    if (now - front.enqueuedAt).tdiv 1000000 < lane.debounceMs then none
    else
      let cmd := { front with state := .active }
      some ({ lane with pending := rest, activeCommand := some cmd }, cmd)
  | _, _ => none

/-- Empty the active slot, whatever command it holds, and return that command. -/
def completeActive (lane : SessionLane) : SessionLane × Option QueuedCommand :=
  ({ lane with activeCommand := none },
    lane.activeCommand.map fun cmd => { cmd with state := .complete })

/-! ## Cap overflow -/

def summaryHead : List Char := "[Queue summary:".toList

/-- How many messages a text already stands for: one, unless it is a summary whose count
can be read.  Where `": "` does not occur, `npos + 2` wraps around to `1`; a negative
length `pos - start` wraps around to one past the end of the text. -/
def collapsedCount (message : List Char) : Int :=
  if summaryHead.isPrefixOf message then
    match Text.find " messages]".toList message with
    | none => 1
    | some pos =>
      let start := match Text.find ": ".toList message with
        | some i => i + 2
        | none => 1
      let len := if start ≤ pos then pos - start else message.length
      ((Text.substr message start len).bind Text.stoi).getD 1
  else 1

/-- The text of the summary that stands for `oldest` followed by `second`. -/
def summaryText (oldest second : List Char) : List Char :=
  "[Queue summary: ".toList ++ (toString (collapsedCount oldest + 1)).toList ++
    " messages] ".toList ++
    (if summaryHead.isPrefixOf oldest then
      match Text.find "] ".toList oldest with
      | some i => oldest.drop (i + 2)
      | none => []
    else oldest.take 150) ++
    " | ".toList ++ second.take 150

/-- One turn of the overflow loop: the new queue and the ids that were dropped.  The loop
runs right after an `enqueue`, so the queue is not empty. -/
def overflowTurn (lane : SessionLane) : SessionLane × List String :=
  match lane.drop with
  | .summarize =>
    match lane.pending with
    | oldest :: second :: rest =>
      let summary := String.ofList (summaryText oldest.message.toList second.message.toList)
      ({ lane with pending := { oldest with message := summary } :: rest }, [second.id])
    | _ => (lane, [])
  | .dropOldest =>
    match lane.pending with
    | front :: rest => ({ lane with pending := rest }, [front.id])
    | [] => (lane, [])
  | .reject =>
    match lane.pending.getLast? with
    | some back => ({ lane with pending := lane.pending.dropLast }, [back.id])
    | none => (lane, [])

/-- The overflow loop, for at most `fuel` turns.  A cap of zero or less ends it after one. -/
def overflowLoop : Nat → SessionLane → SessionLane × List String
  | 0, lane => (lane, [])
  | fuel + 1, lane =>
    if lane.pending.length ≤ lane.cap then (lane, [])
    else
      let (lane, ids) := lane.overflowTurn
      if lane.cap ≤ 0 then (lane, ids)
      else
        let (lane, ids') := overflowLoop fuel lane
        (lane, ids ++ ids')

/-- Apply the drop policy until the queue fits its cap; returns the dropped ids.  The queue
gets shorter at every turn but the last, so its length bounds the number of turns. -/
def applyCapOverflow (lane : SessionLane) : SessionLane × List String :=
  lane.overflowLoop (lane.pending.length + 1)

/-! ## Draining, cancelling, interrupting -/

/-- Take all waiting messages as one text, separated by empty lines, and clear the queue. -/
def drainPendingAsSteeringText (lane : SessionLane) : SessionLane × String :=
  ({ lane with pending := [] },
    lane.pending.foldl
      (fun result cmd => (if result ≠ "" then result ++ "\n\n" else result) ++ cmd.message) "")

def cancelPending (lane : SessionLane) (commandId : String) : SessionLane × Bool :=
  ({ lane with pending := lane.pending.eraseP (·.id = commandId) },
    lane.pending.any (·.id = commandId))

def keepNewest : List QueuedCommand → List QueuedCommand
  | _ :: second :: rest => keepNewest (second :: rest)
  | short => short

/-- Empty the active slot and drop all waiting commands but the newest.  The worker that
runs the active command is not told. -/
def interruptActive (lane : SessionLane) : SessionLane × Option String :=
  ({ lane with pending := keepNewest lane.pending, activeCommand := none },
    lane.activeCommand.map (·.id))

/-! ## What the operations do to the waiting requests -/

@[simp] theorem request_update (c : QueuedCommand) (message : String) (params : Json)
    (mode : QueueMode) (state : CommandState) :
    QueuedCommand.request { c with message, params, mode, state } = c.request := rfl

@[simp] theorem request_id (c : QueuedCommand) : c.request.id = c.id := rfl

@[simp] theorem requests_enqueue (lane : SessionLane) (cmd : QueuedCommand) :
    (lane.enqueue cmd).requests = lane.requests ++ [cmd.request] := by
  simp [requests, enqueue]

theorem tryActivate_eq_some {lane lane' : SessionLane} {now : Int} {cmd : QueuedCommand}
    (h : lane.tryActivate now = some (lane', cmd)) :
    ∃ front rest, lane.pending = front :: rest ∧ lane.activeCommand = none ∧
      cmd = { front with state := .active } ∧
      lane' = { lane with pending := rest, activeCommand := some cmd } := by
  obtain ⟨key, mode, debounceMs, cap, drop, pending, activeCommand⟩ := lane
  cases pending with
  | nil => simp [tryActivate] at h
  | cons front rest =>
    cases activeCommand with
    | some active => simp [tryActivate] at h
    | none =>
      simp only [tryActivate] at h
      split at h
      · cases h
      · cases h
        exact ⟨front, rest, rfl, rfl, rfl, rfl⟩

/-- One turn of the overflow loop changes the queue only, and the requests it takes out of
the queue are those whose ids it reports. -/
theorem overflowTurn_spec (lane : SessionLane) :
    ∃ pending lost, lane.overflowTurn = ({ lane with pending }, lost.map Request.id) ∧
      lane.requests.Perm (pending.map QueuedCommand.request ++ lost) := by
  obtain ⟨key, mode, debounceMs, cap, drop, pending, activeCommand⟩ := lane
  cases drop with
  | summarize =>
    match pending with
    | [] => exact ⟨[], [], rfl, .refl _⟩
    | [only] => exact ⟨[only], [], rfl, .refl _⟩
    | oldest :: second :: rest =>
      refine ⟨_ :: rest, [second.request], rfl, ?_⟩
      simp only [requests, List.map_cons, List.cons_append, request_update]
      exact .cons _ (List.perm_append_singleton _ _).symm
  | dropOldest =>
    cases pending with
    | nil => exact ⟨[], [], rfl, .refl _⟩
    | cons front rest =>
      exact ⟨rest, [front.request], rfl, (List.perm_append_singleton _ _).symm⟩
  | reject =>
    rcases List.eq_nil_or_concat pending with rfl | ⟨rest, back, rfl⟩
    · exact ⟨[], [], rfl, .refl _⟩
    · refine ⟨rest, [back.request], ?_, ?_⟩
      · simp [overflowTurn]
      · simp [requests]

theorem overflowLoop_spec (fuel : Nat) (lane : SessionLane) :
    ∃ pending lost, lane.overflowLoop fuel = ({ lane with pending }, lost.map Request.id) ∧
      lane.requests.Perm (pending.map QueuedCommand.request ++ lost) := by
  induction fuel generalizing lane with
  | zero => exact ⟨lane.pending, [], rfl, by simp [requests]⟩
  | succ fuel ih =>
    simp only [overflowLoop]
    split
    · exact ⟨lane.pending, [], rfl, by simp [requests]⟩
    · obtain ⟨pending, lost, hturn, hperm⟩ := overflowTurn_spec lane
      rw [hturn]
      split
      · exact ⟨pending, lost, rfl, hperm⟩
      · obtain ⟨pending', lost', hloop, hperm'⟩ := ih { lane with pending }
        rw [hloop]
        refine ⟨pending', lost ++ lost', by simp, ?_⟩
        refine hperm.trans (.trans (.append_right _ hperm') ?_)
        rw [List.append_assoc]
        exact .append_left _ List.perm_append_comm

/-- **Overflow conserves requests.**  Only the queue changes, and every request that waited
before waits afterwards or has its id among the dropped ones. -/
theorem applyCapOverflow_spec (lane : SessionLane) :
    ∃ pending lost, lane.applyCapOverflow = ({ lane with pending }, lost.map Request.id) ∧
      lane.requests.Perm (pending.map QueuedCommand.request ++ lost) :=
  overflowLoop_spec _ lane

theorem dropLast_append_keepNewest (cmds : List QueuedCommand) :
    cmds.dropLast ++ keepNewest cmds = cmds := by
  induction cmds using keepNewest.induct with
  | case1 first second rest ih => simpa [keepNewest] using ih
  | case2 short h =>
    match short, h with
    | [], _ => rfl
    | [only], _ => rfl
    | first :: second :: rest, h => exact (h first second rest rfl).elim

theorem cancelPending_spec (lane : SessionLane) (commandId : String) :
    (∃ front c rest, lane.pending = front ++ c :: rest ∧ c.id = commandId ∧
      lane.cancelPending commandId = ({ lane with pending := front ++ rest }, true)) ∨
    ((∀ c ∈ lane.pending, c.id ≠ commandId) ∧
      lane.cancelPending commandId = (lane, false)) := by
  by_cases h : ∃ c ∈ lane.pending, c.id = commandId
  · left
    obtain ⟨c, hc, hid⟩ := h
    obtain ⟨c', front, rest, hne, hid', heq, herase⟩ :=
      List.exists_of_eraseP (p := (·.id = commandId)) hc (by simpa using hid)
    refine ⟨front, c', rest, heq, by simpa using hid', ?_⟩
    have hany : lane.pending.any (·.id = commandId) = true := by
      rw [List.any_eq_true]
      exact ⟨c, hc, by simpa using hid⟩
    rw [cancelPending, hany, herase]
  · right
    simp only [not_exists, not_and] at h
    refine ⟨h, ?_⟩
    have herase : lane.pending.eraseP (·.id = commandId) = lane.pending :=
      List.eraseP_of_forall_not (by simpa using h)
    have hany : lane.pending.any (·.id = commandId) = false := by simpa using h
    rw [cancelPending, hany, herase]

end SessionLane

end RavBot.Gateway
