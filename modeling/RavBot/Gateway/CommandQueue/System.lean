import RavBot.Gateway.CommandQueue.Queue
import RavBot.Lib.Run

/-!
# The queue, its threads and its clients

A `System` is the queue together with the worker threads that are in flight.  A step is one
atomic action of one thread: a call of a client, a pass of the dispatcher, or one stage of a
worker.  Everything the program does not decide is part of the action: which thread moves,
what the clock says, the order in which the hash table lists its keys, what the executor
returns.  So `exec step` over all lists of actions is every interleaving.

Two components are not part of the program.  `submitted` remembers every request that was
ever submitted, and `notices` what clients and callers were told, in order.

`generate_id` draws 128 random bits; the model takes it as a generator of fresh names, and
`submit` is a step only for an id that was not used before.
-/

namespace RavBot.Gateway

open RavBot.Lib

inductive WorkerPhase where
  /-- The command was pushed on `to_dispatch`; `execute_command` has not begun. -/
  | dispatched
  /-- `queue.started` was sent and the executor is running. -/
  | running
  /-- The executor and the response are done; the last critical section is still to come. -/
  | responded
  deriving DecidableEq, Inhabited, Repr

/-- A worker thread and the command it executes. -/
structure Worker where
  command : QueuedCommand
  phase : WorkerPhase := .dispatched
  deriving Inhabited, Repr

/-- How the executor and the response sender behave for one command. -/
inductive Outcome where
  /-- The executor returned, and its result was sent. -/
  | returned (result : Json)
  /-- The executor threw, and the error was sent. -/
  | threw (what : String)
  /-- The executor returned, sending the result threw, and that error was sent instead. -/
  | sendThrew (what : String)
  deriving Inhabited, Repr

/-- What a client or a caller is told.  A response carries the id of its command as well. -/
inductive Notice where
  /-- `response_sender_` delivered a response. -/
  | response (commandId connectionId rpcRequestId : String) (ok : Bool) (payload : Json)
  /-- `Cancel` returned true. -/
  | cancelled (commandId : String)
  /-- A `queue.overflow` event was sent. -/
  | overflow (event : QueueOverflow)
  /-- Another queue event was sent. -/
  | queueEvent (connectionId eventType commandId sessionKey : String)
  deriving Inhabited, Repr

/-- The queue, the workers in flight, and what is remembered of the past. -/
structure System where
  queue : CommandQueue
  workers : List Worker := []
  submitted : List Request := []
  notices : List Notice := []

/-- One atomic action of one thread. -/
inductive Action where
  | submit (cmdId : String) (now : Int) (s : Submission)
  | cancel (commandId : String)
  | abortSession (sessionKey : String)
  | configureSession (sessionKey : String) (mode : QueueMode) (debounceMs cap : Int)
      (drop : String)
  | setConfig (config : QueueConfig)
  | dispatch (now : Int) (order : List String)
  /-- The worker at this position sends `queue.started` and calls the executor. -/
  | start (i : Nat)
  /-- The executor of the worker at this position ends, and the response is sent. -/
  | respond (i : Nat) (outcome : Outcome)
  /-- The worker at this position goes through its last critical section and ends. -/
  | complete (i : Nat)

/-- The responses that `execute_command` delivers: one if the command has an RPC request id,
and none otherwise. -/
def respond (command : QueuedCommand) (outcome : Outcome) : List Notice :=
  if command.rpcRequestId = "" then []
  else match outcome with
    | .returned result =>
      [.response command.id command.connectionId command.rpcRequestId true result]
    | .threw what | .sendThrew what =>
      [.response command.id command.connectionId command.rpcRequestId false
        (.obj [("error", .str what)])]

/-- The event that `emit_queue_event` sends for a command. -/
def emitQueueEvent (command : QueuedCommand) (eventType : String) : Notice :=
  .queueEvent command.connectionId eventType command.id command.sessionKey

namespace System

def init (config : QueueConfig) : System := { queue := { config } }

/-- One step of the system. -/
def step (sys : System) : Action → Option System
  | .submit cmdId now s =>
    if cmdId ∈ sys.submitted.map Request.id then none
    else
      let (queue, overflow) := sys.queue.submit cmdId now s
      some { sys with
        queue
        submitted := sys.submitted ++
          [⟨cmdId, s.sessionKey, s.connectionId, s.rpcRequestId⟩]
        notices := sys.notices ++ overflow.toList.map .overflow }
  | .cancel commandId =>
    let (queue, cancelled) := sys.queue.cancel commandId
    some { sys with
      queue
      notices := sys.notices ++ if cancelled then [.cancelled commandId] else [] }
  | .abortSession sessionKey =>
    some { sys with queue := (sys.queue.abortSession sessionKey).1 }
  | .configureSession sessionKey mode debounceMs cap drop =>
    some { sys with
      queue := sys.queue.configureSession sessionKey mode debounceMs cap drop }
  | .setConfig config => some { sys with queue := sys.queue.setConfig config }
  | .dispatch now order =>
    if order.Perm sys.queue.lanes.keys then
      (sys.queue.dispatcherPass now order).map fun (queue, toDispatch) =>
        { sys with queue, workers := sys.workers ++ toDispatch.map (⟨·, .dispatched⟩) }
    else none
  | .start i =>
    match sys.workers[i]? with
    | some ⟨command, .dispatched⟩ => some { sys with
        workers := sys.workers.set i ⟨command, .running⟩
        notices := sys.notices ++ [emitQueueEvent command "queue.started"] }
    | _ => none
  | .respond i outcome =>
    match sys.workers[i]? with
    | some ⟨command, .running⟩ => some { sys with
        workers := sys.workers.set i ⟨command, .responded⟩
        notices := sys.notices ++ RavBot.Gateway.respond command outcome }
    | _ => none
  | .complete i =>
    match sys.workers[i]? with
    | some ⟨command, .responded⟩ => some { sys with
        queue := sys.queue.finish command
        workers := sys.workers.eraseIdx i
        notices := sys.notices ++ [emitQueueEvent command "queue.completed"] }
    | _ => none

def Reaches (config : QueueConfig) (as : List Action) (sys : System) : Prop :=
  exec step (init config) as = some sys

/-- The number of workers in flight for a session: dispatched, and not through their last
critical section. -/
def inFlight (sys : System) (key : String) : Nat :=
  sys.workers.countP (·.command.sessionKey = key)

/-! ## Inversion of the steps

What each step needs and what it changes, in the form in which the invariants use it. -/

variable {i : Nat}

theorem getElem?_split {workers : List Worker} {w : Worker}
    (h : workers[i]? = some w) :
    ∃ l₁ l₂, workers = l₁ ++ w :: l₂ ∧ (∀ w', workers.set i w' = l₁ ++ w' :: l₂) ∧
      workers.eraseIdx i = l₁ ++ l₂ := by
  induction workers generalizing i with
  | nil => simp at h
  | cons hd tl ih =>
    cases i with
    | zero =>
      obtain rfl : hd = w := by simpa using h
      exact ⟨[], tl, rfl, fun _ => rfl, rfl⟩
    | succ i =>
      obtain ⟨l₁, l₂, rfl, hset, herase⟩ := ih (by simpa using h)
      exact ⟨hd :: l₁, l₂, rfl, fun w' => by simp [hset w'], by simp [herase]⟩

variable {sys sys' : System}

theorem step_submit {cmdId : String} {now : Int} {s : Submission}
    (h : sys.step (.submit cmdId now s) = some sys') :
    cmdId ∉ sys.submitted.map Request.id ∧
      sys' = { sys with
        queue := (sys.queue.submit cmdId now s).1
        submitted := sys.submitted ++ [(sys.queue.makeCommand cmdId now s).request]
        notices := sys.notices ++
          (sys.queue.submit cmdId now s).2.toList.map .overflow } := by
  simp only [step] at h
  split at h
  · cases h
  · next hfresh =>
      cases h
      exact ⟨hfresh, rfl⟩

theorem step_dispatch {now : Int} {order : List String}
    (h : sys.step (.dispatch now order) = some sys') :
    order.Perm sys.queue.lanes.keys ∧
      ∃ q out, CommandQueue.dispatchKeys now order sys.queue [] = some (q, out) ∧
        sys' = { sys with
          queue := q.cleanUpIdle
          workers := sys.workers ++ out.map (⟨·, .dispatched⟩) } := by
  simp only [step] at h
  split at h
  · next hperm =>
      obtain ⟨⟨q', out'⟩, hpass, rfl⟩ := Option.map_eq_some_iff.1 h
      obtain ⟨⟨q, out⟩, hkeys, heq⟩ := Option.map_eq_some_iff.1 hpass
      cases heq
      exact ⟨hperm, q, _, hkeys, rfl⟩
  · cases h

theorem step_start (h : sys.step (.start i) = some sys') :
    ∃ l₁ command l₂, sys.workers = l₁ ++ ⟨command, .dispatched⟩ :: l₂ ∧
      sys' = { sys with
        workers := l₁ ++ ⟨command, .running⟩ :: l₂
        notices := sys.notices ++ [emitQueueEvent command "queue.started"] } := by
  simp only [step] at h
  split at h
  · next command hget =>
      obtain ⟨l₁, l₂, heq, hset, -⟩ := getElem?_split hget
      cases h
      exact ⟨l₁, command, l₂, heq, by rw [hset]⟩
  · cases h

theorem step_respond {outcome : Outcome}
    (h : sys.step (.respond i outcome) = some sys') :
    ∃ l₁ command l₂, sys.workers = l₁ ++ ⟨command, .running⟩ :: l₂ ∧
      sys' = { sys with
        workers := l₁ ++ ⟨command, .responded⟩ :: l₂
        notices := sys.notices ++ RavBot.Gateway.respond command outcome } := by
  simp only [step] at h
  split at h
  · next command hget =>
      obtain ⟨l₁, l₂, heq, hset, -⟩ := getElem?_split hget
      cases h
      exact ⟨l₁, command, l₂, heq, by rw [hset]⟩
  · cases h

theorem step_complete (h : sys.step (.complete i) = some sys') :
    ∃ l₁ command l₂, sys.workers = l₁ ++ ⟨command, .responded⟩ :: l₂ ∧
      sys' = { sys with
        queue := sys.queue.finish command
        workers := l₁ ++ l₂
        notices := sys.notices ++ [emitQueueEvent command "queue.completed"] } := by
  simp only [step] at h
  split at h
  · next command hget =>
      obtain ⟨l₁, l₂, heq, -, herase⟩ := getElem?_split hget
      cases h
      exact ⟨l₁, command, l₂, heq, by rw [herase]⟩
  · cases h

end System

end RavBot.Gateway
