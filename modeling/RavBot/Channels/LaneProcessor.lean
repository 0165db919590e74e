import Mathlib.Data.List.Sort
import RavBot.Lib.Run
import RavBot.Lib.Table

/-!
# Lanes

A lane has a queue of handlers and a worker that runs them one after the other.  `Submit` finds or creates
the lane under the mutex of the lanes, puts the handler into the queue under the mutex of the lane, and
notifies the worker; `Shutdown` holds the mutex of the lanes while it stops each lane, notifies its worker
and joins it, and destroys the lanes at the end.  The stop flags are guarded by neither.

Each step below is what a thread does between two places at which others can see it.  A handler goes by the
number of the call of `Submit` that brought it.
-/

open List

namespace RavBot.Channels

open RavBot.Lib

/-- Where a call of `Submit` is.  `late` tells that it has found its lane after the lanes were destroyed. -/
inductive SubmitPhase where
  | rejected
  | checked (lane : String)
  | located (lane : String) (late : Bool)
  | pushed (lane : String) (late : Bool)
  | notified (lane : String)
  | returned
deriving DecidableEq, Repr

inductive WorkerPhase where
  /-- Before the test of the loop. -/
  | starting
  /-- Before it takes the mutex of the lane, and tests what it waits for. -/
  | entering
  /-- It holds the mutex, and has found nothing. -/
  | blocking
  /-- It has released the mutex, and waits for a notification. -/
  | waiting
  /-- It holds the mutex, and has found something. -/
  | ready
  /-- It runs a handler. -/
  | busy (handler : Nat)
  | stopped
deriving DecidableEq, Repr

structure Lane where
  queue : List Nat := []
  running : Bool := true
  worker : WorkerPhase := .starting
deriving DecidableEq, Repr

/-- Where `Shutdown` is. -/
inductive ShutdownPhase where
  | idle
  | flagged
  /-- It holds the mutex of the lanes, and these are left to stop. -/
  | sweeping (left : List String)
  /-- The flag of a lane is cleared. -/
  | stopping (lane : String) (left : List String)
  /-- The worker of a lane was notified, and is joined. -/
  | joining (lane : String) (left : List String)
  | returned
deriving DecidableEq, Repr

/-- The processor with its threads, and what happened to handlers so far: which were put into the queue of
which lane, and which were started and finished. -/
structure LaneProcessor where
  shutdown : Bool := false
  lanes : Table String Lane := ∅
  submits : Table Nat SubmitPhase := ∅
  shutdownPhase : ShutdownPhase := .idle
  queued : List (String × Nat) := []
  started : List (String × Nat) := []
  finished : List (String × Nat) := []

inductive LaneAction where
  /-- `Submit` is called, and tests `shutdown_`. -/
  | check (t : Nat) (lane : String)
  /-- `Submit` finds or creates its lane. -/
  | locate (t : Nat)
  /-- `Submit` puts its handler into the queue. -/
  | push (t : Nat)
  /-- `Submit` notifies the worker. -/
  | notify (t : Nat)
  /-- `Submit` asks for the size of the queue for its log, and returns. -/
  | report (t : Nat)
  /-- The next step of a worker. -/
  | worker (lane : String)
  /-- A worker wakes up without a notification. -/
  | wake (lane : String)
  /-- The next step of `Shutdown`. -/
  | shutdown
deriving DecidableEq, Repr

namespace SubmitPhase

def hasPushed : SubmitPhase → Bool
  | pushed _ _ | notified _ | returned => true
  | _ => false

end SubmitPhase

namespace WorkerPhase

def locked : WorkerPhase → Bool
  | blocking | ready => true
  | _ => false

def handlers : WorkerPhase → List Nat
  | busy h => [h]
  | _ => []

/-- The worker takes a handler from the queue before it tests the flag of the lane again. -/
def taking : WorkerPhase → Bool
  | entering | waiting | ready => true
  | _ => false

end WorkerPhase

namespace ShutdownPhase

/-- The lanes that are left to stop or to join while the mutex of the lanes is held. -/
def left : ShutdownPhase → Option (List String)
  | sweeping left => some left
  | stopping lane left | joining lane left => some (lane :: left)
  | _ => none

end ShutdownPhase

namespace Lane

/-- `notify_one`. -/
def notify (lane : Lane) : Lane :=
  if lane.worker = .waiting then { lane with worker := .entering } else lane

end Lane

namespace LaneProcessor

/-! ## The code -/

def setLane (s : LaneProcessor) (id : String) (lane : Lane) : LaneProcessor :=
  { s with lanes := s.lanes.insert id lane }

/-- A call of `Submit` gets on. -/
def setSubmit (s : LaneProcessor) (t : Nat) (phase : SubmitPhase) : LaneProcessor :=
  { s with submits := s.submits.insert t phase }

/-- `Shutdown` gets on. -/
def setShutdown (s : LaneProcessor) (phase : ShutdownPhase) : LaneProcessor :=
  { s with shutdownPhase := phase }

def cleared (s : LaneProcessor) : Bool := s.shutdownPhase = .returned

def enqueue (s : LaneProcessor) (id : String) (lane : Lane) (t : Nat) : LaneProcessor :=
  { s.setLane id { lane with queue := lane.queue ++ [t] } with queued := s.queued ++ [(id, t)] }

/-- A worker takes a handler from the front of the queue, and runs it. -/
def take (s : LaneProcessor) (id : String) (lane : Lane) (h : Nat) (queue : List Nat) : LaneProcessor :=
  { s.setLane id { lane with queue, worker := .busy h } with started := s.started ++ [(id, h)] }

def finish (s : LaneProcessor) (id : String) (lane : Lane) (h : Nat) : LaneProcessor :=
  { s.setLane id { lane with worker := .starting } with finished := s.finished ++ [(id, h)] }

/-- A step of a call of `Submit`.  Using a lane that was destroyed has no defined behaviour. -/
def submitStep (s : LaneProcessor) (t : Nat) : SubmitPhase → Option LaneProcessor
  | .checked id =>
    if s.shutdownPhase.left.isSome then none
    else
      let s' := if (s.lanes.lookup id).isSome then s else s.setLane id {}
      some (s'.setSubmit t (.located id s.cleared))
  | .located id late =>
    if late ≠ s.cleared then none
    else
      match s.lanes.lookup id with
      | none => none
      | some lane =>
        if lane.worker.locked then none
        else some ((s.enqueue id lane t).setSubmit t (.pushed id late))
  | .pushed id late =>
    if late ≠ s.cleared then none
    else
      match s.lanes.lookup id with
      | none => none
      | some lane => some ((s.setLane id lane.notify).setSubmit t (.notified id))
  | .notified id =>
    if s.shutdownPhase.left.isSome ∨ ((s.lanes.lookup id).any fun lane => lane.worker.locked) then none
    else some (s.setSubmit t .returned)
  | .rejected | .returned => none

/-- A step of `worker_thread`. -/
def workerStep (s : LaneProcessor) (id : String) (lane : Lane) : Option LaneProcessor :=
  match lane.worker with
  | .starting =>
    some (s.setLane id { lane with worker := if lane.running then .entering else .stopped })
  | .entering =>
    some (s.setLane id { lane with
      worker := if lane.queue ≠ [] ∨ lane.running = false then .ready else .blocking })
  | .blocking => some (s.setLane id { lane with worker := .waiting })
  | .waiting => none
  | .ready =>
    match lane.queue with
    | h :: queue => some (s.take id lane h queue)
    | [] => some (s.setLane id { lane with worker := if lane.running then .starting else .stopped })
  | .busy h => some (s.finish id lane h)
  | .stopped => none

/-- A step of `Shutdown`. -/
def shutdownStep (s : LaneProcessor) : Option LaneProcessor :=
  match s.shutdownPhase with
  | .idle => some { s with shutdown := true, shutdownPhase := .flagged }
  | .flagged => some (s.setShutdown (.sweeping (s.lanes.keys.insertionSort (· ≤ ·))))
  | .sweeping [] => some { s with lanes := ∅, shutdownPhase := .returned }
  | .sweeping (id :: left) =>
    match s.lanes.lookup id with
    | none => none
    | some lane => some ((s.setLane id { lane with running := false }).setShutdown (.stopping id left))
  | .stopping id left =>
    match s.lanes.lookup id with
    | none => none
    | some lane => some ((s.setLane id lane.notify).setShutdown (.joining id left))
  | .joining id left =>
    match s.lanes.lookup id with
    | none => none
    | some lane => if lane.worker = .stopped then some (s.setShutdown (.sweeping left)) else none
  | .returned => none

/-- What a step does; `none` when it cannot be taken. -/
def step (s : LaneProcessor) : LaneAction → Option LaneProcessor
  | .check t id =>
    if (s.submits.lookup t).isSome then none
    else some (s.setSubmit t (if s.shutdown then .rejected else .checked id))
  | .locate t =>
    match s.submits.lookup t with
    | some (.checked id) => s.submitStep t (.checked id)
    | _ => none
  | .push t =>
    match s.submits.lookup t with
    | some (.located id late) => s.submitStep t (.located id late)
    | _ => none
  | .notify t =>
    match s.submits.lookup t with
    | some (.pushed id late) => s.submitStep t (.pushed id late)
    | _ => none
  | .report t =>
    match s.submits.lookup t with
    | some (.notified id) => s.submitStep t (.notified id)
    | _ => none
  | .worker id => (s.lanes.lookup id).bind (s.workerStep id)
  | .wake id =>
    (s.lanes.lookup id).bind fun lane =>
      if lane.worker = .waiting then some (s.setLane id lane.notify) else none
  | .shutdown => s.shutdownStep

/-! ## The statement -/

def ofLane (history : List (String × Nat)) (id : String) : List Nat :=
  (history.filter fun e => e.1 = id).map Prod.snd

def OneAtATime (s : LaneProcessor) : Prop :=
  ∀ id, (ofLane s.started id).length ≤ (ofLane s.finished id).length + 1

/-- No handler is queued twice, and those of a lane are started in the order in which they were queued. -/
def InOrder (s : LaneProcessor) : Prop :=
  (s.queued.map Prod.snd).Nodup ∧ ∀ id, (ofLane s.started id).Sublist (ofLane s.queued id)

/-- When `Shutdown` has returned, every handler whose call of `Submit` was not rejected was run once. -/
def Delivered (s : LaneProcessor) : Prop :=
  s.shutdownPhase = .returned → ∀ t phase, s.submits.lookup t = some phase → phase ≠ .rejected →
    (s.finished.map Prod.snd).count t = 1

/-- `Shutdown` does not wait for a worker that waits for a notification although its lane is stopped. -/
def NotStuck (s : LaneProcessor) : Prop :=
  ∀ id left lane, s.shutdownPhase = .joining id left → s.lanes.lookup id = some lane →
    lane.running = false → lane.worker ≠ .waiting

/-! ## What every run keeps -/

def queueOf (s : LaneProcessor) (id : String) : List Nat := ((s.lanes.lookup id).map Lane.queue).getD []

def busyOf (s : LaneProcessor) (id : String) : List Nat :=
  ((s.lanes.lookup id).map fun lane => lane.worker.handlers).getD []

/-- What holds of the lanes and the histories in every run. -/
structure Inv (s : LaneProcessor) : Prop where
  /-- What was queued in a lane and is not in the queue was taken or lost. -/
  order : ∀ id, ∃ taken, ofLane s.queued id = taken ++ s.queueOf id ∧
    (ofLane s.started id).Sublist taken
  busy : ∀ id, ofLane s.started id = ofLane s.finished id ++ s.busyOf id
  swept : ∀ left, s.shutdownPhase.left = some left → ∀ id lane, s.lanes.lookup id = some lane →
    id ∈ left ∨ lane.worker = .stopped
  pushed : ∀ t, t ∈ s.queued.map Prod.snd ↔
    ∃ phase, s.submits.lookup t = some phase ∧ phase.hasPushed = true
  nodup : (s.queued.map Prod.snd).Nodup

@[simp] theorem ofLane_append_same (history : List (String × Nat)) (id : String) (h : Nat) :
    ofLane (history ++ [(id, h)]) id = ofLane history id ++ [h] := by
  simp [ofLane]

variable {id : String}

theorem ofLane_append_of_ne (history : List (String × Nat)) {id' : String} (hne : id ≠ id') (h : Nat) :
    ofLane (history ++ [(id, h)]) id' = ofLane history id' := by
  simp [ofLane, hne]

theorem lookup_setLane (s : LaneProcessor) (id id' : String) (lane : Lane) :
    (s.setLane id lane).lanes.lookup id' = if id' = id then some lane else s.lanes.lookup id' :=
  Table.lookup_insert_ite _ _ _ _

theorem queueOf_setLane (s : LaneProcessor) (id id' : String) (lane : Lane) :
    (s.setLane id lane).queueOf id' = if id' = id then lane.queue else s.queueOf id' := by
  rw [queueOf, lookup_setLane]
  by_cases h : id' = id
  · rw [if_pos h, if_pos h]
    rfl
  · rw [if_neg h, if_neg h]
    rfl

theorem busyOf_setLane (s : LaneProcessor) (id id' : String) (lane : Lane) :
    (s.setLane id lane).busyOf id' = if id' = id then lane.worker.handlers else s.busyOf id' := by
  rw [busyOf, lookup_setLane]
  by_cases h : id' = id
  · rw [if_pos h, if_pos h]
    rfl
  · rw [if_neg h, if_neg h]
    rfl

theorem inv_init : Inv {} :=
  ⟨fun _ => ⟨[], rfl, .refl _⟩, fun _ => rfl, nofun, fun _ => iff_of_false nofun nofun, nodup_nil⟩

variable {s : LaneProcessor} {lane : Lane}

theorem Inv.swept_setLane (h : s.Inv) {lane' : Lane}
    (hlane : s.lanes.lookup id = some lane) (hstopped : lane.worker = .stopped → lane'.worker = .stopped)
    {left : List String} (hleft : s.shutdownPhase.left = some left) {id' : String} {lane₁ : Lane}
    (hlane₁ : (s.setLane id lane').lanes.lookup id' = some lane₁) :
    id' ∈ left ∨ lane₁.worker = .stopped := by
  rw [lookup_setLane] at hlane₁
  by_cases hid : id' = id
  · rw [if_pos hid, Option.some_inj] at hlane₁
    subst hid hlane₁
    exact (h.swept left hleft id' lane hlane).imp_right hstopped
  · rw [if_neg hid] at hlane₁
    exact h.swept left hleft id' lane₁ hlane₁

theorem Inv.setLane (h : s.Inv) {lane' : Lane}
    (hlane : s.lanes.lookup id = some lane) (hqueue : lane'.queue = lane.queue)
    (hhandlers : lane'.worker.handlers = lane.worker.handlers)
    (hstopped : lane.worker = .stopped → lane'.worker = .stopped) : (s.setLane id lane').Inv := by
  have hqueues : ∀ id', (s.setLane id lane').queueOf id' = s.queueOf id' := by
    intro id'
    rw [queueOf_setLane]
    by_cases hid : id' = id
    · rw [if_pos hid, hqueue, hid, queueOf, hlane]
      rfl
    · rw [if_neg hid]
  have hbusy : ∀ id', (s.setLane id lane').busyOf id' = s.busyOf id' := by
    intro id'
    rw [busyOf_setLane]
    by_cases hid : id' = id
    · rw [if_pos hid, hhandlers, hid, busyOf, hlane]
      rfl
    · rw [if_neg hid]
  refine ⟨fun id' => ?_, fun id' => ?_, fun left hleft id' lane₁ => h.swept_setLane hlane hstopped hleft,
    h.pushed, h.nodup⟩
  · rw [hqueues]
    exact h.order id'
  · rw [hbusy]
    exact h.busy id'

variable {t : Nat} {phase : SubmitPhase}

theorem Inv.setSubmit (h : s.Inv)
    (hphase : phase.hasPushed = true ↔ t ∈ s.queued.map Prod.snd) : (s.setSubmit t phase).Inv := by
  refine ⟨h.order, h.busy, h.swept, fun t' => ?_, h.nodup⟩
  have hlookup : (s.setSubmit t phase).submits.lookup t' =
      if t' = t then some phase else s.submits.lookup t' := Table.lookup_insert_ite _ _ _ _
  rw [hlookup]
  by_cases ht : t' = t
  · rw [if_pos ht, ht]
    refine hphase.symm.trans ⟨fun hpushed => ⟨phase, rfl, hpushed⟩, ?_⟩
    rintro ⟨phase', heq, hpushed⟩
    exact Option.some.inj heq ▸ hpushed
  · rw [if_neg ht]
    exact h.pushed t'

theorem Inv.setShutdown (h : s.Inv) {phase : ShutdownPhase}
    (hphase : ∀ left, phase.left = some left → ∀ id lane, s.lanes.lookup id = some lane →
      id ∈ left ∨ lane.worker = .stopped) : (s.setShutdown phase).Inv :=
  ⟨h.order, h.busy, hphase, h.pushed, h.nodup⟩

theorem Inv.not_mem_queued (h : s.Inv)
    (ht : s.submits.lookup t = some phase) (hphase : phase.hasPushed = false) :
    t ∉ s.queued.map Prod.snd := by
  rw [h.pushed t, ht]
  simp [hphase]

theorem Inv.create (h : s.Inv) (hid : s.lanes.lookup id = none)
    (hleft : s.shutdownPhase.left = none) : (s.setLane id {}).Inv := by
  refine ⟨fun id' => ?_, fun id' => ?_, fun left hleft' => ?_, h.pushed, h.nodup⟩
  · rw [queueOf_setLane]
    by_cases heq : id' = id
    · have horder := h.order id
      rw [queueOf, hid] at horder
      rw [if_pos heq, heq]
      exact horder
    · rw [if_neg heq]
      exact h.order id'
  · rw [busyOf_setLane]
    by_cases heq : id' = id
    · have hbusy := h.busy id
      rw [busyOf, hid] at hbusy
      rw [if_pos heq, heq]
      exact hbusy
    · rw [if_neg heq]
      exact h.busy id'
  · have hnone : s.shutdownPhase.left = some left := hleft'
    rw [hleft] at hnone
    cases hnone

theorem Inv.enqueue (h : s.Inv) {late : Bool}
    (hlane : s.lanes.lookup id = some lane) (ht : s.submits.lookup t = some (.located id late)) :
    ((s.enqueue id lane t).setSubmit t (.pushed id late)).Inv := by
  have hnew := h.not_mem_queued ht rfl
  have hqueue : ∀ id', ((s.enqueue id lane t).setSubmit t (.pushed id late)).queueOf id' =
      if id' = id then lane.queue ++ [t] else s.queueOf id' :=
    fun id' => queueOf_setLane s id id' { lane with queue := lane.queue ++ [t] }
  have hbusy : ∀ id', ((s.enqueue id lane t).setSubmit t (.pushed id late)).busyOf id' =
      if id' = id then lane.worker.handlers else s.busyOf id' :=
    fun id' => busyOf_setLane s id id' { lane with queue := lane.queue ++ [t] }
  have hsubmits : ∀ t', ((s.enqueue id lane t).setSubmit t (.pushed id late)).submits.lookup t' =
      if t' = t then some (.pushed id late) else s.submits.lookup t' :=
    fun t' => Table.lookup_insert_ite _ _ _ _
  have hmem : ∀ t', t' ∈ (s.queued ++ [(id, t)]).map Prod.snd ↔ t' ∈ s.queued.map Prod.snd ∨ t' = t := by
    intro t'
    rw [map_append, mem_append, map_singleton, mem_singleton]
  refine ⟨fun id' => ?_, fun id' => ?_, fun left hleft id' lane₁ hlane₁ => ?_, fun t' => ?_, ?_⟩
  · obtain ⟨taken, htaken, hsub⟩ := h.order id'
    rw [hqueue]
    refine ⟨taken, ?_, hsub⟩
    by_cases hid : id' = id
    · subst hid
      rw [queueOf, hlane] at htaken
      have hsame : ofLane (s.queued ++ [(id', t)]) id' = ofLane s.queued id' ++ [t] := by simp
      rw [if_pos rfl, ← append_assoc]
      exact hsame.trans (congrArg (· ++ [t]) htaken)
    · rw [if_neg hid]
      exact (ofLane_append_of_ne _ (Ne.symm hid) t).trans htaken
  · rw [hbusy]
    by_cases hid : id' = id
    · rw [if_pos hid, hid]
      have := h.busy id
      rwa [busyOf, hlane] at this
    · rw [if_neg hid]
      exact h.busy id'
  · have hlane₂ : (s.setLane id { lane with queue := lane.queue ++ [t] }).lanes.lookup id' = some lane₁ :=
      hlane₁
    refine h.swept_setLane hlane ?_ hleft hlane₂
    exact fun hstopped => hstopped
  · rw [hsubmits]
    refine (hmem t').trans ?_
    by_cases heq : t' = t
    · simp [heq, SubmitPhase.hasPushed]
    · rw [if_neg heq, or_iff_left heq]
      exact h.pushed t'
  · have hnodup : (s.queued.map Prod.snd ++ [t]).Nodup :=
      nodup_append_comm.1 (nodup_cons.2 ⟨hnew, h.nodup⟩)
    rwa [← map_singleton (f := Prod.snd) (a := (id, t)), ← map_append] at hnodup

theorem Inv.take (h : s.Inv) {handler : Nat}
    {queue : List Nat} (hlane : s.lanes.lookup id = some lane) (hworker : lane.worker = .ready)
    (hqueue : lane.queue = handler :: queue) : (s.take id lane handler queue).Inv := by
  have hqueues : ∀ id', (s.take id lane handler queue).queueOf id' =
      if id' = id then queue else s.queueOf id' :=
    fun id' => queueOf_setLane s id id' { lane with queue, worker := .busy handler }
  have hbusy : ∀ id', (s.take id lane handler queue).busyOf id' =
      if id' = id then [handler] else s.busyOf id' :=
    fun id' => busyOf_setLane s id id' { lane with queue, worker := .busy handler }
  refine ⟨fun id' => ?_, fun id' => ?_, fun left hleft id' lane₁ hlane₁ => ?_, h.pushed, h.nodup⟩
  · obtain ⟨taken, htaken, hsub⟩ := h.order id'
    rw [hqueues]
    by_cases hid : id' = id
    · subst hid
      rw [queueOf, hlane, Option.map_some, Option.getD_some, hqueue] at htaken
      have hstarted : ofLane (s.take id' lane handler queue).started id' =
          ofLane s.started id' ++ [handler] := ofLane_append_same _ _ _
      rw [if_pos rfl, hstarted]
      refine ⟨taken ++ [handler], ?_, hsub.append_right _⟩
      rw [append_assoc]
      exact htaken
    · have hstarted : ofLane (s.take id lane handler queue).started id' = ofLane s.started id' :=
        ofLane_append_of_ne _ (Ne.symm hid) _
      rw [if_neg hid, hstarted]
      exact ⟨taken, htaken, hsub⟩
  · rw [hbusy]
    by_cases hid : id' = id
    · subst hid
      have hbefore := h.busy id'
      rw [busyOf, hlane, Option.map_some, Option.getD_some, hworker] at hbefore
      have hstarted : ofLane (s.take id' lane handler queue).started id' =
          ofLane s.started id' ++ [handler] := ofLane_append_same _ _ _
      rw [if_pos rfl, hstarted, hbefore]
      exact congrArg (· ++ [handler]) (append_nil _)
    · have hstarted : ofLane (s.take id lane handler queue).started id' = ofLane s.started id' :=
        ofLane_append_of_ne _ (Ne.symm hid) _
      rw [if_neg hid, hstarted]
      exact h.busy id'
  · have hlane₂ : (s.setLane id { lane with queue, worker := .busy handler }).lanes.lookup id' =
        some lane₁ := hlane₁
    exact h.swept_setLane hlane (hworker ▸ nofun) hleft hlane₂

theorem Inv.finish (h : s.Inv) {handler : Nat}
    (hlane : s.lanes.lookup id = some lane) (hworker : lane.worker = .busy handler) :
    (s.finish id lane handler).Inv := by
  have hqueues : ∀ id', (s.finish id lane handler).queueOf id' = s.queueOf id' := by
    intro id'
    refine (queueOf_setLane s id id' { lane with worker := .starting }).trans ?_
    by_cases hid : id' = id
    · rw [if_pos hid, hid, queueOf, hlane]
      rfl
    · rw [if_neg hid]
  have hbusy : ∀ id', (s.finish id lane handler).busyOf id' = if id' = id then [] else s.busyOf id' :=
    fun id' => busyOf_setLane s id id' { lane with worker := .starting }
  refine ⟨fun id' => ?_, fun id' => ?_, fun left hleft id' lane₁ hlane₁ => ?_, h.pushed, h.nodup⟩
  · rw [hqueues]
    exact h.order id'
  · rw [hbusy]
    by_cases hid : id' = id
    · subst hid
      have hbefore := h.busy id'
      rw [busyOf, hlane, Option.map_some, Option.getD_some, hworker] at hbefore
      have hfinished : ofLane (s.finish id' lane handler).finished id' =
          ofLane s.finished id' ++ [handler] := ofLane_append_same _ _ _
      rw [if_pos rfl, hfinished, append_nil]
      exact hbefore
    · have hfinished : ofLane (s.finish id lane handler).finished id' = ofLane s.finished id' :=
        ofLane_append_of_ne _ (Ne.symm hid) _
      rw [if_neg hid, hfinished]
      exact h.busy id'
  · have hlane₂ : (s.setLane id { lane with worker := .starting }).lanes.lookup id' = some lane₁ := hlane₁
    exact h.swept_setLane hlane (hworker ▸ nofun) hleft hlane₂

theorem Inv.clear (h : s.Inv) (hleft : s.shutdownPhase = .sweeping []) :
    Inv { s with lanes := ∅, shutdownPhase := .returned } := by
  refine ⟨fun id => ?_, fun id => ?_, nofun, h.pushed, h.nodup⟩
  · obtain ⟨taken, htaken, hsub⟩ := h.order id
    refine ⟨ofLane s.queued id, (append_nil _).symm, hsub.trans ?_⟩
    rw [htaken]
    exact sublist_append_left _ _
  · have hbusy := h.busy id
    have hnone : s.busyOf id = [] := by
      rw [busyOf]
      cases hlane : s.lanes.lookup id with
      | none => rfl
      | some lane =>
        have hstopped := h.swept [] (by rw [hleft]; rfl) id lane hlane
        rw [Option.map_some, Option.getD_some, hstopped.resolve_left not_mem_nil]
        rfl
    rw [hnone] at hbusy
    exact hbusy

theorem notify_spec (lane : Lane) :
    lane.notify.queue = lane.queue ∧ lane.notify.running = lane.running ∧
      lane.notify.worker.handlers = lane.worker.handlers ∧
      (lane.worker = .stopped → lane.notify.worker = .stopped) := by
  rw [Lane.notify]
  by_cases h : lane.worker = .waiting
  · rw [if_pos h, h]
    exact ⟨rfl, rfl, rfl, nofun⟩
  · rw [if_neg h]
    exact ⟨rfl, rfl, rfl, fun h => h⟩

theorem Inv.notify (h : s.Inv)
    (hlane : s.lanes.lookup id = some lane) : (s.setLane id lane.notify).Inv :=
  h.setLane hlane (notify_spec lane).1 (notify_spec lane).2.2.1 (notify_spec lane).2.2.2

/-! ## The steps -/

variable {s' : LaneProcessor}

theorem Inv.submitStep (h : s.Inv)
    (ht : s.submits.lookup t = some phase) (hstep : s.submitStep t phase = some s') : s'.Inv := by
  cases phase with
  | rejected => cases hstep
  | returned => cases hstep
  | checked id =>
    rw [LaneProcessor.submitStep] at hstep
    by_cases hleft : s.shutdownPhase.left.isSome
    · rw [if_pos hleft] at hstep
      cases hstep
    · rw [if_neg hleft] at hstep
      obtain rfl := Option.some.inj hstep
      have hnone : s.shutdownPhase.left = none := by simpa using hleft
      by_cases hid : (s.lanes.lookup id).isSome
      · rw [if_pos hid]
        exact h.setSubmit (iff_of_false nofun (h.not_mem_queued ht rfl))
      · rw [if_neg hid]
        have hcreate := h.create (by simpa using hid) hnone
        exact hcreate.setSubmit (iff_of_false nofun (h.not_mem_queued ht rfl))
  | located id late =>
    rw [LaneProcessor.submitStep] at hstep
    by_cases hlate : late ≠ s.cleared
    · rw [if_pos hlate] at hstep
      cases hstep
    · rw [if_neg hlate] at hstep
      cases hlane : s.lanes.lookup id with
      | none =>
        rw [hlane] at hstep
        cases hstep
      | some lane =>
        simp only [hlane] at hstep
        by_cases hlocked : lane.worker.locked = true
        · rw [if_pos hlocked] at hstep
          cases hstep
        · rw [if_neg hlocked] at hstep
          obtain rfl := Option.some.inj hstep
          exact h.enqueue hlane ht
  | pushed id late =>
    rw [LaneProcessor.submitStep] at hstep
    by_cases hlate : late ≠ s.cleared
    · rw [if_pos hlate] at hstep
      cases hstep
    · rw [if_neg hlate] at hstep
      cases hlane : s.lanes.lookup id with
      | none =>
        rw [hlane] at hstep
        cases hstep
      | some lane =>
        simp only [hlane, Option.some_inj] at hstep
        subst hstep
        have hqueued : t ∈ s.queued.map Prod.snd := (h.pushed t).2 ⟨_, ht, rfl⟩
        exact (h.notify hlane).setSubmit (iff_of_true rfl hqueued)
  | notified id =>
    rw [LaneProcessor.submitStep] at hstep
    split_ifs at hstep
    obtain rfl := Option.some.inj hstep
    exact h.setSubmit (iff_of_true rfl ((h.pushed t).2 ⟨_, ht, rfl⟩))

theorem Inv.workerStep (h : s.Inv)
    (hlane : s.lanes.lookup id = some lane) (hstep : s.workerStep id lane = some s') : s'.Inv := by
  rw [LaneProcessor.workerStep] at hstep
  cases hworker : lane.worker with
  | starting =>
    simp only [hworker, Option.some_inj] at hstep
    subst hstep
    refine h.setLane hlane rfl ?_ (hworker ▸ nofun)
    rw [hworker]
    cases lane.running <;> rfl
  | entering =>
    simp only [hworker, Option.some_inj] at hstep
    subst hstep
    refine h.setLane hlane rfl ?_ (hworker ▸ nofun)
    rw [hworker]
    dsimp only
    split_ifs <;> rfl
  | blocking =>
    simp only [hworker, Option.some_inj] at hstep
    subst hstep
    exact h.setLane hlane rfl (by rw [hworker]; rfl) (hworker ▸ nofun)
  | waiting =>
    rw [hworker] at hstep
    cases hstep
  | ready =>
    cases hqueue : lane.queue with
    | nil =>
      simp only [hworker, hqueue, Option.some_inj] at hstep
      subst hstep
      refine h.setLane hlane hqueue.symm ?_ (hworker ▸ nofun)
      rw [hworker]
      cases lane.running <;> rfl
    | cons handler queue =>
      simp only [hworker, hqueue, Option.some_inj] at hstep
      subst hstep
      exact h.take hlane hworker hqueue
  | busy handler =>
    simp only [hworker, Option.some_inj] at hstep
    subst hstep
    exact h.finish hlane hworker
  | stopped =>
    rw [hworker] at hstep
    cases hstep

theorem Inv.shutdownStep (h : s.Inv) (hstep : s.shutdownStep = some s') : s'.Inv := by
  rw [LaneProcessor.shutdownStep] at hstep
  cases hphase : s.shutdownPhase with
  | idle =>
    simp only [hphase, Option.some_inj] at hstep
    subst hstep
    exact ⟨h.order, h.busy, nofun, h.pushed, h.nodup⟩
  | flagged =>
    simp only [hphase, Option.some_inj] at hstep
    subst hstep
    refine h.setShutdown fun left hleft id lane hlane => .inl ?_
    obtain rfl := Option.some.inj hleft
    rw [mem_insertionSort]
    exact AList.lookup_isSome.1 (by rw [hlane]; rfl)
  | sweeping left =>
    cases left with
    | nil =>
      simp only [hphase, Option.some_inj] at hstep
      subst hstep
      exact h.clear hphase
    | cons id left =>
      cases hlane : s.lanes.lookup id with
      | none =>
        simp only [hphase, hlane] at hstep
        cases hstep
      | some lane =>
        simp only [hphase, hlane, Option.some_inj] at hstep
        subst hstep
        have hset : (s.setLane id { lane with running := false }).Inv :=
          h.setLane hlane rfl rfl fun hstopped => hstopped
        exact hset.setShutdown fun left' hleft' => hset.swept left' (hphase ▸ hleft')
  | stopping id left =>
    cases hlane : s.lanes.lookup id with
    | none =>
      simp only [hphase, hlane] at hstep
      cases hstep
    | some lane =>
      simp only [hphase, hlane, Option.some_inj] at hstep
      subst hstep
      have hset := h.notify hlane
      exact hset.setShutdown fun left' hleft' => hset.swept left' (hphase ▸ hleft')
  | joining id left =>
    cases hlane : s.lanes.lookup id with
    | none =>
      simp only [hphase, hlane] at hstep
      cases hstep
    | some lane =>
      simp only [hphase, hlane] at hstep
      by_cases hstopped : lane.worker = .stopped
      · rw [if_pos hstopped] at hstep
        obtain rfl := Option.some.inj hstep
        refine h.setShutdown fun left' hleft' id' lane' hlane' => ?_
        obtain rfl := Option.some.inj hleft'
        rcases h.swept (id :: left) (by rw [hphase]; rfl) id' lane' hlane' with hmem | hdone
        · rcases mem_cons.1 hmem with rfl | hmem
          · rw [hlane] at hlane'
            exact .inr (Option.some.inj hlane' ▸ hstopped)
          · exact .inl hmem
        · exact .inr hdone
      · rw [if_neg hstopped] at hstep
        cases hstep
  | returned =>
    rw [hphase] at hstep
    cases hstep

theorem Inv.step (h : s.Inv) {a : LaneAction} (hstep : step s a = some s') : s'.Inv := by
  cases a with
  | check t id =>
    rw [LaneProcessor.step] at hstep
    by_cases hsome : (s.submits.lookup t).isSome
    · rw [if_pos hsome] at hstep
      cases hstep
    · rw [if_neg hsome] at hstep
      obtain rfl := Option.some.inj hstep
      refine h.setSubmit (iff_of_false ?_ ?_)
      · cases s.shutdown <;> nofun
      · rw [h.pushed t]
        rintro ⟨phase, hphase, -⟩
        rw [hphase] at hsome
        exact hsome rfl
  | locate t | push t | notify t | report t =>
    rw [LaneProcessor.step] at hstep
    split at hstep
    · rename_i hphase
      exact h.submitStep hphase hstep
    · cases hstep
  | worker id =>
    obtain ⟨lane, hlane, hworker⟩ := Option.bind_eq_some_iff.1 hstep
    exact h.workerStep hlane hworker
  | wake id =>
    obtain ⟨lane, hlane, hwake⟩ := Option.bind_eq_some_iff.1 hstep
    split_ifs at hwake
    obtain rfl := Option.some.inj hwake
    exact h.notify hlane
  | shutdown => exact h.shutdownStep hstep

theorem Inv.oneAtATime (h : s.Inv) : s.OneAtATime := by
  intro id
  have hbusy : (s.busyOf id).length ≤ 1 := by
    rw [busyOf]
    cases s.lanes.lookup id with
    | none => exact Nat.zero_le 1
    | some lane =>
      rw [Option.map_some, Option.getD_some]
      cases lane.worker <;> simp [WorkerPhase.handlers]
  rw [h.busy id, length_append]
  omega

theorem Inv.inOrder (h : s.Inv) : s.InOrder := by
  refine ⟨h.nodup, fun id => ?_⟩
  obtain ⟨taken, htaken, hsub⟩ := h.order id
  rw [htaken]
  exact hsub.trans (sublist_append_left _ _)

end LaneProcessor

end RavBot.Channels
