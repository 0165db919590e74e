import RavBot.Gateway.Protocol
import RavBot.Lib.Run

/-!
# Calls of the gateway client

`GatewayClient::Call` puts a `PendingCall` into the table of pending calls, sends its request, and
waits until `handle_frame`, on the receive thread, has put the response there or its time is over.
The table has a mutex, and so has every pending call.  Taking a mutex is a step of its own, and so is
what is done until the next one is taken or one is given back; which thread goes on, when a frame
arrives and when a wait ends are part of the actions, so that a run is any interleaving.

A call whose time is over takes the mutex of the table while it still holds its own, and
`handle_frame` takes them the other way round.  When both do so for one call, each waits for the
other for ever (`cyclicWait_lateResponse`).  And a request that cannot be written leaves its id in the
table.  Apart from that the calls are in order (`keepsLaws_iff`): no cycle of waiting, every payload
is that of a response with the id of the call, and the table has the ids of the calls in progress.

A call of a client that is not connected throws at once and does nothing else; the handshake's
flags, the subscribers of events and the texts of exceptions are left out.
-/

open List

namespace RavBot.Gateway

open RavBot.Lib

/-! ## The state -/

/-- The threads: those of the calls, and the receive thread. -/
inductive ClientThread where
  | call (k : Nat)
  | receive
  deriving DecidableEq, Repr

/-- The mutexes: that of the table, and those of the pending calls. -/
inductive ClientLock where
  | pending
  | call (k : Nat)
  deriving DecidableEq, Repr

/-- Where the thread of a call is.  `held` says whether it has taken the mutex of the table, and
`expired` that the wait has ended because its time was over. -/
inductive CallPhase where
  | registering (held : Bool)
  | sending
  | locking (expired : Bool)
  | checking (expired : Bool)
  | waiting
  | timedOut (held : Bool)
  | cleaning (held : Bool)
  | ended (payload : Option Json)

namespace CallPhase

def holdsPending : CallPhase → Bool
  | registering held | timedOut held | cleaning held => held
  | _ => false

def holdsOwn : CallPhase → Bool
  | checking _ | timedOut _ => true
  | _ => false

/-- The call has been put into the table and not been taken out. -/
def inProgress : CallPhase → Bool
  | registering _ | ended _ => false
  | _ => true

def isEnded : CallPhase → Bool
  | ended _ => true
  | _ => false

def sends : CallPhase → Bool
  | sending => true
  | _ => false

def expires : CallPhase → Bool
  | checking expired => expired
  | _ => false

def givesUp : CallPhase → Bool
  | timedOut held => !held
  | _ => false

theorem sends_iff (phase : CallPhase) : phase.sends ↔ phase = sending := by
  cases phase <;> simp [sends]

theorem expires_iff (phase : CallPhase) : phase.expires ↔ phase = checking true := by
  cases phase <;> simp [expires]

theorem givesUp_iff (phase : CallPhase) : phase.givesUp ↔ phase = timedOut false := by
  cases phase <;> simp [givesUp]

end CallPhase

/-- A call with its `PendingCall`. -/
structure ClientCall where
  request : RpcRequest
  mtx : Option ClientThread := none
  response : Option Json := none
  done : Bool := false
  phase : CallPhase := .registering false

inductive ReceivePhase where
  | idle
  | resolving (frame : Json) (id : String)
  | finding (frame : Json) (id : String)
  | locking (frame : Json) (k : Nat)
  | answering (frame : Json) (k : Nat)

namespace ReceivePhase

def holdsPending : ReceivePhase → Bool
  | finding _ _ | locking _ _ | answering _ _ => true
  | _ => false

def locks (k : Nat) : ReceivePhase → Bool
  | locking _ k' => k' = k
  | _ => false

def idFound : ReceivePhase → Option String
  | finding _ id => some id
  | _ => none

def answers (k : Nat) : ReceivePhase → Bool
  | answering _ k' => k' = k
  | _ => false

end ReceivePhase

/-- `GatewayClient`, with the frames that it has received. -/
structure GatewayClient where
  requestCounter : Nat := 0
  pendingMutex : Option ClientThread := none
  pendingCalls : Table String Nat := ∅
  calls : List ClientCall := []
  receive : ReceivePhase := .idle
  received : List Json := []

/-! ## Frames -/

def RpcRequest.toJson (request : RpcRequest) : Json :=
  .object [("type", .str "req"), ("id", .str request.id), ("method", .str request.method),
    ("params", request.params)]

/-- The id under which `handle_frame` looks for a pending call: that of a response whose fields have
their types. -/
def responseId (frame : Json) : Option String := do
  let type ← frame.value Json.getString "type" ""
  if type = "res" then
    let id ← frame.value Json.getString "id" ""
    let _ ← frame.value Json.getBool "ok" false
    return id
  else none

def isChallenge (frame : Json) : Bool :=
  frame.value Json.getString "type" "" = some "event" ∧
    frame.value Json.getString "event" "" = some "connect.challenge"

/-- What a call returns for its response.  `none` when it throws. -/
def callResult : Option Json → Option Json
  | none => none
  | some resp =>
    match resp.find? "ok" with
    | some ok =>
      match ok.getBool with
      | some true => resp.value some "payload" (.obj [])
      | _ => none
    | none => resp.value some "payload" (.obj [])

/-! ## The steps -/

/-- What happens next: a thread enters `Call`; the thread of a call goes on; its wait ends, because
it was notified or for no reason, or because its time is over; a frame arrives; the receive thread
goes on. -/
inductive ClientAction where
  | begin (method : String) (params : Json)
  | call (k : Nat)
  | wake (k : Nat) (expired : Bool)
  | deliver (frame : Json)
  | receive

namespace GatewayClient

/-- The id that `next_request_id` returns next. -/
def nextRequestId (s : GatewayClient) : String := toString ((s.requestCounter + 1) % 2 ^ 64)

/-- The state with another call in the place of one, another holder of the mutex of the table, and
another table. -/
def update (s : GatewayClient) (k : Nat) (pendingMutex : Option ClientThread)
    (pendingCalls : Table String Nat) (c : ClientCall) : GatewayClient :=
  { s with pendingMutex, pendingCalls, calls := s.calls.set k c }

def lockPending (s : GatewayClient) (k : Nat) (c : ClientCall) (phase : CallPhase) :
    Option GatewayClient :=
  if s.pendingMutex = none then some (s.update k (some (.call k)) s.pendingCalls { c with phase })
  else none

/-- The thread of a call goes on. -/
def callStep (s : GatewayClient) (k : Nat) (c : ClientCall) : Option GatewayClient :=
  match c.phase with
  | .registering false => s.lockPending k c (.registering true)
  | .registering true =>
    some (s.update k none (AList.insert c.request.id k s.pendingCalls) { c with phase := .sending })
  | .sending =>
    -- a request that cannot be written throws
    let phase := if c.request.toJson.isUtf8 then .locking false else .ended none
    some (s.update k s.pendingMutex s.pendingCalls { c with phase })
  | .locking expired =>
    if c.mtx = none then
      some (s.update k s.pendingMutex s.pendingCalls
        { c with mtx := some (.call k), phase := .checking expired })
    else none
  | .checking expired =>
    some (s.update k s.pendingMutex s.pendingCalls <|
      if c.done then { c with mtx := none, phase := .cleaning false }
      else if expired then { c with phase := .timedOut false }
      else { c with mtx := none, phase := .waiting })
  | .waiting => none
  | .timedOut false => s.lockPending k c (.timedOut true)
  | .timedOut true =>
    some (s.update k none (s.pendingCalls.erase c.request.id)
      { c with mtx := none, phase := .ended none })
  | .cleaning false => s.lockPending k c (.cleaning true)
  | .cleaning true =>
    some (s.update k none (s.pendingCalls.erase c.request.id)
      { c with phase := .ended (callResult c.response) })
  | .ended _ => none

/-- The receive thread goes on. -/
def receiveStep (s : GatewayClient) : Option GatewayClient :=
  match s.receive with
  | .idle => none
  | .resolving frame id =>
    if s.pendingMutex = none then
      some { s with pendingMutex := some .receive, receive := .finding frame id }
    else none
  | .finding frame id =>
    match s.pendingCalls.lookup id with
    | none => some { s with pendingMutex := none, receive := .idle }
    | some k => some { s with receive := .locking frame k }
  | .locking frame k =>
    match s.calls[k]? with
    | none => none
    | some c =>
      if c.mtx = none then
        some { s with
          calls := s.calls.set k { c with mtx := some .receive }
          receive := .answering frame k }
      else none
  | .answering frame k =>
    match s.calls[k]? with
    | none => none
    | some c =>
      some { s with
        pendingMutex := none
        calls := s.calls.set k { c with mtx := none, response := some frame, done := true }
        receive := .idle }

/-- The receive thread starts with a frame. -/
def handleFrame (s : GatewayClient) (frame : Json) : GatewayClient :=
  { s with
    requestCounter := if isChallenge frame then s.requestCounter + 1 else s.requestCounter
    received := s.received ++ [frame]
    receive := match responseId frame with
      | some id => .resolving frame id
      | none => .idle }

/-- One step of the client. -/
def step (s : GatewayClient) : ClientAction → Option GatewayClient
  | .begin method params =>
    some { s with
      requestCounter := s.requestCounter + 1
      calls := s.calls ++ [{ request := { id := s.nextRequestId, method, params } }] }
  | .call k => (s.calls[k]?).bind (s.callStep k)
  | .wake k expired =>
    (s.calls[k]?).bind fun c =>
      match c.phase with
      | .waiting =>
        some (s.update k s.pendingMutex s.pendingCalls { c with phase := .locking expired })
      | _ => none
  | .deliver frame =>
    match s.receive with
    | .idle => some (s.handleFrame frame)
    | _ => none
  | .receive => s.receiveStep

/-! ## The laws -/

/-- The mutex that a thread takes with its next step. -/
def wants (s : GatewayClient) : ClientThread → Option ClientLock
  | .call k => (s.calls[k]?).bind fun c =>
    match c.phase with
    | .registering false | .timedOut false | .cleaning false => some .pending
    | .locking _ => some (.call k)
    | _ => none
  | .receive =>
    match s.receive with
    | .resolving _ _ => some .pending
    | .locking _ k => some (.call k)
    | _ => none

def holder (s : GatewayClient) : ClientLock → Option ClientThread
  | .pending => s.pendingMutex
  | .call k => (s.calls[k]?).bind (·.mtx)

def CyclicWait (s : GatewayClient) : Prop :=
  ∃ k, ∃ own ∈ s.wants (.call k), s.holder own = some .receive ∧
    ∃ other ∈ s.wants .receive, s.holder other = some (.call k)

def IsResponse (s : GatewayClient) (frame : Json) (id : String) : Prop :=
  frame ∈ s.received ∧ responseId frame = some id

/-- What calls have to do: they do not wait in a circle with the receive thread; each payload is that
of a response with the id of the call; and the table has the ids of the calls in progress. -/
structure Laws (s : GatewayClient) : Prop where
  noCycle : ¬ s.CyclicWait
  own : ∀ c ∈ s.calls, ∀ payload, c.phase = .ended (some payload) →
    ∃ frame, s.IsResponse frame c.request.id ∧
      frame.value some "payload" (.obj []) = some payload
  pending : ∀ id, id ∈ s.pendingCalls ↔ ∃ c ∈ s.calls, c.phase.inProgress ∧ c.request.id = id

/-- The id that is drawn is not that of a call that has not ended.  The counter has 64 bits. -/
def DrawsFresh (s : GatewayClient) : ClientAction → Prop
  | .begin _ _ => ∀ c ∈ s.calls, ¬ c.phase.isEnded → c.request.id ≠ s.nextRequestId
  | _ => True

/-- A call does not give up while the receive thread is about to take its mutex, nor does the receive
thread find a call that gives up; and a request that is sent can be written. -/
def InOrder (s : GatewayClient) : ClientAction → Prop
  | .call k => ∀ c ∈ s.calls[k]?,
      (c.phase.expires → ¬ c.done → ¬ s.receive.locks k) ∧
        (c.phase.sends → c.request.toJson.isUtf8)
  | .receive => ∀ k ∈ s.receive.idFound.bind (s.pendingCalls.lookup ·), ∀ c ∈ s.calls[k]?,
      ¬ c.phase.givesUp
  | _ => True

end GatewayClient

instance (s : GatewayClient) : ∀ a, Decidable (s.DrawsFresh a)
  | .begin _ _ => inferInstanceAs (Decidable (∀ c ∈ s.calls, _))
  | .call _ | .wake _ _ | .deliver _ | .receive => inferInstanceAs (Decidable True)

instance (s : GatewayClient) : ∀ a, Decidable (s.InOrder a)
  | .call k => inferInstanceAs (Decidable (∀ c ∈ s.calls[k]?, _))
  | .receive => inferInstanceAs (Decidable (∀ k ∈ s.receive.idFound.bind _, _))
  | .begin _ _ | .wake _ _ | .deliver _ => inferInstanceAs (Decidable True)

namespace GatewayClient

/-! ## What holds in every run -/

variable {s s' : GatewayClient} {k : Nat} {c : ClientCall}

/-- What holds of the call at a place: it holds the mutexes that its phase says, nobody but it and
the receive thread holds its own, and its response is one with its id. -/
structure CallInv (s : GatewayClient) (k : Nat) (c : ClientCall) : Prop where
  pending : s.pendingMutex = some (.call k) ↔ c.phase.holdsPending
  own : c.mtx = some (.call k) ↔ c.phase.holdsOwn
  receive : c.mtx = some .receive ↔ s.receive.answers k
  others : ∀ j, c.mtx = some (.call j) → j = k
  response : ∀ frame, c.response = some frame → s.IsResponse frame c.request.id
  returned : ∀ payload, c.phase = .ended (some payload) →
    ∃ frame, s.IsResponse frame c.request.id ∧ frame.value some "payload" (.obj []) = some payload

/-- What holds of the frame that the receive thread works on. -/
def FrameInv (s : GatewayClient) : ReceivePhase → Prop
  | .idle => True
  | .resolving frame id | .finding frame id => s.IsResponse frame id
  | .locking frame k | .answering frame k =>
    ∃ c, s.calls[k]? = some c ∧ s.IsResponse frame c.request.id

/-- What holds of the client in every run. -/
structure Inv (s : GatewayClient) : Prop where
  calls : ∀ k c, s.calls[k]? = some c → CallInv s k c
  holder : ∀ k, s.pendingMutex = some (.call k) → k < s.calls.length
  receive : s.pendingMutex = some .receive ↔ s.receive.holdsPending
  frame : FrameInv s s.receive
  table : ∀ id k, s.pendingCalls.lookup id = some k →
    ∃ c, s.calls[k]? = some c ∧ c.request.id = id

theorem callResult_spec {response : Option Json} {payload : Json}
    (h : callResult response = some payload) :
    ∃ frame, response = some frame ∧ frame.value some "payload" (.obj []) = some payload := by
  cases response with
  | none => cases h
  | some frame =>
    refine ⟨frame, rfl, ?_⟩
    rw [callResult] at h
    cases hok : frame.find? "ok" with
    | none =>
      rw [hok] at h
      exact h
    | some ok =>
      rw [hok] at h
      cases hbool : ok.getBool with
      | none => simp [hbool] at h
      | some b =>
        cases b with
        | false => simp [hbool] at h
        | true => simpa [hbool] using h

variable {m : Option ClientThread} {p : Table String Nat} {c' : ClientCall}

theorem CallInv.update (h : CallInv s k c) (hrequest : c'.request = c.request) (hresponse : c'.response = c.response)
    (hpending : m = some (.call k) ↔ c'.phase.holdsPending)
    (hown : c'.mtx = some (.call k) ↔ c'.phase.holdsOwn)
    (hreceive : c'.mtx = some .receive ↔ c.mtx = some .receive)
    (hothers : ∀ j, c'.mtx = some (.call j) → j = k)
    (hreturned : ∀ payload, c'.phase = .ended (some payload) →
      callResult c.response = some payload) :
    CallInv (s.update k m p c') k c' where
  pending := hpending
  own := hown
  receive := hreceive.trans h.receive
  others := hothers
  response frame hframe := by
    rw [hrequest]
    exact h.response frame (hresponse ▸ hframe)
  returned payload hphase := by
    obtain ⟨frame, hframe, hvalue⟩ := callResult_spec (hreturned payload hphase)
    rw [hrequest]
    exact ⟨frame, h.response frame hframe, hvalue⟩

/-- What the step of a call does to the client: it is about its own call and its own hold of the
mutex of the table, and it adds nothing to the table but its own id. -/
def IsCallStep (s : GatewayClient) (k : Nat) (c : ClientCall) (s' : GatewayClient) : Prop :=
  ∃ m p c', s' = s.update k m p c' ∧ c'.request = c.request ∧
    (∀ t, t ≠ .call k → (m = some t ↔ s.pendingMutex = some t)) ∧
    (∀ id j, p.lookup id = some j →
      s.pendingCalls.lookup id = some j ∨ j = k ∧ c.request.id = id) ∧
    CallInv (s.update k m p c') k c'

theorem lockPending_spec (h : CallInv s k c) {phase : CallPhase}
    (hstep : s.lockPending k c phase = some s') (hpending : phase.holdsPending)
    (hown : phase.holdsOwn = c.phase.holdsOwn) (hended : phase.isEnded = false) :
    IsCallStep s k c s' := by
  rw [lockPending] at hstep
  split_ifs at hstep with hfree
  cases hstep
  refine ⟨_, _, _, rfl, rfl, fun t ht => ?_, fun id j hj => .inl hj, ?_⟩
  · rw [hfree]
    exact iff_of_false (fun heq => ht (Option.some.inj heq).symm) nofun
  · refine h.update rfl rfl (iff_of_true rfl hpending) (hown ▸ h.own) Iff.rfl h.others
      fun payload hphase => ?_
    subst hphase
    cases hended

theorem erase_spec (h : CallInv s k c) (hheld : c.phase.holdsPending)
    (hrequest : c'.request = c.request)
    (hcall : CallInv (s.update k none (s.pendingCalls.erase c.request.id) c') k c') :
    IsCallStep s k c (s.update k none (s.pendingCalls.erase c.request.id) c') := by
  refine ⟨_, _, _, rfl, hrequest, fun t ht => ?_, fun id j hj => ?_, hcall⟩
  · rw [h.pending.2 hheld]
    exact iff_of_false nofun fun heq => ht (Option.some.inj heq).symm
  · rw [Table.lookup_erase_ite] at hj
    split_ifs at hj
    exact .inl hj

theorem callStep_spec (h : CallInv s k c) (hstep : s.callStep k c = some s') :
    IsCallStep s k c s' := by
  rw [callStep] at hstep
  cases hphase : c.phase with
  | registering held =>
    cases held with
    | false =>
      simp only [hphase] at hstep
      exact lockPending_spec h hstep rfl (by rw [hphase]; rfl) rfl
    | true =>
      simp only [hphase] at hstep
      cases hstep
      refine ⟨_, _, _, rfl, rfl, fun t ht => ?_, fun id j hj => ?_, ?_⟩
      · rw [h.pending.2 (by rw [hphase]; rfl)]
        exact iff_of_false nofun fun heq => ht (Option.some.inj heq).symm
      · rw [Table.lookup_insert_ite] at hj
        split_ifs at hj with hid
        · cases hj
          exact .inr ⟨rfl, hid.symm⟩
        · exact .inl hj
      · refine h.update rfl rfl (iff_of_false nofun nofun) ?_ Iff.rfl h.others nofun
        rw [h.own, hphase]
        rfl
  | sending =>
    simp only [hphase] at hstep
    cases hstep
    refine ⟨_, _, _, rfl, rfl, fun t _ => Iff.rfl, fun id j hj => .inl hj, ?_⟩
    refine h.update rfl rfl ?_ ?_ Iff.rfl h.others fun payload hended => ?_
    · rw [h.pending, hphase]
      dsimp only
      split_ifs <;> rfl
    · rw [h.own, hphase]
      dsimp only
      split_ifs <;> rfl
    · dsimp only at hended
      split_ifs at hended
      cases hended
  | locking expired =>
    simp only [hphase] at hstep
    split_ifs at hstep with hfree
    cases hstep
    refine ⟨_, _, _, rfl, rfl, fun t _ => Iff.rfl, fun id j hj => .inl hj, ?_⟩
    refine h.update rfl rfl ?_ (iff_of_true rfl rfl) ?_ ?_ nofun
    · rw [h.pending, hphase]
      rfl
    · dsimp only
      rw [hfree]
      exact iff_of_false nofun nofun
    · rintro j ⟨⟩
      rfl
  | checking expired =>
    simp only [hphase] at hstep
    cases hstep
    have hheld : c.mtx = some (.call k) := h.own.2 (by rw [hphase]; rfl)
    have hpending (phase : CallPhase) (hphase' : phase.holdsPending = false) :
        s.pendingMutex = some (.call k) ↔ phase.holdsPending := by
      rw [h.pending, hphase, hphase']
      rfl
    have hfree : none = some ClientThread.receive ↔ c.mtx = some .receive := by
      rw [hheld]
      exact iff_of_false nofun nofun
    refine ⟨_, _, _, rfl, ?_, fun t _ => Iff.rfl, fun id j hj => .inl hj, ?_⟩
    · split_ifs <;> rfl
    · split_ifs
      · exact h.update rfl rfl (hpending _ rfl) (iff_of_false nofun nofun) hfree nofun nofun
      · exact h.update rfl rfl (hpending _ rfl) (iff_of_true hheld rfl) Iff.rfl h.others nofun
      · exact h.update rfl rfl (hpending _ rfl) (iff_of_false nofun nofun) hfree nofun nofun
  | waiting =>
    simp only [hphase] at hstep
    cases hstep
  | timedOut held =>
    cases held with
    | false =>
      simp only [hphase] at hstep
      exact lockPending_spec h hstep rfl (by rw [hphase]; rfl) rfl
    | true =>
      simp only [hphase] at hstep
      cases hstep
      have hmtx : c.mtx = some (.call k) := h.own.2 (by rw [hphase]; rfl)
      refine erase_spec h (by rw [hphase]; rfl) rfl ?_
      refine h.update rfl rfl (iff_of_false nofun nofun) (iff_of_false nofun nofun) ?_ nofun nofun
      rw [hmtx]
      exact iff_of_false nofun nofun
  | cleaning held =>
    cases held with
    | false =>
      simp only [hphase] at hstep
      exact lockPending_spec h hstep rfl (by rw [hphase]; rfl) rfl
    | true =>
      simp only [hphase] at hstep
      cases hstep
      refine erase_spec h (by rw [hphase]; rfl) rfl ?_
      refine h.update rfl rfl (iff_of_false nofun nofun) ?_ Iff.rfl h.others fun payload hended => ?_
      · rw [h.own, hphase]
        rfl
      · exact CallPhase.ended.inj hended
  | ended payload =>
    simp only [hphase] at hstep
    cases hstep

variable {calls : List ClientCall}

variable {d : ClientCall}

theorem getElem?_set_iff (hc : calls[k]? = some c)
    {j : Nat} :
    (calls.set k c')[j]? = some d ↔ j = k ∧ d = c' ∨ j ≠ k ∧ calls[j]? = some d := by
  have hlt : k < calls.length := (List.getElem?_eq_some_iff.1 hc).1
  rw [getElem?_set]
  by_cases hj : k = j
  · subst hj
    simp [hlt, eq_comm]
  · simp [hj, Ne.symm hj]

theorem exists_call_set (hc : calls[k]? = some c)
    (hrequest : c'.request = c.request) {j : Nat} (hd : calls[j]? = some d) :
    ∃ d', (calls.set k c')[j]? = some d' ∧ d'.request = d.request := by
  by_cases hj : j = k
  · subst hj
    cases hc.symm.trans hd
    exact ⟨c', (getElem?_set_iff hc).2 (.inl ⟨rfl, rfl⟩), hrequest⟩
  · exact ⟨d, (getElem?_set_iff hc).2 (.inr ⟨hj, hd⟩), rfl⟩

variable {phase : ReceivePhase}

theorem FrameInv.mono (h : FrameInv s phase)
    (hcalls : ∀ (k : Nat) (c : ClientCall), s.calls[k]? = some c →
      ∃ c', s'.calls[k]? = some c' ∧ c'.request = c.request)
    (hreceived : ∀ frame ∈ s.received, frame ∈ s'.received) : FrameInv s' phase := by
  cases phase with
  | idle => trivial
  | resolving frame id => exact ⟨hreceived frame h.1, h.2⟩
  | finding frame id => exact ⟨hreceived frame h.1, h.2⟩
  | locking frame k =>
    obtain ⟨c, hc, hframe, hid⟩ := h
    obtain ⟨c', hc', hrequest⟩ := hcalls k c hc
    exact ⟨c', hc', hreceived frame hframe, by rw [hrequest, hid]⟩
  | answering frame k =>
    obtain ⟨c, hc, hframe, hid⟩ := h
    obtain ⟨c', hc', hrequest⟩ := hcalls k c hc
    exact ⟨c', hc', hreceived frame hframe, by rw [hrequest, hid]⟩

theorem Inv.callStep (h : Inv s) (hc : s.calls[k]? = some c) (hstep : IsCallStep s k c s') :
    Inv s' := by
  obtain ⟨m, p, c', rfl, hrequest, hmutex, htable, hinv⟩ := hstep
  have hlt : k < s.calls.length := (List.getElem?_eq_some_iff.1 hc).1
  have hcalls (j : Nat) (d : ClientCall) (hd : s.calls[j]? = some d) :
      ∃ d', (s.update k m p c').calls[j]? = some d' ∧ d'.request = d.request :=
    exists_call_set hc hrequest hd
  constructor
  · intro j d hd
    rcases (getElem?_set_iff hc).1 hd with ⟨rfl, rfl⟩ | ⟨hj, hd⟩
    · exact hinv
    · have hold := h.calls j d hd
      refine ⟨?_, hold.own, hold.receive, hold.others, hold.response, hold.returned⟩
      rw [← hold.pending]
      exact hmutex _ fun heq => hj (ClientThread.call.inj heq)
  · intro j hj
    rw [update, length_set]
    by_cases hjk : j = k
    · exact hjk ▸ hlt
    · exact h.holder j ((hmutex _ fun heq => hjk (ClientThread.call.inj heq)).1 hj)
  · exact (hmutex .receive nofun).trans h.receive
  · exact FrameInv.mono h.frame hcalls fun frame hframe => hframe
  · intro id j hj
    rcases htable id j hj with hj | ⟨rfl, rfl⟩
    · obtain ⟨d, hd, hid⟩ := h.table id j hj
      obtain ⟨d', hd', hrequest'⟩ := hcalls j d hd
      exact ⟨d', hd', hrequest' ▸ hid⟩
    · exact ⟨c', (getElem?_set_iff hc).2 (.inl ⟨rfl, rfl⟩), by rw [hrequest]⟩

theorem Inv.receive_same (h : Inv s)
    (hcall : ∀ k, m = some (.call k) ↔ s.pendingMutex = some (.call k))
    (hreceive : m = some .receive ↔ phase.holdsPending)
    (hanswers : ∀ k, phase.answers k = s.receive.answers k) (hframe : FrameInv s phase) :
    Inv { s with pendingMutex := m, receive := phase } where
  calls k c hc := by
    have hold := h.calls k c hc
    exact ⟨(hcall k).trans hold.pending, hold.own, hold.receive.trans (by rw [hanswers]), hold.others,
      hold.response, hold.returned⟩
  holder k hk := h.holder k ((hcall k).1 hk)
  receive := hreceive
  frame := FrameInv.mono hframe (fun _ c hc => ⟨c, hc, rfl⟩) fun _ hframe => hframe
  table := h.table

theorem Inv.receive_set (h : Inv s) (hc : s.calls[k]? = some c) (hphase : c'.phase = c.phase)
    (hrequest : c'.request = c.request)
    (hcall : ∀ k, m = some (.call k) ↔ s.pendingMutex = some (.call k))
    (hreceive : m = some .receive ↔ phase.holdsPending)
    (hother : ∀ j, j ≠ k → phase.answers j = s.receive.answers j)
    (hown : c'.mtx = some (.call k) ↔ c.mtx = some (.call k))
    (hanswers : c'.mtx = some .receive ↔ phase.answers k)
    (hothers : ∀ j, c'.mtx = some (.call j) → j = k)
    (hresponse : ∀ frame, c'.response = some frame →
      c.response = some frame ∨ s.IsResponse frame c.request.id)
    (hframe : FrameInv s phase) :
    Inv { s with pendingMutex := m, calls := s.calls.set k c', receive := phase } where
  calls j d hd := by
    rcases (getElem?_set_iff hc).1 hd with ⟨rfl, rfl⟩ | ⟨hj, hd⟩
    · have hold := h.calls j c hc
      refine ⟨?_, ?_, hanswers, hothers, fun frame hd => ?_, fun payload hd => ?_⟩
      · rw [hphase]
        exact (hcall j).trans hold.pending
      · rw [hphase]
        exact hown.trans hold.own
      · rw [hrequest]
        rcases hresponse frame hd with hd | hd
        · exact hold.response frame hd
        · exact hd
      · rw [hrequest]
        exact hold.returned payload (hphase ▸ hd)
    · have hold := h.calls j d hd
      exact ⟨(hcall j).trans hold.pending, hold.own, hold.receive.trans (by rw [hother j hj]),
        hold.others, hold.response, hold.returned⟩
  holder j hj := by
    rw [length_set]
    exact h.holder j ((hcall j).1 hj)
  receive := hreceive
  frame := FrameInv.mono hframe (fun _ _ hd => exists_call_set hc hrequest hd) fun _ hframe => hframe
  table id j hj := by
    obtain ⟨d, hd, hid⟩ := h.table id j hj
    obtain ⟨d', hd', hrequest'⟩ := exists_call_set hc hrequest hd
    exact ⟨d', hd', hrequest' ▸ hid⟩

theorem Inv.receiveStep (h : Inv s) (hstep : s.receiveStep = some s') : Inv s' := by
  have hframe := h.frame
  have hheld (hholds : s.receive.holdsPending) : s.pendingMutex = some .receive := h.receive.2 hholds
  rw [GatewayClient.receiveStep] at hstep
  cases hphase : s.receive with
  | idle =>
    simp only [hphase] at hstep
    cases hstep
  | resolving frame id =>
    simp only [hphase] at hstep
    split_ifs at hstep with hfree
    cases hstep
    rw [hphase] at hframe
    refine h.receive_same (fun j => ?_) (iff_of_true rfl rfl) (fun j => ?_) hframe
    · rw [hfree]
      exact iff_of_false nofun nofun
    · rw [hphase]
      rfl
  | finding frame id =>
    simp only [hphase] at hstep
    rw [hphase] at hframe hheld
    cases hfind : s.pendingCalls.lookup id with
    | none =>
      simp only [hfind] at hstep
      cases hstep
      refine h.receive_same (fun j => ?_) (iff_of_false nofun nofun) (fun j => ?_) trivial
      · rw [hheld rfl]
        exact iff_of_false nofun nofun
      · rw [hphase]
        rfl
    | some k =>
      simp only [hfind] at hstep
      cases hstep
      obtain ⟨c, hc, hid⟩ := h.table id k hfind
      refine h.receive_same (fun j => Iff.rfl) ?_ (fun j => ?_) ⟨c, hc, hframe.1, ?_⟩
      · exact iff_of_true (hheld rfl) rfl
      · rw [hphase]
        rfl
      · rw [hid]
        exact hframe.2
  | locking frame k =>
    simp only [hphase] at hstep
    rw [hphase] at hframe hheld
    cases hc : s.calls[k]? with
    | none =>
      simp only [hc] at hstep
      cases hstep
    | some c =>
      simp only [hc] at hstep
      split_ifs at hstep with hfree
      cases hstep
      refine h.receive_set hc rfl rfl (fun j => Iff.rfl) (iff_of_true (hheld rfl) rfl)
        (fun j hj => ?_) ?_ (iff_of_true rfl (by simp [ReceivePhase.answers])) nofun
        (fun _ => .inl) hframe
      · rw [hphase]
        exact decide_eq_false (Ne.symm hj)
      · rw [hfree]
        exact iff_of_false nofun nofun
  | answering frame k =>
    simp only [hphase] at hstep
    rw [hphase] at hframe hheld
    obtain ⟨c, hc, hresponse⟩ := hframe
    simp only [hc] at hstep
    cases hstep
    have hmtx : c.mtx = some .receive := by
      rw [(h.calls k c hc).receive, hphase]
      exact decide_eq_true rfl
    refine h.receive_set hc rfl rfl (fun j => ?_) (iff_of_false nofun nofun) (fun j hj => ?_) ?_
      (iff_of_false nofun nofun) nofun (fun frame' hframe' => .inr ?_) trivial
    · rw [hheld rfl]
      exact iff_of_false nofun nofun
    · rw [hphase]
      exact (decide_eq_false (Ne.symm hj)).symm
    · rw [hmtx]
      exact iff_of_false nofun nofun
    · cases hframe'
      exact hresponse

theorem Inv.init : Inv {} where
  calls k c hc := by simp at hc
  holder k hk := by cases hk
  receive := iff_of_false nofun nofun
  frame := trivial
  table id k hk := by simp at hk

theorem Inv.begin (h : Inv s) (request : RpcRequest) (counter : Nat) :
    Inv { s with requestCounter := counter, calls := s.calls ++ [{ request := request }] } := by
  have hcalls (j : Nat) (d : ClientCall) (hd : s.calls[j]? = some d) :
      (s.calls ++ [{ request := request }])[j]? = some d := by
    rw [getElem?_append_left (List.getElem?_eq_some_iff.1 hd).1]
    exact hd
  constructor
  · intro j d hd
    rcases Nat.lt_or_ge j s.calls.length with hj | hj
    · rw [getElem?_append_left hj] at hd
      have hold := h.calls j d hd
      exact ⟨hold.pending, hold.own, hold.receive, hold.others, hold.response, hold.returned⟩
    · -- the new call is behind the others, and nobody is at it
      have hnew : d = { request := request } := by
        rw [getElem?_append_right hj] at hd
        exact mem_singleton.1 (mem_of_getElem? hd)
      subst hnew
      have hanswers : ¬ s.receive.answers j := by
        intro hanswers
        have hframe := h.frame
        cases hphase : s.receive with
        | answering frame k =>
          rw [hphase] at hframe hanswers
          obtain ⟨c, hc, -⟩ := hframe
          have hk : k = j := of_decide_eq_true hanswers
          have hlt := (List.getElem?_eq_some_iff.1 hc).1
          omega
        | _ =>
          rw [hphase] at hanswers
          cases hanswers
      refine ⟨iff_of_false (fun hheld => ?_) nofun, iff_of_false nofun nofun,
        iff_of_false nofun hanswers, nofun, nofun, nofun⟩
      exact absurd (h.holder j hheld) (Nat.not_lt_of_ge hj)
  · intro j hj
    rw [length_append]
    exact Nat.lt_add_right _ (h.holder j hj)
  · exact h.receive
  · exact FrameInv.mono h.frame (fun j d hd => ⟨d, hcalls j d hd, rfl⟩) fun _ hframe => hframe
  · intro id j hj
    obtain ⟨d, hd, hid⟩ := h.table id j hj
    exact ⟨d, hcalls j d hd, hid⟩

theorem Inv.deliver (h : Inv s) (hidle : s.receive = .idle) (frame : Json) :
    Inv (s.handleFrame frame) := by
  have hmono {frame' : Json} {id : String} (hresponse : s.IsResponse frame' id) :
      (s.handleFrame frame).IsResponse frame' id :=
    ⟨mem_append_left _ hresponse.1, hresponse.2⟩
  have hphase : (s.handleFrame frame).receive = .idle ∨
      ∃ id, responseId frame = some id ∧ (s.handleFrame frame).receive = .resolving frame id := by
    rw [handleFrame]
    cases responseId frame with
    | none => exact .inl rfl
    | some id => exact .inr ⟨id, rfl, rfl⟩
  have hanswers (j : Nat) : (s.handleFrame frame).receive.answers j = s.receive.answers j := by
    rw [hidle]
    rcases hphase with hphase | ⟨id, -, hphase⟩
    · rw [hphase]
    · rw [hphase]
      rfl
  constructor
  · intro j d hd
    have hold := h.calls j d hd
    refine ⟨hold.pending, hold.own, hold.receive.trans (by rw [hanswers]), hold.others,
      fun frame' hframe' => hmono (hold.response frame' hframe'), fun payload hd => ?_⟩
    obtain ⟨frame', hframe', hvalue⟩ := hold.returned payload hd
    exact ⟨frame', hmono hframe', hvalue⟩
  · exact h.holder
  · refine h.receive.trans ?_
    rw [hidle]
    rcases hphase with hphase | ⟨id, -, hphase⟩
    · rw [hphase]
    · rw [hphase]
      rfl
  · rcases hphase with hphase | ⟨id, hid, hphase⟩
    · rw [hphase]
      trivial
    · rw [hphase]
      exact ⟨mem_append_right _ mem_cons_self, hid⟩
  · exact h.table

theorem wake_spec (h : CallInv s k c) (hphase : c.phase = .waiting) (expired : Bool) :
    IsCallStep s k c
      (s.update k s.pendingMutex s.pendingCalls { c with phase := .locking expired }) := by
  refine ⟨_, _, _, rfl, rfl, fun t _ => Iff.rfl, fun id j hj => .inl hj, ?_⟩
  refine h.update rfl rfl ?_ ?_ Iff.rfl h.others nofun
  · rw [h.pending, hphase]
    rfl
  · rw [h.own, hphase]
    rfl

variable {a : ClientAction}

theorem Inv.step (h : Inv s) (hstep : s.step a = some s') : Inv s' := by
  cases a with
  | begin method params =>
    cases hstep
    exact h.begin _ _
  | call k =>
    obtain ⟨c, hc, hstep⟩ := Option.bind_eq_some_iff.1 hstep
    exact h.callStep hc (callStep_spec (h.calls k c hc) hstep)
  | wake k expired =>
    obtain ⟨c, hc, hstep⟩ := Option.bind_eq_some_iff.1 hstep
    cases hphase : c.phase with
    | waiting =>
      simp only [hphase] at hstep
      cases hstep
      exact h.callStep hc (wake_spec (h.calls k c hc) hphase expired)
    | _ =>
      simp only [hphase] at hstep
      cases hstep
  | deliver frame =>
    rw [GatewayClient.step] at hstep
    cases hidle : s.receive with
    | idle =>
      simp only [hidle] at hstep
      cases hstep
      exact h.deliver hidle frame
    | _ =>
      simp only [hidle] at hstep
      cases hstep
  | receive => exact h.receiveStep hstep

theorem wants_call {lock : ClientLock} (h : s.wants (.call k) = some lock) :
    ∃ c, s.calls[k]? = some c ∧
      (lock = .pending ∧ (c.phase.holdsOwn → c.phase = .timedOut false) ∨ lock = .call k) := by
  obtain ⟨c, hc, hwants⟩ := Option.bind_eq_some_iff.1 h
  refine ⟨c, hc, ?_⟩
  cases hphase : c.phase with
  | locking expired =>
    simp only [hphase, Option.some.injEq] at hwants
    exact .inr hwants.symm
  | registering held =>
    cases held with
    | false =>
      simp only [hphase, Option.some.injEq] at hwants
      exact .inl ⟨hwants.symm, nofun⟩
    | true => simp only [hphase, reduceCtorEq] at hwants
  | timedOut held =>
    cases held with
    | false =>
      simp only [hphase, Option.some.injEq] at hwants
      exact .inl ⟨hwants.symm, fun _ => rfl⟩
    | true => simp only [hphase, reduceCtorEq] at hwants
  | cleaning held =>
    cases held with
    | false =>
      simp only [hphase, Option.some.injEq] at hwants
      exact .inl ⟨hwants.symm, nofun⟩
    | true => simp only [hphase, reduceCtorEq] at hwants
  | _ => simp only [hphase, reduceCtorEq] at hwants

theorem wants_receive {lock : ClientLock} (h : s.wants .receive = some lock) :
    lock = .pending ∧ (∀ k, ¬ s.receive.answers k) ∨ ∃ k, lock = .call k ∧ s.receive.locks k := by
  rw [wants] at h
  cases hphase : s.receive with
  | resolving frame id =>
    simp only [hphase, Option.some.injEq] at h
    exact .inl ⟨h.symm, nofun⟩
  | locking frame k =>
    simp only [hphase, Option.some.injEq] at h
    exact .inr ⟨k, h.symm, decide_eq_true rfl⟩
  | _ => simp only [hphase, reduceCtorEq] at h

theorem Inv.cyclicWait_iff (h : Inv s) :
    s.CyclicWait ↔ ∃ k c, s.calls[k]? = some c ∧ c.phase = .timedOut false ∧ s.receive.locks k := by
  constructor
  · rintro ⟨k, own, hown, hheld, other, hother, hheld'⟩
    obtain ⟨c, hc, hwants⟩ := wants_call hown
    have hinv := h.calls k c hc
    have hmtx (hk : own = .call k) : c.mtx = some .receive := by
      rw [hk, GatewayClient.holder, hc] at hheld
      exact hheld
    rcases wants_receive hother with ⟨rfl, hanswers⟩ | ⟨k', rfl, hlocks⟩
    · -- the call holds the mutex of the table, and the receive thread none that it waits for
      rcases hwants with ⟨rfl, -⟩ | hk
      · cases hheld.symm.trans hheld'
      · exact absurd (hinv.receive.1 (hmtx hk)) (hanswers k)
    · obtain ⟨d, hd, hmtx'⟩ := Option.bind_eq_some_iff.1 hheld'
      have hk : k = k' := (h.calls k' d hd).others k hmtx'
      subst hk
      cases hc.symm.trans hd
      rcases hwants with ⟨-, hphase⟩ | hk
      · exact ⟨k, c, hc, hphase (hinv.own.1 hmtx'), hlocks⟩
      · cases hmtx'.symm.trans (hmtx hk)
  · rintro ⟨k, c, hc, hphase, hlocks⟩
    have hinv := h.calls k c hc
    cases hreceive : s.receive with
    | locking frame k' =>
      rw [hreceive] at hlocks
      have hk : k' = k := of_decide_eq_true hlocks
      subst hk
      refine ⟨k', .pending, ?_, ?_, .call k', ?_, ?_⟩
      · rw [wants, hc, Option.bind_some, hphase]
        rfl
      · exact h.receive.2 (by rw [hreceive]; rfl)
      · rw [wants, hreceive]
        rfl
      · rw [GatewayClient.holder, hc]
        exact hinv.own.2 (by rw [hphase]; rfl)
    | _ =>
      rw [hreceive] at hlocks
      cases hlocks

/-! ## The table -/

theorem not_isEnded_of_inProgress {phase : CallPhase} (h : phase.inProgress) : ¬ phase.isEnded := by
  cases phase with
  | ended payload => cases h
  | _ => exact Bool.false_ne_true

/-- Calls that have not ended have different ids, and the table has those of the calls in progress,
each with its call. -/
structure TableInv (s : GatewayClient) : Prop where
  distinct : ∀ (j k : Nat) (c d : ClientCall), s.calls[j]? = some c → s.calls[k]? = some d →
    ¬ c.phase.isEnded → ¬ d.phase.isEnded → c.request.id = d.request.id → j = k
  table : ∀ id k, s.pendingCalls.lookup id = some k ↔
    ∃ c, s.calls[k]? = some c ∧ c.phase.inProgress ∧ c.request.id = id

theorem TableInv.pending (h : TableInv s) (id : String) :
    id ∈ s.pendingCalls ↔ ∃ c ∈ s.calls, c.phase.inProgress ∧ c.request.id = id := by
  rw [← AList.lookup_isSome, Option.isSome_iff_exists]
  constructor
  · rintro ⟨k, hk⟩
    obtain ⟨c, hc, hcall⟩ := (h.table id k).1 hk
    exact ⟨c, mem_of_getElem? hc, hcall⟩
  · rintro ⟨c, hc, hcall⟩
    obtain ⟨k, hk⟩ := getElem?_of_mem hc
    exact ⟨k, (h.table id k).2 ⟨c, hk, hcall⟩⟩

theorem TableInv.distinct_set (h : TableInv s) (hc : s.calls[k]? = some c)
    (hrequest : c'.request = c.request) (hended : ¬ c.phase.isEnded) (i j : Nat) (d e : ClientCall)
    (hd : (s.calls.set k c')[i]? = some d) (he : (s.calls.set k c')[j]? = some e)
    (hdended : ¬ d.phase.isEnded) (heended : ¬ e.phase.isEnded)
    (hid : d.request.id = e.request.id) : i = j := by
  rcases (getElem?_set_iff hc).1 hd with ⟨hi, rfl⟩ | ⟨-, hd'⟩
  · rcases (getElem?_set_iff hc).1 he with ⟨hj, -⟩ | ⟨-, he'⟩
    · rw [hi, hj]
    · rw [hi]
      exact h.distinct k j c e hc he' hended heended (hrequest ▸ hid)
  · rcases (getElem?_set_iff hc).1 he with ⟨hj, rfl⟩ | ⟨-, he'⟩
    · rw [hj]
      exact h.distinct i k d c hd' hc hdended hended (hrequest ▸ hid)
    · exact h.distinct i j d e hd' he' hdended heended hid

/-- What the step of a call does to the table. -/
inductive TableStep (s : GatewayClient) (k : Nat) (c : ClientCall) :
    Table String Nat → ClientCall → Prop where
  | same {c' : ClientCall} (h : c'.phase.inProgress = c.phase.inProgress) :
      TableStep s k c s.pendingCalls c'
  | insert {c' : ClientCall} (h : c.phase.inProgress = false) (h' : c'.phase.inProgress) :
      TableStep s k c (AList.insert c.request.id k s.pendingCalls) c'
  | erase {c' : ClientCall} (h : c'.phase.inProgress = false) :
      TableStep s k c (s.pendingCalls.erase c.request.id) c'

theorem TableInv.update (h : TableInv s) (hc : s.calls[k]? = some c) (hended : ¬ c.phase.isEnded)
    (hrequest : c'.request = c.request) (hstep : TableStep s k c p c') :
    TableInv (s.update k m p c') where
  distinct := h.distinct_set hc hrequest hended
  table id j := by
    have hother {d : ClientCall} (hd : s.calls[j]? = some d) (hprogress : d.phase.inProgress)
        (hid : d.request.id = c.request.id) : j = k :=
      h.distinct j k d c hd hc (not_isEnded_of_inProgress hprogress) hended hid
    have hset : (∃ d, (s.update k m p c').calls[j]? = some d ∧ d.phase.inProgress ∧
          d.request.id = id) ↔
        j = k ∧ c'.phase.inProgress ∧ c.request.id = id ∨
          j ≠ k ∧ s.pendingCalls.lookup id = some j := by
      rw [h.table]
      constructor
      · rintro ⟨d, hd, hprogress, hid⟩
        rcases (getElem?_set_iff hc).1 hd with ⟨rfl, rfl⟩ | ⟨hj, hd⟩
        · exact .inl ⟨rfl, hprogress, hrequest ▸ hid⟩
        · exact .inr ⟨hj, d, hd, hprogress, hid⟩
      · rintro (⟨rfl, hprogress, hid⟩ | ⟨hj, d, hd, hcall⟩)
        · exact ⟨c', (getElem?_set_iff hc).2 (.inl ⟨rfl, rfl⟩), hprogress, by rw [hrequest, hid]⟩
        · exact ⟨d, (getElem?_set_iff hc).2 (.inr ⟨hj, hd⟩), hcall⟩
    have hself : s.pendingCalls.lookup id = some k ↔ c.phase.inProgress ∧ c.request.id = id := by
      rw [h.table]
      constructor
      · rintro ⟨d, hd, hcall⟩
        cases hc.symm.trans hd
        exact hcall
      · exact fun hcall => ⟨c, hc, hcall⟩
    have hnone (hj : j ≠ k) : s.pendingCalls.lookup c.request.id ≠ some j := by
      intro hlookup
      obtain ⟨d, hd, hprogress, hid⟩ := (h.table _ j).1 hlookup
      exact hj (hother hd hprogress hid)
    rw [hset]
    change p.lookup id = some j ↔ _
    by_cases hid : c.request.id = id
    · subst hid
      cases hstep with
      | same hsame =>
        by_cases hj : j = k
        · subst hj
          simp [hself, hsame]
        · simp [hj]
      | insert hnot hnow =>
        rw [AList.lookup_insert]
        by_cases hj : j = k
        · simp [hj, hnow]
        · simp [hj, Ne.symm hj, hnone hj]
      | erase hnot =>
        rw [AList.lookup_erase]
        by_cases hj : j = k
        · simp [hj, hnot]
        · simp [hj, hnone hj]
    · have hnotself : s.pendingCalls.lookup id ≠ some k := fun hlookup => hid (hself.1 hlookup).2
      have hkept : p.lookup id = s.pendingCalls.lookup id := by
        cases hstep with
        | same hsame => rfl
        | insert hnot hnow => exact AList.lookup_insert_ne (Ne.symm hid)
        | erase hnot => exact AList.lookup_erase_ne (Ne.symm hid)
      rw [hkept]
      by_cases hj : j = k
      · subst hj
        simp [hid, hnotself]
      · simp [hj]

/-- What the step of a call, that can write what it sends, does to the table; and when the call gives
up. -/
theorem callStep_table (hstep : s.callStep k c = some s')
    (hsent : c.phase = .sending → c.request.toJson.isUtf8) :
    ∃ m p c', s' = s.update k m p c' ∧ c'.request = c.request ∧ ¬ c.phase.isEnded ∧
      TableStep s k c p c' ∧
      (c'.phase = .timedOut false → c.phase = .checking true ∧ c.done = false) := by
  have hlock {phase : CallPhase} (hstep : s.lockPending k c phase = some s')
      (hprogress : phase.inProgress = c.phase.inProgress) (hended : ¬ c.phase.isEnded)
      (hphase : phase ≠ .timedOut false) :
      ∃ m p c', s' = s.update k m p c' ∧ c'.request = c.request ∧ ¬ c.phase.isEnded ∧
        TableStep s k c p c' ∧
        (c'.phase = .timedOut false → c.phase = .checking true ∧ c.done = false) := by
    rw [lockPending] at hstep
    split_ifs at hstep
    cases hstep
    exact ⟨_, _, _, rfl, rfl, hended, .same hprogress, fun hphase' => absurd hphase' hphase⟩
  rw [callStep] at hstep
  cases hphase : c.phase with
  | registering held =>
    cases held with
    | false =>
      simp only [hphase] at hstep
      exact hphase ▸ hlock hstep (by rw [hphase]; rfl) (by rw [hphase]; nofun) nofun
    | true =>
      simp only [hphase] at hstep
      cases hstep
      exact ⟨_, _, _, rfl, rfl, nofun, .insert (by rw [hphase]; rfl) rfl, nofun⟩
  | sending =>
    simp only [hphase, hsent hphase, if_true] at hstep
    cases hstep
    exact ⟨_, _, _, rfl, rfl, nofun, .same (by rw [hphase]; rfl), nofun⟩
  | locking expired =>
    simp only [hphase] at hstep
    split_ifs at hstep
    cases hstep
    exact ⟨_, _, _, rfl, rfl, nofun, .same (by rw [hphase]; rfl), nofun⟩
  | checking expired =>
    simp only [hphase] at hstep
    cases hstep
    by_cases hdone : c.done
    · rw [if_pos hdone]
      exact ⟨_, _, _, rfl, rfl, nofun, .same (by rw [hphase]; rfl), nofun⟩
    · rw [if_neg hdone]
      cases expired with
      | false => exact ⟨_, _, _, rfl, rfl, nofun, .same (by rw [hphase]; rfl), nofun⟩
      | true =>
        exact ⟨_, _, _, rfl, rfl, nofun, .same (by rw [hphase]; rfl),
          fun _ => ⟨rfl, Bool.eq_false_of_not_eq_true hdone⟩⟩
  | waiting =>
    simp only [hphase] at hstep
    cases hstep
  | timedOut held =>
    cases held with
    | false =>
      simp only [hphase] at hstep
      exact hphase ▸ hlock hstep (by rw [hphase]; rfl) (by rw [hphase]; nofun) nofun
    | true =>
      simp only [hphase] at hstep
      cases hstep
      exact ⟨_, _, _, rfl, rfl, nofun, .erase rfl, nofun⟩
  | cleaning held =>
    cases held with
    | false =>
      simp only [hphase] at hstep
      exact hphase ▸ hlock hstep (by rw [hphase]; rfl) (by rw [hphase]; nofun) nofun
    | true =>
      simp only [hphase] at hstep
      cases hstep
      exact ⟨_, _, _, rfl, rfl, nofun, .erase rfl, nofun⟩
  | ended payload =>
    simp only [hphase] at hstep
    cases hstep

/-- The receive thread changes neither the table nor the requests and phases of the calls, and it is
at a call when it has found it. -/
theorem receiveStep_calls (hstep : s.receiveStep = some s') :
    s'.pendingCalls = s.pendingCalls ∧
      s'.calls.map (fun c => (c.request, c.phase)) = s.calls.map (fun c => (c.request, c.phase)) ∧
      ∀ k, s'.receive.locks k →
        ∃ frame id, s.receive = .finding frame id ∧ s.pendingCalls.lookup id = some k := by
  have hset {k : Nat} {c c' : ClientCall} (hc : s.calls[k]? = some c)
      (hsame : (c'.request, c'.phase) = (c.request, c.phase)) :
      (s.calls.set k c').map (fun c => (c.request, c.phase)) =
        s.calls.map (fun c => (c.request, c.phase)) := by
    obtain ⟨hk, rfl⟩ := List.getElem?_eq_some_iff.1 hc
    rw [map_set, hsame]
    refine ext_getElem? fun j => ?_
    rw [getElem?_set]
    split_ifs with hj hlt
    · subst hj
      rw [getElem?_map, hc]
      rfl
    · rw [length_map] at hlt
      exact absurd (hj ▸ hk) hlt
    · rfl
  rw [receiveStep] at hstep
  cases hphase : s.receive with
  | idle =>
    simp only [hphase] at hstep
    cases hstep
  | resolving frame id =>
    simp only [hphase] at hstep
    split_ifs at hstep
    cases hstep
    exact ⟨rfl, rfl, nofun⟩
  | finding frame id =>
    simp only [hphase] at hstep
    cases hfind : s.pendingCalls.lookup id with
    | none =>
      simp only [hfind] at hstep
      cases hstep
      exact ⟨rfl, rfl, nofun⟩
    | some k =>
      simp only [hfind] at hstep
      cases hstep
      refine ⟨rfl, rfl, fun j hj => ⟨frame, id, rfl, ?_⟩⟩
      rw [hfind, of_decide_eq_true hj]
  | locking frame k =>
    simp only [hphase] at hstep
    cases hc : s.calls[k]? with
    | none =>
      simp only [hc] at hstep
      cases hstep
    | some c =>
      simp only [hc] at hstep
      split_ifs at hstep
      cases hstep
      exact ⟨rfl, hset hc rfl, nofun⟩
  | answering frame k =>
    simp only [hphase] at hstep
    cases hc : s.calls[k]? with
    | none =>
      simp only [hc] at hstep
      cases hstep
    | some c =>
      simp only [hc] at hstep
      cases hstep
      exact ⟨rfl, hset hc rfl, nofun⟩

/-- No call gives up while the receive thread is about to take its mutex. -/
def NoCross (s : GatewayClient) : Prop :=
  ∀ k c, s.calls[k]? = some c → c.phase = .timedOut false → ¬ s.receive.locks k

/-- What holds in every run whose steps are in order. -/
structure InvInOrder (s : GatewayClient) : Prop where
  inv : Inv s
  tableInv : TableInv s
  noCross : NoCross s

theorem InvInOrder.laws (h : InvInOrder s) : Laws s where
  noCycle := by
    rw [h.inv.cyclicWait_iff]
    rintro ⟨k, c, hc, hphase, hlocks⟩
    exact h.noCross k c hc hphase hlocks
  own c hc payload hphase := by
    obtain ⟨k, hk⟩ := getElem?_of_mem hc
    exact (h.inv.calls k c hk).returned payload hphase
  pending := h.tableInv.pending

theorem exists_call_of_map {calls' : List ClientCall}
    (h : calls'.map (fun c => (c.request, c.phase)) = calls.map (fun c => (c.request, c.phase)))
    {j : Nat} (hd : calls'[j]? = some d) :
    ∃ c, calls[j]? = some c ∧ d.request = c.request ∧ d.phase = c.phase := by
  have hmap := congrArg (fun l : List (RpcRequest × CallPhase) => l[j]?) h
  rw [getElem?_map, getElem?_map, hd, Option.map_some] at hmap
  obtain ⟨c, hc, hsame⟩ := Option.map_eq_some_iff.1 hmap.symm
  exact ⟨c, hc, (congrArg Prod.fst hsame).symm, (congrArg Prod.snd hsame).symm⟩

theorem TableInv.congr (h : TableInv s) (htable : s'.pendingCalls = s.pendingCalls)
    (hcalls : s'.calls.map (fun c => (c.request, c.phase)) =
      s.calls.map (fun c => (c.request, c.phase))) : TableInv s' where
  distinct i j d e hd he hdended heended hid := by
    obtain ⟨d', hd', hdrequest, hdphase⟩ := exists_call_of_map hcalls hd
    obtain ⟨e', he', herequest, hephase⟩ := exists_call_of_map hcalls he
    rw [hdphase] at hdended
    rw [hephase] at heended
    rw [hdrequest, herequest] at hid
    exact h.distinct i j d' e' hd' he' hdended heended hid
  table id k := by
    rw [htable, h.table]
    constructor
    · rintro ⟨c, hc, hcall⟩
      obtain ⟨c', hc', hrequest, hphase⟩ := exists_call_of_map hcalls.symm hc
      exact ⟨c', hc', by rw [← hphase, ← hrequest]; exact hcall⟩
    · rintro ⟨c, hc, hcall⟩
      obtain ⟨c', hc', hrequest, hphase⟩ := exists_call_of_map hcalls hc
      exact ⟨c', hc', by rw [← hphase, ← hrequest]; exact hcall⟩

theorem TableInv.begin (h : TableInv s) (request : RpcRequest) (counter : Nat)
    (hfresh : ∀ c ∈ s.calls, ¬ c.phase.isEnded → c.request.id ≠ request.id) :
    TableInv { s with requestCounter := counter, calls := s.calls ++ [{ request := request }] } := by
  have hget (j : Nat) (d : ClientCall) :
      (s.calls ++ [{ request := request }])[j]? = some d ↔
        s.calls[j]? = some d ∨ j = s.calls.length ∧ d = { request := request } := by
    rw [getElem?_append]
    split_ifs with hj
    · simp [hj.ne]
    · rw [getElem?_eq_none (not_lt.1 hj), getElem?_singleton]
      split_ifs with hzero
      · have hj' : j = s.calls.length := by omega
        simp [hj', eq_comm]
      · have hj' : j ≠ s.calls.length := by omega
        simp [hj']
  constructor
  · intro i j d e hd he hdended heended hid
    rcases (hget i d).1 hd with hd | ⟨rfl, rfl⟩
    · rcases (hget j e).1 he with he | ⟨rfl, rfl⟩
      · exact h.distinct i j d e hd he hdended heended hid
      · exact absurd hid (hfresh d (mem_of_getElem? hd) hdended)
    · rcases (hget j e).1 he with he | ⟨rfl, rfl⟩
      · exact absurd hid.symm (hfresh e (mem_of_getElem? he) heended)
      · rfl
  · intro id k
    rw [h.table]
    constructor
    · rintro ⟨c, hc, hcall⟩
      exact ⟨c, (hget k c).2 (.inl hc), hcall⟩
    · rintro ⟨c, hc, hprogress, hid⟩
      rcases (hget k c).1 hc with hc | ⟨rfl, rfl⟩
      · exact ⟨c, hc, hprogress, hid⟩
      · cases hprogress

theorem InvInOrder.callStep (h : InvInOrder s) (hc : s.calls[k]? = some c) (hinv : Inv (s.update k m p c'))
    (hrequest : c'.request = c.request) (hended : ¬ c.phase.isEnded) (htable : TableStep s k c p c')
    (hcross : c'.phase = .timedOut false → ¬ s.receive.locks k) : InvInOrder (s.update k m p c') where
  inv := hinv
  tableInv := h.tableInv.update hc hended hrequest htable
  noCross j d hd hphase := by
    rcases (getElem?_set_iff hc).1 hd with ⟨rfl, rfl⟩ | ⟨-, hd'⟩
    · exact hcross hphase
    · exact h.noCross j d hd' hphase

theorem InvInOrder.step (h : InvInOrder s) (hfresh : s.DrawsFresh a)
    (horder : s.InOrder a) (hstep : s.step a = some s') : InvInOrder s' := by
  have hinv := h.inv.step hstep
  cases a with
  | begin method params =>
    cases hstep
    refine ⟨hinv, h.tableInv.begin _ _ hfresh, fun j d hd hphase => ?_⟩
    rw [getElem?_append] at hd
    split_ifs at hd
    · exact h.noCross j d hd hphase
    · cases mem_singleton.1 (mem_of_getElem? hd)
      cases hphase
  | call k =>
    obtain ⟨c, hc, hstep⟩ := Option.bind_eq_some_iff.1 hstep
    obtain ⟨hgives, hsent⟩ := horder c hc
    obtain ⟨m, p, c', rfl, hrequest, hended, htable, hphase⟩ := callStep_table hstep
      fun hsends => hsent ((CallPhase.sends_iff _).2 hsends)
    refine h.callStep hc hinv hrequest hended htable fun hphase' => ?_
    obtain ⟨hchecking, hdone⟩ := hphase hphase'
    exact hgives ((CallPhase.expires_iff _).2 hchecking) (by rw [hdone]; exact Bool.false_ne_true)
  | wake k expired =>
    obtain ⟨c, hc, hstep⟩ := Option.bind_eq_some_iff.1 hstep
    cases hphase : c.phase with
    | waiting =>
      simp only [hphase] at hstep
      cases hstep
      exact h.callStep hc hinv rfl (by rw [hphase]; nofun) (.same (by rw [hphase]; rfl)) nofun
    | _ =>
      simp only [hphase] at hstep
      cases hstep
  | deliver frame =>
    rw [GatewayClient.step] at hstep
    cases hidle : s.receive with
    | idle =>
      simp only [hidle] at hstep
      cases hstep
      refine ⟨hinv, ⟨h.tableInv.distinct, h.tableInv.table⟩, fun j d hd hphase hlocks => ?_⟩
      rw [handleFrame] at hlocks
      cases hid : responseId frame <;> rw [hid] at hlocks <;> cases hlocks
    | _ =>
      simp only [hidle] at hstep
      cases hstep
  | receive =>
    obtain ⟨htable, hcalls, hlocks⟩ := receiveStep_calls hstep
    refine ⟨hinv, h.tableInv.congr htable hcalls, fun j d hd hphase hlocked => ?_⟩
    obtain ⟨frame, id, hreceive, hfind⟩ := hlocks j hlocked
    obtain ⟨c, hc, -, hsame⟩ := exists_call_of_map hcalls hd
    refine horder j ?_ c hc ((CallPhase.givesUp_iff _).2 (hsame ▸ hphase))
    rw [hreceive]
    exact hfind

theorem InvInOrder.init : InvInOrder {} where
  inv := .init
  tableInv := ⟨fun i j d e hd => by simp at hd, fun id k => by simp⟩
  noCross k c hc := by simp at hc

theorem InvInOrder.inOrder_of_laws (h : InvInOrder s)
    (hlaws : ∀ s' ∈ s.step a, Laws s') : s.InOrder a := by
  cases a with
  | call k =>
    intro c hc
    have hstep : s.step (.call k) = s.callStep k c := by
      rw [GatewayClient.step, hc, Option.bind_some]
    refine ⟨fun hexpires hdone hlocks => ?_, fun hsends => ?_⟩
    · have hphase := (CallPhase.expires_iff _).1 hexpires
      have hnext : s.callStep k c = some (s.update k s.pendingMutex s.pendingCalls
          { c with phase := .timedOut false }) := by
        rw [GatewayClient.callStep]
        simp only [hphase, hdone]
        rfl
      have hinv := h.inv.step (hstep.trans hnext)
      refine (hlaws _ (hstep.trans hnext)).noCycle (hinv.cyclicWait_iff.2
        ⟨k, { c with phase := .timedOut false }, ?_, rfl, hlocks⟩)
      exact (getElem?_set_iff hc).2 (.inl ⟨rfl, rfl⟩)
    · have hphase := (CallPhase.sends_iff _).1 hsends
      by_contra hutf8
      have hnext : s.callStep k c = some (s.update k s.pendingMutex s.pendingCalls
          { c with phase := .ended none }) := by
        rw [GatewayClient.callStep]
        simp only [hphase, hutf8]
        rfl
      -- the id stays in the table, and no call in progress has it
      have hin : c.request.id ∈ s.pendingCalls := by
        rw [← AList.lookup_isSome, Option.isSome_iff_exists]
        exact ⟨k, (h.tableInv.table _ _).2 ⟨c, hc, by rw [hphase]; rfl, rfl⟩⟩
      obtain ⟨d, hd, hprogress, hid⟩ := ((hlaws _ (hstep.trans hnext)).pending _).1 hin
      obtain ⟨j, hj⟩ := getElem?_of_mem hd
      rcases (getElem?_set_iff hc).1 hj with ⟨-, rfl⟩ | ⟨hjk, hj'⟩
      · cases hprogress
      · exact hjk (h.tableInv.distinct j k d c hj' hc (not_isEnded_of_inProgress hprogress)
          (by rw [hphase]; nofun) hid)
  | receive =>
    intro k hk c hc hgives
    obtain ⟨id, hid, hfind⟩ := Option.bind_eq_some_iff.1 hk
    have hphase := (CallPhase.givesUp_iff _).1 hgives
    obtain ⟨frame, hreceive⟩ : ∃ frame, s.receive = .finding frame id := by
      cases hreceive : s.receive with
      | finding frame id' =>
        rw [hreceive] at hid
        cases hid
        exact ⟨frame, rfl⟩
      | _ =>
        rw [hreceive] at hid
        cases hid
    have hnext : s.step .receive = some { s with receive := .locking frame k } := by
      rw [GatewayClient.step, GatewayClient.receiveStep]
      simp only [hreceive, hfind]
    have hinv := h.inv.step hnext
    exact (hlaws _ hnext).noCycle
      (hinv.cyclicWait_iff.2 ⟨k, c, hc, hphase, decide_eq_true rfl⟩)
  | _ => trivial

/-- **The laws hold in every state of a run** exactly when every step is in order: as long as the
ids that are drawn are fresh. -/
theorem keepsLaws_iff {as : List ClientAction} (hfresh : Along step DrawsFresh {} as) :
    Along step (fun s a => ∀ s' ∈ s.step a, Laws s') {} as ↔ Along step InOrder {} as := by
  have hcongr : Along step (fun s a => s.DrawsFresh a ∧ ∀ s' ∈ s.step a, Laws s') {} as ↔
      Along step (fun s a => s.DrawsFresh a ∧ s.InOrder a) {} as := by
    refine along_congr (motive := InvInOrder) (fun s a s' h hok hstep => h.step hok.1 hok.2 hstep)
      (fun s a h => and_congr_right fun hfresh => ?_) .init
    exact ⟨h.inOrder_of_laws, fun horder s' hs' => (h.step hfresh horder hs').laws⟩
  constructor
  · exact fun hlaws => (hcongr.1 (hfresh.and hlaws)).mono fun _ _ => And.right
  · exact fun horder => (hcongr.2 (hfresh.and horder)).mono fun _ _ => And.right

/-! ## Two runs -/

def firstResponse : Json :=
  .object [("type", .str "res"), ("id", .str "1"), ("ok", .bool true), ("payload", .str "pong")]

def waitingCall : List ClientAction :=
  [.begin "gateway.health" (.obj []), .call 0, .call 0, .call 0, .call 0, .call 0]

def answeredCall : List ClientAction :=
  waitingCall ++ [.deliver firstResponse, .receive, .receive, .receive, .receive, .wake 0 false,
    .call 0, .call 0, .call 0, .call 0, .deliver firstResponse, .receive, .receive]

/-- All its steps are in order. -/
theorem keepsLaws_answeredCall :
    Along step (fun s a => ∀ s' ∈ s.step a, Laws s') {} answeredCall :=
  (keepsLaws_iff (by decide +kernel)).2 (by decide +kernel)

/-- The wait of the call ends without a response; before it has given up, the response arrives. -/
def lateResponse : List ClientAction :=
  waitingCall ++ [.wake 0 true, .call 0, .deliver firstResponse, .receive, .receive, .call 0]

/-- **A call whose response comes late** waits for the receive thread, and that for the call. -/
theorem cyclicWait_lateResponse : ∃ s, exec step {} lateResponse = some s ∧ s.CyclicWait := by
  have hwaits : (exec step {} lateResponse).map (fun s =>
      (s.wants (.call 0), s.holder .pending, s.wants .receive, s.holder (.call 0))) =
        some (some .pending, some .receive, some (.call 0), some (.call 0)) := by
    decide +kernel
  obtain ⟨s, hs, hwaits⟩ := Option.map_eq_some_iff.1 hwaits
  simp only [Prod.mk.injEq] at hwaits
  obtain ⟨hown, hpending, hother, hcall⟩ := hwaits
  exact ⟨s, hs, 0, .pending, hown, hpending, .call 0, hother, hcall⟩

end GatewayClient

end RavBot.Gateway
