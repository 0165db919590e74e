import RavBot.Gateway.Authentication
import RavBot.Gateway.Requests

/-!
# Requests in progress and their abortion

`handle_message` enters a request in `active_requests_` before it processes it and erases the entry
afterwards, and `AbortRequest` looks there whose request it is to abort.  The key of an entry is the
id of the request alone, which two clients may both choose, and an exception in the processing gets
past the erasure.  So the table says which requests are in progress exactly along the runs in which
no request meets another with its id that is in progress, and no processing throws (`right_iff`).

A request has one thread from the moment it is entered until `handle_message` returns.
-/

namespace RavBot.Gateway

open RavBot.Lib RavBot.Security

/-- How far the processing of a request is. -/
inductive RequestPhase where
  /-- It is entered in the table. -/
  | received
  /-- Its handler runs. -/
  | running
  /-- It is answered, and still in the table. -/
  | answered
  deriving DecidableEq, Repr

/-- A request in progress.  `aborted` tells that an abortion of it has succeeded. -/
structure ActiveRequest where
  connId : String
  request : RpcRequest
  phase : RequestPhase
  aborted : Bool := false

/-- The server with `active_requests_`, its threads, and the events that it sent. -/
structure ActiveSystem where
  server : GatewayServer
  activeRequests : Table String String
  threads : Table Nat ActiveRequest
  events : List (String × String × Json)

inductive ActiveAction where
  | openConnection (connId : String) (nowSec : Int)
  | closeConnection (connId : String)
  | setAuth (mode token : String)
  /-- A request comes in on a connection, and is entered in the table. -/
  | receive (thread : Nat) (connId : String) (request : RpcRequest)
  /-- The handshake is made, or the checks before the handler. -/
  | begin (thread : Nat) (registered : Bool) (limited : Option Int) (nowMs : Int)
  /-- The handler returns a result or throws; `what` is the text of the exception if `dump` does. -/
  | finish (thread : Nat) (outcome : Except String Json) (what : String)
  /-- The entry is erased, and `handle_message` returns. -/
  | cleanup (thread : Nat)
  | abort (connId requestId : String)

namespace ActiveSystem

/-- A server in any configuration, to which nobody has connected. -/
def init (server : GatewayServer) : ActiveSystem where
  server := { server with connections := ∅ }
  activeRequests := ∅
  threads := ∅
  events := []

def abortEvent (requestId : String) : String × Json :=
  ("request.aborted",
    Json.object [("requestId", .str requestId), ("reason", .str "User requested abort")])

/-- `AbortRequest`.  The event gets to the client when the connection is open. -/
def abortRequest (s : ActiveSystem) (connId requestId : String) : ActiveSystem × Bool :=
  match s.activeRequests.lookup requestId with
  | none => (s, false)
  | some owner =>
    if owner ≠ connId then (s, false)
    else ({ s with
      activeRequests := s.activeRequests.erase requestId
      events := if s.server.isOpen connId then s.events ++ [(connId, abortEvent requestId)]
        else s.events }, true)

def markAborted (connId requestId : String) (th : ActiveRequest) : ActiveRequest :=
  if th.connId = connId ∧ th.request.id = requestId then { th with aborted := true } else th

/-- Whether the outcome of a handler ends in an exception that `handle_rpc_request` does not catch:
the text of the error cannot be dumped. -/
def escapes (id : String) (outcome : Except String Json) (what : String) : Bool :=
  let resp := RequestSystem.responseFor id outcome
  !resp.toJson.isUtf8 &&
    (!resp.ok || !(RequestSystem.responseFor id (.error what)).toJson.isUtf8)

def helloThrows (s : ActiveSystem) (th : ActiveRequest) (nowMs : Int) : Bool :=
  isHello th.request.method &&
    (s.server.handleHello th.connId th.request.params (isOpenclawHello th.request.method)
      nowMs).isNone

/-- What the handshake or the checks leave: the server, and how far the request is. -/
def started (s : ActiveSystem) (th : ActiveRequest) (registered : Bool) (limited : Option Int)
    (nowMs : Int) : GatewayServer × RequestPhase :=
  if isHello th.request.method then
    match s.server.handleHello th.connId th.request.params (isOpenclawHello th.request.method)
      nowMs with
    | some (server, _) => (server, .answered)
    | none => (s.server, .answered)
  else match s.server.checkRequest th.connId th.request registered limited with
    | .ok _ => (s.server, .running)
    | .error _ => (s.server, .answered)

/-- What an action does; `none` when it cannot be taken.  A thread that an exception ends leaves the
table as it is. -/
def step (s : ActiveSystem) : ActiveAction → Option ActiveSystem
  | .openConnection connId nowSec =>
    some { s with server := s.server.openConnection connId nowSec }
  | .closeConnection connId => some { s with server := s.server.closeConnection connId }
  | .setAuth mode token => some { s with server := s.server.setAuth mode token }
  | .receive t connId request =>
    match s.threads.lookup t with
    | some _ => none
    | none =>
      some { s with
        activeRequests := s.activeRequests.insert request.id connId
        threads := s.threads.insert t { connId, request, phase := .received } }
  | .begin t registered limited nowMs =>
    match s.threads.lookup t with
    | none => none
    | some th =>
      if th.phase ≠ .received then none
      else if s.helloThrows th nowMs then some { s with threads := s.threads.erase t }
      else
        let (server, phase) := s.started th registered limited nowMs
        some { s with server, threads := s.threads.insert t { th with phase } }
  | .finish t outcome what =>
    match s.threads.lookup t with
    | none => none
    | some th =>
      if th.phase ≠ .running then none
      else if escapes th.request.id outcome what then
        some { s with threads := s.threads.erase t }
      else some { s with threads := s.threads.insert t { th with phase := .answered } }
  | .cleanup t =>
    match s.threads.lookup t with
    | none => none
    | some th =>
      if th.phase ≠ .answered then none
      else some { s with
        activeRequests := s.activeRequests.erase th.request.id
        threads := s.threads.erase t }
  | .abort connId requestId =>
    match s.abortRequest connId requestId with
    | (s', true) => some { s' with threads := s'.threads.mapValues (markAborted connId requestId) }
    | (s', false) => some s'

/-- A thread processes a request of a connection with an id, which has not been aborted. -/
def Processes (th : ActiveRequest) (connId id : String) : Prop :=
  th.connId = connId ∧ th.request.id = id ∧ th.aborted = false

/-- A connection has a request with an id in progress that has not been aborted. -/
def InProgress (s : ActiveSystem) (connId id : String) : Prop :=
  ∃ t th, s.threads.lookup t = some th ∧ Processes th connId id

/-- A thread other than `t` processes one. -/
def Another (s : ActiveSystem) (t : Nat) (connId id : String) : Prop :=
  ∃ t' th, t' ≠ t ∧ s.threads.lookup t' = some th ∧ Processes th connId id

/-- An abortion succeeds exactly when the connection has a request with the id in progress that has
not been aborted, and the table has no entries of requests that have ended. -/
def Right (s : ActiveSystem) : Prop :=
  (∀ connId id, (s.abortRequest connId id).2 = true ↔ s.InProgress connId id) ∧
    ∀ id connId, s.activeRequests.lookup id = some connId →
      ∃ t th, s.threads.lookup t = some th ∧ th.connId = connId ∧ th.request.id = id

/-- A request comes in while no other connection has one with its id in progress; the processing of a
request throws only after it was aborted, or beside another one of its connection with its id; and a
request ends while there is no other with its id. -/
def Undisturbed (s : ActiveSystem) : ActiveAction → Prop
  | .receive t connId request => s.threads.lookup t = none →
      ∀ c, c ≠ connId → ¬ s.InProgress c request.id
  | .begin t _ _ nowMs => ∀ th, s.threads.lookup t = some th → th.phase = .received →
      s.helloThrows th nowMs → th.aborted ∨ s.Another t th.connId th.request.id
  | .finish t outcome what => ∀ th, s.threads.lookup t = some th → th.phase = .running →
      escapes th.request.id outcome what → th.aborted ∨ s.Another t th.connId th.request.id
  | .cleanup t => ∀ th, s.threads.lookup t = some th → th.phase = .answered →
      ∀ c, ¬ s.Another t c th.request.id
  | _ => True

def Tracked (s : ActiveSystem) : Prop :=
  ∀ connId id, s.activeRequests.lookup id = some connId ↔ s.InProgress connId id

theorem abortRequest_snd (s : ActiveSystem) (connId id : String) :
    (s.abortRequest connId id).2 = true ↔ s.activeRequests.lookup id = some connId := by
  rw [abortRequest]
  split
  · next h => simp [h]
  · next owner h =>
      rw [h, Option.some.injEq]
      by_cases heq : owner = connId
      · simp [heq]
      · simp [heq]

theorem right_iff_tracked (s : ActiveSystem) : s.Right ↔ s.Tracked := by
  constructor
  · rintro ⟨habort, -⟩ connId id
    rw [← abortRequest_snd]
    exact habort connId id
  · intro h
    refine ⟨fun connId id => (s.abortRequest_snd connId id).trans (h connId id), fun id connId hid => ?_⟩
    obtain ⟨t, th, ht, hconn, hreq, -⟩ := (h connId id).1 hid
    exact ⟨t, th, ht, hconn, hreq⟩

/-! ## What the operations on threads do to the requests in progress -/

theorem inProgress_iff (s : ActiveSystem) (t : Nat) (connId id : String) :
    s.InProgress connId id ↔
      (∃ th, s.threads.lookup t = some th ∧ Processes th connId id) ∨ s.Another t connId id := by
  constructor
  · rintro ⟨t', th, ht', hth⟩
    by_cases heq : t' = t
    · subst heq
      exact .inl ⟨th, ht', hth⟩
    · exact .inr ⟨t', th, heq, ht', hth⟩
  · rintro (⟨th, ht, hth⟩ | ⟨t', th, -, ht', hth⟩)
    · exact ⟨t, th, ht, hth⟩
    · exact ⟨t', th, ht', hth⟩

theorem inProgress_insert (s s' : ActiveSystem) (t : Nat) (th : ActiveRequest)
    (h : s'.threads = s.threads.insert t th) (connId id : String) :
    s'.InProgress connId id ↔ Processes th connId id ∨ s.Another t connId id := by
  rw [inProgress_iff s' t, Another, h]
  simp only [AList.lookup_insert, Option.some.injEq, exists_eq_left']
  refine or_congr_right (exists_congr fun t' => exists_congr fun th' => and_congr_right fun hne => ?_)
  rw [AList.lookup_insert_ne hne]

theorem inProgress_erase (s s' : ActiveSystem) (t : Nat) (h : s'.threads = s.threads.erase t)
    (connId id : String) : s'.InProgress connId id ↔ s.Another t connId id := by
  rw [inProgress_iff s' t, Another, h]
  simp only [AList.lookup_erase, reduceCtorEq, false_and, exists_false, false_or]
  refine exists_congr fun t' => exists_congr fun th' => and_congr_right fun hne => ?_
  rw [AList.lookup_erase_ne hne]

theorem inProgress_markAborted (s s' : ActiveSystem) (c i : String)
    (h : s'.threads = s.threads.mapValues (markAborted c i)) (connId id : String) :
    s'.InProgress connId id ↔ s.InProgress connId id ∧ ¬ (connId = c ∧ id = i) := by
  rw [InProgress, InProgress, h]
  simp only [Table.lookup_mapValues, Option.map_eq_some_iff]
  constructor
  · rintro ⟨t, -, ⟨th, ht, rfl⟩, hconn, hid, haborted⟩
    by_cases hmark : th.connId = c ∧ th.request.id = i
    · rw [markAborted, if_pos hmark] at haborted
      cases haborted
    · rw [markAborted, if_neg hmark] at hconn hid haborted
      refine ⟨⟨t, th, ht, hconn, hid, haborted⟩, ?_⟩
      rintro ⟨rfl, rfl⟩
      exact hmark ⟨hconn, hid⟩
  · rintro ⟨⟨t, th, ht, hconn, hid, haborted⟩, hne⟩
    have hmark : markAborted c i th = th := by
      rw [markAborted, if_neg]
      rintro ⟨rfl, rfl⟩
      exact hne ⟨hconn.symm, hid.symm⟩
    exact ⟨t, th, ⟨th, ht, hmark⟩, hconn, hid, haborted⟩

/-! ## When a step keeps the table right -/

variable {s : ActiveSystem} {t : Nat} {th : ActiveRequest}

/-- A thread of a tracked system that ends without an erasure leaves the table right exactly when its
request was aborted, or there is another one like it. -/
theorem tracked_of_thrown (h : s.Tracked)
    (ht : s.threads.lookup t = some th) :
    Tracked { s with threads := s.threads.erase t } ↔
      th.aborted ∨ s.Another t th.connId th.request.id := by
  have herase := s.inProgress_erase { s with threads := s.threads.erase t } t rfl
  constructor
  · intro htracked
    by_cases haborted : th.aborted
    · exact .inl haborted
    · have hin : s.InProgress th.connId th.request.id :=
        ⟨t, th, ht, rfl, rfl, Bool.eq_false_iff.2 haborted⟩
      exact .inr ((herase _ _).1 ((htracked _ _).1 ((h _ _).2 hin)))
  · intro hthrown connId id
    rw [herase, ← show s.InProgress connId id ↔ s.Another t connId id from ?_]
    · exact h connId id
    rw [s.inProgress_iff t, or_iff_right_of_imp]
    rintro ⟨th', ht', rfl, rfl, haborted⟩
    rw [ht, Option.some.injEq] at ht'
    subst ht'
    rcases hthrown with htrue | hanother
    · rw [haborted] at htrue
      cases htrue
    · exact hanother

theorem tracked_of_moved (h : s.Tracked)
    (ht : s.threads.lookup t = some th) (server : GatewayServer) (phase : RequestPhase) :
    Tracked { s with server, threads := s.threads.insert t { th with phase } } := by
  intro connId id
  rw [s.inProgress_insert _ t { th with phase } rfl, h connId id, s.inProgress_iff t]
  refine or_congr_left ⟨?_, fun hth => ⟨th, ht, hth⟩⟩
  rintro ⟨th', ht', hth⟩
  rw [ht, Option.some.injEq] at ht'
  subst ht'
  exact hth

/-- A request that comes in leaves the table right exactly when no other connection has one with its
id in progress. -/
theorem tracked_receive (h : s.Tracked)
    (ht : s.threads.lookup t = none) (connId : String) (request : RpcRequest) :
    Tracked { s with
        activeRequests := s.activeRequests.insert request.id connId
        threads := s.threads.insert t { connId, request, phase := .received } } ↔
      ∀ c, c ≠ connId → ¬ s.InProgress c request.id := by
  have hanother (c id : String) : s.Another t c id ↔ s.InProgress c id := by
    rw [s.inProgress_iff t, or_iff_right_of_imp]
    rintro ⟨th, hth, -⟩
    rw [ht] at hth
    cases hth
  have hinsert := s.inProgress_insert { s with
      activeRequests := s.activeRequests.insert request.id connId
      threads := s.threads.insert t { connId, request, phase := .received } } t
    { connId, request, phase := .received } rfl
  constructor
  · intro htracked c hne hin
    have hentry := (htracked c request.id).2 ((hinsert _ _).2 (.inr ((hanother _ _).2 hin)))
    rw [AList.lookup_insert, Option.some.injEq] at hentry
    exact hne hentry.symm
  · intro hnone c id
    rw [hinsert, hanother, Table.lookup_insert_ite]
    by_cases hid : id = request.id
    · subst hid
      rw [if_pos rfl, Option.some.injEq]
      constructor
      · intro heq
        exact .inl ⟨heq, rfl, rfl⟩
      · rintro (⟨heq, -, -⟩ | hin)
        · exact heq
        · by_contra hne
          exact hnone c (Ne.symm hne) hin
    · rw [if_neg hid, h c id]
      refine ⟨.inr, ?_⟩
      rintro (⟨-, heq, -⟩ | hin)
      · exact absurd heq.symm hid
      · exact hin

theorem tracked_cleanup (h : s.Tracked)
    (ht : s.threads.lookup t = some th) :
    Tracked { s with
        activeRequests := s.activeRequests.erase th.request.id
        threads := s.threads.erase t } ↔ ∀ c, ¬ s.Another t c th.request.id := by
  have herase := s.inProgress_erase { s with
      activeRequests := s.activeRequests.erase th.request.id
      threads := s.threads.erase t } t rfl
  constructor
  · intro htracked c hanother
    have hentry := (htracked c th.request.id).2 ((herase _ _).2 hanother)
    rw [AList.lookup_erase] at hentry
    cases hentry
  · intro hnone c id
    rw [herase, Table.lookup_erase_ite]
    by_cases hid : id = th.request.id
    · subst hid
      rw [if_pos rfl]
      exact iff_of_false nofun (hnone c)
    · rw [if_neg hid, h c id, s.inProgress_iff t, or_iff_right_of_imp]
      rintro ⟨th', ht', -, heq, -⟩
      rw [ht, Option.some.injEq] at ht'
      subst ht'
      exact absurd heq.symm hid

theorem tracked_abort {s' : ActiveSystem} (h : s.Tracked) {connId requestId : String}
    (hstep : step s (.abort connId requestId) = some s') : s'.Tracked := by
  rw [step, abortRequest] at hstep
  cases hentry : s.activeRequests.lookup requestId with
  | none =>
    simp only [hentry, Option.some.injEq] at hstep
    exact hstep ▸ h
  | some owner =>
    by_cases heq : owner = connId
    · subst heq
      simp only [hentry, ne_eq, not_true_eq_false, if_false, Option.some.injEq] at hstep
      subst hstep
      intro c id
      rw [s.inProgress_markAborted _ owner requestId rfl, Table.lookup_erase_ite]
      by_cases hid : id = requestId
      · subst hid
        rw [if_pos rfl]
        refine iff_of_false nofun ?_
        rintro ⟨hin, hne⟩
        have hc := (h c id).2 hin
        rw [hentry, Option.some.injEq] at hc
        exact hne ⟨hc.symm, rfl⟩
      · rw [if_neg hid, h c id, and_iff_left]
        exact fun hand => hid hand.2
    · simp only [hentry, ne_eq, heq, not_false_eq_true, if_true, Option.some.injEq] at hstep
      exact hstep ▸ h

theorem tracked_step_iff (h : s.Tracked) (a : ActiveAction) :
    (∀ s' ∈ step s a, s'.Tracked) ↔ s.Undisturbed a := by
  cases a with
  | openConnection connId nowSec => exact iff_of_true (fun s' hs' => Option.some.inj hs' ▸ h) trivial
  | closeConnection connId => exact iff_of_true (fun s' hs' => Option.some.inj hs' ▸ h) trivial
  | setAuth mode token => exact iff_of_true (fun s' hs' => Option.some.inj hs' ▸ h) trivial
  | abort connId requestId => exact iff_of_true (fun s' hs' => tracked_abort h hs') trivial
  | receive t connId request =>
    rw [step, Undisturbed]
    cases ht : s.threads.lookup t with
    | some th => exact iff_of_true nofun nofun
    | none => simpa using tracked_receive h ht connId request
  | begin t registered limited nowMs =>
    rw [step, Undisturbed]
    cases ht : s.threads.lookup t with
    | none => exact iff_of_true nofun nofun
    | some th =>
      simp only [Option.some.injEq, forall_eq']
      by_cases hphase : th.phase = .received
      · by_cases hthrows : s.helloThrows th nowMs
        · simpa [hphase, hthrows] using tracked_of_thrown h ht
        · simpa [hphase, hthrows] using tracked_of_moved h ht _ _
      · simp [hphase]
  | finish t outcome what =>
    rw [step, Undisturbed]
    cases ht : s.threads.lookup t with
    | none => exact iff_of_true nofun nofun
    | some th =>
      simp only [Option.some.injEq, forall_eq']
      by_cases hphase : th.phase = .running
      · by_cases hescapes : escapes th.request.id outcome what
        · simpa [hphase, hescapes] using tracked_of_thrown h ht
        · simpa [hphase, hescapes] using tracked_of_moved h ht s.server .answered
      · simp [hphase]
  | cleanup t =>
    rw [step, Undisturbed]
    cases ht : s.threads.lookup t with
    | none => exact iff_of_true nofun nofun
    | some th =>
      simp only [Option.some.injEq, forall_eq']
      by_cases hphase : th.phase = .answered
      · simpa [hphase] using tracked_cleanup h ht
      · simp [hphase]

theorem tracked_init (server : GatewayServer) : (init server).Tracked := by
  intro connId id
  refine iff_of_false nofun ?_
  rintro ⟨t, th, ht, -⟩
  cases ht

/-- **When abortions target the right requests.**  In a run of requests and abortions, in any order,
an abortion of a request would in every state succeed exactly when its connection has it in progress,
and the table has no entries of requests that have ended, exactly when every step of the run is
undisturbed. -/
theorem right_iff (server : GatewayServer) (actions : List ActiveAction) :
    Along step (fun s a => ∀ s' ∈ step s a, s'.Right) (init server) actions ↔
      Along step Undisturbed (init server) actions := by
  simp only [right_iff_tracked]
  exact along_congr (fun s a s' h hok hstep => (tracked_step_iff h a).2 hok s' hstep)
    (fun s a h => tracked_step_iff h a) (tracked_init server)

def overlapping : List ActiveAction :=
  let request : RpcRequest := { id := "1", method := "agent.request", params := .obj [] }
  [.openConnection "a" 0, .openConnection "b" 0, .receive 0 "a" request, .receive 1 "b" request]

def throwing : List ActiveAction :=
  [.openConnection "a" 0,
    .receive 0 "a" { id := "1", method := "connect.hello", params := .obj [("role", .int 5)] },
    .begin 0 false none 0]

/-- The table is not always right.  While two clients have a request with the same id in progress,
the one that came first cannot be aborted; and a hello that cannot be read leaves its entry behind,
so that it can be aborted when it has ended. -/
theorem not_right :
    (¬ ∀ (server : GatewayServer) (actions : List ActiveAction),
      Along step (fun s a => ∀ s' ∈ step s a, s'.Right) (init server) actions) ∧
    (∃ s, exec step (init {}) overlapping = some s ∧ s.InProgress "a" "1" ∧
      (s.abortRequest "a" "1").2 = false) ∧
    ∃ s, exec step (init {}) throwing = some s ∧ s.threads.lookup 0 = none ∧
      (s.abortRequest "a" "1").2 = true := by
  have hprogress : ∃ s, exec step (init {}) overlapping = some s ∧ s.InProgress "a" "1" ∧
      (s.abortRequest "a" "1").2 = false := ⟨_, rfl, ⟨0, _, rfl, rfl, rfl, rfl⟩, rfl⟩
  refine ⟨fun h => ?_, hprogress, ⟨_, rfl, rfl, rfl⟩⟩
  have hlast := (((h {} overlapping).2 _ rfl).2 _ rfl).2 _ rfl
  have hright : Right _ := hlast.1 _ rfl
  have habort := (hright.1 "a" "1").2 ⟨0, _, rfl, rfl, rfl, rfl⟩
  exact absurd habort (by decide)

end ActiveSystem

end RavBot.Gateway
