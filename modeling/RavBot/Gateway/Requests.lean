import RavBot.Gateway.Pending
import RavBot.Lib.Run

/-!
# Requests and the watchdog

The system has one thread of `handle_rpc_request` for each request that was begun, the
watchdog, and the response frames that were sent.  A step is what happens between two
acquisitions of the mutex of the connections, or one send; the order of the steps is free.

The handler and the watchdog both erase a request from the pending ones before they answer it,
but a handler answers also when there was nothing left to erase.  So a request gets at most
one response in the runs in which every handler that completes on an open connection still
finds its request pending (`at_most_one_response`).
-/

open List

namespace RavBot.Gateway

open RavBot.Lib RavBot.Security

/-- Where a thread of `handle_rpc_request` is. -/
inductive RequestThread where
  /-- The checks passed, and the request is not yet recorded. -/
  | admitted (method : String)
  /-- The handler runs. -/
  | running
  /-- The response is ready, and the request is no longer pending. -/
  | replying (resp : RpcResponse)
  deriving Repr

/-- The server with its threads and the frames that it sent.  A request is known by its
connection and its id. -/
structure RequestSystem where
  server : GatewayServer
  /-- Connections that were opened, for telling that an id is new. -/
  opened : List String
  /-- Requests that were begun. -/
  begun : List (String × String)
  threads : Table (String × String) RequestThread
  /-- Requests that the watchdog has dropped and not yet answered. -/
  timedOut : List (String × String)
  /-- Response frames with the connections they were sent to. -/
  frames : List (String × RpcResponse)

inductive RequestAction where
  | openConnection (connId : String) (nowSec : Int)
  | closeConnection (connId : String)
  | setRequestTimeout (timeoutMs : Int)
  | setAuth (mode token : String)
  | hello (connId : String) (params : Json) (isOpenclaw : Bool) (nowMs : Int)
  /-- A request comes in and is checked. -/
  | begin (connId : String) (request : RpcRequest) (registered : Bool) (limited : Option Int)
  /-- It is recorded as pending, and its handler starts. -/
  | record (connId id : String) (nowMs : Int)
  /-- The handler returns a result or throws, and the request is erased. -/
  | finish (connId id : String) (outcome : Except String Json)
  /-- The response is sent; `what` is the text of the exception if `dump` throws. -/
  | reply (connId id what : String)
  /-- The watchdog collects and erases the requests that have timed out. -/
  | scan (nowMs : Int)
  /-- The watchdog answers one of them. -/
  | sendTimeout (connId id : String)

namespace RequestSystem

/-- A server without connections, in any configuration. -/
def init (server : GatewayServer) : RequestSystem where
  server := { server with connections := ∅ }
  opened := []
  begun := []
  threads := ∅
  timedOut := []
  frames := []

/-- Send a response.  The frame gets to the client when the connection is open. -/
def send (s : RequestSystem) (connId : String) (resp : RpcResponse) : RequestSystem :=
  if s.server.isOpen connId then { s with frames := s.frames ++ [(connId, resp)] } else s

def responseFor (id : String) : Except String Json → RpcResponse
  | .ok result => .success id result
  | .error what => .failure id { code := "HANDLER_ERROR", message := what }

/-- What an action does; `none` when it cannot be taken. -/
def step (s : RequestSystem) : RequestAction → Option RequestSystem
  | .openConnection connId nowSec =>
    -- the ids of connections are never used again
    if connId ∈ s.opened then none
    else some { s with server := s.server.openConnection connId nowSec
                       opened := connId :: s.opened }
  | .closeConnection connId => some { s with server := s.server.closeConnection connId }
  | .setRequestTimeout timeoutMs =>
    some { s with server := s.server.setRequestTimeout timeoutMs }
  | .setAuth mode token => some { s with server := s.server.setAuth mode token }
  | .hello connId params isOpenclaw nowMs =>
    match s.server.handleHello connId params isOpenclaw nowMs with
    | some (server, _) => some { s with server }
    | none => some s
  | .begin connId request registered limited =>
    -- a client uses a request id at most once
    if connId ∉ s.opened ∨ (connId, request.id) ∈ s.begun then none
    else
      let thread := match s.server.checkRequest connId request registered limited with
        | .ok _ => RequestThread.admitted request.method
        | .error error => .replying (.failure request.id error)
      some { s with begun := (connId, request.id) :: s.begun
                    threads := s.threads.insert (connId, request.id) thread }
  | .record connId id nowMs =>
    match s.threads.lookup (connId, id) with
    | some (.admitted method) =>
      some { s with server := s.server.recordPending connId id method nowMs
                    threads := s.threads.insert (connId, id) .running }
    | _ => none
  | .finish connId id outcome =>
    match s.threads.lookup (connId, id) with
    | some .running =>
      some { s with server := s.server.erasePending connId id
                    threads :=
                      s.threads.insert (connId, id) (.replying (responseFor id outcome)) }
    | _ => none
  | .reply connId id what =>
    match s.threads.lookup (connId, id) with
    | some (.replying resp) =>
      if resp.toJson.isUtf8 then
        some { s.send connId resp with threads := s.threads.erase (connId, id) }
      else if resp.ok then
        -- `dump` throws inside the `try`, so the request is erased once more
        some { s with server := s.server.erasePending connId id
                      threads :=
                        s.threads.insert (connId, id)
                          (.replying (responseFor id (.error what))) }
      else some { s with threads := s.threads.erase (connId, id) }
    | _ => none
  | .scan nowMs =>
    some { s with server := s.server.dropTimedOut nowMs
                  timedOut := s.timedOut ++ s.server.timedOutRequests nowMs }
  | .sendTimeout connId id =>
    if (connId, id) ∈ s.timedOut then
      let s := { s with timedOut := s.timedOut.erase (connId, id) }
      match GatewayServer.responseOf id false s.server.timeoutError.toJson with
      | some resp => if resp.toJson.isUtf8 then some (s.send connId resp) else some s
      | none => some s
    else none

def responses (s : RequestSystem) (connId id : String) : List RpcResponse :=
  (s.frames.filter fun f => f.1 = connId ∧ f.2.id = id).map Prod.snd

/-- A handler that completes on an open connection finds its request still pending: the
watchdog has not dropped it. -/
def CompletesPending (s : RequestSystem) : RequestAction → Prop
  | .finish connId id _ => s.server.isOpen connId → (s.server.pendingAt connId id).isSome
  | _ => True

instance (s : RequestSystem) : (a : RequestAction) → Decidable (s.CompletesPending a)
  | .finish connId id _ =>
    inferInstanceAs (Decidable (s.server.isOpen connId → (s.server.pendingAt connId id).isSome))
  | .openConnection _ _ | .closeConnection _ | .setRequestTimeout _ | .setAuth _ _ |
    .hello _ _ _ _ | .begin _ _ _ _ | .record _ _ _ | .reply _ _ _ | .scan _ |
    .sendTimeout _ _ => .isTrue trivial

/-- The responses that were sent for a request, and those that the watchdog is about to
send. -/
def answers (s : RequestSystem) (connId id : String) : Nat :=
  (s.responses connId id).length + s.timedOut.count (connId, id)

/-- What holds in every state, as long as handlers complete requests that are pending. -/
structure Inv (s : RequestSystem) : Prop where
  /-- Open connections were opened. -/
  opened : ∀ c, s.server.isOpen c → c ∈ s.opened
  /-- Requests were begun on connections that were opened. -/
  begun_opened : ∀ c i, (c, i) ∈ s.begun → c ∈ s.opened
  /-- The request of a thread was begun. -/
  thread_begun : ∀ c i t, s.threads.lookup (c, i) = some t → (c, i) ∈ s.begun
  /-- An answered request was begun. -/
  answered_begun : ∀ c i, s.answers c i ≠ 0 → (c, i) ∈ s.begun
  /-- A response carries the id of its request. -/
  reply_id : ∀ c i resp, s.threads.lookup (c, i) = some (.replying resp) → resp.id = i
  /-- The handler of a pending request runs. -/
  pending_running : ∀ c i, (s.server.pendingAt c i).isSome → s.threads.lookup (c, i) = some .running
  /-- A request that is still to be answered by its handler has no answer, if its connection is
  open and the watchdog has not dropped it. -/
  unanswered : ∀ c i t, s.server.isOpen c → s.threads.lookup (c, i) = some t →
    (t = .running → (s.server.pendingAt c i).isSome) → s.answers c i = 0
  /-- No request has two answers. -/
  once : ∀ c i, s.answers c i ≤ 1

/-! ## Every step keeps the invariant -/

variable {s : RequestSystem}

theorem Inv.of_server (h : s.Inv) {server : GatewayServer}
    (hopen : ∀ c, server.isOpen c = s.server.isOpen c)
    (hpending : ∀ c i, server.pendingAt c i = s.server.pendingAt c i) :
    Inv { s with server } where
  opened c hc := h.opened c (hopen c ▸ hc)
  begun_opened := h.begun_opened
  thread_begun := h.thread_begun
  answered_begun := h.answered_begun
  reply_id := h.reply_id
  pending_running c i hp := h.pending_running c i (hpending c i ▸ hp)
  unanswered c i t hc ht hp := by
    simp only [hopen, hpending] at hc hp
    exact h.unanswered c i t hc ht hp
  once := h.once

variable {connId : String}

theorem Inv.openConnection (h : s.Inv)
    (hnew : connId ∉ s.opened) (nowSec : Int) :
    Inv { s with server := s.server.openConnection connId nowSec
                 opened := connId :: s.opened } := by
  have hopen : ∀ c, (s.server.openConnection connId nowSec).isOpen c →
      c = connId ∨ s.server.isOpen c := by
    intro c hc
    rw [GatewayServer.isOpen, GatewayServer.openConnection, Table.lookup_insert_ite] at hc
    split_ifs at hc with heq
    · exact .inl heq
    · exact .inr hc
  have hpending : ∀ c i, c ≠ connId →
      (s.server.openConnection connId nowSec).pendingAt c i = s.server.pendingAt c i := by
    intro c i hc
    rw [GatewayServer.pendingAt, GatewayServer.openConnection, Table.lookup_insert_ite, if_neg hc]
    rfl
  have hnone : ∀ i, (s.server.openConnection connId nowSec).pendingAt connId i = none := by
    intro i
    rw [GatewayServer.pendingAt, GatewayServer.openConnection, Table.lookup_insert_ite, if_pos rfl]
    rfl
  constructor
  case opened =>
    intro c hc
    rcases hopen c hc with rfl | hc
    · exact mem_cons_self
    · exact mem_cons_of_mem _ (h.opened c hc)
  case begun_opened => exact fun c i hk => mem_cons_of_mem _ (h.begun_opened c i hk)
  case thread_begun => exact h.thread_begun
  case answered_begun => exact h.answered_begun
  case reply_id => exact h.reply_id
  case pending_running =>
    intro c i hp
    by_cases hc : c = connId
    · subst hc
      simp [hnone] at hp
    · rw [hpending c i hc] at hp
      exact h.pending_running c i hp
  case unanswered =>
    intro c i t hc ht hrun
    have hne : c ≠ connId := by
      rintro rfl
      exact hnew (h.begun_opened c i (h.thread_begun c i t ht))
    rcases hopen c hc with heq | hc
    · exact absurd heq hne
    · rw [hpending c i hne] at hrun
      exact h.unanswered c i t hc ht hrun
  case once => exact h.once

theorem Inv.closeConnection (h : s.Inv) (connId : String) :
    Inv { s with server := s.server.closeConnection connId } := by
  have hlookup : ∀ c client, (s.server.closeConnection connId).connections.lookup c = some client →
      s.server.connections.lookup c = some client ∧
        (s.server.closeConnection connId).isOpen c = s.server.isOpen c ∧
        ∀ i, (s.server.closeConnection connId).pendingAt c i = s.server.pendingAt c i := by
    intro c client hc
    have herase := Table.lookup_erase_ite s.server.connections connId c
    rw [GatewayServer.closeConnection] at hc
    dsimp only at hc
    rw [herase] at hc
    split_ifs at hc with heq
    simp [GatewayServer.closeConnection, GatewayServer.isOpen, GatewayServer.pendingAt, herase,
      heq, hc]
  have hopen : ∀ c, (s.server.closeConnection connId).isOpen c → s.server.isOpen c ∧
      ∀ i, (s.server.closeConnection connId).pendingAt c i = s.server.pendingAt c i := by
    intro c hc
    obtain ⟨client, hclient⟩ := Option.isSome_iff_exists.1 hc
    obtain ⟨-, hsame, hpending⟩ := hlookup c client hclient
    exact ⟨hsame ▸ hc, hpending⟩
  constructor
  case opened => exact fun c hc => h.opened c (hopen c hc).1
  case begun_opened => exact h.begun_opened
  case thread_begun => exact h.thread_begun
  case answered_begun => exact h.answered_begun
  case reply_id => exact h.reply_id
  case pending_running =>
    intro c i hp
    obtain ⟨p, hp'⟩ := Option.isSome_iff_exists.1 hp
    obtain ⟨client, hclient, -⟩ := Option.bind_eq_some_iff.1 hp'
    obtain ⟨-, -, hpending⟩ := hlookup c client hclient
    exact h.pending_running c i (hpending i ▸ hp)
  case unanswered =>
    intro c i t hc ht hrun
    obtain ⟨hc, hpending⟩ := hopen c hc
    exact h.unanswered c i t hc ht fun heq => hpending i ▸ hrun heq
  case once => exact h.once

variable {id : String}

theorem Inv.begin (h : s.Inv) {thread : RequestThread}
    (hopened : connId ∈ s.opened) (hnew : (connId, id) ∉ s.begun)
    (hid : ∀ resp, thread = .replying resp → resp.id = id) :
    Inv { s with begun := (connId, id) :: s.begun
                 threads := s.threads.insert (connId, id) thread } := by
  constructor
  case opened => exact h.opened
  case begun_opened =>
    rintro c i hk
    rcases mem_cons.1 hk with heq | hk
    · cases heq
      exact hopened
    · exact h.begun_opened c i hk
  case thread_begun =>
    intro c i t ht
    simp only [Table.lookup_insert_ite] at ht
    split_ifs at ht with heq
    · exact heq ▸ mem_cons_self
    · exact mem_cons_of_mem _ (h.thread_begun c i t ht)
  case answered_begun => exact fun c i ha => mem_cons_of_mem _ (h.answered_begun c i ha)
  case reply_id =>
    intro c i resp ht
    simp only [Table.lookup_insert_ite] at ht
    split_ifs at ht with heq
    · cases heq
      exact hid resp (Option.some.inj ht)
    · exact h.reply_id c i resp ht
  case pending_running =>
    intro c i hp
    have hold := h.pending_running c i hp
    simp only [Table.lookup_insert_ite]
    split_ifs with heq
    · exact absurd (h.thread_begun c i _ hold) (heq ▸ hnew)
    · exact hold
  case unanswered =>
    intro c i t hc ht hp
    simp only [Table.lookup_insert_ite] at ht
    split_ifs at ht with heq
    · by_contra ha
      exact hnew (heq ▸ h.answered_begun c i ha)
    · exact h.unanswered c i t hc ht hp
  case once => exact h.once

theorem Inv.record (h : s.Inv) {method : String}
    (hthread : s.threads.lookup (connId, id) = some (.admitted method)) (nowMs : Int) :
    Inv { s with server := s.server.recordPending connId id method nowMs
                 threads := s.threads.insert (connId, id) .running } := by
  have hopen : ∀ c, (s.server.recordPending connId id method nowMs).isOpen c = s.server.isOpen c :=
    fun c => GatewayServer.isOpen_modifyPending _ _ _ _
  constructor
  case opened => exact fun c hc => h.opened c (hopen c ▸ hc)
  case begun_opened => exact h.begun_opened
  case thread_begun =>
    intro c i t ht
    simp only [Table.lookup_insert_ite] at ht
    split_ifs at ht with heq
    · exact heq ▸ h.thread_begun connId id _ hthread
    · exact h.thread_begun c i t ht
  case answered_begun => exact h.answered_begun
  case reply_id =>
    intro c i resp ht
    simp only [Table.lookup_insert_ite] at ht
    split_ifs at ht
    · cases ht
    · exact h.reply_id c i resp ht
  case pending_running =>
    intro c i hp
    simp only [Table.lookup_insert_ite]
    split_ifs with heq
    · rfl
    · rcases GatewayServer.pendingAt_recordPending hp with ⟨rfl, rfl⟩ | hp
      · exact absurd rfl heq
      · exact h.pending_running c i hp
  case unanswered =>
    intro c i t hc ht hp
    simp only [hopen] at hc
    simp only [Table.lookup_insert_ite] at ht
    split_ifs at ht with heq
    · cases heq
      exact h.unanswered connId id _ hc hthread nofun
    · refine h.unanswered c i t hc ht fun hrun => ?_
      rcases GatewayServer.pendingAt_recordPending (hp hrun) with ⟨rfl, rfl⟩ | hp
      · exact absurd rfl heq
      · exact hp
  case once => exact h.once

variable {resp : RpcResponse}

/-- A thread erases its request and makes a response ready.  If its handler was running, the
request was pending, unless the connection is closed. -/
theorem Inv.complete (h : s.Inv) {thread : RequestThread} (hthread : s.threads.lookup (connId, id) = some thread)
    (hpending : s.server.isOpen connId → thread = .running →
      (s.server.pendingAt connId id).isSome) (hid : resp.id = id) :
    Inv { s with server := s.server.erasePending connId id
                 threads := s.threads.insert (connId, id) (.replying resp) } := by
  have hopen : ∀ c, (s.server.erasePending connId id).isOpen c = s.server.isOpen c :=
    fun c => GatewayServer.isOpen_modifyPending _ _ _ _
  constructor
  case opened => exact fun c hc => h.opened c (hopen c ▸ hc)
  case begun_opened => exact h.begun_opened
  case thread_begun =>
    intro c i t ht
    simp only [Table.lookup_insert_ite] at ht
    split_ifs at ht with heq
    · exact heq ▸ h.thread_begun connId id _ hthread
    · exact h.thread_begun c i t ht
  case answered_begun => exact h.answered_begun
  case reply_id =>
    intro c i r ht
    simp only [Table.lookup_insert_ite] at ht
    split_ifs at ht with heq
    · cases heq
      cases ht
      exact hid
    · exact h.reply_id c i r ht
  case pending_running =>
    intro c i hp
    simp only [GatewayServer.pendingAt_erasePending] at hp
    split_ifs at hp with heq
    · cases hp
    · simp only [Table.lookup_insert_ite]
      rw [if_neg fun hk => heq (Prod.mk.inj hk)]
      exact h.pending_running c i hp
  case unanswered =>
    intro c i t hc ht hp
    simp only [hopen] at hc
    simp only [Table.lookup_insert_ite] at ht
    split_ifs at ht with heq
    · cases heq
      exact h.unanswered connId id thread hc hthread (hpending hc)
    · refine h.unanswered c i t hc ht fun hrun => ?_
      have := hp hrun
      simp only [GatewayServer.pendingAt_erasePending] at this
      rwa [if_neg fun hk => heq (Prod.ext hk.1 hk.2)] at this
  case once => exact h.once

theorem Inv.endThread (h : s.Inv) (hthread : s.threads.lookup (connId, id) = some (.replying resp)) :
    Inv { s with threads := s.threads.erase (connId, id) } := by
  have hlookup : ∀ k t, (s.threads.erase (connId, id)).lookup k = some t →
      s.threads.lookup k = some t := by
    intro k t ht
    rw [Table.lookup_erase_ite] at ht
    split_ifs at ht
    exact ht
  constructor
  case opened => exact h.opened
  case begun_opened => exact h.begun_opened
  case thread_begun => exact fun c i t ht => h.thread_begun c i t (hlookup _ t ht)
  case answered_begun => exact h.answered_begun
  case reply_id => exact fun c i r ht => h.reply_id c i r (hlookup _ _ ht)
  case pending_running =>
    intro c i hp
    have hold := h.pending_running c i hp
    simp only [Table.lookup_erase_ite]
    rw [if_neg]
    · exact hold
    · intro heq
      rw [heq, hthread] at hold
      cases hold
  case unanswered => exact fun c i t hc ht => h.unanswered c i t hc (hlookup _ t ht)
  case once => exact h.once

theorem answers_send (s : RequestSystem) (connId c i : String) (resp : RpcResponse) :
    (s.send connId resp).answers c i = s.answers c i +
      if s.server.isOpen connId ∧ connId = c ∧ resp.id = i then 1 else 0 := by
  rw [send]
  by_cases hopen : s.server.isOpen connId = true
  · rw [if_pos hopen]
    by_cases hkey : connId = c ∧ resp.id = i
    · rw [if_pos ⟨hopen, hkey⟩]
      simp only [answers, responses, filter_append, map_append, length_append]
      simp only [hkey, and_self, decide_true, filter_cons_of_pos, filter_nil,
        map_cons, map_nil, length_singleton]
      omega
    · rw [if_neg fun hc => hkey hc.2]
      simp [answers, responses, hkey]
  · rw [if_neg hopen, if_neg fun hc => hopen hc.1, Nat.add_zero]

theorem send_threads (s : RequestSystem) (connId : String) (resp : RpcResponse)
    (threads : Table (String × String) RequestThread) :
    { s.send connId resp with threads } = send { s with threads } connId resp := by
  rw [send, send]
  split <;> rfl

/-- A response is sent for a request without an answer.  Its handler does not answer it later,
unless the watchdog has dropped it. -/
theorem Inv.send (h : s.Inv)
    (hbegun : (connId, resp.id) ∈ s.begun)
    (hzero : s.server.isOpen connId → s.answers connId resp.id = 0)
    (hthread : ∀ t, s.server.isOpen connId → s.threads.lookup (connId, resp.id) = some t →
      t = .running ∧ s.server.pendingAt connId resp.id = none) :
    (s.send connId resp).Inv := by
  have hfields : (s.send connId resp).server = s.server ∧
      (s.send connId resp).opened = s.opened ∧ (s.send connId resp).begun = s.begun ∧
      (s.send connId resp).threads = s.threads := by
    rw [RequestSystem.send]
    split <;> exact ⟨rfl, rfl, rfl, rfl⟩
  obtain ⟨hserver, hopened, hbegun', hthreads⟩ := hfields
  constructor
  case opened => simpa [hserver, hopened] using h.opened
  case begun_opened => simpa [hbegun', hopened] using h.begun_opened
  case thread_begun => simpa [hthreads, hbegun'] using h.thread_begun
  case answered_begun =>
    intro c i ha
    rw [hbegun']
    rw [answers_send] at ha
    split_ifs at ha with hkey
    · obtain ⟨-, rfl, rfl⟩ := hkey
      exact hbegun
    · exact h.answered_begun c i ha
  case reply_id => simpa [hthreads] using h.reply_id
  case pending_running => simpa [hserver, hthreads] using h.pending_running
  case unanswered =>
    intro c i t hc ht hp
    rw [hserver] at hc hp
    rw [hthreads] at ht
    rw [answers_send, if_neg, h.unanswered c i t hc ht hp]
    rintro ⟨-, rfl, rfl⟩
    obtain ⟨hrun, hnone⟩ := hthread t hc ht
    simpa [hnone] using hp hrun
  case once =>
    intro c i
    rw [answers_send]
    split_ifs with hkey
    · obtain ⟨hopen, rfl, rfl⟩ := hkey
      rw [hzero hopen]
    · exact h.once c i

theorem Inv.scan (h : s.Inv) (nowMs : Int) :
    Inv { s with server := s.server.dropTimedOut nowMs
                 timedOut := s.timedOut ++ s.server.timedOutRequests nowMs } := by
  have hanswers : ∀ c i, answers
      { s with server := s.server.dropTimedOut nowMs
               timedOut := s.timedOut ++ s.server.timedOutRequests nowMs } c i =
      s.answers c i + (s.server.timedOutRequests nowMs).count (c, i) := by
    intro c i
    simp [answers, responses, Nat.add_assoc]
  -- a request that is dropped is pending, so it was not answered, and its handler runs
  have hdropped : ∀ c i, (c, i) ∈ s.server.timedOutRequests nowMs →
      s.answers c i = 0 ∧ s.threads.lookup (c, i) = some .running ∧
        (s.server.dropTimedOut nowMs).pendingAt c i = none := by
    intro c i hmem
    obtain ⟨p, hp, hout⟩ := GatewayServer.mem_timedOutRequests.1 hmem
    have hsome : (s.server.pendingAt c i).isSome := by rw [hp]; rfl
    have hrun := h.pending_running c i hsome
    have hopen : s.server.isOpen c := by
      obtain ⟨client, hclient, -⟩ := Option.bind_eq_some_iff.1 hp
      rw [GatewayServer.isOpen, hclient]
      rfl
    refine ⟨h.unanswered c i _ hopen hrun fun _ => hsome, hrun, ?_⟩
    rw [GatewayServer.pendingAt_dropTimedOut, hp]
    simp [hout]
  have hstill : ∀ c i, ((s.server.dropTimedOut nowMs).pendingAt c i).isSome →
      (s.server.pendingAt c i).isSome := by
    intro c i hp
    rw [GatewayServer.pendingAt_dropTimedOut, Option.isSome_filter] at hp
    revert hp
    cases s.server.pendingAt c i <;> simp
  constructor
  case opened => simpa using h.opened
  case begun_opened => exact h.begun_opened
  case thread_begun => exact h.thread_begun
  case answered_begun =>
    intro c i ha
    rw [hanswers] at ha
    by_cases hmem : (c, i) ∈ s.server.timedOutRequests nowMs
    · exact h.thread_begun c i _ (hdropped c i hmem).2.1
    · rw [count_eq_zero_of_not_mem hmem] at ha
      exact h.answered_begun c i ha
  case reply_id => exact h.reply_id
  case pending_running => exact fun c i hp => h.pending_running c i (hstill c i hp)
  case unanswered =>
    intro c i t hc ht hp
    rw [hanswers]
    have hnot : (c, i) ∉ s.server.timedOutRequests nowMs := by
      intro hmem
      obtain ⟨-, hrun, hnone⟩ := hdropped c i hmem
      have ht' : t = .running := Option.some.inj (ht.symm.trans hrun)
      simpa [hnone] using hp ht'
    rw [count_eq_zero_of_not_mem hnot]
    exact h.unanswered c i t (by simpa using hc) ht fun hrun => hstill c i (hp hrun)
  case once =>
    intro c i
    rw [hanswers]
    by_cases hmem : (c, i) ∈ s.server.timedOutRequests nowMs
    · rw [(hdropped c i hmem).1, Nat.zero_add]
      exact nodup_iff_count_le_one.1 (s.server.nodup_timedOutRequests nowMs) _
    · rw [count_eq_zero_of_not_mem hmem]
      exact h.once c i

theorem Inv.sendTimeout (h : s.Inv)
    (hmem : (connId, id) ∈ s.timedOut) :
    Inv { s with timedOut := s.timedOut.erase (connId, id) } ∧
      ∀ resp : RpcResponse, resp.id = id →
        Inv (RequestSystem.send { s with timedOut := s.timedOut.erase (connId, id) }
          connId resp) := by
  have hanswers : ∀ c i, answers { s with timedOut := s.timedOut.erase (connId, id) } c i =
      s.answers c i - if (c, i) = (connId, id) then 1 else 0 := by
    intro c i
    have hcount : (s.timedOut.erase (connId, id)).count (c, i) = _ := count_erase
    have hpos := count_pos_iff.2 hmem
    simp only [answers, responses, hcount]
    by_cases heq : (c, i) = (connId, id)
    · cases heq
      simp
      omega
    · have hne : ((connId, id) == (c, i)) = false := beq_eq_false_iff_ne.2 (Ne.symm heq)
      simp [heq, hne]
  have hanswered : s.answers connId id ≠ 0 := by
    have := count_pos_iff.2 hmem
    rw [answers]
    omega
  have hinv : Inv { s with timedOut := s.timedOut.erase (connId, id) } := by
    constructor
    case opened => exact h.opened
    case begun_opened => exact h.begun_opened
    case thread_begun => exact h.thread_begun
    case answered_begun =>
      intro c i ha
      rw [hanswers] at ha
      exact h.answered_begun c i (by omega)
    case reply_id => exact h.reply_id
    case pending_running => exact h.pending_running
    case unanswered =>
      intro c i t hc ht hp
      rw [hanswers, h.unanswered c i t hc ht hp, Nat.zero_sub]
    case once => exact fun c i => (hanswers c i).trans_le ((Nat.sub_le _ _).trans (h.once c i))
  refine ⟨hinv, ?_⟩
  rintro resp rfl
  refine hinv.send (h.answered_begun _ _ hanswered) (fun _ => ?_) fun t hc ht => ?_
  · have := h.once connId resp.id
    rw [hanswers, if_pos rfl]
    omega
  · -- the request has an answer, so its handler runs and it is not pending
    by_contra hnot
    refine hanswered (h.unanswered connId resp.id t hc ht fun hrun => ?_)
    by_contra hnone
    exact hnot ⟨hrun, Option.not_isSome_iff_eq_none.1 hnone⟩

theorem Inv.step {s' : RequestSystem} {a : RequestAction} (h : s.Inv)
    (hok : s.CompletesPending a) (hs : s.step a = some s') : s'.Inv := by
  cases a with
  | openConnection connId nowSec =>
    simp only [RequestSystem.step] at hs
    split_ifs at hs with hnew
    cases hs
    exact h.openConnection hnew nowSec
  | closeConnection connId =>
    cases hs
    exact h.closeConnection connId
  | setRequestTimeout timeoutMs =>
    cases hs
    exact h.of_server (fun _ => rfl) fun _ _ => rfl
  | setAuth mode token =>
    cases hs
    exact h.of_server (fun _ => rfl) fun _ _ => rfl
  | hello connId params isOpenclaw nowMs =>
    simp only [RequestSystem.step] at hs
    split at hs
    · next server accepted hhello =>
        cases hs
        obtain ⟨hopen, hpending⟩ := GatewayServer.handleHello_pending hhello
        exact h.of_server hopen hpending
    · cases hs
      exact h
  | begin connId request registered limited =>
    simp only [RequestSystem.step] at hs
    split_ifs at hs with hcan
    rw [not_or, not_not] at hcan
    cases hs
    refine h.begin hcan.1 hcan.2 ?_
    intro resp hresp
    split at hresp
    · cases hresp
    · cases hresp
      rfl
  | record connId id nowMs =>
    simp only [RequestSystem.step] at hs
    split at hs
    · next method hthread =>
        cases hs
        exact h.record hthread nowMs
    · cases hs
  | finish connId id outcome =>
    simp only [RequestSystem.step] at hs
    split at hs
    · next hthread =>
        cases hs
        refine h.complete hthread (fun hopen _ => hok hopen) ?_
        cases outcome <;> rfl
    · cases hs
  | reply connId id what =>
    simp only [RequestSystem.step] at hs
    split at hs
    · next resp hthread =>
        split_ifs at hs
        · cases hs
          have hid := h.reply_id connId id resp hthread
          subst hid
          rw [send_threads]
          refine (h.endThread hthread).send (h.thread_begun _ _ _ hthread) ?_ ?_
          · exact fun hopen => h.unanswered _ _ _ hopen hthread nofun
          · intro t _ ht
            simp at ht
        · cases hs
          exact h.complete hthread nofun rfl
        · cases hs
          exact h.endThread hthread
    · cases hs
  | scan nowMs =>
    cases hs
    exact h.scan nowMs
  | sendTimeout connId id =>
    simp only [RequestSystem.step] at hs
    split_ifs at hs with hmem
    obtain ⟨hinv, hsend⟩ := h.sendTimeout hmem
    split at hs
    · next resp hresp =>
        split_ifs at hs
        · cases hs
          exact hsend resp (GatewayServer.responseOf_id hresp)
        · cases hs
          exact hinv
    · cases hs
      exact hinv

theorem inv_init (server : GatewayServer) : (init server).Inv := by
  constructor
  case opened | pending_running | unanswered =>
    simp [init, GatewayServer.isOpen, GatewayServer.pendingAt]
  case begun_opened | thread_begun | answered_begun | reply_id | once =>
    simp [init, answers, responses]

/-- **At most one response.**  In every run in which the handlers that complete on an open
connection find their requests pending, a request gets at most one response. -/
theorem at_most_one_response {server : GatewayServer} {actions : List RequestAction}
    {s : RequestSystem} (hok : Along step CompletesPending (init server) actions)
    (hrun : exec step (init server) actions = some s) (connId id : String) :
    (s.responses connId id).length ≤ 1 := by
  have hinv : s.Inv :=
    exec_invariant (motive := Inv) (fun _ _ _ h hok hs => h.step hok hs) (inv_init server) hok hrun
  exact (Nat.le_add_right _ _).trans (hinv.once connId id)

/-- Two requests of a client, the first of which is still running when it times out. -/
def lateRequest : List RequestAction :=
  [.openConnection "c" 0, .setAuth "none" "",
    .begin "c" ⟨"1", "sessions.list", .obj []⟩ true none, .record "c" "1" 0,
    .begin "c" ⟨"2", "agent.request", .obj []⟩ true none, .record "c" "2" 0,
    .scan 30001, .sendTimeout "c" "1"]

/-- The second request is answered by its handler, the first by the watchdog. -/
theorem at_most_one_response_late :
    ∃ s, exec step (init {}) (lateRequest ++ [.finish "c" "2" (.ok .null), .reply "c" "2" ""]) =
      some s ∧ (s.responses "c" "1").length ≤ 1 := by
  refine ⟨_, (Option.some_get (by decide +kernel)).symm, ?_⟩
  exact at_most_one_response (by decide +kernel) (Option.some_get _).symm "c" "1"

/-- When the handler of the first request completes after all, it answers once more. -/
theorem not_at_most_one_response :
    ¬ ∀ (server : GatewayServer) (actions : List RequestAction) (s : RequestSystem),
      exec step (init server) actions = some s →
        ∀ connId id, (s.responses connId id).length ≤ 1 := by
  intro h
  have := h {} (lateRequest ++ [.finish "c" "1" (.ok .null), .reply "c" "1" ""]) _
    (Option.some_get (by decide +kernel)).symm "c" "1"
  revert this
  decide +kernel

end RequestSystem

end RavBot.Gateway
