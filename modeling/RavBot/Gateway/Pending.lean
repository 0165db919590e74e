import RavBot.Gateway.Server

/-!
# Pending requests

A connection records the requests that were accepted on it and not yet answered.
`handle_rpc_request` records a request before it runs the handler and erases it afterwards;
the watchdog erases the requests that have been pending for too long.  Each of the operations
below holds the mutex of the connections for its whole time.
-/

namespace RavBot.Gateway

open RavBot.Lib RavBot.Security

namespace GatewayServer

def setRequestTimeout (server : GatewayServer) (timeoutMs : Int) : GatewayServer :=
  { server with requestTimeoutMs := max 1000 (min timeoutMs 2147483647) }

/-- Change the pending requests of a connection, if it is open. -/
def modifyPending (server : GatewayServer) (connId : String)
    (f : Table String PendingRequest → Table String PendingRequest) : GatewayServer :=
  match server.connections.lookup connId with
  | some client =>
    { server with
      connections := server.connections.insert connId
        { client with pendingRequests := f client.pendingRequests } }
  | none => server

/-- Record a request as pending.  Requests that run an agent may take any time. -/
def recordPending (server : GatewayServer) (connId id method : String) (nowMs : Int) :
    GatewayServer :=
  server.modifyPending connId fun pending =>
    pending.insert id
      { requestId := id, method, createdAt := nowMs
        expectFinal := method = "agent.request" || method = "chat.send" }

def erasePending (server : GatewayServer) (connId id : String) : GatewayServer :=
  server.modifyPending connId fun pending => pending.erase id

def hasTimedOut (server : GatewayServer) (nowMs : Int) (pending : PendingRequest) : Bool :=
  !pending.expectFinal && decide (server.requestTimeoutMs < nowMs - pending.createdAt)

def timedOutRequests (server : GatewayServer) (nowMs : Int) : List (String × String) :=
  server.connections.entries.flatMap fun conn =>
    (conn.2.pendingRequests.entries.filter fun e => server.hasTimedOut nowMs e.2).map
      fun e => (conn.1, e.1)

/-- Drop the requests that have timed out. -/
def dropTimedOut (server : GatewayServer) (nowMs : Int) : GatewayServer :=
  { server with
    connections := server.connections.mapValues fun client =>
      { client with
        pendingRequests :=
          client.pendingRequests.filterValues fun p => !server.hasTimedOut nowMs p } }

/-- The error that the watchdog sends. -/
def timeoutError (server : GatewayServer) : RpcError where
  code := "REQUEST_TIMEOUT"
  message := "Request timed out after " ++ toString server.requestTimeoutMs ++ "ms"
  retryable := true
  retryAfterMs := 1000

/-- The frame that `SendResponseTo` makes of a payload or an error.  The text of an error is
looked for under `error`. -/
def responseOf (id : String) (ok : Bool) (payloadOrError : Json) : Option RpcResponse :=
  if ok then some (.success id payloadOrError)
  else do
    let message ← payloadOrError.value Json.getString "error" "unknown error"
    let code ← payloadOrError.value Json.getString "code" "INTERNAL_ERROR"
    let retryable ← payloadOrError.value Json.getBool "retryable" false
    let retryAfterMs ← payloadOrError.value Json.getInt "retryAfterMs" 0
    return .failure id { code, message, retryable, retryAfterMs }

theorem responseOf_id {id : String} {ok : Bool} {payloadOrError : Json} {resp : RpcResponse}
    (h : responseOf id ok payloadOrError = some resp) : resp.id = id := by
  rw [responseOf] at h
  split_ifs at h
  · cases h
    rfl
  · simp only [Option.bind_eq_bind, Option.bind_eq_some_iff] at h
    obtain ⟨message, -, code, -, retryable, -, retryAfterMs, -, heq⟩ := h
    cases heq
    rfl

def isOpen (server : GatewayServer) (connId : String) : Bool :=
  (server.connections.lookup connId).isSome

def pendingAt (server : GatewayServer) (connId id : String) : Option PendingRequest :=
  (server.connections.lookup connId).bind (·.pendingRequests.lookup id)

/-! ## What the operations do to the pending requests -/

@[simp] theorem isOpen_modifyPending (server : GatewayServer) (connId c : String)
    (f : Table String PendingRequest → Table String PendingRequest) :
    (server.modifyPending connId f).isOpen c = server.isOpen c := by
  rw [modifyPending]
  split
  · next client h =>
      rw [isOpen, isOpen, Table.lookup_insert_ite]
      split_ifs with hc
      · rw [hc, h]
        rfl
      · rfl
  · rfl

theorem pendingAt_modifyPending (server : GatewayServer) (connId c id : String)
    (f : Table String PendingRequest → Table String PendingRequest) :
    (server.modifyPending connId f).pendingAt c id =
      if c = connId then
        (server.connections.lookup connId).bind fun client => (f client.pendingRequests).lookup id
      else server.pendingAt c id := by
  rw [modifyPending]
  split
  · next client h =>
      rw [pendingAt, pendingAt, Table.lookup_insert_ite, h]
      split_ifs <;> rfl
  · next h =>
      rw [pendingAt, h]
      split_ifs with hc
      · rw [hc, h]
        rfl
      · rfl

variable {server : GatewayServer}

theorem pendingAt_recordPending {connId id c i method : String}
    {nowMs : Int} (h : ((server.recordPending connId id method nowMs).pendingAt c i).isSome) :
    (c = connId ∧ i = id) ∨ (server.pendingAt c i).isSome := by
  rw [recordPending, pendingAt_modifyPending] at h
  split_ifs at h with hc
  · subst hc
    by_cases hi : i = id
    · exact .inl ⟨rfl, hi⟩
    · right
      simpa [pendingAt, AList.lookup_insert_ne hi] using h
  · exact .inr h

theorem pendingAt_erasePending (server : GatewayServer) (connId id c i : String) :
    (server.erasePending connId id).pendingAt c i =
      if c = connId ∧ i = id then none else server.pendingAt c i := by
  rw [erasePending, pendingAt_modifyPending]
  by_cases hc : c = connId
  · subst hc
    simp only [Table.lookup_erase_ite, pendingAt]
    by_cases hi : i = id
    · cases server.connections.lookup c <;> simp [hi]
    · simp [hi]
  · simp [hc]

@[simp] theorem isOpen_dropTimedOut (server : GatewayServer) (nowMs : Int) (c : String) :
    (server.dropTimedOut nowMs).isOpen c = server.isOpen c := by
  simp [dropTimedOut, isOpen]

theorem pendingAt_dropTimedOut (server : GatewayServer) (nowMs : Int) (c i : String) :
    (server.dropTimedOut nowMs).pendingAt c i =
      (server.pendingAt c i).filter fun p => !server.hasTimedOut nowMs p := by
  rw [dropTimedOut, pendingAt, pendingAt, Table.lookup_mapValues]
  cases server.connections.lookup c with
  | none => rfl
  | some client => exact Table.lookup_filterValues _ _ _

theorem mem_timedOutRequests {nowMs : Int} {c i : String} :
    (c, i) ∈ server.timedOutRequests nowMs ↔
      ∃ p, server.pendingAt c i = some p ∧ server.hasTimedOut nowMs p := by
  simp only [timedOutRequests, pendingAt, Option.bind_eq_some_iff]
  simp only [List.mem_flatMap, List.mem_map, List.mem_filter, Prod.mk.injEq, ← Option.mem_def,
    AList.mem_lookup_iff]
  constructor
  · rintro ⟨conn, hconn, e, ⟨he, hout⟩, rfl, rfl⟩
    exact ⟨e.2, ⟨conn.2, hconn, he⟩, hout⟩
  · rintro ⟨p, ⟨client, hclient, hp⟩, hout⟩
    exact ⟨⟨c, client⟩, hclient, ⟨i, p⟩, ⟨hp, hout⟩, rfl, rfl⟩

theorem nodup_timedOutRequests (server : GatewayServer) (nowMs : Int) :
    (server.timedOutRequests nowMs).Nodup := by
  rw [timedOutRequests, List.nodup_flatMap]
  constructor
  · rintro conn -
    have hkeys := conn.2.pendingRequests.nodupKeys
    refine List.Nodup.map_on ?_ (hkeys.nodup.filter _)
    rintro e he e' he' heq
    have hid : e.1 = e'.1 := congrArg Prod.snd heq
    exact hkeys.eq_of_fst_eq (List.mem_of_mem_filter he) (List.mem_of_mem_filter he') hid
  · refine server.connections.nodupKeys.pairwise_ne.imp ?_
    rintro conn conn' hne k hk hk'
    obtain ⟨e, -, rfl⟩ := List.mem_map.1 hk
    obtain ⟨e', -, heq⟩ := List.mem_map.1 hk'
    exact hne (congrArg Prod.fst heq).symm

theorem handleHello_pending {server' : GatewayServer} {connId : String} {params : Json}
    {isOpenclaw accepted : Bool} {nowMs : Int}
    (h : server.handleHello connId params isOpenclaw nowMs = some (server', accepted)) :
    (∀ c, server'.isOpen c = server.isOpen c) ∧
      ∀ c i, server'.pendingAt c i = server.pendingAt c i := by
  cases hp : ConnectHelloParams.fromJson params with
  | none => simp [handleHello, hp] at h
  | some hello =>
    have hconns := server.checkToken_connections connId hello.authToken nowMs
    simp only [handleHello, hp, Option.bind_eq_bind, Option.bind_some] at h
    generalize server.checkToken connId hello.authToken nowMs = checked at h hconns
    obtain ⟨server₁, passed⟩ := checked
    dsimp only at hconns
    have hsame : (∀ c, server₁.isOpen c = server.isOpen c) ∧
        ∀ c i, server₁.pendingAt c i = server.pendingAt c i := by
      simp only [isOpen, pendingAt, hconns, implies_true, and_self]
    cases passed with
    | false =>
      cases h
      exact hsame
    | true =>
      dsimp only at h
      split at h
      · cases h
        exact hsame
      · next client hclient =>
          cases h
          rw [hconns] at hclient
          refine ⟨fun c => ?_, fun c i => ?_⟩
          · rw [isOpen, isOpen, Table.lookup_insert_ite, hconns]
            split_ifs with hc
            · rw [hc, hclient]
              rfl
            · rfl
          · rw [pendingAt, pendingAt, Table.lookup_insert_ite, hconns]
            split_ifs with hc
            · rw [hc, hclient]
              rfl
            · rfl

end GatewayServer

end RavBot.Gateway
