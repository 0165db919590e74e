import RavBot.Gateway.Protocol
import RavBot.Security.Rbac

/-!
# The gateway server: handshake and admission

The state of `GatewayServer` that its mutexes guard, the handshake (`handle_hello`) and the
checks that `handle_rpc_request` makes before it calls a handler.  Times are readings of the
system clock in milliseconds and are arguments of the functions that take them.
-/

namespace RavBot.Gateway

open RavBot.Lib RavBot.Security

structure GatewayServer where
  authMode : String := "token"
  expectedToken : String := ""
  authFailCounts : Table String Int := ∅
  authLockoutUntil : Table String Int := ∅
  authMaxAttempts : Int := 5
  authLockoutDurationSec : Int := 300
  connections : Table String ClientConnection := ∅
  rbacChecker : Option RBACChecker := none
  requestTimeoutMs : Int := 30000

namespace GatewayServer

def setAuth (server : GatewayServer) (mode token : String) : GatewayServer :=
  { server with authMode := mode, expectedToken := token }

def openConnection (server : GatewayServer) (connId : String) (nowSec : Int) : GatewayServer :=
  let client : ClientConnection := { connectionId := connId, connectedAt := nowSec }
  { server with connections := server.connections.insert connId client }

def closeConnection (server : GatewayServer) (connId : String) : GatewayServer :=
  { server with connections := server.connections.erase connId }

/-- The token check of a handshake: whether it passes, and the counters after it.  Only the
mode `token` with a nonempty expected token checks anything. -/
def checkToken (server : GatewayServer) (connId authToken : String) (nowMs : Int) :
    GatewayServer × Bool :=
  if server.authMode = "token" ∧ server.expectedToken ≠ "" then
    if (server.authLockoutUntil.lookup connId).any (nowMs < ·) then (server, false)
    else if authToken ≠ server.expectedToken then
      let failCount := (server.authFailCounts.lookup connId).getD 0 + 1
      let server := { server with
        authFailCounts := server.authFailCounts.insert connId failCount }
      if server.authMaxAttempts ≤ failCount then
        let lockoutUntil := nowMs + server.authLockoutDurationSec * 1000
        ({ server with
          authLockoutUntil := server.authLockoutUntil.insert connId lockoutUntil }, false)
      else (server, false)
    else
      ({ server with
        authFailCounts := server.authFailCounts.erase connId
        authLockoutUntil := server.authLockoutUntil.erase connId }, true)
  else (server, true)

/-- What a handshake stores in its connection: the client's scopes, or the defaults of its
role where it lists none. -/
def greet (client : ClientConnection) (hello : ConnectHelloParams) (isOpenclaw : Bool) :
    ClientConnection :=
  { client with
    role := hello.role
    scopes := if hello.scopes.isEmpty then defaultScopes (roleFromString hello.role)
      else hello.scopes
    deviceId := hello.deviceId
    clientName := hello.clientName
    clientVersion := hello.clientVersion
    authenticated := true
    clientType := if isOpenclaw then "openclaw" else "ravbot" }

/-- The handshake.  `none` is an exception while the parameters are read. -/
def handleHello (server : GatewayServer) (connId : String) (params : Json) (isOpenclaw : Bool)
    (nowMs : Int) : Option (GatewayServer × Bool) := do
  let hello ← ConnectHelloParams.fromJson params
  match server.checkToken connId hello.authToken nowMs with
  | (server, false) => return (server, false)
  | (server, true) =>
    match server.connections.lookup connId with
    | none => return (server, false)
    | some client =>
      return ({ server with
        connections := server.connections.insert connId (greet client hello isOpenclaw) },
        true)

/-- The RBAC check of `handle_rpc_request`.  It applies to clients that sent a hello. -/
def rbacAllows (server : GatewayServer) (client : ClientConnection) (method : String) : Bool :=
  match server.rbacChecker with
  | some checker =>
    !client.authenticated || checker.isAllowed method client.role client.scopes
  | none => true

/-- The checks that `handle_rpc_request` makes, in their order.  `registered` says whether
the method has a handler, and `limited` is the answer of the rate limiter: the seconds to
wait, if it refuses. -/
def checkRequest (server : GatewayServer) (connId : String) (request : RpcRequest)
    (registered : Bool) (limited : Option Int) : Except RpcError ClientConnection :=
  if !registered then
    .error { code := "METHOD_NOT_FOUND", message := "Unknown method: " ++ request.method }
  else match server.connections.lookup connId with
    | none => .error { code := "CONNECTION_NOT_FOUND", message := "Connection not found" }
    | some client =>
      if server.authMode ≠ "none" ∧ !client.authenticated then
        .error { code := "NOT_AUTHENTICATED",
                 message := "Not authenticated: send connect.hello first" }
      else if !server.rbacAllows client request.method then
        .error { code := "PERMISSION_DENIED",
                 message := "Permission denied: insufficient scope for " ++ request.method }
      else match limited with
        | some retry =>
          .error { code := "RATE_LIMITED", retryable := true, retryAfterMs := retry * 1000
                   message := "Rate limit exceeded. Retry after " ++ toString retry ++ "s" }
        | none => .ok client

/-! ## What a handshake and an admission mean -/

theorem checkToken_connections (server : GatewayServer) (connId authToken : String)
    (nowMs : Int) : (server.checkToken connId authToken nowMs).1.connections =
      server.connections := by
  unfold checkToken
  split
  · split
    · rfl
    · split
      · dsimp only
        split <;> rfl
      · rfl
  · rfl

theorem checkToken_rbacChecker (server : GatewayServer) (connId authToken : String)
    (nowMs : Int) : (server.checkToken connId authToken nowMs).1.rbacChecker =
      server.rbacChecker := by
  unfold checkToken
  split
  · split
    · rfl
    · split
      · dsimp only
        split <;> rfl
      · rfl
  · rfl

theorem handleHello_accepted {server server' : GatewayServer} {connId : String}
    {params : Json} {isOpenclaw : Bool} {nowMs : Int}
    (h : server.handleHello connId params isOpenclaw nowMs = some (server', true)) :
    ∃ hello client, ConnectHelloParams.fromJson params = some hello ∧
      server.connections.lookup connId = some client ∧
      server'.connections.lookup connId = some (greet client hello isOpenclaw) ∧
      server'.rbacChecker = server.rbacChecker := by
  cases hp : ConnectHelloParams.fromJson params with
  | none => simp [handleHello, hp] at h
  | some hello =>
    have hconns := server.checkToken_connections connId hello.authToken nowMs
    have hrbac := server.checkToken_rbacChecker connId hello.authToken nowMs
    simp only [handleHello, hp, Option.bind_eq_bind, Option.bind_some] at h
    split at h
    · cases h
    · next server₁ hcheck =>
        rw [hcheck] at hconns hrbac
        split at h
        · cases h
        · next client hclient =>
            cases h
            rw [hconns] at hclient
            exact ⟨hello, client, rfl, hclient, by simp, hrbac⟩

/-- A request that passes the checks comes from an open connection, and in every mode but `none` from
one that sent a hello. -/
theorem authenticated_of_checkRequest {server : GatewayServer} {connId : String}
    {request : RpcRequest} {registered : Bool} {limited : Option Int} {client : ClientConnection}
    (hmode : server.authMode ≠ "none")
    (h : server.checkRequest connId request registered limited = .ok client) :
    server.connections.lookup connId = some client ∧ client.authenticated = true := by
  unfold checkRequest at h
  split at h
  · cases h
  · split at h
    · cases h
    · next c hc =>
        split at h
        · cases h
        · next hauth =>
            split at h
            · cases h
            · split at h
              · cases h
              · cases h
                refine ⟨hc, ?_⟩
                simpa [hmode] using hauth

end GatewayServer

end RavBot.Gateway
