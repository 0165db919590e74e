import RavBot.Lib.Json
import RavBot.Lib.Table

/-!
# Protocol frames

The parts of the wire protocol that the gateway server computes with.  Reading a frame
throws when a field has the wrong type; that is `none`.
-/

namespace RavBot.Gateway

open RavBot.Lib

structure RpcRequest where
  id : String
  method : String
  params : Json
  deriving Inhabited, Repr

def RpcRequest.fromJson (j : Json) : Option RpcRequest := do
  let id ← (← j.find? "id").getString
  let method ← (← j.find? "method").getString
  let params := match j.find? "params" with
    | some params => if params.isNull then .obj [] else params
    | none => .obj []
  return { id, method, params }

structure RpcError where
  code : String := "INTERNAL_ERROR"
  message : String
  retryable : Bool := false
  retryAfterMs : Int := 0
  deriving DecidableEq, Inhabited, Repr

def RpcError.toJson (error : RpcError) : Json :=
  Json.object <| [("code", .str error.code), ("message", .str error.message),
      ("retryable", .bool error.retryable)] ++
    if 0 < error.retryAfterMs then [("retryAfterMs", .int error.retryAfterMs)] else []

structure RpcResponse where
  id : String
  ok : Bool
  payload : Json
  error : RpcError
  deriving Inhabited, Repr

namespace RpcResponse

def toJson (resp : RpcResponse) : Json :=
  Json.object [("type", .str "res"), ("id", .str resp.id), ("ok", .bool resp.ok),
    if resp.ok then ("payload", resp.payload) else ("error", resp.error.toJson)]

def success (id : String) (payload : Json) : RpcResponse :=
  { id, ok := true, payload, error := { message := "" } }

def failure (id : String) (error : RpcError) : RpcResponse :=
  { id, ok := false, payload := .null, error }

end RpcResponse

/-- The parameters of `connect.hello`. -/
structure ConnectHelloParams where
  minProtocol : Int := 1
  maxProtocol : Int := 3
  clientName : String
  clientVersion : String
  role : String
  scopes : List String
  authToken : String
  deviceId : String
  deriving Inhabited, Repr

/-- A text that is nested in an object (the OpenClaw format), or else flat. -/
def nestedString (j : Json) (parent child flat : String) : Option String :=
  match j.find? parent with
  | some p =>
    if p.isObject then p.value Json.getString child "" else j.value Json.getString flat ""
  | none => j.value Json.getString flat ""

def ConnectHelloParams.fromJson (j : Json) : Option ConnectHelloParams := do
  let minProtocol ← j.value Json.getInt "minProtocol" 1
  let maxProtocol ← j.value Json.getInt "maxProtocol" 3
  let role ← j.value Json.getString "role" "operator"
  let scopes ← j.value Json.getStrings "scopes" ["operator.read", "operator.write"]
  let clientName ← nestedString j "client" "name" "clientName"
  let clientVersion ← nestedString j "client" "version" "clientVersion"
  let authToken ← nestedString j "auth" "token" "authToken"
  let deviceId ← nestedString j "device" "id" "deviceId"
  return { minProtocol, maxProtocol, role, scopes, clientName, clientVersion, authToken,
           deviceId }

/-- A request that was accepted and not yet answered. -/
structure PendingRequest where
  requestId : String
  method : String
  createdAt : Int
  expectFinal : Bool
  deriving DecidableEq, Inhabited, Repr

structure ClientConnection where
  connectionId : String
  role : String := ""
  scopes : List String := []
  deviceId : String := ""
  clientName : String := ""
  clientVersion : String := ""
  connectedAt : Int := 0
  authenticated : Bool := false
  clientType : String := "ravbot"
  pendingRequests : Table String PendingRequest := ∅

end RavBot.Gateway
