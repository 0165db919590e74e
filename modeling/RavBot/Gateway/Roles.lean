import RavBot.Gateway.Server

/-!
# What the role of a hello is worth

A hello declares a role and may list scopes.  The server takes the listed scopes as they
are, and the defaults of the role where the list is empty; the RBAC check then looks at the
stored scopes only.  So the role confines a client exactly when the client does not list
scopes beyond it.

The results are about hellos with a `scopes` field.  Where the field is missing,
`ConnectHelloParams::FromJson` fills it in before the role is looked at.
-/

namespace RavBot.Gateway.GatewayServer

open RavBot.Lib RavBot.Security

def roleScopes (role : String) : List String := defaultScopes (roleFromString role)

theorem fromJson_scopes {params listed : Json} {hello : ConnectHelloParams}
    (hlisted : params.find? "scopes" = some listed)
    (h : ConnectHelloParams.fromJson params = some hello) :
    listed.getStrings = some hello.scopes := by
  cases params with
  | obj fields =>
    simp only [ConnectHelloParams.fromJson, Option.bind_eq_bind, Option.bind_eq_some_iff] at h
    obtain ⟨_, -, _, -, _, -, scopes, hscopes, _, -, _, -, _, -, _, -, heq⟩ := h
    cases heq
    simpa only [Json.value, hlisted] using hscopes
  | _ => cases hlisted

theorem greet_scopes_subset_iff (client : ClientConnection) (hello : ConnectHelloParams)
    (isOpenclaw : Bool) :
    (greet client hello isOpenclaw).scopes ⊆ roleScopes hello.role ↔
      hello.scopes ⊆ roleScopes hello.role := by
  cases hs : hello.scopes with
  | nil => simp [greet, hs, roleScopes]
  | cons s scopes => simp [greet, hs]

theorem rbacAllows_iff {server : GatewayServer} {checker : RBACChecker}
    (client : ClientConnection) (hrbac : server.rbacChecker = some checker)
    (hauth : client.authenticated = true) (method : String) :
    server.rbacAllows client method ↔
      checker.isAllowed method client.role client.scopes := by
  simp [rbacAllows, hrbac, hauth]

/-- **Listed scopes are taken as they are.**  An accepted hello with a `scopes` field stores
the listed scopes, or those of its role when it lists none; they are within the role exactly
when the listed ones are; and the RBAC check lets the connection call a method exactly when
the stored scopes open it.  So a client that lists no scope beyond its role is confined to
its role, and as a viewer or a node never calls a method that needs to write. -/
theorem handleHello_listed_scopes {server server' : GatewayServer} {connId : String}
    {params listed : Json} {isOpenclaw : Bool} {nowMs : Int}
    (hlisted : params.find? "scopes" = some listed)
    (h : server.handleHello connId params isOpenclaw nowMs = some (server', true)) :
    ∃ hello client, ConnectHelloParams.fromJson params = some hello ∧
      listed.getStrings = some hello.scopes ∧
      server'.connections.lookup connId = some client ∧ client.role = hello.role ∧
      client.scopes = (if hello.scopes = [] then roleScopes hello.role else hello.scopes) ∧
      (client.scopes ⊆ roleScopes hello.role ↔ hello.scopes ⊆ roleScopes hello.role) ∧
      ∀ checker, server.rbacChecker = some checker → ∀ method,
        (server'.rbacAllows client method ↔
          checker.isAllowed method hello.role client.scopes) ∧
        (hello.scopes ⊆ roleScopes hello.role → server'.rbacAllows client method →
          checker.isAllowed method hello.role (roleScopes hello.role) ∧
          (roleFromString hello.role ≠ .operator → ¬ checker.NeedsWrite method)) := by
  obtain ⟨hello, client, hparse, -, hstored, hrbac⟩ := handleHello_accepted h
  refine ⟨hello, greet client hello isOpenclaw, hparse, fromJson_scopes hlisted hparse, hstored,
    rfl, ?_, greet_scopes_subset_iff client hello isOpenclaw, ?_⟩
  · simp [greet, roleScopes, List.isEmpty_iff]
  · intro checker hchecker method
    have hcheck := rbacAllows_iff (greet client hello isOpenclaw) (hrbac.trans hchecker) rfl method
    refine ⟨hcheck, fun hsub hallows => ?_⟩
    have hwithin := (greet_scopes_subset_iff client hello isOpenclaw).2 hsub
    have hrole := RBACChecker.isAllowed_mono hello.role hwithin (hcheck.1 hallows)
    refine ⟨hrole, fun hop hneeds => ?_⟩
    exact RBACChecker.not_isAllowed_needsWrite hneeds hop hrole

/-- A server without authentication, with the default access table and one connection. -/
def openServer : GatewayServer :=
  openConnection { authMode := "none", rbacChecker := some .initDefaultRules } "c" 0

/-- A viewer that lists the scope of a viewer. -/
theorem handleHello_listed_scopes_viewer :
    ∃ server' client, openServer.handleHello "c"
        (.obj [("role", .str "viewer"), ("scopes", .arr [.str "operator.read"])]) false 0 =
      some (server', true) ∧ server'.connections.lookup "c" = some client ∧
      client.scopes = ["operator.read"] := by
  have hhello : openServer.handleHello "c"
      (.obj [("role", .str "viewer"), ("scopes", .arr [.str "operator.read"])]) false 0 =
    some (_, true) := rfl
  obtain ⟨hello, client, -, hlisted, hstored, -, hscopes, -⟩ :=
    handleHello_listed_scopes rfl hhello
  obtain hlist : ["operator.read"] = hello.scopes := Option.some.inj hlisted
  rw [← hlist, if_neg (List.cons_ne_nil _ _)] at hscopes
  exact ⟨_, client, hhello, hstored, hscopes⟩

/-- A viewer that lists the scope of an administrator gets it. -/
theorem not_scopes_within_role : ¬ ∀ (server server' : GatewayServer) (connId : String)
    (params : Json) (isOpenclaw : Bool) (nowMs : Int) (client : ClientConnection),
    server.handleHello connId params isOpenclaw nowMs = some (server', true) →
    server'.connections.lookup connId = some client →
    client.scopes ⊆ roleScopes client.role := by
  intro h
  have hsub := h openServer _ "c"
    (.obj [("role", .str "viewer"), ("scopes", .arr [.str "operator.admin"])]) false 0 _ rfl rfl
  revert hsub
  decide

end RavBot.Gateway.GatewayServer
