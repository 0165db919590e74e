import RavBot.Lib.Table

/-!
# Roles, scopes and the access table

A connection carries a list of scopes, and `RBACChecker` knows for every method which scopes
open it.  The role of a connection has a list of default scopes, but the check itself never
looks at the role.
-/

namespace RavBot.Security

open RavBot.Lib

inductive Role where
  /-- Full access. -/
  | operator
  /-- Read-only. -/
  | viewer
  /-- Machine to machine. -/
  | node
  deriving DecidableEq, Inhabited, Repr

/-- The role a string names; anything unknown is `operator`. -/
def roleFromString (s : String) : Role :=
  if s = "viewer" then .viewer
  else if s = "node" then .node
  else .operator

def roleToString : Role → String
  | .operator => "operator"
  | .viewer => "viewer"
  | .node => "node"

namespace Scopes

def operatorRead : String := "operator.read"
def operatorWrite : String := "operator.write"
def operatorAdmin : String := "operator.admin"
def nodeExecute : String := "node.execute"
def nodeRead : String := "node.read"

end Scopes

def defaultScopes : Role → List String
  | .operator => [Scopes.operatorRead, Scopes.operatorWrite, Scopes.operatorAdmin]
  | .viewer => [Scopes.operatorRead]
  | .node => [Scopes.nodeExecute, Scopes.nodeRead]

/-- The access table: for a method, the scopes any of which opens it. -/
structure RBACChecker where
  methodScopes : Table String (List String)

namespace RBACChecker

/-- Read-only methods. -/
def readMethods : List String :=
  ["gateway.health", "gateway.status", "config.get", "sessions.list", "sessions.history",
    "channels.list", "channels.status", "health", "status", "models.list",
    "sessions.preview", "chat.history", "skills.status", "exec.approvals.get", "cron.list",
    "cron.runs", "memory.status", "memory.search", "plugins.list", "plugins.tools",
    "plugins.services", "plugins.providers", "plugins.commands", "plugins.gateway",
    "queue.status"]

/-- Methods that change something. -/
def writeMethods : List String :=
  ["config.set", "config.reload", "sessions.delete", "sessions.reset", "sessions.patch",
    "sessions.compact", "models.set", "skills.install", "cron.add", "cron.remove",
    "cron.update", "cron.run", "exec.approval.request", "plugins.call_tool",
    "queue.configure", "queue.cancel", "queue.abort"]

def agentMethods : List String :=
  ["agent.request", "agent.stop", "chat.send", "chat.abort", "chain.execute"]

/-- Methods of the UI, for which there are no constants. -/
def uiMethods : List String :=
  ["agent.identity.get", "node.list", "device.pair.list", "logs.tail", "usage.cost",
    "sessions.usage", "sessions.usage.timeseries", "sessions.usage.logs", "cron.status",
    "config.schema", "agents.list"]

def readScopes : List String :=
  [Scopes.operatorRead, Scopes.operatorWrite, Scopes.operatorAdmin, Scopes.nodeRead,
    Scopes.nodeExecute]

def assign (methods scopes : List String) (t : Table String (List String)) :
    Table String (List String) :=
  methods.foldl (fun t method => t.insert method scopes) t

/-- The rules that the constructor installs. -/
def initDefaultRules : RBACChecker where
  methodScopes :=
    assign ["tools.catalog"] readScopes <|
    assign ["connect.hello", "connect"] [] <|
    assign uiMethods readScopes <|
    assign agentMethods
      [Scopes.operatorWrite, Scopes.operatorAdmin, Scopes.nodeExecute] <|
    assign writeMethods [Scopes.operatorWrite, Scopes.operatorAdmin] <|
    assign readMethods readScopes ∅

/-- Whether a client with these scopes may call the method.  The role is not looked at. -/
def isAllowed (checker : RBACChecker) (method _role : String) (clientScopes : List String) :
    Bool :=
  match checker.methodScopes.lookup method with
  | none => clientScopes.any (· = Scopes.operatorAdmin)
  | some required => required.isEmpty || clientScopes.any (· ∈ required)

/-- The scopes that open a method; none means that it is open to all. -/
def requiredScopes (checker : RBACChecker) (method : String) : List String :=
  match checker.methodScopes.lookup method with
  | none => [Scopes.operatorAdmin]
  | some required => required

theorem isAllowed_iff (checker : RBACChecker) (method role : String) (scopes : List String) :
    checker.isAllowed method role scopes ↔
      checker.requiredScopes method = [] ∨
        ∃ s ∈ scopes, s ∈ checker.requiredScopes method := by
  cases h : checker.methodScopes.lookup method with
  | none => simp [isAllowed, requiredScopes, h]
  | some required => simp [isAllowed, requiredScopes, h, List.isEmpty_iff]

theorem isAllowed_mono {checker : RBACChecker} {method role : String}
    {scopes scopes' : List String} (role' : String) (hsub : scopes ⊆ scopes')
    (h : checker.isAllowed method role scopes) : checker.isAllowed method role' scopes' := by
  rw [isAllowed_iff] at h ⊢
  apply h.imp_right
  rintro ⟨s, hs, hreq⟩
  exact ⟨s, hsub hs, hreq⟩

/-- Only `operator.write` or `operator.admin` opens the method. -/
def NeedsWrite (checker : RBACChecker) (method : String) : Prop :=
  checker.requiredScopes method ≠ [] ∧
    ∀ s ∈ checker.requiredScopes method, s = Scopes.operatorWrite ∨ s = Scopes.operatorAdmin

theorem not_isAllowed_needsWrite {checker : RBACChecker} {method role : String} {r : Role}
    (hneeds : checker.NeedsWrite method) (hr : r ≠ .operator) :
    ¬ checker.isAllowed method role (defaultScopes r) := by
  rw [isAllowed_iff]
  rintro (hopen | ⟨s, hs, hreq⟩)
  · exact hneeds.1 hopen
  · rcases hneeds.2 s hreq with rfl | rfl <;> cases r <;> revert hs <;> first
      | exact absurd rfl hr
      | decide

end RBACChecker

end RavBot.Security
