import RavBot.Gateway.Server
import RavBot.Lib.Run

/-!
# Who may call a handler

The handshake checks the token of a hello in one configuration only: the mode is `token`, and a
token is expected.  In every other it accepts any hello, and the gate in front of the handlers asks
in every mode but `none` whether a hello was accepted.  So a handler is called for no connection
that has not sent one, and the hello had the right token where a token was asked for when it was
sent (`authenticated_of_invoked`).

A connection whose failed attempts are too many is locked out, and the lockout outlives everything
but the calls that change the configuration or clear it (`Locked`).
-/

namespace RavBot.Gateway

open RavBot.Lib RavBot.Security

namespace GatewayServer

/-- `ClearAuthLockout`.  The empty identifier stands for all. -/
def clearAuthLockout (server : GatewayServer) (identifier : String) : GatewayServer :=
  if identifier = "" then { server with authFailCounts := ∅, authLockoutUntil := ∅ }
  else { server with
    authFailCounts := server.authFailCounts.erase identifier
    authLockoutUntil := server.authLockoutUntil.erase identifier }

def failedAttempts (server : GatewayServer) (connId : String) : Int :=
  (server.authFailCounts.lookup connId).getD 0

def ChecksTokens (server : GatewayServer) : Prop :=
  server.authMode = "token" ∧ server.expectedToken ≠ ""

/-- A connection is locked out until a time. -/
structure Locked (server : GatewayServer) (connId : String) (deadline : Int) : Prop where
  checksTokens : server.ChecksTokens
  lockout : server.authLockoutUntil.lookup connId = some deadline

/-- What the token check can do: pass without checking, refuse a connection that is locked out,
refuse a wrong token, which is counted and may lock the connection out, or accept the right one. -/
inductive Checked (server : GatewayServer) (connId authToken : String) (nowMs : Int) :
    GatewayServer × Bool → Prop
  | unchecked (config : ¬ server.ChecksTokens) : Checked server connId authToken nowMs (server, true)
  | lockedOut (config : server.ChecksTokens)
      (locked : (server.authLockoutUntil.lookup connId).any (nowMs < ·)) :
      Checked server connId authToken nowMs (server, false)
  | wrong (config : server.ChecksTokens)
      (unlocked : ¬ (server.authLockoutUntil.lookup connId).any (nowMs < ·)) :
      Checked server connId authToken nowMs
        ({ server with
          authFailCounts :=
            server.authFailCounts.insert connId (server.failedAttempts connId + 1)
          authLockoutUntil :=
            if server.authMaxAttempts ≤ server.failedAttempts connId + 1 then
              server.authLockoutUntil.insert connId
                (nowMs + server.authLockoutDurationSec * 1000)
            else server.authLockoutUntil }, false)
  | right (config : server.ChecksTokens) (token : authToken = server.expectedToken)
      (unlocked : ¬ (server.authLockoutUntil.lookup connId).any (nowMs < ·)) :
      Checked server connId authToken nowMs
        ({ server with
          authFailCounts := server.authFailCounts.erase connId
          authLockoutUntil := server.authLockoutUntil.erase connId }, true)

theorem checkToken_checked (server : GatewayServer) (connId authToken : String) (nowMs : Int) :
    Checked server connId authToken nowMs (server.checkToken connId authToken nowMs) := by
  unfold checkToken
  split
  · next config =>
      split
      · next locked => exact .lockedOut config locked
      · next unlocked =>
          split
          · have hwrong := @Checked.wrong server connId authToken nowMs config unlocked
            rw [failedAttempts] at hwrong
            dsimp only
            split
            · next hmax => rwa [if_pos hmax] at hwrong
            · next hmax => rwa [if_neg hmax] at hwrong
          · next token => exact .right config (not_not.1 token) unlocked
  · next config => exact .unchecked config

variable {server checked : GatewayServer} {connId authToken : String} {nowMs : Int}

theorem handleHello_checked {server' : GatewayServer} {params : Json}
    {isOpenclaw : Bool} {ok : Bool}
    (h : server.handleHello connId params isOpenclaw nowMs = some (server', ok)) :
    ∃ hello checked passed, ConnectHelloParams.fromJson params = some hello ∧
      Checked server connId hello.authToken nowMs (checked, passed) ∧
      (ok → passed) ∧
      server' = { checked with connections := server'.connections } ∧
      ∀ c client, server'.connections.lookup c = some client → client.authenticated →
        c = connId ∧ ok ∨ server.connections.lookup c = some client := by
  cases hp : ConnectHelloParams.fromJson params with
  | none => simp [handleHello, hp] at h
  | some hello =>
    have hconns := server.checkToken_connections connId hello.authToken nowMs
    have hchecked := server.checkToken_checked connId hello.authToken nowMs
    simp only [handleHello, hp, Option.bind_eq_bind, Option.bind_some] at h
    generalize server.checkToken connId hello.authToken nowMs = result at h hconns hchecked
    obtain ⟨checked, passed⟩ := result
    refine ⟨hello, checked, passed, rfl, hchecked, ?_⟩
    dsimp only at h hconns
    cases passed with
    | false =>
      cases h
      exact ⟨id, rfl, fun c client hc _ => .inr (hconns ▸ hc)⟩
    | true =>
      dsimp only at h
      split at h
      · cases h
        exact ⟨fun _ => rfl, rfl, fun c client hc _ => .inr (hconns ▸ hc)⟩
      · cases h
        refine ⟨fun _ => rfl, rfl, fun c client hc _ => ?_⟩
        rw [Table.lookup_insert_ite] at hc
        split_ifs at hc with heq
        · exact .inl ⟨heq, rfl⟩
        · exact .inr (hconns ▸ hc)

variable {passed : Bool}

theorem Checked.config (h : Checked server connId authToken nowMs (checked, passed)) :
    checked.authMode = server.authMode ∧ checked.expectedToken = server.expectedToken ∧
      checked.authMaxAttempts = server.authMaxAttempts ∧
      checked.authLockoutDurationSec = server.authLockoutDurationSec := by
  cases h <;> exact ⟨rfl, rfl, rfl, rfl⟩

theorem Checked.token_eq
    (h : Checked server connId authToken nowMs (checked, true)) (hconfig : server.ChecksTokens) :
    authToken = server.expectedToken := by
  cases h with
  | unchecked config => exact absurd hconfig config
  | right _ token _ => exact token

theorem Checked.locks (h : Checked server connId authToken nowMs (checked, passed))
    (hcount : 0 ≤ server.failedAttempts connId)
    (hfailed : server.failedAttempts connId < checked.failedAttempts connId)
    (hmax : checked.authMaxAttempts ≤ checked.failedAttempts connId) :
    checked.Locked connId (nowMs + checked.authLockoutDurationSec * 1000) := by
  cases h with
  | unchecked _ => exact absurd hfailed (lt_irrefl _)
  | lockedOut _ _ => exact absurd hfailed (lt_irrefl _)
  | wrong config _ =>
    have hnext : GatewayServer.failedAttempts { server with
        authFailCounts := server.authFailCounts.insert connId (server.failedAttempts connId + 1) }
        connId = server.failedAttempts connId + 1 := by
      rw [failedAttempts, AList.lookup_insert, Option.getD_some]
    refine ⟨config, ?_⟩
    dsimp only at hmax ⊢
    rw [if_pos (hmax.trans_eq hnext), AList.lookup_insert]
  | right _ _ _ =>
    have hzero : GatewayServer.failedAttempts { server with
        authFailCounts := server.authFailCounts.erase connId } connId = 0 := by
      rw [failedAttempts, AList.lookup_erase, Option.getD_none]
    exact absurd (hfailed.trans_eq hzero) (not_lt.2 hcount)

theorem Checked.failedAttempts_nonneg (h : Checked server connId authToken nowMs (checked, passed))
    (hcount : ∀ c, 0 ≤ server.failedAttempts c) (c : String) : 0 ≤ checked.failedAttempts c := by
  cases h with
  | unchecked _ => exact hcount c
  | lockedOut _ _ => exact hcount c
  | wrong _ _ =>
    rw [failedAttempts, Table.lookup_insert_ite]
    split_ifs
    · exact Int.le_add_one (hcount connId)
    · exact hcount c
  | right _ _ _ =>
    rw [failedAttempts, Table.lookup_erase_ite]
    split_ifs
    · exact Int.le_refl 0
    · exact hcount c

end GatewayServer

/-- An accepted hello of a connection, with the configuration that it met. -/
structure Greeting where
  connId : String
  authToken : String
  authMode : String
  expectedToken : String
  deriving DecidableEq, Repr

def Greeting.Authentic (g : Greeting) : Prop :=
  g.authMode = "token" → g.expectedToken ≠ "" → g.authToken = g.expectedToken

/-- The server, with the hellos that it accepted on the connections that are open. -/
structure AuthSystem where
  server : GatewayServer
  greetings : List Greeting

/-- A step: a client opens or closes a connection or sends a request, or the configuration of the
authentication changes.  `registered` says whether the method of a request has a handler, and
`limited` is the answer of the rate limiter. -/
inductive AuthAction where
  | openConnection (connId : String) (nowSec : Int)
  | closeConnection (connId : String)
  | setAuth (mode token : String)
  | clearAuthLockout (identifier : String)
  | message (connId : String) (request : RpcRequest) (registered : Bool) (limited : Option Int)
      (nowMs : Int)

/-- `connect` is the hello of OpenClaw clients. -/
def isOpenclawHello (method : String) : Bool := method = "connect"

/-- The methods that `handle_message` takes for hellos. -/
def isHello (method : String) : Bool := method = "connect.hello" || isOpenclawHello method

def AuthAction.KeepsAuth : AuthAction → Prop
  | .setAuth mode _ => mode ≠ "none"
  | _ => True

namespace AuthSystem

/-- A server in any configuration, to which nobody has connected. -/
def init (server : GatewayServer) : AuthSystem where
  server := { server with connections := ∅, authFailCounts := ∅, authLockoutUntil := ∅ }
  greetings := []

def greeting (server : GatewayServer) (connId : String) (params : Json) : Option Greeting :=
  (ConnectHelloParams.fromJson params).map fun hello =>
    { connId, authToken := hello.authToken
      authMode := server.authMode, expectedToken := server.expectedToken }

def forget (s : AuthSystem) (connId : String) : List Greeting :=
  s.greetings.filter (·.connId ≠ connId)

/-- What an action does.  Requests that are no hellos do not touch the authentication. -/
def step (s : AuthSystem) : AuthAction → Option AuthSystem
  | .openConnection connId nowSec =>
    some ⟨s.server.openConnection connId nowSec, s.forget connId⟩
  | .closeConnection connId => some ⟨s.server.closeConnection connId, s.forget connId⟩
  | .setAuth mode token => some { s with server := s.server.setAuth mode token }
  | .clearAuthLockout identifier =>
    some { s with server := s.server.clearAuthLockout identifier }
  | .message connId request _ _ nowMs =>
    if isHello request.method then
      match s.server.handleHello connId request.params (isOpenclawHello request.method) nowMs with
      | some (server, true) =>
        some ⟨server, (greeting s.server connId request.params).toList ++ s.greetings⟩
      | some (server, false) => some { s with server }
      | none => some s
    else some s

/-- The connection for which an action calls a handler. -/
def invoked (s : AuthSystem) : AuthAction → Option String
  | .message connId request registered limited _ =>
    if isHello request.method then none
    else match s.server.checkRequest connId request registered limited with
      | .ok _ => some connId
      | .error _ => none
  | _ => none

/-- A handler is called only for a connection that sent a hello, with the right token if a token was
asked for. -/
def Authenticated (s : AuthSystem) (a : AuthAction) : Prop :=
  ∀ connId ∈ invoked s a, ∃ g ∈ s.greetings, g.connId = connId ∧ g.Authentic

/-- The authentication is on, failed attempts are counted from zero, and every connection that
counts as authenticated has sent an authentic hello since it was opened. -/
structure Inv (s : AuthSystem) : Prop where
  mode_ne : s.server.authMode ≠ "none"
  counts : ∀ connId, 0 ≤ s.server.failedAttempts connId
  greeted : ∀ connId client, s.server.connections.lookup connId = some client →
    client.authenticated → ∃ g ∈ s.greetings, g.connId = connId ∧ g.Authentic

variable {s : AuthSystem} {connId : String}

theorem exists_forget {c : String} (hne : c ≠ connId)
    (h : ∃ g ∈ s.greetings, g.connId = c ∧ g.Authentic) :
    ∃ g ∈ s.forget connId, g.connId = c ∧ g.Authentic := by
  obtain ⟨g, hg, rfl, hauth⟩ := h
  refine ⟨g, List.mem_filter.2 ⟨hg, ?_⟩, rfl, hauth⟩
  exact decide_eq_true hne

variable {s' : AuthSystem}

theorem Inv.step {a : AuthAction} (h : Inv s) (hkeeps : a.KeepsAuth)
    (hstep : step s a = some s') : Inv s' := by
  obtain ⟨hmode, hcounts, hgreeted⟩ := h
  cases a with
  | openConnection connId nowSec =>
    cases hstep
    refine ⟨hmode, hcounts, fun c client hc hauth => ?_⟩
    rw [GatewayServer.openConnection, Table.lookup_insert_ite] at hc
    split_ifs at hc with heq
    · cases hc
      cases hauth
    · exact exists_forget heq (hgreeted c client hc hauth)
  | closeConnection connId =>
    cases hstep
    refine ⟨hmode, hcounts, fun c client hc hauth => ?_⟩
    rw [GatewayServer.closeConnection, Table.lookup_erase_ite] at hc
    split_ifs at hc with heq
    exact exists_forget heq (hgreeted c client hc hauth)
  | setAuth mode token =>
    cases hstep
    exact ⟨hkeeps, hcounts, hgreeted⟩
  | clearAuthLockout identifier =>
    cases hstep
    rw [GatewayServer.clearAuthLockout]
    split_ifs
    · exact ⟨hmode, fun _ => Int.le_refl 0, hgreeted⟩
    · refine ⟨hmode, fun c => ?_, hgreeted⟩
      rw [GatewayServer.failedAttempts, Table.lookup_erase_ite]
      split_ifs
      · exact Int.le_refl 0
      · exact hcounts c
  | message connId request registered limited nowMs =>
    rw [AuthSystem.step] at hstep
    split_ifs at hstep
    · split at hstep
      · next server hhello =>
          cases hstep
          obtain ⟨hello, checked, passed, hparse, hchecked, hpassed, hserver, hclients⟩ :=
            GatewayServer.handleHello_checked hhello
          have hmodes := hchecked.config.1
          rw [hpassed rfl] at hchecked
          rw [hserver]
          refine ⟨hmodes ▸ hmode, hchecked.failedAttempts_nonneg hcounts, fun c client hc hauth => ?_⟩
          rw [greeting, hparse]
          rcases hclients c client hc hauth with ⟨rfl, -⟩ | hold
          · refine ⟨_, List.mem_cons_self, rfl, fun hmode htoken => ?_⟩
            exact hchecked.token_eq ⟨hmode, htoken⟩
          · obtain ⟨g, hg, hgreeting⟩ := hgreeted c client hold hauth
            exact ⟨g, List.mem_cons_of_mem _ hg, hgreeting⟩
      · next server hhello =>
          cases hstep
          obtain ⟨hello, checked, passed, -, hchecked, -, hserver, hclients⟩ :=
            GatewayServer.handleHello_checked hhello
          rw [hserver]
          refine ⟨hchecked.config.1 ▸ hmode, hchecked.failedAttempts_nonneg hcounts,
            fun c client hc hauth => ?_⟩
          rcases hclients c client hc hauth with ⟨-, hok⟩ | hold
          · cases hok
          · exact hgreeted c client hold hauth
      · cases hstep
        exact ⟨hmode, hcounts, hgreeted⟩
    · cases hstep
      exact ⟨hmode, hcounts, hgreeted⟩

theorem Inv.authenticated (h : Inv s) (a : AuthAction) : Authenticated s a := by
  intro c hc
  cases a with
  | message connId request registered limited nowMs =>
    rw [invoked] at hc
    split_ifs at hc
    · cases hc
    · split at hc
      · next client hcheck =>
          cases hc
          obtain ⟨hclient, hauth⟩ := GatewayServer.authenticated_of_checkRequest h.mode_ne hcheck
          exact h.greeted c client hclient hauth
      · cases hc
  | _ => cases hc

theorem Inv.locks (h : Inv s) {request : RpcRequest}
    {registered : Bool} {limited : Option Int} {nowMs : Int}
    (hstep : AuthSystem.step s (.message connId request registered limited nowMs) = some s')
    (hfailed : s.server.failedAttempts connId < s'.server.failedAttempts connId)
    (hmax : s'.server.authMaxAttempts ≤ s'.server.failedAttempts connId) :
    s'.server.Locked connId (nowMs + s'.server.authLockoutDurationSec * 1000) := by
  have hhello {server : GatewayServer} {ok : Bool}
      (heq : s.server.handleHello connId request.params (isOpenclawHello request.method) nowMs =
        some (server, ok))
      (hfailed : s.server.failedAttempts connId < server.failedAttempts connId)
      (hmax : server.authMaxAttempts ≤ server.failedAttempts connId) :
      server.Locked connId (nowMs + server.authLockoutDurationSec * 1000) := by
    obtain ⟨hello, checked, passed, -, hchecked, -, hserver, -⟩ :=
      GatewayServer.handleHello_checked heq
    rw [hserver] at hfailed hmax ⊢
    have hlocked := hchecked.locks (h.counts connId) hfailed hmax
    exact ⟨hlocked.checksTokens, hlocked.lockout⟩
  rw [AuthSystem.step] at hstep
  split_ifs at hstep
  · split at hstep
    · next heq =>
        cases hstep
        exact hhello heq hfailed hmax
    · next heq =>
        cases hstep
        exact hhello heq hfailed hmax
    · cases hstep
      exact absurd hfailed (lt_irrefl _)
  · cases hstep
    exact absurd hfailed (lt_irrefl _)

theorem Inv.start {server : GatewayServer} (hmode : server.authMode ≠ "none") :
    Inv (init server) where
  mode_ne := hmode
  counts := fun _ => Int.le_refl 0
  greeted := nofun

end AuthSystem

end RavBot.Gateway
