import RavBot.Lib.Table

/-!
# Approval of commands

`ExecApprovalManager` keeps the requests that wait for a decision and the decisions that were
made.  A decision can come from the call that made the request, from another thread through
`Resolve`, or from `PruneExpired`.  The readings of the clock and the ids that are drawn are
arguments.
-/

namespace RavBot.Security

open RavBot.Lib

inductive AskMode where
  /-- No approval is needed. -/
  | off
  /-- Only commands that the allowlist does not have are asked for. -/
  | onMiss
  /-- Every command is asked for. -/
  | always
  deriving DecidableEq, Repr

inductive ApprovalDecision where
  | approved
  | denied
  /-- The request expired without a decision. -/
  | timeout
  /-- There is no decision yet. -/
  | pending
  deriving DecidableEq, Repr

/-- `ApprovalRequest`.  The times are in seconds. -/
structure ApprovalRequest where
  id : String
  command : String
  cwd : String
  agentId : String
  sessionKey : String
  createdAt : Int
  expiresAt : Int
  deriving DecidableEq, Repr

structure ApprovalResolved where
  id : String
  decision : ApprovalDecision
  resolvedBy : String
  resolvedAt : Int
  deriving DecidableEq, Repr

/-- The loop of `glob_match`, from the rest of the pattern and the rest of the text.  `star` is
what comes after the last star, and the text where it was met. -/
def globLoop : Nat → Option (List Char × List Char) → List Char → List Char → Bool
  | 0, _, _, _ => false
  | _ + 1, _, pattern, [] => pattern.all (· == '*')
  | fuel + 1, star, pattern, c :: text =>
    -- the text from the star on is tried from one character later
    let backtrack := match star with
      | some (pattern', text') => globLoop fuel (some (pattern', text'.tail)) pattern' text'.tail
      | none => false
    match pattern with
    | p :: pattern =>
      if p = c ∨ p = '?' then globLoop fuel star pattern text
      else if p = '*' then globLoop fuel (some (pattern, c :: text)) pattern (c :: text)
      else backtrack
    | [] => backtrack

/-- `glob_match`.  A step of the loop moves on in the pattern, or moves the place of the last
star on in the text. -/
def globMatch (pattern text : String) : Bool :=
  globLoop ((text.toList.length + 2) * (pattern.toList.length + 1)) none pattern.toList text.toList

structure ExecApprovalConfig where
  ask : AskMode
  timeoutSeconds : Int
  timeoutFallback : ApprovalDecision
  allowlist : List String

structure ExecApprovalManager where
  config : ExecApprovalConfig
  pending : Table String ApprovalRequest
  resolved : List ApprovalResolved

namespace ExecApprovalManager

/-- `ExecAllowlist::Matches`. -/
def matchesAllowlist (m : ExecApprovalManager) (command : String) : Bool :=
  m.config.allowlist.any fun pattern => globMatch pattern command

/-- Whether `RequestApproval` approves a command without a request. -/
def isFree (m : ExecApprovalManager) (command : String) : Bool :=
  m.config.ask = .off ∨ (m.config.ask = .onMiss ∧ m.matchesAllowlist command = true)

/-- The request that `RequestApproval` makes. -/
def makeRequest (m : ExecApprovalManager) (id command cwd agentId sessionKey : String)
    (now : Int) : ApprovalRequest where
  id := id
  command := command
  cwd := cwd
  agentId := agentId
  sessionKey := sessionKey
  createdAt := now
  expiresAt := now + m.config.timeoutSeconds

/-- The first critical section of `RequestApproval`. -/
def addRequest (m : ExecApprovalManager) (req : ApprovalRequest) : ExecApprovalManager :=
  { m with pending := m.pending.insert req.id req }

/-- The decision of `RequestApproval`: that of the handler, or what is configured when there is
no handler or it leaves the decision open. -/
def decide (m : ExecApprovalManager) (answer : Option ApprovalDecision) : ApprovalDecision :=
  match answer with
  | none | some .pending => m.config.timeoutFallback
  | some decision => decision

def resolve (m : ExecApprovalManager) (id : String) (decision : ApprovalDecision)
    (resolvedBy : String) (now : Int) : ExecApprovalManager × Bool :=
  match m.pending.lookup id with
  | none => (m, false)
  | some _ =>
    ({ m with
        pending := m.pending.erase id
        resolved := m.resolved ++ [⟨id, decision, resolvedBy, now⟩] }, true)

def expiredIds (m : ExecApprovalManager) (now : Int) : List String :=
  (m.pending.entries.filter fun e => e.2.expiresAt ≤ now).map (·.1)

/-- `PruneExpired`.  The table of requests is walked in any order. -/
def pruneExpired (m : ExecApprovalManager) (now : Int) (order : List String) :
    Option ExecApprovalManager :=
  if order.isPerm (m.expiredIds now) then
    some { m with
      pending := m.pending.eraseAll order
      resolved := m.resolved ++ order.map fun id => ⟨id, .timeout, "system", now⟩ }
  else none

/-- What a call of `RequestApproval` takes from outside: the id that it draws, the readings of the clock, and
the answer of the handler, if there is one. -/
structure ApprovalInputs where
  id : String
  now : Int
  answer : Option ApprovalDecision
  resolvedAt : Int

/-- `RequestApproval`, when no other thread comes in between. -/
def requestApproval (m : ExecApprovalManager) (command cwd agentId sessionKey : String)
    (inputs : ApprovalInputs) : ApprovalDecision × ExecApprovalManager :=
  if m.isFree command then (.approved, m)
  else
    let req := m.makeRequest inputs.id command cwd agentId sessionKey inputs.now
    let decision := m.decide inputs.answer
    (decision, ((m.addRequest req).resolve req.id decision "auto" inputs.resolvedAt).1)

end ExecApprovalManager

end RavBot.Security
