import RavBot.Security.ExecApproval
import RavBot.Security.Sandbox
import RavBot.Security.ToolPermissions
import RavBot.Tools.ToolChain

/-!
# Tools that run commands

`ExecuteTool` looks a tool up by its name and calls it.  Of the tools, those that lead to `exec_capture` are
modelled: `exec`, which is also called `bash`, the `github` tools, which build a command and hand it to
`exec`, `process`, which runs a command in the background, and `chain`, which calls `ExecuteTool`.

The events of a registry record what the calls did, in order.  What the calls take from outside (the answers
of approval handlers, the results of commands, what the other tools do) may depend on all that happened
before.
-/

namespace RavBot.Tools

open RavBot.Lib
open RavBot.Security

/-- The function that a tool is registered with. -/
inductive Handler where
  | exec
  | process
  | githubSearchRepos
  | githubSearchCode
  | githubGetRepo
  | chain
  /-- A tool that runs no command. -/
  | other
deriving DecidableEq, Repr

structure ExecResult where
  exitCode : Int
  output : String

inductive ToolEvent where
  /-- A tool is called. -/
  | invoked (handler : Handler) (params : Json)
  /-- `ValidateShellCommand` has returned. -/
  | validated (command : String) (allowed : Bool)
  /-- `RequestApproval` has returned. -/
  | requested (command : String) (decision : ApprovalDecision)
  /-- `exec_capture` is started. -/
  | executed (command : String) (timeout : Int)

structure McpToolManager where
  serverName : String → String
  originalToolName : String → String

structure ToolRegistry where
  tools : Table String Handler
  externalTools : List String
  permissionChecker : Option ToolPermissionChecker
  mcpToolManager : Option McpToolManager

/-- What comes from outside, after what happened so far. -/
structure Outside where
  approval : List ToolEvent → ExecApprovalManager.ApprovalInputs
  execCapture : List ToolEvent → ExecResult
  /-- What a tool that runs no command returns or throws. -/
  answer : List ToolEvent → Except String String
  /-- The id of a background session. -/
  generateId : List ToolEvent → String
  /-- The text of a value. -/
  dump : Json → String
  /-- What a `github` tool makes of the output of its command. -/
  report : Handler → String → String

structure ToolState where
  approvalManager : Option ExecApprovalManager
  events : List ToolEvent

/-- `kToolResultMaxBytes`. -/
def toolResultMaxBytes : Nat := 50000

/-! ## Commands -/

def emit (e : ToolEvent) : Effect ToolState Unit :=
  modify fun s => { s with events := s.events ++ [e] }

/-- What `exec_tool` makes of an output that is too large. -/
def truncateOutput (output : String) : String :=
  let size := output.toList.length
  if toolResultMaxBytes < size then
    let keepHead := toolResultMaxBytes / 2
    let keepTail := toolResultMaxBytes / 2
    String.ofList (output.toList.take keepHead) ++ "\n\n... [TRUNCATED: output too large (" ++ toString size ++
      " bytes), showing first " ++ toString keepHead ++ " and last " ++ toString keepTail ++
      " bytes] ...\n\n" ++ String.ofList (output.toList.drop (size - keepTail))
  else output

def validateCommand (command : String) : Effect ToolState Unit := do
  emit (.validated command (Sandbox.validateShellCommand command))
  if Sandbox.validateShellCommand command = false then throw ("Command not allowed: " ++ command)

/-- What `exec_tool` makes of a decision. -/
def approvalResult (command : String) : ApprovalDecision → Except String Unit
  | .denied => .error ("Command execution denied: " ++ command)
  | .timeout => .error ("Approval timed out: " ++ command)
  | _ => .ok ()

/-- The approval of a command. -/
def approveCommand (outside : Outside) (command : String) : Effect ToolState Unit := do
  let s ← get
  match s.approvalManager with
  | none => return
  | some m =>
    let request := m.requestApproval command "" "" "" (outside.approval s.events)
    set { s with approvalManager := some request.2 }
    emit (.requested command request.1)
    Effect.ofExcept (approvalResult command request.1)

/-- What `exec_tool` makes of the result of a command. -/
def commandResult (command : String) (result : ExecResult) : Except String String :=
  if result.exitCode = -1 then .error ("Failed to execute: " ++ command)
  else if result.exitCode = -2 then .error ("Command timeout: " ++ command)
  else if result.exitCode ≠ 0 then
    .error ("Command exited " ++ toString result.exitCode ++ ": " ++ result.output)
  else .ok (truncateOutput result.output)

def runCommand (outside : Outside) (command : String) (timeout : Int) : Effect ToolState String := do
  emit (.executed command timeout)
  let s ← get
  Effect.ofExcept (commandResult command (outside.execCapture s.events))

def execTool (outside : Outside) (params : Json) : Effect ToolState String := do
  match params.find? "command" with
  | none => throw "Missing required parameter: command"
  | some v => do
      let command ← Effect.ofOption typeError v.getString
      let timeout ← Effect.ofOption typeError (params.value Json.getInt "timeout" 30)
      validateCommand command
      approveCommand outside command
      runCommand outside command timeout

/-! ## Tools of GitHub -/

def validLimit (limit : Int) : Int := if limit < 1 then 1 else if 100 < limit then 100 else limit

def languageFilter (params : Json) : Option String :=
  match params.find? "language" with
  | none => some ""
  | some v => v.getString.map fun language => if language = "" then "" else " --language " ++ language

/-- A parameter that must be a string.  Where it is missing, the behaviour is undefined; here it throws. -/
def stringParam (params : Json) (key : String) : Option String := (params.find? key).bind Json.getString

def searchReposCommand (params : Json) : Option String := do
  let query ← stringParam params "query"
  let sort ← params.value Json.getString "sort" "stars"
  let limit ← params.value Json.getInt "limit" 20
  let language ← languageFilter params
  return "gh search repos \"" ++ query ++ "\" --sort " ++ sort ++ " --limit " ++ toString (validLimit limit) ++
    " --json name,description,stargazerCount,url,owner,language,updatedAt" ++ language

def searchCodeCommand (params : Json) : Option String := do
  let query ← stringParam params "query"
  let limit ← params.value Json.getInt "limit" 20
  let language ← languageFilter params
  return "gh search code \"" ++ query ++ "\" --limit " ++ toString (validLimit limit) ++
    " --json repository,path,url" ++ language

def getRepoCommand (params : Json) : Option String := do
  let repo ← stringParam params "repo"
  return "gh repo view " ++ repo ++ " --json name,description,stargazerCount,forkCount,url,owner," ++
    "language,createdAt,updatedAt,pushedAt,isPrivate,isFork,licenseInfo,repositoryTopics"

/-- A tool that builds a command, hands it to `exec_tool`, and catches what that throws. -/
def githubTool (outside : Outside) (handler : Handler) (buildCommand : Json → Option String)
    (onError : String → String) (params : Json) : Effect ToolState String := do
  let command ← Effect.ofOption typeError (buildCommand params)
  let execParams := Json.object [("command", .str command), ("timeout", .int 30)]
  match ← (execTool outside execParams).attempt with
  | .ok result => return outside.report handler result
  | .error error => return onError error

def githubSearchReposTool (outside : Outside) : Json → Effect ToolState String :=
  githubTool outside .githubSearchRepos searchReposCommand fun _ =>
    outside.dump (.object [("error", .str "GitHub CLI not available or authentication failed"),
      ("hint", .str "Install gh CLI and run: gh auth login"), ("results", .arr [])])

def githubSearchCodeTool (outside : Outside) : Json → Effect ToolState String :=
  githubTool outside .githubSearchCode searchCodeCommand fun error =>
    "Error searching GitHub code: " ++ error ++
      "\nMake sure gh CLI is installed and authenticated (run: gh auth login)"

def githubGetRepoTool (outside : Outside) : Json → Effect ToolState String :=
  githubTool outside .githubGetRepo getRepoCommand fun error =>
    "Error getting repository info: " ++ error ++
      "\nMake sure gh CLI is installed and authenticated (run: gh auth login)"

/-! ## Background sessions -/

def otherTool (outside : Outside) : Effect ToolState String := do
  let s ← get
  Effect.ofExcept (outside.answer s.events)

/-- The command of a session runs as soon as the session is started.  The other actions run no command. -/
def processTool (outside : Outside) (params : Json) : Effect ToolState String := do
  let action ← Effect.ofOption typeError (params.value Json.getString "action" "list")
  if action = "list" then otherTool outside
  else if action = "start" then do
    let command ← Effect.ofOption typeError (params.value Json.getString "command" "")
    if command = "" then throw "command is required for process start"
    else do
      emit (.executed command 300)
      let s ← get
      return outside.dump (.object [("ok", .bool true), ("id", .str (outside.generateId s.events))])
  else do
    let id ← Effect.ofOption typeError (params.value Json.getString "id" "")
    if id = "" then throw ("id is required for action: " ++ action)
    else otherTool outside

/-! ## The registry -/

def chainTool (outside : Outside) (executor : String → Json → Effect ToolState String) (params : Json) :
    Effect ToolState String := do
  let chainDef ← Effect.ofOption typeError (ToolChainExecutor.parseChain params)
  let result ← ToolChainExecutor.execute executor chainDef
  Effect.ofOption typeError ((ToolChainExecutor.resultToJson result).dump.map outside.dump)

namespace ToolRegistry

/-- `RegisterBuiltinTools` and `RegisterChainTool`, on a new registry. -/
def builtinTools : List (String × Handler) :=
  [("read", .other), ("write", .other), ("edit", .other), ("exec", .exec), ("bash", .exec),
    ("apply_patch", .other), ("process", .process), ("message", .other), ("web_search", .other),
    ("web_fetch", .other), ("memory_search", .other), ("memory_get", .other), ("memory_write", .other),
    ("github_search_repos", .githubSearchRepos), ("github_search_code", .githubSearchCode),
    ("github_get_repo", .githubGetRepo), ("chain", .chain)]

/-- A registry with the tools that are built in. -/
def builtin : ToolRegistry where
  tools := builtinTools.foldl (fun tools tool => AList.insert tool.1 tool.2 tools) ∅
  externalTools := []
  permissionChecker := none
  mcpToolManager := none

def checkPermission (r : ToolRegistry) (toolName : String) : Bool :=
  match r.permissionChecker with
  | none => true
  | some checker =>
    match r.mcpToolManager with
    | some manager =>
      if toolName ∈ r.externalTools then
        checker.isMcpToolAllowed (manager.serverName toolName) (manager.originalToolName toolName)
      else checker.isAllowed toolName
    | none => checker.isAllowed toolName

/-- The call of a function.  `chain` calls tools through the executor. -/
def call (outside : Outside) (executor : String → Json → Effect ToolState String) (params : Json) :
    Handler → Effect ToolState String
  | .exec => execTool outside params
  | .process => processTool outside params
  | .githubSearchRepos => githubSearchReposTool outside params
  | .githubSearchCode => githubSearchCodeTool outside params
  | .githubGetRepo => githubGetRepoTool outside params
  | .chain => chainTool outside executor params
  | .other => otherTool outside

/-- `ExecuteTool`, in which chains may be nested so deep. -/
def executeToolWithin (r : ToolRegistry) (outside : Outside) : Nat → String → Json → Effect ToolState String
  | 0, _, _ => throw ""
  | depth + 1, toolName, parameters =>
    match r.tools.lookup toolName with
    | none => throw ("Tool not found: " ++ toolName)
    | some handler =>
      if r.checkPermission toolName then do
        -- The parameters are dumped for the log.
        let _ ← Effect.ofOption typeError parameters.dump
        emit (.invoked handler parameters)
        call outside (r.executeToolWithin outside depth) parameters handler
      else throw ("Permission denied: tool '" ++ toolName ++ "' is not allowed")

def executeTool (r : ToolRegistry) (outside : Outside) (toolName : String) (parameters : Json) :
    Effect ToolState String :=
  r.executeToolWithin outside (parameters.depth + 1) toolName parameters

def executeTools (r : ToolRegistry) (outside : Outside) (calls : List (String × Json)) (s : ToolState) :
    ToolState :=
  calls.foldl (fun s call => ((r.executeTool outside call.1 call.2).outcome s).2) s

theorem chainTool_congr (outside : Outside) {executor executor' : String → Json → Effect ToolState String}
    {params : Json}
    (h : ∀ toolName args, args.depth < params.depth → executor toolName args = executor' toolName args) :
    chainTool outside executor params = chainTool outside executor' params := by
  rw [chainTool, chainTool]
  refine Effect.ofOption_bind_congr fun chainDef hparse => ?_
  rw [ToolChainExecutor.execute_congr h (ToolChainExecutor.depth_lt_of_parseChain hparse)]

theorem executeToolWithin_eq (r : ToolRegistry) (outside : Outside) {depth : Nat} {toolName : String}
    {parameters : Json} (h : parameters.depth < depth) :
    r.executeToolWithin outside depth toolName parameters = r.executeTool outside toolName parameters := by
  have hsame : ∀ d d' toolName (parameters : Json), parameters.depth < d → parameters.depth < d' →
      r.executeToolWithin outside d toolName parameters =
        r.executeToolWithin outside d' toolName parameters := by
    intro d
    induction d with
    | zero => exact fun _ _ _ h => absurd h (Nat.not_lt_zero _)
    | succ d ih =>
      intro d' toolName parameters hd hd'
      cases d' with
      | zero => exact absurd hd' (Nat.not_lt_zero _)
      | succ d' =>
        have hcall (handler : Handler) :
            call outside (r.executeToolWithin outside d) parameters handler =
              call outside (r.executeToolWithin outside d') parameters handler := by
          cases handler with
          | chain =>
            refine chainTool_congr outside fun toolName args hargs => ?_
            exact ih d' toolName args (hargs.trans_le (Nat.le_of_lt_succ hd))
              (hargs.trans_le (Nat.le_of_lt_succ hd'))
          | _ => rfl
        rw [executeToolWithin, executeToolWithin]
        cases r.tools.lookup toolName with
        | none => rfl
        | some handler =>
          dsimp only
          rw [hcall handler]
  exact hsame _ _ _ _ h (Nat.lt_succ_self _)

/-- **Chains end.**  Whatever chains lie in the parameters, a step of a chain calls `ExecuteTool` itself: the depth
that the model gives it is never used up. -/
theorem executeTool_recurses (r : ToolRegistry) (outside : Outside) (toolName : String) (parameters : Json) :
    r.executeTool outside toolName parameters =
      match r.tools.lookup toolName with
      | none => throw ("Tool not found: " ++ toolName)
      | some handler =>
        if r.checkPermission toolName then do
          let _ ← Effect.ofOption typeError parameters.dump
          emit (.invoked handler parameters)
          call outside (r.executeTool outside) parameters handler
        else throw ("Permission denied: tool '" ++ toolName ++ "' is not allowed") := by
  have hcall (handler : Handler) :
      call outside (r.executeToolWithin outside parameters.depth) parameters handler =
        call outside (r.executeTool outside) parameters handler := by
    cases handler with
    | chain => exact chainTool_congr outside fun _ _ hargs => r.executeToolWithin_eq outside hargs
    | _ => rfl
  rw [executeTool, executeToolWithin]
  cases r.tools.lookup toolName with
  | none => rfl
  | some handler =>
    dsimp only
    rw [hcall handler]

end ToolRegistry

end RavBot.Tools
