import Mathlib.Data.List.TakeDrop
import RavBot.Lib.JsonShape

/-!
# The configuration

The configuration is read from JSON, section by section and field by field, with a default for each field; most
fields have a second spelling, that is read where the first one is not there.  Before, the names of environment
variables in the strings are replaced by their values.  A field of another type makes the whole configuration
throw.  `validate` looks at some of the fields, and says what is wrong with them.
-/

namespace RavBot.Core.Configuration

open RavBot.Lib

/-! ## Environment variables -/

/-- The name of a variable at the start of a text, and the text behind it: `\x24\x7bname\x7d`. -/
def variableAt? : List Char → Option (List Char × List Char)
  | '$' :: '\x7b' :: s =>
    match s.span (· ≠ '\x7d') with
    | ([], _) => none
    | (_, []) => none
    | (name, _ :: rest) => some (name, rest)
  | _ => none

theorem length_of_variableAt? {s name rest : List Char} (h : variableAt? s = some (name, rest)) :
    rest.length < s.length := by
  rw [variableAt?.eq_def] at h
  split at h
  next s =>
    have hlength : (s.span (· ≠ '\x7d')).2.length ≤ s.length := by
      rw [List.span_eq_takeWhile_dropWhile]
      exact (List.dropWhile_suffix _).length_le
    split at h
    next => cases h
    next => cases h
    next hspan =>
      cases h
      rw [hspan, List.length_cons] at hlength
      rw [List.length_cons, List.length_cons]
      omega
  next => cases h

/-- `substitute_env_vars`: a variable that is not set is replaced by nothing.  `getenv` stops at a null
character. -/
def substituteEnvVars (getenv : String → Option String) (s : List Char) : List Char :=
  match h : variableAt? s with
  | some (name, rest) =>
    have := length_of_variableAt? h
    ((getenv (String.ofList (name.takeWhile (· ≠ '\x00')))).getD "").toList ++ substituteEnvVars getenv rest
  | none =>
    match s with
    | [] => []
    | c :: s => c :: substituteEnvVars getenv s
termination_by s.length

mutual

def expandEnvInJson (getenv : String → Option String) : Json → Json
  | .str s => .str (String.ofList (substituteEnvVars getenv s.toList))
  | .obj fields => .obj (expandFields getenv fields)
  | .arr items => .arr (expandItems getenv items)
  | j => j

/-- `expand_env_in_json`: the fields of an object. -/
def expandFields (getenv : String → Option String) : List (String × Json) → List (String × Json)
  | [] => []
  | (key, j) :: fields => (key, expandEnvInJson getenv j) :: expandFields getenv fields

/-- `expand_env_in_json`: the items of an array. -/
def expandItems (getenv : String → Option String) : List Json → List Json
  | [] => []
  | j :: items => expandEnvInJson getenv j :: expandItems getenv items

end

/-! ## The sections -/

def spelled {α : Type} (get : Json → Option α) (json : Json) (key key' : String) (default : α) : Option α := do
  let inner ← json.value get key' default
  json.value get key inner

def kDefaultTemperature : Rat := 7 / 10

structure AgentConfig where
  model : String := "anthropic/claude-sonnet-4-6"
  maxIterations : Int := 32
  temperature : Rat := kDefaultTemperature
  maxTokens : Int := 8192
  contextWindow : Int := 128000
  thinking : String := "off"
  fallbacks : List String := []
  autoCompact : Bool := true
  compactMaxMessages : Int := 100
  compactKeepRecent : Int := 20
  compactMaxTokens : Int := 100000
  compactTimeoutSeconds : Int := 900

def AgentConfig.modelOf (json : Json) : String :=
  match json.find? "model" with
  | some (.str model) => model
  | _ => "anthropic/claude-sonnet-4-6"

def AgentConfig.fromJson (json : Json) : Option AgentConfig := do
  let maxIterations ← spelled Json.getInt json "maxIterations" "max_iterations" 32
  let temperature ← json.value Json.getDouble "temperature" kDefaultTemperature
  let maxTokens ← spelled Json.getInt json "maxTokens" "max_tokens" 8192
  let contextWindow ← spelled Json.getInt json "contextWindow" "context_window" 128000
  let thinking ← json.value Json.getString "thinking" "off"
  let fallbacks ← json.value Json.getStrings "fallbacks" []
  let autoCompact ← spelled Json.getBool json "autoCompact" "auto_compact" true
  let compactMaxMessages ← spelled Json.getInt json "compactMaxMessages" "compact_max_messages" 100
  let compactKeepRecent ← spelled Json.getInt json "compactKeepRecent" "compact_keep_recent" 20
  let compactMaxTokens ← spelled Json.getInt json "compactMaxTokens" "compact_max_tokens" 100000
  let compactTimeoutSeconds ← spelled Json.getInt json "compactTimeoutSeconds" "compact_timeout_seconds" 900
  return { model := AgentConfig.modelOf json, maxIterations, temperature, maxTokens, contextWindow, thinking, fallbacks,
           autoCompact, compactMaxMessages, compactKeepRecent, compactMaxTokens, compactTimeoutSeconds }

structure ModelCost where
  input : Rat := 0
  output : Rat := 0
  cacheRead : Rat := 0
  cacheWrite : Rat := 0

def ModelCost.fromJson (json : Json) : Option ModelCost := do
  let input ← json.value Json.getDouble "input" 0
  let output ← json.value Json.getDouble "output" 0
  let cacheRead ← spelled Json.getDouble json "cacheRead" "cache_read" 0
  let cacheWrite ← spelled Json.getDouble json "cacheWrite" "cache_write" 0
  return { input, output, cacheRead, cacheWrite }

def subsection {α : Type} (fromJson : Json → Option α) (json : Json) (key : String) (default : α) : Option α :=
  match json.find? key with
  | some (.obj fields) => fromJson (.obj fields)
  | _ => some default

structure ModelDefinition where
  id : String
  name : String
  reasoning : Bool
  input : List String
  cost : ModelCost
  contextWindow : Int
  maxTokens : Int

def ModelDefinition.fromJson (json : Json) : Option ModelDefinition := do
  let id ← json.value Json.getString "id" ""
  let name ← json.value Json.getString "name" ""
  let reasoning ← json.value Json.getBool "reasoning" false
  let input ← json.value Json.getStrings "input" ["text"]
  let cost ← subsection ModelCost.fromJson json "cost" {}
  let contextWindow ← spelled Json.getInt json "contextWindow" "context_window" 0
  let maxTokens ← spelled Json.getInt json "maxTokens" "max_tokens" 0
  return { id, name, reasoning, input, cost, contextWindow, maxTokens }

structure ModelEntryConfig where
  modelAlias : String
  params : Json

def rawObject (json : Json) (key : String) : Json :=
  match json.find? key with
  | some (.obj fields) => .obj fields
  | _ => .null

def ModelEntryConfig.fromJson (json : Json) : Option ModelEntryConfig := do
  let modelAlias ← json.value Json.getString "alias" ""
  return { modelAlias, params := rawObject json "params" }

structure ProviderConfig where
  apiKey : String
  baseUrl : String
  api : String := ""
  timeout : Int
  models : List ModelDefinition := []

def readItems {α : Type} (fromJson : Json → Option α) (json : Json) (key : String) : Option (List α) :=
  match json.find? key with
  | some (.arr items) => items.mapM fromJson
  | _ => some []

/-- The fields of an object field, each read on its own. -/
def readEntries {α : Type} (fromJson : Json → Option α) (json : Json) (key : String) :
    Option (List (String × α)) :=
  match json.find? key with
  | some (.obj fields) => fields.mapM fun f => (fromJson f.2).map (f.1, ·)
  | _ => some []

def ProviderConfig.fromJson (json : Json) : Option ProviderConfig := do
  let apiKey ← spelled Json.getString json "apiKey" "api_key" ""
  let baseUrl ← spelled Json.getString json "baseUrl" "base_url" ""
  let api ← json.value Json.getString "api" ""
  let timeout ← json.value Json.getInt "timeout" 30
  let models ← readItems ModelDefinition.fromJson json "models"
  return { apiKey, baseUrl, api, timeout, models }

structure ChannelConfig where
  enabled : Bool
  token : String
  allowedIds : List String
  raw : Json

def ChannelConfig.tokenOf (json : Json) : Option String :=
  match json.find? "botToken" with
  | some token => token.getString
  | none => json.value Json.getString "token" ""

def ChannelConfig.fromJson (json : Json) : Option ChannelConfig := do
  let enabled ← json.value Json.getBool "enabled" false
  let token ← ChannelConfig.tokenOf json
  let allowedIds ← json.value Json.getStrings "allowed_ids" []
  return { enabled, token, allowedIds, raw := json }

structure ToolConfig where
  enabled : Bool
  allowedPaths : List String
  deniedPaths : List String
  allowedCmds : List String
  deniedCmds : List String
  timeout : Int

def ToolConfig.fromJson (json : Json) : Option ToolConfig := do
  let enabled ← json.value Json.getBool "enabled" true
  let allowedPaths ← json.value Json.getStrings "allowed_paths" []
  let deniedPaths ← json.value Json.getStrings "denied_paths" []
  let allowedCmds ← json.value Json.getStrings "allowed_cmds" []
  let deniedCmds ← json.value Json.getStrings "denied_cmds" []
  let timeout ← json.value Json.getInt "timeout" 30
  return { enabled, allowedPaths, deniedPaths, allowedCmds, deniedCmds, timeout }

structure ToolPermissionConfig where
  allow : List String := []
  deny : List String := []

def ToolPermissionConfig.fromJson (json : Json) : Option ToolPermissionConfig := do
  let allow ← json.value Json.getStrings "allow" ["group:fs", "group:runtime"]
  let deny ← json.value Json.getStrings "deny" []
  return { allow, deny }

structure MCPServerConfig where
  name : String
  url : String
  timeout : Int

def MCPServerConfig.fromJson (json : Json) : Option MCPServerConfig := do
  let name ← json.value Json.getString "name" ""
  let url ← json.value Json.getString "url" ""
  let timeout ← json.value Json.getInt "timeout" 30
  return { name, url, timeout }

/-- `MCPConfig::FromJson`: the servers. -/
def MCPConfig.fromJson (json : Json) : Option (List MCPServerConfig) :=
  readItems MCPServerConfig.fromJson json "servers"

/-- `SkillEntryConfig::FromJson`: whether the skill is enabled. -/
def SkillEntryConfig.fromJson (json : Json) : Option Bool := json.value Json.getBool "enabled" true

/-- `SkillsLoadConfig::FromJson`: the extra directories. -/
def SkillsLoadConfig.fromJson (json : Json) : Option (List String) := json.value Json.getStrings "extraDirs" []

structure SkillsConfig where
  path : String := ""
  autoApprove : List String := []
  extraDirs : List String := []
  entries : List (String × Bool) := []
  configs : Json := .null

def SkillsConfig.fromJson (json : Json) : Option SkillsConfig := do
  let path ← json.value Json.getString "path" ""
  let autoApprove ← json.value Json.getStrings "autoApprove" []
  let dirs ← subsection SkillsLoadConfig.fromJson json "load" []
  let extraDirs := if path ≠ "" ∧ dirs = [] then [path] else dirs
  let entries ← readEntries SkillEntryConfig.fromJson json "entries"
  return { path, autoApprove, extraDirs, entries, configs := rawObject json "configs" }

structure GatewayAuthConfig where
  mode : String := "token"
  token : String := ""

def GatewayAuthConfig.fromJson (json : Json) : Option GatewayAuthConfig := do
  let mode ← json.value Json.getString "mode" "token"
  let token ← json.value Json.getString "token" ""
  return { mode, token }

structure GatewayControlUiConfig where
  enabled : Bool := true
  port : Int := 18801

def GatewayControlUiConfig.fromJson (json : Json) : Option GatewayControlUiConfig := do
  let enabled ← json.value Json.getBool "enabled" true
  let port ← json.value Json.getInt "port" 18801
  return { enabled, port }

def present {α : Type} (fromJson : Json → Option α) (json : Json) (key : String) (default : α) : Option α :=
  match json.find? key with
  | some section_ => fromJson section_
  | none => some default

structure GatewayConfig where
  port : Int := 18800
  bind : String := "loopback"
  auth : GatewayAuthConfig := {}
  controlUi : GatewayControlUiConfig := {}
  healthTimeoutThresholdPercent : Int := 80
  healthMaxTimeoutCount : Int := 5
  healthDegradedCheckCount : Int := 3
  authMaxAttempts : Int := 5
  authLockoutDurationSec : Int := 300

def GatewayConfig.fromJson (json : Json) : Option GatewayConfig := do
  let port ← json.value Json.getInt "port" 18800
  let bind ← json.value Json.getString "bind" "loopback"
  let auth ← present GatewayAuthConfig.fromJson json "auth" {}
  let controlUi ← present GatewayControlUiConfig.fromJson json "controlUi" {}
  let healthTimeoutThresholdPercent ←
    spelled Json.getInt json "healthTimeoutThresholdPercent" "health_timeout_threshold_percent" 80
  let healthMaxTimeoutCount ← spelled Json.getInt json "healthMaxTimeoutCount" "health_max_timeout_count" 5
  let healthDegradedCheckCount ← spelled Json.getInt json "healthDegradedCheckCount" "health_degraded_check_count" 3
  let authMaxAttempts ← spelled Json.getInt json "authMaxAttempts" "auth_max_attempts" 5
  let authLockoutDurationSec ← spelled Json.getInt json "authLockoutDurationSec" "auth_lockout_duration_sec" 300
  return { port, bind, auth, controlUi, healthTimeoutThresholdPercent, healthMaxTimeoutCount,
           healthDegradedCheckCount, authMaxAttempts, authLockoutDurationSec }

structure SystemConfig where
  name : String := "RavBot"
  version : String := "0.2.0"
  logLevel : String := "info"
  port : Int := 0
  logRetentionDays : Int := 7
  logMaxSizeMb : Int := 50

def SystemConfig.fromJson (json : Json) : Option SystemConfig := do
  let name ← json.value Json.getString "name" "RavBot"
  let version ← json.value Json.getString "version" "0.2.0"
  let logLevel ← json.value Json.getString "logLevel" "info"
  let port ← json.value Json.getInt "port" 0
  let logRetentionDays ← json.value Json.getInt "logRetentionDays" 7
  let logMaxSizeMb ← json.value Json.getInt "logMaxSizeMb" 50
  return { name, version, logLevel, port, logRetentionDays, logMaxSizeMb }

structure SecurityConfig where
  permissionLevel : String := "auto"
  allowLocalExecute : Bool := true

def SecurityConfig.fromJson (json : Json) : Option SecurityConfig := do
  let permissionLevel ← json.value Json.getString "permissionLevel" "auto"
  let allowLocalExecute ← json.value Json.getBool "allowLocalExecute" true
  return { permissionLevel, allowLocalExecute }

/-- The agent and the provider of the section `llm`. -/
structure LlmSection where
  provider : String
  model : String
  temperature : Rat
  maxTokens : Int
  config : ProviderConfig

/-- The section `llm`. -/
def LlmSection.fromJson (llm : Json) : Option LlmSection := do
  let provider ← llm.value Json.getString "provider" "openai"
  let model ← llm.value Json.getString "model" "anthropic/claude-sonnet-4-6"
  let temperature ← llm.value Json.getDouble "temperature" kDefaultTemperature
  let maxTokens ← llm.value Json.getInt "maxTokens" 8192
  let apiKey ← llm.value Json.getString "apiKey" ""
  let baseUrl ← llm.value Json.getString "baseUrl" ""
  let timeout ← llm.value Json.getInt "timeout" 30
  return { provider, model, temperature, maxTokens, config := { apiKey, baseUrl, timeout } }

/-- The section `tools`. -/
structure ToolsSection where
  execApproval : Json := .null
  permission : ToolPermissionConfig := {}
  tools : List (String × ToolConfig) := []

/-- The section `tools`.  The value of `exec` is logged, which throws when a string in it is not UTF-8. -/
def ToolsSection.fromJson (tools : Json) : Option ToolsSection := do
  let execApproval := rawObject tools "exec"
  let _ ← execApproval.dump
  if tools.contains "allow" ∨ tools.contains "deny" then
    let permission ← ToolPermissionConfig.fromJson tools
    return { execApproval, permission }
  else
    let named ← (tools.items.filter fun f => f.1 ≠ "exec" ∧ f.1 ≠ "profile").mapM fun f =>
      (ToolConfig.fromJson f.2).map (f.1, ·)
    return { execApproval, tools := named }

/-- The agent: the section `agent`, else `agents.defaults`, else what `llm` says. -/
def agentSection (json : Json) (llm : Option LlmSection) : Option AgentConfig :=
  match json.find? "agent" with
  | some (.obj fields) => AgentConfig.fromJson (.obj fields)
  | _ =>
    match (json.find? "agents").bind (·.find? "defaults") with
    | some defaults => AgentConfig.fromJson defaults
    | none =>
      match llm with
      | some llm => some { model := llm.model, temperature := llm.temperature, maxTokens := llm.maxTokens }
      | none => some {}

/-- `agents.defaults.model` as an object. -/
def modelObject (json : Json) (agent : AgentConfig) : Option AgentConfig :=
  match ((json.find? "agents").bind (·.find? "defaults")).bind (·.find? "model") with
  | some (.obj fields) => do
      let model ← (Json.obj fields).value Json.getString "primary" agent.model
      match (Json.obj fields).find? "fallbacks" with
      | some (.arr items) => return { agent with model, fallbacks := ← items.mapM Json.getString }
      | _ => return { agent with model }
  | _ => some agent

def subagentSection (json : Json) : Json :=
  match json.find? "subagents" with
  | some (.obj fields) => .obj fields
  | _ => (((json.find? "agents").bind (·.find? "defaults")).bind (·.find? "subagents")).getD .null

/-- `RavBotConfig`.  Of the entries of a map the last one with a key counts. -/
structure RavBotConfig where
  system : SystemConfig
  agent : AgentConfig
  gateway : GatewayConfig
  security : SecurityConfig
  providers : List (String × ProviderConfig)
  modelProviders : List (String × ProviderConfig)
  modelEntries : List (String × ModelEntryConfig)
  channels : List (String × ChannelConfig)
  mcp : List MCPServerConfig
  skills : SkillsConfig
  tools : ToolsSection
  pluginsConfig : Json
  sessionMaintenanceConfig : Json
  subagentConfig : Json
  browserConfig : Json
  queueConfig : Json

def RavBotConfig.fromJsonExpanded (json : Json) : Option RavBotConfig := do
  let system ← subsection SystemConfig.fromJson json "system" {}
  let llm ← subsection (fun llm => (LlmSection.fromJson llm).map some) json "llm" none
  let agent ← agentSection json llm
  -- the port of the system is one of the default gateway, which the section `gateway` replaces
  let gateway ← subsection GatewayConfig.fromJson json "gateway"
    (if 0 < system.port then { controlUi := { port := system.port } } else {})
  let named ← readEntries ProviderConfig.fromJson json "providers"
  let modelProviders ← readEntries ProviderConfig.fromJson (rawObject json "models") "providers"
  let modelEntries ← readEntries ModelEntryConfig.fromJson (rawObject (rawObject json "agents") "defaults") "models"
  let agent ← modelObject json agent
  let channels ← readEntries ChannelConfig.fromJson json "channels"
  let security ← subsection SecurityConfig.fromJson json "security" {}
  let mcp ← subsection MCPConfig.fromJson json "mcp" []
  let skills ← subsection SkillsConfig.fromJson json "skills" {}
  let tools ← subsection ToolsSection.fromJson json "tools" {}
  return { system, agent, gateway, security,
           providers := (llm.map fun llm => (llm.provider, llm.config)).toList ++ named,
           modelProviders, modelEntries, channels, mcp, skills, tools, pluginsConfig := rawObject json "plugins",
           sessionMaintenanceConfig := ((rawObject json "session").find? "maintenance").getD .null,
           subagentConfig := subagentSection json, browserConfig := rawObject json "browser",
           queueConfig := rawObject json "queue" }

def RavBotConfig.fromJson (getenv : String → Option String) (json : Json) : Option RavBotConfig :=
  RavBotConfig.fromJsonExpanded (expandEnvInJson getenv json)

/-! ## Validation -/

def isNumberInteger : Json → Bool
  | .int _ => true
  | _ => false

def isNumber (j : Json) : Bool := j.getDouble.isSome

def isOneOf (texts : List String) : Json → Bool
  | .str s => s ∈ texts
  | _ => true

def check (json : Json) (key : String) (passes : Json → Bool) (error : String) : List String :=
  match json.find? key with
  | some v => if passes v then [] else [error]
  | none => []

def validateSection (json : Json) (key : String) (errors : Json → List String) : List String :=
  match json.find? key with
  | some v => if v.isObject then errors v else [key ++ ": must be an object"]
  | none => []

def validateEntries (path : String) (errors : String → Json → List String) (entries : Json) : List String :=
  entries.items.flatMap fun f =>
    if f.2.isObject then errors (path ++ "." ++ f.1) f.2 else [path ++ "." ++ f.1 ++ ": must be an object"]

/-- What is wrong with the section `agent`. -/
def validateAgent (agent : Json) : List String :=
  check agent "model" (fun v => v.getString.isSome || v.isObject) "agent.model: must be a string or object" ++
  check agent "maxIterations" isNumberInteger "agent.maxIterations: must be an integer" ++
  check agent "max_iterations" isNumberInteger "agent.max_iterations: must be an integer" ++
  check agent "temperature" isNumber "agent.temperature: must be a number" ++
  check agent "maxTokens" isNumberInteger "agent.maxTokens: must be an integer" ++
  check agent "max_tokens" isNumberInteger "agent.max_tokens: must be an integer" ++
  check agent "contextWindow" isNumberInteger "agent.contextWindow: must be an integer" ++
  check agent "context_window" isNumberInteger "agent.context_window: must be an integer" ++
  check agent "thinking" (isOneOf ["off", "low", "medium", "high"])
    "agent.thinking: must be one of 'off', 'low', 'medium', 'high'" ++
  check agent "fallbacks" (fun v => match v with | .arr _ => true | _ => false) "agent.fallbacks: must be an array"

/-- What is wrong with a provider. -/
def validateProvider (path : String) (provider : Json) : List String :=
  check provider "apiKey" (·.getString.isSome) (path ++ ".apiKey: must be a string") ++
  check provider "api_key" (·.getString.isSome) (path ++ ".api_key: must be a string") ++
  check provider "baseUrl" (·.getString.isSome) (path ++ ".baseUrl: must be a string") ++
  check provider "base_url" (·.getString.isSome) (path ++ ".base_url: must be a string") ++
  check provider "timeout" isNumberInteger (path ++ ".timeout: must be an integer")

/-- What is wrong with the section `gateway`. -/
def validateGateway (gateway : Json) : List String :=
  check gateway "port" isNumberInteger "gateway.port: must be an integer" ++
  check gateway "bind" (·.getString.isSome) "gateway.bind: must be a string"

def validateChannel (path : String) (channel : Json) : List String :=
  check channel "enabled" (·.getBool.isSome) (path ++ ".enabled: must be a boolean") ++
  check channel "token" (·.getString.isSome) (path ++ ".token: must be a string") ++
  check channel "botToken" (·.getString.isSome) (path ++ ".botToken: must be a string")

/-- What is wrong with the section `system`. -/
def validateSystem (system : Json) : List String :=
  check system "logLevel" (isOneOf ["trace", "debug", "info", "warn", "error", "critical", "off"])
    "system.logLevel: must be one of 'trace', 'debug', 'info', 'warn', 'error', 'critical', 'off'" ++
  check system "port" isNumberInteger "system.port: must be an integer"

/-- What is wrong with the section `security`. -/
def validateSecurity (security : Json) : List String :=
  check security "permissionLevel" (isOneOf ["auto", "strict", "permissive"])
    "security.permissionLevel: must be one of 'auto', 'strict', 'permissive'" ++
  check security "allowLocalExecute" (·.getBool.isSome) "security.allowLocalExecute: must be a boolean"

def validate (json : Json) : List String :=
  if json.isObject then
    validateSection json "agent" validateAgent ++
    validateSection json "providers" (validateEntries "providers" validateProvider) ++
    validateSection json "gateway" validateGateway ++
    validateSection json "channels" (validateEntries "channels" validateChannel) ++
    validateSection json "system" validateSystem ++
    validateSection json "security" validateSecurity
  else ["Root configuration must be a JSON object"]

end RavBot.Core.Configuration
