import RavBot.Core.Configuration

/-!
# What a configuration has to look like

The shapes that the sections of a configuration have to have for it to be read, and which of the fields
`validate` looks at.  A configuration that passes is read exactly when the other fields have the types that they
are read as (`loads_iff`).
-/

namespace RavBot.Core.Configuration

open RavBot.Lib
open RavBot.Lib.JsonShape

/-! ## The shapes of the sections -/

def bothSpellings (t : JsonType) (key key' : String) : List (String × JsonShape) :=
  [(key', .type t), (key, .type t)]

/-- The fields of an agent that `validate` looks at. -/
def checkedAgent : List (String × JsonShape) :=
  bothSpellings .int "maxIterations" "max_iterations" ++ [("temperature", .type .double)] ++
  bothSpellings .int "maxTokens" "max_tokens" ++ bothSpellings .int "contextWindow" "context_window"

/-- The fields of an agent that it does not look at, or not closely enough. -/
def uncheckedAgent : List (String × JsonShape) :=
  [("thinking", .type .string), ("fallbacks", .type .strings)] ++
  bothSpellings .bool "autoCompact" "auto_compact" ++
  bothSpellings .int "compactMaxMessages" "compact_max_messages" ++
  bothSpellings .int "compactKeepRecent" "compact_keep_recent" ++
  bothSpellings .int "compactMaxTokens" "compact_max_tokens" ++
  bothSpellings .int "compactTimeoutSeconds" "compact_timeout_seconds"

/-- The fields of a model. -/
def modelFields : List (String × JsonShape) :=
  [("id", .type .string), ("name", .type .string), ("reasoning", .type .bool), ("input", .type .strings),
    ("cost", .ifObject ([("input", .type .double), ("output", .type .double)] ++
      bothSpellings .double "cacheRead" "cache_read" ++ bothSpellings .double "cacheWrite" "cache_write"))] ++
  bothSpellings .int "contextWindow" "context_window" ++ bothSpellings .int "maxTokens" "max_tokens"

/-- The fields of a provider that `validate` looks at. -/
def checkedProvider : List (String × JsonShape) :=
  bothSpellings .string "apiKey" "api_key" ++ bothSpellings .string "baseUrl" "base_url" ++
  [("timeout", .type .int)]

def uncheckedProvider : List (String × JsonShape) :=
  [("api", .type .string), ("models", .items (.object modelFields))]

/-- The fields of a channel that `validate` looks at. -/
def checkedChannel : List (String × JsonShape) :=
  [("enabled", .type .bool), ("token", .type .string), ("botToken", .type .string)]

def uncheckedChannel : List (String × JsonShape) := [("allowed_ids", .type .strings)]

def toolFields : List (String × JsonShape) :=
  [("enabled", .type .bool), ("allowed_paths", .type .strings), ("denied_paths", .type .strings),
    ("allowed_cmds", .type .strings), ("denied_cmds", .type .strings), ("timeout", .type .int)]

def permissionFields : List (String × JsonShape) := [("allow", .type .strings), ("deny", .type .strings)]

/-- The fields of the section `mcp`. -/
def mcpFields : List (String × JsonShape) :=
  [("servers", .items (.object [("name", .type .string), ("url", .type .string), ("timeout", .type .int)]))]

/-- The fields of the section `skills`. -/
def skillsFields : List (String × JsonShape) :=
  [("path", .type .string), ("autoApprove", .type .strings), ("load", .ifObject [("extraDirs", .type .strings)]),
    ("entries", .values (.object [("enabled", .type .bool)]))]

/-- The fields of the section `gateway` that `validate` looks at. -/
def checkedGateway : List (String × JsonShape) := [("port", .type .int), ("bind", .type .string)]

/-- The fields of the section `gateway` that it does not look at. -/
def uncheckedGateway : List (String × JsonShape) :=
  [("auth", .object [("mode", .type .string), ("token", .type .string)]),
    ("controlUi", .object [("enabled", .type .bool), ("port", .type .int)])] ++
  bothSpellings .int "healthTimeoutThresholdPercent" "health_timeout_threshold_percent" ++
  bothSpellings .int "healthMaxTimeoutCount" "health_max_timeout_count" ++
  bothSpellings .int "healthDegradedCheckCount" "health_degraded_check_count" ++
  bothSpellings .int "authMaxAttempts" "auth_max_attempts" ++
  bothSpellings .int "authLockoutDurationSec" "auth_lockout_duration_sec"

/-- The field of the section `system` that `validate` looks at. -/
def checkedSystem : List (String × JsonShape) := [("port", .type .int)]

/-- The fields of the section `system` that it does not look at, or only when they are strings. -/
def uncheckedSystem : List (String × JsonShape) :=
  [("name", .type .string), ("version", .type .string), ("logLevel", .type .string),
    ("logRetentionDays", .type .int), ("logMaxSizeMb", .type .int)]

/-- The field of the section `security` that `validate` looks at. -/
def checkedSecurity : List (String × JsonShape) := [("allowLocalExecute", .type .bool)]

/-- The field of the section `security` that it looks at only when it is a string. -/
def uncheckedSecurity : List (String × JsonShape) := [("permissionLevel", .type .string)]

/-- The fields of the section `llm`. -/
def llmFields : List (String × JsonShape) :=
  [("provider", .type .string), ("model", .type .string), ("temperature", .type .double), ("maxTokens", .type .int),
    ("apiKey", .type .string), ("baseUrl", .type .string), ("timeout", .type .int)]

/-- The sections that `validate` looks at. -/
def checkedSections : List (String × JsonShape) :=
  [("agent", .object checkedAgent), ("providers", .values (.object checkedProvider)),
    ("gateway", .object checkedGateway), ("channels", .values (.object checkedChannel)),
    ("system", .object checkedSystem), ("security", .object checkedSecurity)]

/-- The sections that are read wherever they are, but for what `validate` looks at. -/
def uncheckedSections : List (String × JsonShape) :=
  [("system", .ifObject uncheckedSystem), ("llm", .ifObject llmFields), ("agent", .ifObject uncheckedAgent),
    ("gateway", .ifObject uncheckedGateway), ("providers", .values (.ifObject uncheckedProvider)),
    ("models", .ifObject [("providers", .values (.object (checkedProvider ++ uncheckedProvider)))]),
    ("agents", .ifObject [("defaults", .ifObject [("models", .values (.object [("alias", .type .string)])),
      ("model", .ifObject [("primary", .type .string), ("fallbacks", .items (.type .string))])])]),
    ("channels", .values (.ifObject uncheckedChannel)), ("security", .ifObject uncheckedSecurity),
    ("mcp", .ifObject mcpFields), ("skills", .ifObject skillsFields)]

/-- What is read of the tools: the permissions when there are any, else every tool but `exec` and `profile`; and
`exec` is logged, so it has to be UTF-8 when the variables in it are replaced. -/
structure ToolsFit (expand : Json → Json) (tools : Json) : Prop where
  exec : (expand (rawObject tools "exec")).isUtf8 = true
  permission : (tools.contains "allow" = true ∨ tools.contains "deny" = true) → FieldsFit permissionFields tools
  tools : ¬ (tools.contains "allow" = true ∨ tools.contains "deny" = true) →
    ∀ f ∈ tools.objectFields, f.1 ≠ "exec" ∧ f.1 ≠ "profile" → (JsonShape.object toolFields).Fits f.2

/-- What `validate` does not look at has the types that it is read as. -/
structure UncheckedFits (expand : Json → Json) (json : Json) : Prop where
  sections : FieldsFit uncheckedSections json
  /-- Without a section `agent` the agent is read from `agents.defaults`. -/
  defaults : json.contains "agent" = false →
    ∀ agents, json.find? "agents" = some agents → ∀ defaults, agents.find? "defaults" = some defaults →
      (JsonShape.object (checkedAgent ++ uncheckedAgent)).Fits defaults
  tools : ∀ v, json.find? "tools" = some v → v.isObject = true → ToolsFit expand v

end RavBot.Core.Configuration
