import RavBot.Core.ContextPruner
import RavBot.Core.ContextFocus

/-!
# The context of a turn

`ProcessMessage` and `ProcessMessageStream` build the messages of their first request from the
history in the same way: the history is compacted when it has too many messages, its tool results
are pruned, it is narrowed to the latest turn and compressed; then come the system prompt before
it and the message of the user after it, and a guard removes most of it when the context window
is nearly full.  When a provider finds a request too long all the same, `recoverFromOverflow`
removes half of it.

A range `[end - keep, end)` that does not lie in its vector is undefined behaviour: `none`.
-/

namespace RavBot.Core

open RavBot.Lib

def kContextWindowMinTokens : Int := 16384

structure AgentConfig where
  model : String := "anthropic/claude-sonnet-4-6"
  maxTokens : Int := 8192
  contextWindow : Int := 128000
  autoCompact : Bool := true
  compactMaxMessages : Int := 100
  compactKeepRecent : Int := 20

def getContextWindow (model : String) : Int :=
  let has (part : String) : Bool := Text.contains model part.toList
  if has "claude" then 200000
  else if has "gpt-4o" || has "gpt-4-turbo" then 131072
  else if has "gpt-4" then 8192
  else if has "gpt-3.5" then 16384
  else if has "qwen" || has "deepseek" then 131072
  else 128000

def AgentConfig.window (config : AgentConfig) (resolvedModel : String) : Int :=
  if 0 < config.contextWindow then config.contextWindow else getContextWindow resolvedModel

/-- The messages in `[end - keep, end)`. -/
def lastMessages (keep : Int) (messages : List Message) : Option (List Message) :=
  if 0 ≤ keep ∧ keep ≤ messages.length then some (messages.drop (messages.length - keep.toNat))
  else none

def promptMessages (systemPrompt : String) : List Message :=
  if systemPrompt = "" then [] else [.ofText "system" systemPrompt]

/-! ## The history -/

/-- What auto-compaction says about the messages it removed. -/
def compactionNotice (removed : Int) : Message :=
  .ofText "system" ("[Context compaction: " ++ toString removed ++ " earlier messages were removed. "
    ++ "Your system instructions remain active. "
    ++ "Refer to the system prompt for your identity "
    ++ "and capabilities.]")

/-- Auto-compaction. -/
def autoCompact (config : AgentConfig) (history : List Message) : Option (List Message) :=
  if config.autoCompact ∧ config.compactMaxMessages < history.length ∧
      config.compactKeepRecent < history.length then
    (lastMessages config.compactKeepRecent history).map
      (compactionNotice (history.length - config.compactKeepRecent) :: ·)
  else some history

section Estimates

variable (dumpSize : Json → Nat)

def estimateTokens (messages : List Message) : Option Nat :=
  (messages.mapM (ContextPruner.messageChars dumpSize)).map (·.sum / 4)

def estimateToolTokens (tools : List Json) : Option Nat :=
  (tools.mapM fun (tool : Json) => tool.dump.map dumpSize).map (·.sum / 4)

def compressHistoryForContextBudget (hasPruner : Bool) (history : List Message)
    (systemPrompt latestUserMessage : String) (tools : List Json) (contextWindow : Int) :
    Option (List Message) :=
  if !hasPruner || history.isEmpty || contextWindow ≤ 0 then some history
  else do
    let toolTokens ← estimateToolTokens dumpSize tools
    let promptTokens ← ContextPruner.estimateTokens dumpSize (promptMessages systemPrompt)
    let userTokens ←
      ContextPruner.estimateTokens dumpSize [.ofText "user" latestUserMessage]
    let fixedTokens : Int := toolTokens + promptTokens + userTokens
    let thresholdTokens := truncToInt (Float.ofInt contextWindow * 0.9)
    let historyTokens ← ContextPruner.estimateTokens dumpSize history
    if fixedTokens + historyTokens ≤ thresholdTokens then return history
    else ContextPruner.compress dumpSize history (max 0 (thresholdTokens - fixedTokens))

/-- The context window guard.  The notice is the only thing in which the two loops differ. -/
def windowGuard (notice : String) (config : AgentConfig) (contextWindow : Int)
    (systemPrompt : String) (context : List Message) : Option (List Message) := do
  let estimated ← estimateTokens dumpSize context
  let keep := min config.compactKeepRecent context.length
  if contextWindow - kContextWindowMinTokens < estimated + config.maxTokens ∧
      keep < context.length then
    return promptMessages systemPrompt ++ .ofText "system" notice :: (← lastMessages keep context)
  else return context

end Estimates

/-- What the guard of `ProcessMessage` says. -/
def guardNotice : String :=
  "[Context compaction forced: context window nearly full. Earlier messages removed.]"

/-- What the guard of `ProcessMessageStream` says. -/
def streamGuardNotice : String := "[Context compaction forced: context window nearly full.]"

/-- The notice that a user repeats a message. -/
def duplicateNotice (occurrences : Nat) : String :=
  if occurrences = 0 then ""
  else "[SYSTEM NOTICE: The user has sent a very similar message " ++ toString (occurrences + 1) ++
    " times. " ++ "Please acknowledge this repetition in your response and ask if " ++
    "there's something unclear or if they need different information.]"

/-! ## Overflow -/

def kOverflowCompactionMaxRetries : Nat := 3

def overflowNotice : String := "[Context overflow recovery: older messages removed.]"

def overflowKeep (messages : List Message) : Nat := max 2 (messages.length / 2)

def recoverFromOverflow (systemPrompt : String) (messages : List Message) :
    Option (List Message) :=
  (lastMessages (overflowKeep messages) messages).map
    (promptMessages systemPrompt ++ .ofText "system" overflowNotice :: ·)

/-! ## The context -/

/-- What a turn has from outside: the configuration and parts of the agent loop, and the message,
the history and the prompt it is called with. -/
structure TurnInput where
  config : AgentConfig := {}
  tools : List Json := []
  hasPruner : Bool := true
  resolvedModel : String := config.model
  message : String
  history : List Message := []
  systemPrompt : String := ""

namespace TurnInput

variable (dumpSize : Json → Nat) (input : TurnInput)

/-- The history that goes into the context. -/
def effectiveHistory : Option (List Message) := do
  let history ← autoCompact input.config input.history
  let history ← ContextPruner.prune dumpSize history {}
  let history := focusHistoryOnLatestTurn history input.message
  compressHistoryForContextBudget dumpSize input.hasPruner history input.systemPrompt
    input.message input.tools (input.config.window input.resolvedModel)

/-- The messages of the first request, with the given notices. -/
def contextWith (notice duplicate : String) : Option (List Message) := do
  let history ← effectiveHistory dumpSize input
  windowGuard dumpSize notice input.config (input.config.window input.resolvedModel)
    input.systemPrompt (promptMessages input.systemPrompt ++ promptMessages duplicate ++ history ++
      [.ofText "user" input.message])

/-- The messages of the first request of `ProcessMessage`, when the user has sent a similar message
some times before. -/
def context (occurrences : Nat) : Option (List Message) :=
  contextWith dumpSize input guardNotice (duplicateNotice occurrences)

/-- The messages of the first request of `ProcessMessageStream`. -/
def streamContext : Option (List Message) := contextWith dumpSize input streamGuardNotice ""

end TurnInput

end RavBot.Core
