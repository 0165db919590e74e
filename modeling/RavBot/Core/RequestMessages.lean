import RavBot.Core.TurnValidator

/-!
# The messages of a request

What the agent loop does to the messages of a request before it sends them to a provider.  For
Anthropic it repairs the pairing of tool calls and their results, collapses completed tool
turns, merges user messages that follow each other, trims a replay to the current turn and may
add a hint.
-/

namespace RavBot.Core

open RavBot.Lib

/-- `collect_tool_use_ids`: the ids of the tool calls in a message that have one. -/
def collectToolUseIds (msg : Message) : List String :=
  (msg.content.filter fun b => b.isToolUse && b.id ≠ "").map (·.id)

/-- What `repair_anthropic_tool_pairing` keeps of a user message that follows no tool call. -/
def withoutResults (msg : Message) : Message :=
  { role := msg.role, content := msg.content.filter fun b => !b.isToolResult }

/-- What it keeps of a user message that follows calls with the given ids. -/
def withResultsOf (ids : List String) (msg : Message) : Message :=
  { role := msg.role
    content := msg.content.filter fun b =>
      !b.isToolResult || (b.toolUseId ≠ "" && ids.contains b.toolUseId) }

/-- The ids among the given ones for which a message has a result. -/
def matchedToolIds (ids : List String) (msg : Message) : List String :=
  (msg.content.filter fun b =>
    b.isToolResult && b.toolUseId ≠ "" && ids.contains b.toolUseId).map (·.toolUseId)

/-- What it keeps of an assistant message with calls, of which the given ids have results. -/
def withCallsOf (matched : List String) (msg : Message) : Message :=
  let filtered := msg.content.filter fun b => !b.isToolUse || matched.contains b.id
  { role := msg.role
    content := if filtered.isEmpty && !msg.content.isEmpty then [toolCallsOmitted] else filtered }

def unlessEmpty (msg : Message) : List Message := if msg.content.isEmpty then [] else [msg]

def repairAnthropicToolPairing : List Message → List Message
  | [] => []
  | msg :: rest =>
    if msg.role ≠ "assistant" then
      if msg.role = "user" then
        unlessEmpty (withoutResults msg) ++ repairAnthropicToolPairing rest
      else msg :: repairAnthropicToolPairing rest
    else
      let ids := collectToolUseIds msg
      if ids.isEmpty then msg :: repairAnthropicToolPairing rest
      else match rest with
        | next :: rest' =>
          if next.role = "user" then
            withCallsOf (matchedToolIds ids next) msg ::
              unlessEmpty (withResultsOf ids next) ++ repairAnthropicToolPairing rest'
          else withCallsOf [] msg :: repairAnthropicToolPairing (next :: rest')
        | [] => [withCallsOf [] msg]

/-- One message in `merge_consecutive_user_messages`. -/
def mergeUser (merged : List Message) (msg : Message) : List Message :=
  match merged.getLast? with
  | some last =>
    if msg.role = "user" ∧ last.role = "user" then
      merged.dropLast ++ [{ last with content := last.content ++ msg.content }]
    else merged ++ [msg]
  | none => merged ++ [msg]

def mergeConsecutiveUserMessages (messages : List Message) : List Message :=
  messages.foldl mergeUser []

def hasToolUseBlocks (msg : Message) : Bool := msg.content.any (·.isToolUse)

def hasOnlyToolResultBlocks (msg : Message) : Bool :=
  msg.role = "user" && !msg.content.isEmpty && msg.content.all (·.isToolResult)

def hasNonToolResultBlocks (msg : Message) : Bool :=
  msg.role = "user" && msg.content.any (!·.isToolResult)

/-- The messages from the last one with other content than tool results on. -/
def lastTurn : List Message → Option (List Message)
  | [] => none
  | msg :: rest =>
    match lastTurn rest with
    | some turn => some turn
    | none => if hasNonToolResultBlocks msg then some (msg :: rest) else none

def Message.isSystem (msg : Message) : Bool := msg.role = "system"

def trimAnthropicReplayToCurrentTurn (messages : List Message) : List Message :=
  match messages.getLast? with
  | none => messages
  | some last =>
    if hasOnlyToolResultBlocks last then
      match lastTurn (messages.dropWhile (·.isSystem)) with
      | some turn => messages.takeWhile (·.isSystem) ++ turn
      | none => messages
    else messages

/-- The test of `collapse_completed_anthropic_tool_turns` on four messages that follow each
other: a call, its results, an answer without calls, and a user message. -/
def canCollapse (call results answer next : Message) : Bool :=
  call.role = "assistant" && hasToolUseBlocks call && hasOnlyToolResultBlocks results &&
    answer.role = "assistant" && !hasToolUseBlocks answer && next.role = "user"

def collapseCompletedAnthropicToolTurns : List Message → List Message
  | call :: results :: answer :: next :: rest =>
    if canCollapse call results answer next then
      answer :: collapseCompletedAnthropicToolTurns (next :: rest)
    else call :: collapseCompletedAnthropicToolTurns (results :: answer :: next :: rest)
  | msg :: rest => msg :: collapseCompletedAnthropicToolTurns rest
  | [] => []

/-- `collect_trailing_replay_tool_names`: the tools whose results the last message has, as the
last assistant message that has such a call names them. -/
def collectTrailingReplayToolNames (messages : List Message) : List String :=
  if messages.length < 2 then []
  else match messages.reverse with
    | [] => []
    | last :: earlier =>
      if last.role ≠ "user" then []
      else
        let toolResultIds :=
          (last.content.filter fun b => b.isToolResult && b.toolUseId ≠ "").map (·.toolUseId)
        if toolResultIds.isEmpty then []
        else
          let names (msg : Message) : List String :=
            (msg.content.filter fun b => b.isToolUse && b.id ≠ "" &&
              toolResultIds.contains b.id && b.name ≠ "").map (·.name)
          ((earlier.filter (·.role = "assistant")).findSome? fun msg =>
            if (names msg).isEmpty then none else some (names msg)).getD []

/-- The hint that is added when a web search is replayed. -/
def replayHint : String :=
  "[web_search replay hint] Use the existing web_search tool results " ++
    "already present in this conversation. Do not run another web search " ++
    "or output a raw search-results dump. Synthesize the provided results " ++
    "into a concise answer that focuses on the most relevant matches for " ++
    "the user's request."

def maybeAddWebSearchReplayInstruction (messages : List Message)
    (matchedToolNames : List String) : List Message :=
  if matchedToolNames.contains "web_search" then
    if messages.any fun msg =>
        msg.isSystem && (Text.find replayHint.toList msg.text.toList).isSome then messages
    else messages.takeWhile (·.isSystem) ++
      .ofText "system" replayHint :: messages.dropWhile (·.isSystem)
  else messages

/-- `sanitize_request_messages_for_provider`.  A provider is known by its name. -/
def sanitizeRequestMessages (provider : Option String) (validator : Option TurnValidator)
    (messages : List Message) : List Message :=
  let messages :=
    if provider = some "anthropic" then
      let messages := repairAnthropicToolPairing messages
      let messages := collapseCompletedAnthropicToolTurns messages
      let messages := mergeConsecutiveUserMessages messages
      let messages := trimAnthropicReplayToCurrentTurn messages
      maybeAddWebSearchReplayInstruction messages (collectTrailingReplayToolNames messages)
    else messages
  match validator, provider with
  | some validator, some name => validator.validateAndFix messages name
  | _, _ => messages

end RavBot.Core
