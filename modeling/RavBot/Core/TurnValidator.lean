import RavBot.Core.ContentBlock
import RavBot.Lib.Table

/-!
# The turn validator

`TurnValidator` brings the messages of a request into the form that a provider asks for.  A
provider has a validator, a function on message lists, or none.
-/

namespace RavBot.Core

open RavBot.Lib

structure Message where
  role : String
  content : List ContentBlock
  timestamp : String := ""
  deriving Inhabited, Repr

namespace Message

/-- The message with a role and one text; a message without content for the empty text. -/
def ofText (role text : String) : Message :=
  { role, content := if text = "" then [] else [.makeText text] }

/-- `text`: the texts of a message, one after the other. -/
def text (msg : Message) : String :=
  msg.content.foldl
    (fun r b => if b.type = "text" ∨ b.type = "thinking" then r ++ b.text else r) ""

end Message

def ContentBlock.isToolUse (b : ContentBlock) : Bool := b.type = "tool_use"

def ContentBlock.isToolResult (b : ContentBlock) : Bool := b.type = "tool_result"

def toolCallsOmitted : ContentBlock := .makeText "[tool calls omitted]"

structure TurnValidator where
  validators : Table String (List Message → List Message)

namespace TurnValidator

/-- The assistant message `msg` in `strip_dangling_tool_uses`, when a user message with
content `nextContent` follows. -/
def stripBefore (msg : Message) (nextContent : List ContentBlock) : Message :=
  let validToolUseIds :=
    (nextContent.filter fun b => b.isToolResult && b.toolUseId ≠ "").map (·.toolUseId)
  if msg.content.any (·.isToolUse) then
    let filtered := msg.content.filter fun b => !b.isToolUse || validToolUseIds.contains b.id
    if filtered.isEmpty then { role := msg.role, content := [toolCallsOmitted] }
    else { role := msg.role, content := filtered }
  else msg

def stripDanglingToolUses : List Message → List Message
  | [] => []
  | msg :: rest =>
    (match rest with
      | next :: _ =>
        if msg.role = "assistant" ∧ next.role = "user" then stripBefore msg next.content
        else msg
      | [] => msg) :: stripDanglingToolUses rest

/-- One message in `merge_consecutive_role`. -/
def mergeRole (role : String) (result : List Message) (msg : Message) : List Message :=
  if msg.content.isEmpty then result
  else match result.getLast? with
    | some last =>
      if last.role = role ∧ msg.role = role then
        result.dropLast ++
          [{ last with
              content := last.content ++ msg.content
              timestamp := if msg.timestamp ≠ "" then msg.timestamp else last.timestamp }]
      else result ++ [msg]
    | none => result ++ [msg]

def mergeConsecutiveRole (messages : List Message) (role : String) : List Message :=
  messages.foldl (mergeRole role) []

def fixAnthropicTurns (messages : List Message) : List Message :=
  mergeConsecutiveRole (stripDanglingToolUses messages) "user"

def fixGoogleTurns (messages : List Message) : List Message :=
  mergeConsecutiveRole messages "assistant"

/-- The validator with its built-in functions. -/
def builtin : TurnValidator where
  validators :=
    AList.insert "gemini" fixGoogleTurns
      (AList.insert "google" fixGoogleTurns (AList.insert "anthropic" fixAnthropicTurns ∅))

def validateAndFix (validator : TurnValidator) (messages : List Message) (providerId : String) :
    List Message :=
  match validator.validators.lookup providerId with
  | some fix => fix messages
  | none => messages

end TurnValidator

end RavBot.Core
