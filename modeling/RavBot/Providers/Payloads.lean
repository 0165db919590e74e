import RavBot.Core.TurnValidator
import RavBot.Lib.JsonText

/-!
# The messages of a request

How each provider writes the messages of a request.  OpenAI and Anthropic have a form for the calls of
tools and for their results; Google and Qwen are sent the text of each message.  Anthropic takes the system
messages apart from the others.
-/

namespace RavBot.Providers

open RavBot.Core RavBot.Lib

/-! ## OpenAI -/

/-- The loop over the blocks of a message in `serialize_messages_to_anthropic`; `seen` is
`seen_text_blocks`. -/
def anthropicContent (seen : List String) : List ContentBlock → List Json
  | [] => []
  | b :: blocks =>
    if b.type = "text" ∨ b.type = "thinking" then
      if b.text = "" ∨ b.text ∈ seen then anthropicContent seen blocks
      else Json.object [("type", .str "text"), ("text", .str b.text)] ::
        anthropicContent (b.text :: seen) blocks
    else if b.type = "tool_use" then
      Json.object [("type", .str "tool_use"), ("id", .str b.id), ("name", .str b.name),
        ("input", b.input)] :: anthropicContent seen blocks
    else if b.type = "tool_result" then
      Json.object [("type", .str "tool_result"), ("tool_use_id", .str b.toolUseId),
        ("content", .str b.content)] :: anthropicContent seen blocks
    else anthropicContent seen blocks

/-- The entry that `serialize_messages_to_anthropic` adds for a message, if any. -/
def anthropicEntry (msg : Message) : Option Json :=
  if msg.role = "system" then none
  else match anthropicContent [] msg.content with
    | [] => none
    | content => some (Json.object [("role", .str (if msg.role = "tool" then "user" else msg.role)),
        ("content", .arr content)])

/-- What a message adds to the system prompt. -/
def addSystem (systemPrompt : String) (msg : Message) : String :=
  if msg.role = "system" then
    (if systemPrompt ≠ "" then systemPrompt ++ "\n" else systemPrompt) ++ msg.text
  else systemPrompt

/-- `serialize_messages_to_anthropic`: the system prompt and the messages. -/
def serializeMessagesToAnthropic (messages : List Message) : String × Json :=
  (messages.foldl addSystem "", .arr (messages.filterMap anthropicEntry))

/-! ## Google and Qwen -/

end RavBot.Providers
