import RavBot.Providers.Payloads

/-!
# What the payloads tell

What a message says, as a list of items, and what can be read back from each payload.  The texts of a message
are joined for OpenAI, Google and Qwen; for Anthropic a text that a message repeats is sent once, and the
system messages are joined in the system prompt.

Not covered: what becomes of a text or of a call of a tool in a message for OpenAI that also has the result of
a tool, and of the calls and results in messages for Google and Qwen.
-/

open List

namespace RavBot.Providers

open RavBot.Core RavBot.Lib

/-! ## What messages say -/

inductive Item where
  | text (text : String)
  | toolUse (id name : String) (arguments : Json)
  | toolResult (toolUseId content : String)

/-- What a block says, if anything. -/
def item (b : ContentBlock) : Option Item :=
  if b.type = "text" ∨ b.type = "thinking" then if b.text = "" then none else some (.text b.text)
  else if b.type = "tool_use" then some (.toolUse b.id b.name b.input)
  else if b.type = "tool_result" then some (.toolResult b.toolUseId b.content)
  else none

def said (msg : Message) : List Item := msg.content.filterMap item

namespace Item

def texts (items : List Item) : List String :=
  items.filterMap fun | text s => some s | _ => none

def calls (items : List Item) : List Item := items.filter fun | toolUse .. => true | _ => false

def results (items : List Item) : List Item := items.filter fun | toolResult .. => true | _ => false

def ofText (s : String) : List Item := if s = "" then [] else [text s]

/-- Items without the texts that came before or are `seen`. -/
def once (seen : List String) : List Item → List Item
  | [] => []
  | text s :: items => if s ∈ seen then once seen items else text s :: once (s :: seen) items
  | i :: items => i :: once seen items

/-- Items with their texts joined, the calls behind them and the results last. -/
def joined (items : List Item) : List Item :=
  ofText (String.join (texts items)) ++ calls items ++ results items

end Item

def stringField (j : Json) (key : String) : String :=
  match j.find? key with
  | some (.str s) => s
  | _ => ""

def arrayField (j : Json) (key : String) : List Json :=
  match j.find? key with
  | some (.arr items) => items
  | _ => []

def entries : Json → List Json
  | .arr items => items
  | _ => []

def readCall (parse : String → Option Json) (call : Json) : Option Item := do
  let function ← call.find? "function"
  let arguments ← parse (stringField function "arguments")
  return .toolUse (stringField call "id") (stringField function "name") arguments

/-- What OpenAI is told by an entry. -/
def readEntry (parse : String → Option Json) (entry : Json) : List Item :=
  if entry.contains "tool_call_id" then
    [.toolResult (stringField entry "tool_call_id") (stringField entry "content")]
  else Item.ofText (stringField entry "content") ++
    (arrayField entry "tool_calls").filterMap (readCall parse)

end RavBot.Providers
