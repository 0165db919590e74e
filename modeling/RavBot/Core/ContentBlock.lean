import RavBot.Lib.Json

/-!
# Content blocks

A message is a list of content blocks.  A block has the fields of every type of block, and
its JSON form has those of its own type: what a block keeps through its JSON form is `own`.
-/

namespace RavBot.Core

open RavBot.Lib

structure ContentBlock where
  type : String
  text : String
  id : String
  name : String
  input : Json
  toolUseId : String
  content : String
  deriving Inhabited, Repr

namespace ContentBlock

def ofType (type : String) : ContentBlock :=
  ⟨type, "", "", "", .null, "", ""⟩

def makeText (text : String) : ContentBlock := { ofType "text" with text }

def makeToolUse (id name : String) (input : Json) : ContentBlock :=
  { ofType "tool_use" with id, name, input }

def makeToolResult (toolUseId content : String) : ContentBlock :=
  { ofType "tool_result" with toolUseId, content }

def toJson (b : ContentBlock) : Json :=
  Json.object <| ("type", .str b.type) ::
    if b.type = "text" ∨ b.type = "thinking" then [("text", .str b.text)]
    else if b.type = "tool_use" then
      [("id", .str b.id), ("name", .str b.name), ("input", b.input)]
    else if b.type = "tool_result" then
      [("tool_use_id", .str b.toolUseId), ("content", .str b.content)]
    else []

def fromJson (j : Json) : Option ContentBlock := do
  let type ← j.value Json.getString "type" "text"
  if type = "text" ∨ type = "thinking" then
    let text ← j.value Json.getString "text" ""
    return { ofType type with text }
  else if type = "tool_use" then
    let id ← j.value Json.getString "id" ""
    let name ← j.value Json.getString "name" ""
    let input ← j.value some "input" (.obj [])
    return { ofType type with id, name, input }
  else if type = "tool_result" then
    let toolUseId ← j.value Json.getString "tool_use_id" ""
    let content ← j.value Json.getString "content" ""
    return { ofType type with toolUseId, content }
  else return ofType type

/-- The block with the fields of its own type alone. -/
def own (b : ContentBlock) : ContentBlock :=
  if b.type = "text" ∨ b.type = "thinking" then { ofType b.type with text := b.text }
  else if b.type = "tool_use" then
    { ofType b.type with id := b.id, name := b.name, input := b.input }
  else if b.type = "tool_result" then
    { ofType b.type with toolUseId := b.toolUseId, content := b.content }
  else ofType b.type

theorem fromJson_toJson (b : ContentBlock) : fromJson b.toJson = some b.own := by
  rw [toJson, own]
  split_ifs with htext huse hresult
  · simp [fromJson, htext, List.lookup_cons, Json.getString]
  · simp [fromJson, huse, List.lookup_cons, Json.getString]
  · simp [fromJson, hresult, List.lookup_cons, Json.getString]
  · simp [fromJson, htext, huse, hresult, List.lookup_cons, Json.getString]

theorem mapM_fromJson (bs : List ContentBlock) :
    bs.mapM (fromJson ∘ toJson) = some (bs.map own) := by
  induction bs with
  | nil => rfl
  | cons b bs ih => simp [fromJson_toJson, ih]

@[simp] theorem own_makeText (text : String) : (makeText text).own = makeText text := rfl

theorem isUtf8_makeText (text : String) : (makeText text).toJson.isUtf8 = Text.validUtf8 text := by
  have hform : (makeText text).toJson = Json.object [("type", .str "text"), ("text", .str text)] :=
    rfl
  have hkeys : ∀ s ∈ ["type", "text"], Text.validUtf8 s := by decide
  rw [hform, Json.isUtf8_object (by simp)]
  rw [List.forall_mem_cons, List.forall_mem_singleton] at hkeys
  simp [Json.isUtf8, hkeys]

end ContentBlock

end RavBot.Core
