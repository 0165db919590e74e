import RavBot.Core.AgentLoop
import RavBot.Lib.JsonText
import RavBot.Lib.LineDecoder

/-!
# Decoders of streamed replies

The callbacks that decode the stream of a reply from OpenAI and from Anthropic while it arrives.  Both collect
the calls of tools, whose arguments arrive in pieces, and report them together before the end of the stream.
What they report up to the end does not depend on how the stream is cut into chunks
(`upToEnd_streamCallbacks`).
-/

namespace RavBot.Providers

open RavBot.Core RavBot.Lib

/-- `ChatCompletionResponse`, as the decoders fill it in. -/
structure DecodedResponse extends ChatCompletionResponse where
  content := ""
  toolCalls := []
  finishReason : String := ""

/-- `PendingToolCall`: a call of a tool of which some pieces have arrived. -/
structure PendingToolCall where
  id : String := ""
  name : String := ""
  arguments : String := ""
  deriving DecidableEq, Inhabited

def endResponse : DecodedResponse := { isStreamEnd := true }

def textResponse (content : String) : DecodedResponse := { content }

/-- The call that the pieces make.  Arguments that are no JSON become an empty object. -/
def PendingToolCall.toolCall (parser : Json.Parser) (pending : PendingToolCall) : ToolCall :=
  ⟨pending.id, pending.name, (parser.parse pending.arguments).getD (.obj [])⟩

def toolCallsResponse (parser : Json.Parser) (pending : List PendingToolCall) : DecodedResponse :=
  { finishReason := "tool_calls", toolCalls := pending.map (·.toolCall parser) }

def reportPending (parser : Json.Parser) (pending : List PendingToolCall) : List DecodedResponse :=
  if pending.isEmpty then [] else [toolCallsResponse parser pending]

def stripReturn (line : List Char) : List Char :=
  if line.getLast? = some '\r' then line.dropLast else line

def access {α : Type} : Option α → Except String α
  | some a => .ok a
  | none => .error "json.exception.type_error"

/-! ## OpenAI -/

/-- `choices[0]`, if there are choices. -/
def firstChoice (j : Json) : Except String (Option Json) :=
  match j.find? "choices" with
  | none => .ok none
  | some choices =>
    if choices.isEmpty then .ok none
    else match choices with
      | .arr (choice :: _) => .ok (some choice)
      | _ => access none

def contentDelta (delta : Json) : Except String (Option String) :=
  match delta.find? "content" with
  | none | some .null => .ok none
  | some content => access (content.getString.map some)

def overwrite (delta : Json) (key old : String) : Option String :=
  match delta.find? key with
  | none | some .null => some old
  | some value => value.getString

/-- The pieces of a call in a delta.  The calls are numbered by `index`; a negative one is an access out of
bounds. -/
def toolCallDelta (pending : List PendingToolCall) (delta : Json) : Option (List PendingToolCall) := do
  let index ← delta.value Json.getInt "index" 0
  if index < 0 then none
  else
    let pending := pending ++ List.replicate (index.toNat + 1 - pending.length) default
    let call := pending.getD index.toNat default
    let fn := (delta.find? "function").getD .null
    let id ← overwrite delta "id" call.id
    let name ← overwrite fn "name" call.name
    let arguments ← overwrite fn "arguments" ""
    return pending.set index.toNat ⟨id, name, call.arguments ++ arguments⟩

/-- The calls after the pieces in a delta. -/
def toolCallDeltas (pending : List PendingToolCall) (delta : Json) : Option (List PendingToolCall) :=
  match delta.find? "tool_calls" with
  | some (.arr items) => items.foldlM toolCallDelta pending
  | _ => some pending

/-- What `StreamWriteCallback` reads of a choice before it reports anything: the delta, the reason to finish
and the text. -/
def readChoice (choice : Json) : Except String (Json × String × Option String) := do
  let delta ← access (choice.value some "delta" (.obj []))
  let finishReason ← access (choice.value Json.getString "finish_reason" "")
  let content ← contentDelta delta
  return (delta, finishReason, content)

/-- `StreamWriteCallback`: a choice. -/
def streamChoice (parser : Json.Parser) (pending : List PendingToolCall) (choice : Json) :
    Reaction (List PendingToolCall) DecodedResponse :=
  match readChoice choice with
  | .error what => { state := pending, flow := .throws what }
  | .ok (delta, finishReason, content) =>
    let out := content.toList.map textResponse
    match access (toolCallDeltas pending delta) with
    | .error what => { state := pending, out, flow := .throws what }
    | .ok pending =>
      if finishReason = "tool_calls" then
        { state := [], out := out ++ reportPending parser pending }
      else { state := pending, out }

/-- `StreamWriteCallback`: a line. -/
def streamLine (parser : Json.Parser) (pending : List PendingToolCall) (line : List Char) :
    Reaction (List PendingToolCall) DecodedResponse :=
  let line := stripReturn line
  if line.take 6 ≠ "data: ".toList then { state := pending }
  else
    let data := String.ofList (line.drop 6)
    if data = "[DONE]" then
      { state := [], out := reportPending parser pending ++ [endResponse], flow := .stop }
    else match parser.parse data with
      | none => { state := pending }
      | some j =>
        match firstChoice j with
        | .error what => { state := pending, flow := .throws what }
        | .ok none => { state := pending }
        | .ok (some choice) => streamChoice parser pending choice

/-- What `StreamWriteCallback` reports when it is handed chunks. -/
def streamCallbacks (parser : Json.Parser) (chunks : List (List Char)) :
    List (Except String DecodedResponse) :=
  run (streamLine parser) [] [] chunks

/-! ## Anthropic -/

/-- `AnthropicStreamContext`: the type of the event and the calls. -/
structure AnthropicStreamContext where
  eventType : String := ""
  pendingToolCalls : List PendingToolCall := []

def dropBlank : List Char → List Char
  | ' ' :: s => s
  | s => s

/-- A call that begins in a block, if the block is one. -/
def blockToolCall (block : Json) : Option (List PendingToolCall) := do
  let type ← block.value Json.getString "type" ""
  if type = "tool_use" then
    let id ← block.value Json.getString "id" ""
    let name ← block.value Json.getString "name" ""
    return [{ id, name }]
  else return []

def appendArguments (pending : List PendingToolCall) (piece : String) : List PendingToolCall :=
  pending.modify (pending.length - 1) fun call => { call with arguments := call.arguments ++ piece }

/-- `AnthropicStreamWriteCallback`: the data of an event. -/
def anthropicEvent (parser : Json.Parser) (ctx : AnthropicStreamContext) (j : Json) :
    Reaction AnthropicStreamContext DecodedResponse :=
  let throws : Reaction AnthropicStreamContext DecodedResponse :=
    { state := ctx, flow := .throws "json.exception.type_error" }
  if ctx.eventType = "content_block_start" then
    match j.find? "content_block" with
    | none => { state := ctx }
    | some block =>
      match blockToolCall block with
      | none => throws
      | some call => { state := { ctx with pendingToolCalls := ctx.pendingToolCalls ++ call } }
  else if ctx.eventType = "content_block_delta" then
    match j.find? "delta" with
    | none => { state := ctx }
    | some delta =>
      match delta.value Json.getString "type" "" with
      | none => throws
      | some type =>
        if type = "text_delta" then
          match delta.value Json.getString "text" "" with
          | none => throws
          | some text => { state := ctx, out := [textResponse text] }
        else if type = "input_json_delta" ∧ ctx.pendingToolCalls ≠ [] then
          match delta.value Json.getString "partial_json" "" with
          | none => throws
          | some piece =>
            { state :=
                { ctx with pendingToolCalls := appendArguments ctx.pendingToolCalls piece } }
        else { state := ctx }
  else if ctx.eventType = "message_stop" then
    { state := { ctx with pendingToolCalls := [] }
      out := reportPending parser ctx.pendingToolCalls ++ [endResponse]
      flow := .stop }
  else { state := ctx }

/-- `AnthropicStreamWriteCallback`: a line. -/
def anthropicLine (parser : Json.Parser) (ctx : AnthropicStreamContext) (line : List Char) :
    Reaction AnthropicStreamContext DecodedResponse :=
  let line := stripReturn line
  if line.take 6 = "event:".toList then
    { state := { ctx with eventType := String.ofList (dropBlank (line.drop 6)) } }
  else if line.take 5 = "data:".toList then
    match parser.parse (String.ofList (dropBlank (line.drop 5))) with
    | none => { state := ctx }
    | some j => anthropicEvent parser ctx j
  else { state := ctx }

/-- What `AnthropicStreamWriteCallback` reports when it is handed chunks. -/
def anthropicCallbacks (parser : Json.Parser) (chunks : List (List Char)) :
    List (Except String DecodedResponse) :=
  run (anthropicLine parser) [] {} chunks

/-! ## The end of the stream -/

theorem not_isStreamEnd_of_mem (parser : Json.Parser) (pending : List PendingToolCall) :
    ∀ r ∈ reportPending parser pending, ¬r.isStreamEnd := by
  rw [reportPending]
  split_ifs
  · simp
  · simp [toolCallsResponse]

theorem flatMap_reportPending (parser : Json.Parser) (pending : List PendingToolCall) :
    (reportPending parser pending).flatMap (·.toolCalls) = pending.map (·.toolCall parser) := by
  rw [reportPending]
  split_ifs with hempty
  · rw [List.isEmpty_iff] at hempty
    rw [hempty]
    rfl
  · exact List.flatMap_singleton _ _

theorem report_parts (parser : Json.Parser) (texts : List String) (pending : List PendingToolCall) :
    String.join ((texts.map textResponse ++ reportPending parser pending).map (·.content)) =
        String.join texts ∧
      (texts.map textResponse ++ reportPending parser pending).flatMap (·.toolCalls) =
        pending.map (·.toolCall parser) := by
  constructor
  · induction texts with
    | nil =>
      rw [reportPending]
      split_ifs <;> rfl
    | cons text texts ih =>
      rw [List.map_cons, List.cons_append, List.map_cons, Text.join_cons, Text.join_cons, ih]
      rfl
  · rw [List.flatMap_append, flatMap_reportPending, List.flatMap_map]
    have hnone : (texts.flatMap fun text => (textResponse text).toolCalls) = [] :=
      List.flatMap_eq_nil_iff.2 fun _ _ => rfl
    rw [hnone, List.nil_append]

/-- A reaction that goes on or throws, without a report of the end. -/
structure NoEnd {σ : Type} (r : Reaction σ DecodedResponse) : Prop where
  flow : r.flow ≠ .stop
  out : ∀ response ∈ r.out, ¬response.isStreamEnd

theorem stopsAtEnd_of_noEnd {σ : Type} {step : σ → List Char → Reaction σ DecodedResponse}
    (h : ∀ s line, NoEnd (step s line) ∨
      (step s line).flow = .stop ∧ endResponse ∈ (step s line).out) :
    StopsAtEnd step (·.isStreamEnd = true) where
  next s line hflow := by
    rcases h s line with hno | ⟨hstop, -⟩
    · exact hno.out
    · rw [hflow] at hstop
      cases hstop
  stop s line hflow := by
    rcases h s line with hno | ⟨-, hmem⟩
    · exact absurd hflow hno.flow
    · exact ⟨endResponse, hmem, rfl⟩

theorem noEnd_streamChoice (parser : Json.Parser) (pending : List PendingToolCall) (choice : Json) :
    NoEnd (streamChoice parser pending choice) := by
  have htext (content : Option String) : ∀ r ∈ content.toList.map textResponse, ¬r.isStreamEnd := by
    cases content <;> simp [textResponse]
  rw [streamChoice]
  split
  next => exact ⟨nofun, nofun⟩
  next delta finishReason content _ =>
    split
    next => exact ⟨nofun, htext content⟩
    next pending' _ =>
      split_ifs
      · exact ⟨nofun, List.forall_mem_append.2
          ⟨htext content, not_isStreamEnd_of_mem parser pending'⟩⟩
      · exact ⟨nofun, htext content⟩

theorem stopsAtEnd_streamLine (parser : Json.Parser) :
    StopsAtEnd (streamLine parser) (·.isStreamEnd = true) := by
  refine stopsAtEnd_of_noEnd fun pending line => ?_
  rw [streamLine]
  dsimp only
  split_ifs with hdata hdone
  · exact .inl ⟨nofun, nofun⟩
  · exact .inr ⟨rfl, List.mem_append_right _ (List.mem_singleton_self _)⟩
  · refine .inl ?_
    split
    next => exact ⟨nofun, nofun⟩
    next =>
      split
      next => exact ⟨nofun, nofun⟩
      next => exact ⟨nofun, nofun⟩
      next choice _ => exact noEnd_streamChoice parser pending choice

theorem stopsAtEnd_anthropicLine (parser : Json.Parser) :
    StopsAtEnd (anthropicLine parser) (·.isStreamEnd = true) := by
  have hevent (ctx : AnthropicStreamContext) (j : Json) :
      NoEnd (anthropicEvent parser ctx j) ∨
        (anthropicEvent parser ctx j).flow = .stop ∧
          endResponse ∈ (anthropicEvent parser ctx j).out := by
    rw [anthropicEvent]
    split_ifs
    · refine .inl ?_
      split
      next => exact ⟨nofun, nofun⟩
      next => split <;> exact ⟨nofun, nofun⟩
    · refine .inl ?_
      split
      next => exact ⟨nofun, nofun⟩
      next =>
        split
        next => exact ⟨nofun, nofun⟩
        next =>
          split_ifs
          · split
            next => exact ⟨nofun, nofun⟩
            next text _ => exact ⟨nofun, by simp [textResponse]⟩
          · split <;> exact ⟨nofun, nofun⟩
          · exact ⟨nofun, nofun⟩
    · exact .inr ⟨rfl, List.mem_append_right _ (List.mem_singleton_self _)⟩
    · exact .inl ⟨nofun, nofun⟩
  refine stopsAtEnd_of_noEnd fun ctx line => ?_
  rw [anthropicLine]
  split_ifs
  · exact .inl ⟨nofun, nofun⟩
  · split
    next => exact .inl ⟨nofun, nofun⟩
    next j _ => exact hevent ctx j
  · exact .inl ⟨nofun, nofun⟩

/-- What the decoders report up to the end of the stream, exceptions included, does not depend on how the
stream is cut into chunks. -/
theorem upToEnd_streamCallbacks (parser : Json.Parser) {chunks chunks' : List (List Char)}
    (h : chunks.flatten = chunks'.flatten) :
    upToEnd (·.isStreamEnd = true) (streamCallbacks parser chunks) =
        upToEnd (·.isStreamEnd = true) (streamCallbacks parser chunks') ∧
      upToEnd (·.isStreamEnd = true) (anthropicCallbacks parser chunks) =
        upToEnd (·.isStreamEnd = true) (anthropicCallbacks parser chunks') := by
  rw [streamCallbacks, streamCallbacks, anthropicCallbacks, anthropicCallbacks,
    upToEnd_run (stopsAtEnd_streamLine parser) List.not_mem_nil,
    upToEnd_run (stopsAtEnd_streamLine parser) List.not_mem_nil,
    upToEnd_run (stopsAtEnd_anthropicLine parser) List.not_mem_nil,
    upToEnd_run (stopsAtEnd_anthropicLine parser) List.not_mem_nil, h]
  exact ⟨rfl, rfl⟩

def noJson : Json.Parser := ⟨fun _ => none, rfl⟩

/-- A stream of one line, cut within the line. -/
theorem upToEnd_streamCallbacks_done :
    ["data: [DO".toList, "NE]\n".toList].flatten = ["data: [DONE]\n".toList].flatten ∧
      (upToEnd (·.isStreamEnd = true) (streamCallbacks noJson ["data: [DO".toList, "NE]\n".toList]) =
          upToEnd (·.isStreamEnd = true) (streamCallbacks noJson ["data: [DONE]\n".toList]) ∧
        upToEnd (·.isStreamEnd = true)
            (anthropicCallbacks noJson ["data: [DO".toList, "NE]\n".toList]) =
          upToEnd (·.isStreamEnd = true) (anthropicCallbacks noJson ["data: [DONE]\n".toList])) :=
  ⟨by decide, upToEnd_streamCallbacks noJson (by decide)⟩

end RavBot.Providers
