import RavBot.Providers.StreamDecoders

/-!
# Anthropic's event streams

A reply of Anthropic that arrives as a stream of events is decoded in two places: while it arrives, and as a
whole when it was not asked for as a stream.  The two agree on a complete message exactly if no block of text
begins with a text of its own and every call of a tool gets its arguments in pieces that make JSON, or begins
with no input other than the empty object (`agree_iff`).
-/

namespace RavBot.Providers

open RavBot.Core RavBot.Lib

/-! ## Decoding the whole stream -/

/-- `PendingToolCall` of `parse_anthropic_sse_response`.  There is an initial input if
`has_initial_input`. -/
structure PartialToolCall where
  id : String
  name : String
  partialArguments : String := ""
  initialInput : Option Json := none

namespace PartialToolCall

def input (call : PartialToolCall) : Json := call.initialInput.getD (.obj [])

def toolCall (parser : Json.Parser) (call : PartialToolCall) : ToolCall :=
  ⟨call.id, call.name, if call.partialArguments = "" then call.input
    else (parser.parse call.partialArguments).getD call.input⟩

def append (piece : String) (call : PartialToolCall) : PartialToolCall :=
  { call with partialArguments := call.partialArguments ++ piece }

def pending (call : PartialToolCall) : PendingToolCall := ⟨call.id, call.name, call.partialArguments⟩

end PartialToolCall

/-- The local variables of `parse_anthropic_sse_response`. -/
structure EventParser where
  content : String := ""
  pendingToolCalls : List PartialToolCall := []
  currentEventType : String := ""
  stopReason : String := ""

def mapAnthropicStopReason (stopReason : String) : String :=
  if stopReason = "end_turn" then "stop"
  else if stopReason = "tool_use" then "tool_calls"
  else if stopReason = "max_tokens" then "length"
  else stopReason

def appendLast (calls : List PartialToolCall) (piece : String) : List PartialToolCall :=
  calls.modify (calls.length - 1) (·.append piece)

/-- `parse_anthropic_sse_response`: the data of an event. -/
def parseEvent (s : EventParser) (j : Json) : Option EventParser :=
  if s.currentEventType = "content_block_start" then
    match j.find? "content_block" with
    | none => some s
    | some block => do
        let type ← block.value Json.getString "type" ""
        if type = "text" then
          match block.find? "text" with
          | some (.str text) => return { s with content := s.content ++ text }
          | _ => return s
        else if type = "tool_use" then
          let id ← block.value Json.getString "id" ""
          let name ← block.value Json.getString "name" ""
          return { s with
            pendingToolCalls := s.pendingToolCalls ++
              [{ id, name, initialInput := block.find? "input" }] }
        else return s
  else if s.currentEventType = "content_block_delta" then
    match j.find? "delta" with
    | none => some s
    | some delta => do
        let type ← delta.value Json.getString "type" ""
        if type = "text_delta" then
          let text ← delta.value Json.getString "text" ""
          return { s with content := s.content ++ text }
        else if type = "input_json_delta" ∧ s.pendingToolCalls ≠ [] then
          let piece ← delta.value Json.getString "partial_json" ""
          return { s with pendingToolCalls := appendLast s.pendingToolCalls piece }
        else return s
  else if s.currentEventType = "message_delta" then
    match j.find? "delta" with
    | some (.obj fields) => do
        let stopReason ← (Json.obj fields).value Json.getString "stop_reason" s.stopReason
        return { s with stopReason }
    | _ => some s
  else some s

/-- `parse_anthropic_sse_response`: a line. -/
def parseLine (parser : Json.Parser) (s : EventParser) (line : List Char) : Option EventParser :=
  let line := stripReturn line
  if line.take 6 = "event:".toList then
    some { s with currentEventType := String.ofList (dropBlank (line.drop 6)) }
  else if line.take 5 = "data:".toList then
    match parser.parse (String.ofList (dropBlank (line.drop 5))) with
    | none => some s
    | some j => parseEvent s j
  else some s

def parseAnthropicSseResponse (parser : Json.Parser) (response : List Char) :
    Option DecodedResponse := do
  let s ← (Text.lines response).foldlM (parseLine parser) {}
  return { content := s.content
           toolCalls := s.pendingToolCalls.map (·.toolCall parser)
           finishReason := mapAnthropicStopReason s.stopReason }

/-! ## Messages -/

/-- What an event of a message means. -/
inductive MessageEvent where
  | textStart (text : String)
  | toolStart (id name : String) (input : Option Json)
  | textDelta (text : String)
  | jsonDelta (piece : String)
  | other

/-- The data of a named event mean something.  A block of text may begin with a text, a call of a tool with an
input; a delta has text, a piece of arguments or something else; there are pings, and other events. -/
inductive Means : String → Json → MessageEvent → Prop
  | textStart {j block text} : j.find? "content_block" = some block →
      block.value Json.getString "type" "" = some "text" → block.find? "text" = some (.str text) →
      Means "content_block_start" j (.textStart text)
  | emptyStart {j block} : j.find? "content_block" = some block →
      block.value Json.getString "type" "" = some "text" → block.find? "text" = none →
      Means "content_block_start" j .other
  | toolStart {j block id name} : j.find? "content_block" = some block →
      block.value Json.getString "type" "" = some "tool_use" →
      block.value Json.getString "id" "" = some id →
      block.value Json.getString "name" "" = some name →
      Means "content_block_start" j (.toolStart id name (block.find? "input"))
  | otherStart {j block type} : j.find? "content_block" = some block →
      block.value Json.getString "type" "" = some type → type ≠ "text" → type ≠ "tool_use" →
      Means "content_block_start" j .other
  | textDelta {j delta text} : j.find? "delta" = some delta →
      delta.value Json.getString "type" "" = some "text_delta" →
      delta.value Json.getString "text" "" = some text →
      Means "content_block_delta" j (.textDelta text)
  | jsonDelta {j delta piece} : j.find? "delta" = some delta →
      delta.value Json.getString "type" "" = some "input_json_delta" →
      delta.value Json.getString "partial_json" "" = some piece →
      Means "content_block_delta" j (.jsonDelta piece)
  | otherDelta {j delta type} : j.find? "delta" = some delta →
      delta.value Json.getString "type" "" = some type → type ≠ "text_delta" →
      type ≠ "input_json_delta" → Means "content_block_delta" j .other
  | messageDelta {j delta} : j.find? "delta" = some delta →
      (∀ reason, delta.find? "stop_reason" = some reason → ∃ s, reason = .str s) →
      Means "message_delta" j .other
  | otherEvent {name j} : name ≠ "content_block_start" → name ≠ "content_block_delta" →
      name ≠ "message_delta" → name ≠ "message_stop" → Means name j .other

/-- A line that has neither the name of an event nor data: a blank line or a comment. -/
def Ignored (line : List Char) : Prop :=
  (stripReturn line).take 6 ≠ "event:".toList ∧ (stripReturn line).take 5 ≠ "data:".toList

def NamesEvent (line : List Char) (name : String) : Prop :=
  ∃ rest, stripReturn line = "event:".toList ++ rest ∧ String.ofList (dropBlank rest) = name

def HasData (parser : Json.Parser) (line : List Char) (j : Json) : Prop :=
  ∃ rest, stripReturn line = "data:".toList ++ rest ∧
    parser.parse (String.ofList (dropBlank rest)) = some j

/-- Lines that are a complete message, which ends with `message_stop`.  Lines may end with a carriage
return. -/
inductive WritesMessage (parser : Json.Parser) : List MessageEvent → List (List Char) → Prop
  | ignored {line events lines} : Ignored line → WritesMessage parser events lines →
      WritesMessage parser events (line :: lines)
  | event {line line' name j e events lines} : NamesEvent line name → HasData parser line' j →
      Means name j e → WritesMessage parser events lines →
      WritesMessage parser (e :: events) (line :: line' :: lines)
  | stop {line line' j lines} : NamesEvent line "message_stop" → HasData parser line' j →
      (∀ l ∈ lines, Ignored l) → WritesMessage parser [] (line :: line' :: lines)

def MessageEvent.text : MessageEvent → String
  | textStart text | textDelta text => text
  | _ => ""

def MessageEvent.delta? : MessageEvent → Option String
  | textDelta text => some text
  | _ => none

def MessageEvent.gather (calls : List PartialToolCall) : MessageEvent → List PartialToolCall
  | toolStart id name input => calls ++ [{ id, name, initialInput := input }]
  | jsonDelta piece => appendLast calls piece
  | _ => calls

def gatherCalls (events : List MessageEvent) : List PartialToolCall :=
  events.foldl MessageEvent.gather []

/-! ## Lines -/

variable {line : List Char} {name : String}

theorem anthropicLine_of_namesEvent (h : NamesEvent line name)
    (parser : Json.Parser) (ctx : AnthropicStreamContext) :
    anthropicLine parser ctx line = { state := { ctx with eventType := name } } := by
  obtain ⟨rest, hline, rfl⟩ := h
  rw [anthropicLine, hline]
  rfl

theorem parseLine_of_namesEvent (h : NamesEvent line name)
    (parser : Json.Parser) (s : EventParser) :
    parseLine parser s line = some { s with currentEventType := name } := by
  obtain ⟨rest, hline, rfl⟩ := h
  rw [parseLine, hline]
  rfl

variable {parser : Json.Parser}

variable {j : Json}

theorem anthropicLine_of_hasData (h : HasData parser line j)
    (ctx : AnthropicStreamContext) :
    anthropicLine parser ctx line = anthropicEvent parser ctx j := by
  obtain ⟨rest, hline, hparse⟩ := h
  have hevent : ("data:".toList ++ rest).take 6 ≠ "event:".toList := by
    intro heq
    have hhead := congrArg List.head? heq
    revert hhead
    exact nofun
  have hdata : ("data:".toList ++ rest).take 5 = "data:".toList := rfl
  have hdrop : ("data:".toList ++ rest).drop 5 = rest := rfl
  rw [anthropicLine, hline]
  rw [if_neg hevent, if_pos hdata, hdrop, hparse]

theorem parseLine_of_hasData (h : HasData parser line j)
    (s : EventParser) : parseLine parser s line = parseEvent s j := by
  obtain ⟨rest, hline, hparse⟩ := h
  have hevent : ("data:".toList ++ rest).take 6 ≠ "event:".toList := by
    intro heq
    have hhead := congrArg List.head? heq
    revert hhead
    exact nofun
  have hdata : ("data:".toList ++ rest).take 5 = "data:".toList := rfl
  have hdrop : ("data:".toList ++ rest).drop 5 = rest := rfl
  rw [parseLine, hline]
  rw [if_neg hevent, if_pos hdata, hdrop, hparse]

theorem anthropicLine_of_ignored (h : Ignored line)
    (ctx : AnthropicStreamContext) : anthropicLine parser ctx line = { state := ctx } := by
  rw [anthropicLine]
  rw [if_neg h.1, if_neg h.2]

theorem parseLine_of_ignored (h : Ignored line) (s : EventParser) :
    parseLine parser s line = some s := by
  rw [parseLine]
  rw [if_neg h.1, if_neg h.2]

/-! ## Events -/

theorem map_modify {α β : Type} {f : α → α} {f' : β → β} {g : α → β} (h : ∀ a, g (f a) = f' (g a))
    (l : List α) (i : Nat) : (l.modify i f).map g = (l.map g).modify i f' := by
  refine List.ext_getElem? fun n => ?_
  rw [List.getElem?_map, List.getElem?_modify, List.getElem?_modify, List.getElem?_map]
  cases l[n]? with
  | none => rfl
  | some a => by_cases hi : i = n <;> simp [hi, h]

theorem map_pending_appendLast (calls : List PartialToolCall) (piece : String) :
    (appendLast calls piece).map PartialToolCall.pending =
      appendArguments (calls.map PartialToolCall.pending) piece := by
  rw [appendLast, appendArguments, List.length_map]
  have hpiece (call : PartialToolCall) : (call.append piece).pending =
      { call.pending with arguments := call.pending.arguments ++ piece } := rfl
  exact map_modify hpiece calls _

theorem anthropicEvent_of_means {e : MessageEvent} (h : Means name j e)
    (calls : List PartialToolCall) :
    anthropicEvent parser ⟨name, calls.map PartialToolCall.pending⟩ j =
      { state := ⟨name, (e.gather calls).map PartialToolCall.pending⟩
        out := e.delta?.toList.map textResponse } := by
  cases h with
  | textStart hblock htype htext =>
    simp [anthropicEvent, hblock, blockToolCall, htype, MessageEvent.gather, MessageEvent.delta?]
  | emptyStart hblock htype htext =>
    simp [anthropicEvent, hblock, blockToolCall, htype, MessageEvent.gather, MessageEvent.delta?]
  | toolStart hblock htype hid hname =>
    simp [anthropicEvent, hblock, blockToolCall, htype, hid, hname, MessageEvent.gather,
      MessageEvent.delta?, PartialToolCall.pending]
  | otherStart hblock htype hne hne' =>
    simp [anthropicEvent, hblock, blockToolCall, htype, hne', MessageEvent.gather,
      MessageEvent.delta?]
  | textDelta hdelta htype htext =>
    simp [anthropicEvent, hdelta, htype, htext, MessageEvent.gather, MessageEvent.delta?]
  | jsonDelta hdelta htype hpiece =>
    by_cases hnil : calls = []
    · simp [anthropicEvent, hdelta, htype, hnil, MessageEvent.gather, MessageEvent.delta?,
        appendLast]
    · simp [anthropicEvent, hdelta, htype, hpiece, hnil, MessageEvent.gather,
        MessageEvent.delta?, map_pending_appendLast]
  | otherDelta hdelta htype hne hne' =>
    simp [anthropicEvent, hdelta, htype, hne, hne', MessageEvent.gather, MessageEvent.delta?]
  | messageDelta hdelta hreason =>
    simp [anthropicEvent, MessageEvent.gather, MessageEvent.delta?]
  | otherEvent hstart hdelta hmessage hstop =>
    simp [anthropicEvent, hstart, hdelta, hstop, MessageEvent.gather, MessageEvent.delta?]

theorem parseEvent_of_means {e : MessageEvent} (h : Means name j e)
    (content : String) (calls : List PartialToolCall) (stopReason : String) :
    ∃ stopReason', parseEvent ⟨content, calls, name, stopReason⟩ j =
      some ⟨content ++ e.text, e.gather calls, name, stopReason'⟩ := by
  cases h with
  | textStart hblock htype htext =>
    exact ⟨stopReason, by
      simp [parseEvent, hblock, htype, htext, MessageEvent.gather, MessageEvent.text]⟩
  | emptyStart hblock htype htext =>
    exact ⟨stopReason, by
      simp [parseEvent, hblock, htype, htext, MessageEvent.gather, MessageEvent.text]⟩
  | toolStart hblock htype hid hname =>
    exact ⟨stopReason, by
      simp [parseEvent, hblock, htype, hid, hname, MessageEvent.gather, MessageEvent.text]⟩
  | otherStart hblock htype hne hne' =>
    exact ⟨stopReason, by
      simp [parseEvent, hblock, htype, hne, hne', MessageEvent.gather, MessageEvent.text]⟩
  | textDelta hdelta htype htext =>
    exact ⟨stopReason, by
      simp [parseEvent, hdelta, htype, htext, MessageEvent.gather, MessageEvent.text]⟩
  | jsonDelta hdelta htype hpiece =>
    refine ⟨stopReason, ?_⟩
    by_cases hnil : calls = []
    · simp [parseEvent, hdelta, htype, hnil, MessageEvent.gather, MessageEvent.text, appendLast]
    · simp [parseEvent, hdelta, htype, hpiece, hnil, MessageEvent.gather, MessageEvent.text]
  | otherDelta hdelta htype hne hne' =>
    exact ⟨stopReason, by
      simp [parseEvent, hdelta, htype, hne, hne', MessageEvent.gather, MessageEvent.text]⟩
  | @messageDelta _ delta hdelta hreason =>
    cases delta with
    | obj fields =>
      cases hfield : (Json.obj fields).find? "stop_reason" with
      | none =>
        exact ⟨stopReason, by
          simp [parseEvent, hdelta, Json.value, hfield, MessageEvent.gather, MessageEvent.text]⟩
      | some reason =>
        obtain ⟨text, rfl⟩ := hreason reason hfield
        exact ⟨text, by
          simp [parseEvent, hdelta, Json.value, hfield, Json.getString, MessageEvent.gather,
            MessageEvent.text]⟩
    | _ =>
      exact ⟨stopReason, by
        simp [parseEvent, hdelta, MessageEvent.gather, MessageEvent.text]⟩
  | otherEvent hstart hdelta hmessage hstop =>
    exact ⟨stopReason, by
      simp [parseEvent, hstart, hdelta, hmessage, MessageEvent.gather, MessageEvent.text]⟩

/-! ## Messages, decoded -/

variable {events : List MessageEvent}

theorem reactLines_of_writesMessage {lines : List (List Char)}
    (h : WritesMessage parser events lines) (type : String) (calls : List PartialToolCall) :
    reactLines (anthropicLine parser) ⟨type, calls.map PartialToolCall.pending⟩ lines =
      ((events.filterMap MessageEvent.delta?).map textResponse ++
        reportPending parser ((events.foldl MessageEvent.gather calls).map PartialToolCall.pending) ++
        [endResponse]).map .ok := by
  induction h generalizing type calls with
  | ignored hline _ ih =>
    rw [reactLines, anthropicLine_of_ignored hline]
    exact ih type calls
  | @event line line' name j e events lines hname hdata hmeans _ ih =>
    rw [reactLines, anthropicLine_of_namesEvent hname]
    dsimp only
    rw [List.map_nil, List.nil_append, reactLines, anthropicLine_of_hasData hdata,
      anthropicEvent_of_means hmeans]
    dsimp only
    rw [ih name (e.gather calls), List.foldl_cons, List.filterMap_cons, ← List.map_append]
    cases e.delta? <;> simp
  | stop hname hdata _ =>
    rw [reactLines, anthropicLine_of_namesEvent hname]
    dsimp only
    rw [List.map_nil, List.nil_append, reactLines, anthropicLine_of_hasData hdata]
    rfl

theorem foldlM_of_writesMessage {lines : List (List Char)}
    (h : WritesMessage parser events lines) (s : EventParser) :
    ∃ s', lines.foldlM (parseLine parser) s = some s' ∧
      s'.content = s.content ++ String.join (events.map MessageEvent.text) ∧
      s'.pendingToolCalls = events.foldl MessageEvent.gather s.pendingToolCalls := by
  induction h generalizing s with
  | ignored hline _ ih =>
    rw [List.foldlM_cons, parseLine_of_ignored hline]
    exact ih s
  | @event line line' name j e events lines hname hdata hmeans _ ih =>
    obtain ⟨stopReason, hevent⟩ :=
      parseEvent_of_means hmeans s.content s.pendingToolCalls s.stopReason
    obtain ⟨s', hs', hcontent, hcalls⟩ :=
      ih ⟨s.content ++ e.text, e.gather s.pendingToolCalls, name, stopReason⟩
    refine ⟨s', ?_, ?_, hcalls⟩
    · rw [List.foldlM_cons, parseLine_of_namesEvent hname]
      change (line' :: lines).foldlM (parseLine parser) _ = _
      rw [List.foldlM_cons, parseLine_of_hasData hdata, hevent]
      exact hs'
    · rw [hcontent, List.map_cons, Text.join_cons, String.append_assoc]
  | @stop line line' j lines hname hdata hignored =>
    refine ⟨{ s with currentEventType := "message_stop" }, ?_, ?_, rfl⟩
    · rw [List.foldlM_cons, parseLine_of_namesEvent hname]
      change (line' :: lines).foldlM (parseLine parser) _ = _
      rw [List.foldlM_cons, parseLine_of_hasData hdata]
      change lines.foldlM (parseLine parser) _ = _
      induction lines with
      | nil => rfl
      | cons l lines ih =>
        rw [List.forall_mem_cons] at hignored
        rw [List.foldlM_cons, parseLine_of_ignored hignored.1]
        exact ih hignored.2
    · exact (String.append_empty).symm

/-! ## Agreement -/

def MessageEvent.initial : MessageEvent → String
  | textStart text => text
  | _ => ""

theorem length_text (events : List MessageEvent) :
    (String.join (events.map MessageEvent.text)).length =
      (String.join (events.filterMap MessageEvent.delta?)).length +
        (events.map fun e => e.initial.length).sum := by
  induction events with
  | nil => rfl
  | cons e events ih =>
    rw [List.map_cons, Text.join_cons, String.length_append, ih, List.filterMap_cons,
      List.map_cons, List.sum_cons]
    cases e with
    | textDelta text =>
      dsimp only [MessageEvent.delta?, MessageEvent.text, MessageEvent.initial]
      rw [Text.join_cons, String.length_append, String.length_empty, Nat.zero_add, Nat.add_assoc]
    | textStart text =>
      dsimp only [MessageEvent.delta?, MessageEvent.text, MessageEvent.initial]
      omega
    | _ =>
      dsimp only [MessageEvent.delta?, MessageEvent.text, MessageEvent.initial]
      rw [String.length_empty]
      omega

theorem join_delta_iff (events : List MessageEvent) :
    String.join (events.filterMap MessageEvent.delta?) =
        String.join (events.map MessageEvent.text) ↔
      ∀ e ∈ events, e.initial = "" := by
  constructor
  · intro h e he
    have hlength := length_text events
    rw [← h, left_eq_add, List.sum_eq_zero_iff_forall_eq_nat] at hlength
    exact String.length_eq_zero_iff.1 (hlength _ (List.mem_map_of_mem he))
  · intro h
    induction events with
    | nil => rfl
    | cons e events ih =>
      obtain ⟨he, hevents⟩ := List.forall_mem_cons.1 h
      rw [List.map_cons, Text.join_cons, List.filterMap_cons, ← ih hevents]
      cases e with
      | textDelta text => exact Text.join_cons _ _
      | textStart text =>
        change text = "" at he
        subst he
        exact String.empty_append.symm
      | _ => exact String.empty_append.symm

theorem toolCall_eq_iff (call : PartialToolCall) :
    call.pending.toolCall parser = call.toolCall parser ↔
      (parser.parse call.partialArguments).isSome ∨ call.input = .obj [] := by
  rw [PendingToolCall.toolCall, PartialToolCall.toolCall, PartialToolCall.pending]
  simp only [ToolCall.mk.injEq, true_and]
  split_ifs with hempty
  · rw [hempty, parser.parse_empty]
    simp [eq_comm]
  · cases parser.parse call.partialArguments with
    | none => simp [eq_comm]
    | some v => simp

/-- The decoders agree on a stream: the callbacks report text and calls before the end, which are those that
the decoder of the whole stream returns. -/
def Agree (parser : Json.Parser) (chunks : List (List Char)) : Prop :=
  ∃ before result,
    upToEnd (·.isStreamEnd = true) (anthropicCallbacks parser chunks) =
        (before ++ [endResponse]).map .ok ∧
      parseAnthropicSseResponse parser chunks.flatten = some result ∧
      String.join (before.map (·.content)) = result.content ∧
      before.flatMap (·.toolCalls) = result.toolCalls

def reported (parser : Json.Parser) (events : List MessageEvent) : List DecodedResponse :=
  (events.filterMap MessageEvent.delta?).map textResponse ++
    reportPending parser ((gatherCalls events).map PartialToolCall.pending)

theorem upToEnd_of_writesMessage {chunks : List (List Char)}
    (hmessage : WritesMessage parser events (Text.lines chunks.flatten))
    (hlast : chunks.flatten.getLast? = some '\n') :
    upToEnd (·.isStreamEnd = true) (anthropicCallbacks parser chunks) =
      (reported parser events ++ [endResponse]).map .ok := by
  have htext : ∀ r ∈ (events.filterMap MessageEvent.delta?).map textResponse,
      ¬r.isStreamEnd = true := by
    rw [List.forall_mem_map]
    exact fun _ _ => nofun
  have hreported : ∀ r ∈ reported parser events, ¬r.isStreamEnd = true :=
    List.forall_mem_append.2 ⟨htext, not_isStreamEnd_of_mem parser _⟩
  have hlines : reactLines (anthropicLine parser) {} (Text.lines chunks.flatten) =
      (reported parser events ++ [endResponse]).map .ok := reactLines_of_writesMessage hmessage "" []
  rw [anthropicCallbacks, upToEnd_run (stopsAtEnd_anthropicLine parser) List.not_mem_nil,
    trace_pump_eq List.not_mem_nil _ (.inr hlast), List.nil_append, hlines, List.map_append,
    upToEnd_append hreported]
  rfl

theorem parse_of_writesMessage {response : List Char}
    (hmessage : WritesMessage parser events (Text.lines response)) :
    ∃ result, parseAnthropicSseResponse parser response = some result ∧
      result.content = String.join (events.map MessageEvent.text) ∧
      result.toolCalls = (gatherCalls events).map (·.toolCall parser) := by
  obtain ⟨s, hs, hcontent, hcalls⟩ := foldlM_of_writesMessage hmessage {}
  refine ⟨{ content := s.content
            toolCalls := s.pendingToolCalls.map (·.toolCall parser)
            finishReason := mapAnthropicStopReason s.stopReason }, ?_, ?_, ?_⟩
  · rw [parseAnthropicSseResponse, hs]
    rfl
  · rw [hcontent, String.empty_append]
  · exact congrArg (List.map (·.toolCall parser)) hcalls

theorem agree_iff_reported {chunks : List (List Char)}
    (hmessage : WritesMessage parser events (Text.lines chunks.flatten))
    (hlast : chunks.flatten.getLast? = some '\n') :
    Agree parser chunks ↔
      String.join (events.filterMap MessageEvent.delta?) =
          String.join (events.map MessageEvent.text) ∧
        ((gatherCalls events).map PartialToolCall.pending).map (·.toolCall parser) =
          (gatherCalls events).map (·.toolCall parser) := by
  have hstream := upToEnd_of_writesMessage hmessage hlast
  obtain ⟨result, hresult, hcontent, hcalls⟩ := parse_of_writesMessage hmessage
  obtain ⟨htext, hcalled⟩ := report_parts parser
    (events.filterMap MessageEvent.delta?) ((gatherCalls events).map PartialToolCall.pending)
  rw [← htext, ← hcalled, ← hcontent, ← hcalls]
  constructor
  · rintro ⟨before, result', hbefore, hresult', htext', hcalled'⟩
    rw [hstream] at hbefore
    have hok : Function.Injective (Except.ok : DecodedResponse → Except String DecodedResponse) :=
      fun _ _ => Except.ok.inj
    obtain rfl : reported parser events = before :=
      List.append_cancel_right (List.map_injective_iff.2 hok hbefore)
    rw [hresult, Option.some.injEq] at hresult'
    subst hresult'
    exact ⟨htext', hcalled'⟩
  · rintro ⟨htext', hcalled'⟩
    exact ⟨reported parser events, result, hstream, hresult, htext', hcalled'⟩

/-- The decoders agree on a complete message, however it is cut into chunks, if and only if no block of text
begins with a text, and the arguments of every call arrive in pieces that make JSON or the call begins with
no input other than the empty object. -/
theorem agree_iff {events : List MessageEvent} {chunks : List (List Char)}
    (hmessage : WritesMessage parser events (Text.lines chunks.flatten))
    (hlast : chunks.flatten.getLast? = some '\n') :
    Agree parser chunks ↔
      (∀ e ∈ events, e.initial = "") ∧
        ∀ call ∈ gatherCalls events,
          (parser.parse call.partialArguments).isSome ∨ call.input = .obj [] := by
  have hsame : ((gatherCalls events).map PartialToolCall.pending).map (·.toolCall parser) =
      (gatherCalls events).map (·.toolCall parser) ↔
        ∀ call ∈ gatherCalls events,
          (parser.parse call.partialArguments).isSome ∨ call.input = .obj [] := by
    rw [List.map_map, List.map_inj_left]
    exact forall₂_congr fun call _ => toolCall_eq_iff call
  rw [agree_iff_reported hmessage hlast, join_delta_iff, hsame]

/-! ## Messages that begin with a text -/

def blockText (text : String) : String :=
  "\x7b\"content_block\":\x7b\"type\":\"text\",\"text\":\"" ++ text ++ "\"\x7d\x7d"

def blockJson (text : String) : Json :=
  .obj [("content_block", .obj [("type", .str "text"), ("text", .str text)])]

/-- A parser of the data of two blocks and of the end. -/
def blockParser : Json.Parser where
  parse text :=
    if text = blockText "Hi" then some (blockJson "Hi")
    else if text = blockText "" then some (blockJson "")
    else if text = "\x7b\x7d" then some (.obj [])
    else none
  parse_empty := by decide

def blockMessage (text : String) : List Char :=
  "event: content_block_start\r\ndata: ".toList ++ (blockText text).toList ++
    "\r\n\r\nevent: message_stop\r\ndata: \x7b\x7d\r\n\r\n".toList

theorem parse_blockText_hi : blockParser.parse (blockText "Hi") = some (blockJson "Hi") := by
  simp only [blockParser, if_pos]

theorem parse_blockText_empty : blockParser.parse (blockText "") = some (blockJson "") := by
  have hne : blockText "" ≠ blockText "Hi" := by decide +kernel
  simp only [blockParser, hne, if_false, if_true]

theorem writesMessage_blockMessage {text : String}
    (hlines : Text.lines (blockMessage text) =
      ["event: content_block_start\r".toList, "data: ".toList ++ (blockText text).toList ++ ['\r'],
        ['\r'], "event: message_stop\r".toList, "data: \x7b\x7d\r".toList, ['\r']])
    (hdata : blockParser.parse (blockText text) = some (blockJson text)) :
    WritesMessage blockParser [.textStart text] (Text.lines (blockMessage text)) := by
  have hstart : NamesEvent "event: content_block_start\r".toList "content_block_start" :=
    ⟨" content_block_start".toList, by decide, by decide⟩
  have hstop : NamesEvent "event: message_stop\r".toList "message_stop" :=
    ⟨" message_stop".toList, by decide, by decide⟩
  have hblock : HasData blockParser ("data: ".toList ++ (blockText text).toList ++ ['\r'])
      (blockJson text) := by
    refine ⟨' ' :: (blockText text).toList, ?_, ?_⟩
    · rw [stripReturn, List.getLast?_concat, if_pos rfl, List.dropLast_concat]
      rfl
    · rw [dropBlank, String.ofList_toList]
      exact hdata
  have hempty : HasData blockParser "data: \x7b\x7d\r".toList (.obj []) :=
    ⟨" \x7b\x7d".toList, by decide, rfl⟩
  have hblank : Ignored ['\r'] := ⟨by decide, by decide⟩
  have hmeans : Means "content_block_start" (blockJson text) (.textStart text) :=
    .textStart (show (blockJson text).find? "content_block" =
      some (.obj [("type", .str "text"), ("text", .str text)]) from rfl) rfl rfl
  rw [hlines]
  refine .event hstart hblock hmeans (.ignored hblank (.stop hstop hempty ?_))
  rw [List.forall_mem_singleton]
  exact hblank

/-- A block that begins with a text is part of the message and is not reported. -/
theorem not_agree :
    ∃ parser : Json.Parser, ∃ events : List MessageEvent, ∃ chunks : List (List Char),
      WritesMessage parser events (Text.lines chunks.flatten) ∧
        chunks.flatten.getLast? = some '\n' ∧ ¬Agree parser chunks := by
  have hmessage : WritesMessage blockParser [.textStart "Hi"] (Text.lines (blockMessage "Hi")) :=
    writesMessage_blockMessage (by decide +kernel) parse_blockText_hi
  refine ⟨blockParser, [.textStart "Hi"], [blockMessage "Hi"], hmessage, by decide +kernel, ?_⟩
  rw [agree_iff_reported hmessage (by decide +kernel)]
  rintro ⟨htext, -⟩
  revert htext
  decide

/-- The decoders agree on a block that begins with no text. -/
theorem agree_iff_blockMessage :
    WritesMessage blockParser [.textStart ""] (Text.lines [blockMessage ""].flatten) ∧
      [blockMessage ""].flatten.getLast? = some '\n' ∧
        (Agree blockParser [blockMessage ""] ↔
          (∀ e ∈ [MessageEvent.textStart ""], e.initial = "") ∧
            ∀ call ∈ gatherCalls [.textStart ""],
              (blockParser.parse call.partialArguments).isSome ∨ call.input = .obj []) := by
  have hmessage : WritesMessage blockParser [.textStart ""] (Text.lines [blockMessage ""].flatten) :=
    writesMessage_blockMessage (by decide +kernel) parse_blockText_empty
  have hlast : [blockMessage ""].flatten.getLast? = some '\n' := by decide +kernel
  exact ⟨hmessage, hlast, agree_iff hmessage hlast⟩

end RavBot.Providers
