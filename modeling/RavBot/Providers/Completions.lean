import Mathlib.Data.List.ReduceOption
import RavBot.Providers.CompletionDecoders

/-!
# Chat completions

What a reply is that conforms to the API of OpenAI, as a whole and as a stream of chunks, and which replies the
decoders of OpenAI and of Qwen decode (`decoders_iff`).  The decoders of whole replies fail where a null may
stand, and each in its own way on calls; of the decoders of streams only that of Qwen reads every stream in
which no count of tokens is null.
-/

open List

namespace RavBot.Providers

open RavBot.Core RavBot.Lib

/-! ## Replies -/

/-- A reply.  Its calls have their arguments as texts; the field with the calls may be missing. -/
structure Reply where
  content : Option String
  finishReason : Option String
  toolCalls : Option (List PendingToolCall)

namespace Reply

def text (reply : Reply) : String := reply.content.getD ""

def written (reply : Reply) : List PendingToolCall := reply.toolCalls.getD []

/-- The calls with the values that their arguments are.  Arguments that are no JSON count as an empty
object. -/
def calls (parser : Json.Parser) (reply : Reply) : List ToolCall :=
  reply.written.map (·.toolCall parser)

end Reply

/-- A piece of a call.  The calls are numbered. -/
structure Piece where
  index : Nat
  id : Option String
  name : Option String
  arguments : Option String

structure Delta where
  content : Option String
  pieces : List Piece
  finishReason : Option String

/-- Pieces that are a call: its id and its name in one or several of them, and its arguments one behind the
other. -/
structure Makes (own : List Piece) (call : PendingToolCall) : Prop where
  id : ∃ id ∈ own.filterMap Piece.id, id = call.id
  id_eq : ∀ id ∈ own.filterMap Piece.id, id = call.id
  name : ∃ name ∈ own.filterMap Piece.name, name = call.name
  name_eq : ∀ name ∈ own.filterMap Piece.name, name = call.name
  arguments : String.join (own.filterMap Piece.arguments) = call.arguments

def Returns (parser : Json.Parser) (reply : Reply) (decoded : Option DecodedResponse) : Prop :=
  ∃ response, decoded = some response ∧ response.content = reply.text ∧
    response.toolCalls = reply.calls parser

/-- The callbacks report the text and the calls before the end of the stream, and throw no exception. -/
def Delivers (parser : Json.Parser) (reply : Reply) (trace : List (Except String DecodedResponse)) :
    Prop :=
  ∃ before, trace = (before ++ [endResponse]).map .ok ∧ (∀ r ∈ before, ¬r.isStreamEnd = true) ∧
    String.join (before.map (·.content)) = reply.text ∧
    before.flatMap (·.toolCalls) = reply.calls parser

/-! ## Whole replies -/

variable {parser : Json.Parser}

variable {j choice delta : Json}

variable {reply : Reply}

def PendingToolCall.merge (call : PendingToolCall) (p : Piece) : PendingToolCall :=
  ⟨p.id.getD call.id, p.name.getD call.name, call.arguments ++ p.arguments.getD ""⟩

variable {d : Delta}

variable {deltas : List Delta}

/-- An `int` holds the numbers of all pieces. -/
def Delta.Fits (d : Delta) : Prop := ∀ p ∈ d.pieces, p.index < 2 ^ 31

variable {line : List Char}

variable {js : List Json} {lines : List (List Char)} {ds : List (Option Delta)}

end RavBot.Providers
