import Mathlib.Data.List.Chain
import Mathlib.Tactic.SplitIfs

/-!
# Tokens of JSON texts

The tokens of a JSON text, the sequences of tokens that are a value, and the texts that write a sequence of
tokens: with white space between the tokens (`Spaced`), as JSON has it, or with comments too (`Commented`).
Strings are given by what stands between the quotes, with the escapes not resolved.
-/

open List

namespace RavBot.Lib.JsonTokens

def isBlank (c : Char) : Bool := c == ' ' || c == '\t' || c == '\n' || c == '\r'

def isPunct (c : Char) : Bool :=
  c == '\x7b' || c == '\x7d' || c == '[' || c == ']' || c == ':' || c == ','

def isClosing (c : Char) : Bool := c == '\x7d' || c == ']'

/-- A token: punctuation, what stands between quotes, or a number or a literal. -/
inductive Token where
  | punct (c : Char)
  | str (raw : List Char)
  | scalar (s : List Char)
  deriving DecidableEq

/-- What can stand between quotes: a quote is escaped. -/
inductive RawString : List Char → Prop
  | nil : RawString []
  | char {c s} : c ≠ '"' → c ≠ '\\' → RawString s → RawString (c :: s)
  | escape {c s} : RawString s → RawString ('\\' :: c :: s)

/-- A character of a number or of a literal. -/
def isScalarChar (c : Char) : Bool := !isBlank c && !isPunct c && c != '"' && c != '/'

namespace Token

def chars : Token → List Char
  | punct c => [c]
  | str raw => '"' :: (raw ++ ['"'])
  | scalar s => s

def Valid : Token → Prop
  | punct c => isPunct c
  | str raw => RawString raw
  | scalar s => s ≠ [] ∧ ∀ c ∈ s, isScalarChar c

def comma : Token := punct ','

def Closes : Token → Prop
  | punct c => isClosing c
  | _ => False

instance : DecidablePred Closes
  | punct c => inferInstanceAs (Decidable (isClosing c = true))
  | str _ => instDecidableFalse
  | scalar _ => instDecidableFalse

end Token

open Token

/-- What a sequence of tokens is. -/
inductive Part where
  | value
  | items
  | members

/-- The grammar of JSON. -/
inductive Derives : Part → List Token → Prop
  | str {raw} : RawString raw → Derives .value [str raw]
  | scalar {s} : (scalar s).Valid → Derives .value [scalar s]
  | emptyArray : Derives .value [punct '[', punct ']']
  | emptyObject : Derives .value [punct '\x7b', punct '\x7d']
  | array {ts} : Derives .items ts → Derives .value (punct '[' :: (ts ++ [punct ']']))
  | object {ts} : Derives .members ts → Derives .value (punct '\x7b' :: (ts ++ [punct '\x7d']))
  | item {ts} : Derives .value ts → Derives .items ts
  | items {ts us} : Derives .value ts → Derives .items us → Derives .items (ts ++ comma :: us)
  | member {raw ts} : RawString raw → Derives .value ts →
      Derives .members (str raw :: punct ':' :: ts)
  | members {raw ts us} : RawString raw → Derives .value ts → Derives .members us →
      Derives .members (str raw :: punct ':' :: (ts ++ comma :: us))

/-- A text with white space between tokens. -/
inductive Spaced : List Token → List Char → Prop
  | nil : Spaced [] []
  | blank {c ts s} : isBlank c → Spaced ts s → Spaced ts (c :: s)
  | token {t ts s} : Spaced ts s → Spaced (t :: ts) (t.chars ++ s)

/-- A comment, with the line break that ends it. -/
inductive Comment : List Char → Prop
  | line {body} : '\n' ∉ body → Comment ('/' :: '/' :: (body ++ ['\n']))
  | block {body} : ¬['*', '/'] <:+: body → Comment ('/' :: '*' :: (body ++ ['*', '/']))

/-- A text with white space and comments between tokens.  A comment may also end the text. -/
inductive Commented : List Token → List Char → Prop
  | nil : Commented [] []
  | blank {c ts s} : isBlank c → Commented ts s → Commented ts (c :: s)
  | comment {c ts s} : Comment c → Commented ts s → Commented ts (c ++ s)
  | last {body} : '\n' ∉ body → Commented [] ('/' :: '/' :: body)
  | token {t ts s} : Commented ts s → Commented (t :: ts) (t.chars ++ s)

/-- A sequence of tokens with a comma before some of the tokens that close. -/
inductive TrailingCommas : List Token → List Token → Prop
  | nil : TrailingCommas [] []
  | token {t ts us} : TrailingCommas ts us → TrailingCommas (t :: ts) (t :: us)
  | comma {t ts us} : t.Closes → TrailingCommas ts us → TrailingCommas (t :: ts) (comma :: t :: us)

/-! ## The grammar -/

/-- No comma stands before a token that closes. -/
def NoTrailing (t u : Token) : Prop := ¬(t = comma ∧ u.Closes)

theorem not_closes_comma : ¬comma.Closes := nofun

variable {ts : List Token}

theorem Derives.valid {part : Part} (h : Derives part ts) : ∀ t ∈ ts, t.Valid := by
  induction h with
  | str hraw => exact forall_mem_singleton.2 hraw
  | scalar hs => exact forall_mem_singleton.2 hs
  | emptyArray => exact forall_mem_cons.2 ⟨rfl, forall_mem_singleton.2 rfl⟩
  | emptyObject => exact forall_mem_cons.2 ⟨rfl, forall_mem_singleton.2 rfl⟩
  | array _ ih =>
    exact forall_mem_cons.2
      ⟨rfl, forall_mem_append.2 ⟨ih, forall_mem_singleton.2 rfl⟩⟩
  | object _ ih =>
    exact forall_mem_cons.2
      ⟨rfl, forall_mem_append.2 ⟨ih, forall_mem_singleton.2 rfl⟩⟩
  | item _ ih => exact ih
  | items _ _ ih ih' => exact forall_mem_append.2 ⟨ih, forall_mem_cons.2 ⟨rfl, ih'⟩⟩
  | member hraw _ ih => exact forall_mem_cons.2 ⟨hraw, forall_mem_cons.2 ⟨rfl, ih⟩⟩
  | members hraw _ _ ih ih' =>
    exact forall_mem_cons.2 ⟨hraw, forall_mem_cons.2 ⟨rfl,
      forall_mem_append.2 ⟨ih, forall_mem_cons.2 ⟨rfl, ih'⟩⟩⟩⟩

/-- A part of a JSON text neither begins with a token that closes nor ends with a comma, and no comma within
it stands before a token that closes. -/
structure Inner (ts : List Token) : Prop where
  ne_nil : ts ≠ []
  head : ∀ t ∈ ts.head?, ¬t.Closes
  last : ∀ t ∈ ts.getLast?, t ≠ comma
  chain : ts.IsChain NoTrailing

namespace Inner

theorem join {ts us : List Token} (hts : Inner ts) (hus : Inner us) : Inner (ts ++ comma :: us) where
  ne_nil := by simp
  head := by
    rw [head?_append_of_ne_nil _ hts.ne_nil]
    exact hts.head
  last := by
    rw [getLast?_append_cons, getLast?_cons_of_ne_nil hus.ne_nil]
    exact hus.last
  chain := by
    refine isChain_append.2 ⟨hts.chain, isChain_cons.2 ⟨?_, hus.chain⟩, ?_⟩
    · intro t ht h
      exact hus.head t ht h.2
    · intro t ht u hu h
      exact hts.last t ht h.1

theorem enclose {ts : List Token} (h : Inner ts) {t u : Token} (ht : t ≠ comma) (ht' : ¬t.Closes)
    (hu : u ≠ comma) : Inner (t :: (ts ++ [u])) where
  ne_nil := nofun
  head := by
    rintro _ ⟨⟩
    exact ht'
  last := by
    rw [← cons_append, getLast?_concat]
    rintro _ ⟨⟩
    exact hu
  chain := by
    refine isChain_cons.2 ⟨fun _ _ h => ht h.1, ?_⟩
    refine isChain_append.2 ⟨h.chain, isChain_singleton u, ?_⟩
    intro v hv w hw hvw
    exact h.last v hv hvw.1

theorem cons {ts : List Token} (h : Inner ts) {t : Token} (ht : t ≠ comma) (ht' : ¬t.Closes) :
    Inner (t :: ts) where
  ne_nil := nofun
  head := by
    rintro _ ⟨⟩
    exact ht'
  last := by
    rw [getLast?_cons_of_ne_nil h.ne_nil]
    exact h.last
  chain := isChain_cons.2 ⟨fun _ _ h => ht h.1, h.chain⟩

theorem singleton {t : Token} (ht : t ≠ comma) (ht' : ¬t.Closes) : Inner [t] where
  ne_nil := nofun
  head := by
    rintro _ ⟨⟩
    exact ht'
  last := by
    rintro _ ⟨⟩
    exact ht
  chain := isChain_singleton t

theorem pair {t u : Token} (ht : t ≠ comma) (ht' : ¬t.Closes) (hu : u ≠ comma) : Inner [t, u] where
  ne_nil := nofun
  head := by
    rintro _ ⟨⟩
    exact ht'
  last := by
    rintro _ ⟨⟩
    exact hu
  chain := isChain_pair.2 fun h => ht h.1

end Inner

theorem Derives.inner {part : Part} (h : Derives part ts) : Inner ts := by
  induction h with
  | str => exact .singleton nofun nofun
  | scalar => exact .singleton nofun nofun
  | emptyArray => exact .pair (by decide) (by decide) (by decide)
  | emptyObject => exact .pair (by decide) (by decide) (by decide)
  | array _ ih => exact ih.enclose (by decide) (by decide) (by decide)
  | object _ ih => exact ih.enclose (by decide) (by decide) (by decide)
  | item _ ih => exact ih
  | items _ _ ih ih' => exact ih.join ih'
  | member _ _ ih => exact (ih.cons (by decide) (by decide)).cons nofun nofun
  | members _ _ _ ih ih' => exact ((ih.join ih').cons (by decide) (by decide)).cons nofun nofun

/-! ## Texts -/

theorem TrailingCommas.refl (ts : List Token) : TrailingCommas ts ts := by
  induction ts with
  | nil => exact .nil
  | cons t ts ih => exact .token ih

theorem TrailingCommas.valid {us : List Token} (h : TrailingCommas ts us)
    (hts : ∀ t ∈ ts, t.Valid) : ∀ t ∈ us, t.Valid := by
  induction h with
  | nil => exact hts
  | token _ ih =>
    rw [forall_mem_cons] at hts ⊢
    exact ⟨hts.1, ih hts.2⟩
  | comma _ _ ih =>
    rw [forall_mem_cons] at hts
    exact forall_mem_cons.2 ⟨rfl, forall_mem_cons.2 ⟨hts.1, ih hts.2⟩⟩

theorem Spaced.commented {s : List Char} (h : Spaced ts s) : Commented ts s := by
  induction h with
  | nil => exact .nil
  | blank hc _ ih => exact .blank hc ih
  | token _ ih => exact .token ih

end RavBot.Lib.JsonTokens
