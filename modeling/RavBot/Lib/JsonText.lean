import RavBot.Lib.Json

/-!
# JSON texts

What a program relies on when it looks at the text of a JSON value before the text is parsed: the strings
in the value are those between quotation marks in the text, with their escapes decoded.  The parser itself
is a parameter (`Delivers`).
-/

open List

namespace RavBot.Lib.Json

/-! ## The strings of a value -/

mutual

/-- The strings in a value, the keys of its objects included. -/
def strings : Json → List String
  | str s => [s]
  | arr items => itemStrings items
  | obj fields => fieldStrings fields
  | _ => []

/-- The strings in the items of an array. -/
def itemStrings : List Json → List String
  | [] => []
  | j :: items => strings j ++ itemStrings items

/-- The strings in the fields of an object. -/
def fieldStrings : List (String × Json) → List String
  | [] => []
  | (key, j) :: fields => key :: (strings j ++ fieldStrings fields)

end

theorem strings_subset_of_find? {j v : Json} {key : String} (h : j.find? key = some v) :
    v.strings ⊆ j.strings := by
  cases j with
  | obj fields =>
    change fields.lookup key = some v at h
    change v.strings ⊆ fieldStrings fields
    induction fields with
    | nil => cases h
    | cons field fields ih =>
      obtain ⟨key', j'⟩ := field
      intro s hs
      rw [fieldStrings]
      rw [lookup_cons] at h
      split at h
      · rw [Option.some.injEq] at h
        subst h
        exact mem_cons_of_mem _ (mem_append_left _ hs)
      · exact mem_cons_of_mem _ (mem_append_right _ (ih h hs))
  | _ => cases h

theorem mem_fieldStrings {fields : List (String × Json)} {s : String} :
    s ∈ fieldStrings fields ↔ ∃ field ∈ fields, s = field.1 ∨ s ∈ field.2.strings := by
  induction fields with
  | nil => simp [fieldStrings]
  | cons field fields ih =>
    obtain ⟨key, j⟩ := field
    rw [fieldStrings, mem_cons, mem_append, ih, exists_mem_cons_iff, or_assoc]

mutual

theorem isUtf8_iff : ∀ j : Json, j.isUtf8 = true ↔ ∀ s ∈ j.strings, Text.validUtf8 s = true
  | str s => by rw [isUtf8, strings, forall_mem_singleton]
  | arr items => by rw [isUtf8, strings, allUtf8_iff_strings items]
  | obj fields => by rw [isUtf8, strings, fieldsUtf8_iff fields]
  | null => iff_of_true rfl (forall_mem_nil _)
  | bool _ => iff_of_true rfl (forall_mem_nil _)
  | int _ => iff_of_true rfl (forall_mem_nil _)
  | real _ => iff_of_true rfl (forall_mem_nil _)

theorem allUtf8_iff_strings : ∀ items : List Json,
    allUtf8 items = true ↔ ∀ s ∈ itemStrings items, Text.validUtf8 s = true
  | [] => iff_of_true rfl (forall_mem_nil _)
  | j :: items => by
    rw [allUtf8, itemStrings, Bool.and_eq_true, isUtf8_iff j, allUtf8_iff_strings items, forall_mem_append]

theorem fieldsUtf8_iff : ∀ fields : List (String × Json),
    fieldsUtf8 fields = true ↔ ∀ s ∈ fieldStrings fields, Text.validUtf8 s = true
  | [] => iff_of_true rfl (forall_mem_nil _)
  | (key, j) :: fields => by
    rw [fieldsUtf8, fieldStrings, Bool.and_eq_true, Bool.and_eq_true, isUtf8_iff j, fieldsUtf8_iff fields,
      forall_mem_cons, forall_mem_append, and_assoc]

end

/-! ## Escapes -/

/-- The value of a hexadecimal digit. -/
def hexDigit (c : Char) : Option Nat :=
  if '0' ≤ c ∧ c ≤ '9' then some (c.toNat - '0'.toNat)
  else if 'a' ≤ c ∧ c ≤ 'f' then some (c.toNat - 'a'.toNat + 10)
  else if 'A' ≤ c ∧ c ≤ 'F' then some (c.toNat - 'A'.toNat + 10)
  else none

/-- The value of four hexadecimal digits. -/
def hexValue (a b c d : Char) : Option Nat := do
  let a ← hexDigit a
  let b ← hexDigit b
  let c ← hexDigit c
  let d ← hexDigit d
  return ((a * 16 + b) * 16 + c) * 16 + d

/-- The character that a letter behind a backslash stands for. -/
def escaped (c : Char) : Option Char :=
  match c with
  | '"' => some '"'
  | '\\' => some '\\'
  | '/' => some '/'
  | 'b' => some '\x08'
  | 'f' => some '\x0c'
  | 'n' => some '\n'
  | 'r' => some '\r'
  | 't' => some '\t'
  | _ => none

/-- Decode the escapes of what is between the quotation marks of a string.  A character that is given
by its number is put in as UTF-8, and two surrogates are one character. -/
def unescape : List Char → Option (List Char)
  | [] => some []
  | '\\' :: 'u' :: a :: b :: c :: d :: '\\' :: 'u' :: a' :: b' :: c' :: d' :: s => do
      let high ← hexValue a b c d
      if 0xD800 ≤ high ∧ high ≤ 0xDBFF then
        let low ← hexValue a' b' c' d'
        if 0xDC00 ≤ low ∧ low ≤ 0xDFFF then
          let rest ← unescape s
          return Text.utf8Bytes (.ofNat (0x10000 + (high - 0xD800) * 0x400 + (low - 0xDC00))) ++ rest
        else none
      else if 0xDC00 ≤ high ∧ high ≤ 0xDFFF then none
      else
        let rest ← unescape ('\\' :: 'u' :: a' :: b' :: c' :: d' :: s)
        return Text.utf8Bytes (.ofNat high) ++ rest
  | '\\' :: 'u' :: a :: b :: c :: d :: s => do
      let value ← hexValue a b c d
      if 0xD800 ≤ value ∧ value ≤ 0xDFFF then none
      else
        let rest ← unescape s
        return Text.utf8Bytes (.ofNat value) ++ rest
  | '\\' :: c :: s => do
      let c ← escaped c
      let rest ← unescape s
      return c :: rest
  | c :: s =>
    if c = '\\' ∨ c = '"' ∨ c.toNat < 0x20 then none
    else do
      let rest ← unescape s
      return c :: rest

theorem unescape_of_no_backslash {s t : List Char} (h : '\\' ∉ s) (ht : unescape s = some t) :
    t = s := by
  induction s generalizing t with
  | nil => exact (Option.some.inj ht).symm
  | cons c s ih =>
    rw [mem_cons, not_or] at h
    rw [unescape.eq_def] at ht
    split at ht
    · next heq => cases heq
    · next heq => exact absurd (List.cons.inj heq).1.symm (by simpa using h.1)
    · next heq => exact absurd (List.cons.inj heq).1.symm (by simpa using h.1)
    · next heq => exact absurd (List.cons.inj heq).1.symm (by simpa using h.1)
    · next heq =>
        obtain ⟨rfl, rfl⟩ := List.cons.inj heq
        split_ifs at ht
        simp only [Option.bind_eq_bind, Option.bind_eq_some_iff, Option.pure_def,
          Option.some.injEq] at ht
        obtain ⟨rest, hrest, rfl⟩ := ht
        rw [ih h.2 hrest]

/-- What `dump` writes for a character of a string. -/
def escapeChar (c : Char) : List Char :=
  if c = '"' then ['\\', '"']
  else if c = '\\' then ['\\', '\\']
  else if c = '\x08' then ['\\', 'b']
  else if c = '\x0c' then ['\\', 'f']
  else if c = '\n' then ['\\', 'n']
  else if c = '\r' then ['\\', 'r']
  else if c = '\t' then ['\\', 't']
  else if c.toNat < 0x20 then
    ['\\', 'u', '0', '0', Nat.digitChar (c.toNat / 16), Nat.digitChar (c.toNat % 16)]
  else [c]

/-- What `dump` writes between the quotation marks of a string. -/
def escape (s : String) : List Char := s.toList.flatMap escapeChar

theorem unescape_number {c : Char} (hc : c.toNat < 0x20) {s t : List Char} (hs : unescape s = some t) :
    unescape ('\\' :: 'u' :: '0' :: '0' :: Nat.digitChar (c.toNat / 16) :: Nat.digitChar (c.toNat % 16) :: s) =
      some (c :: t) := by
  have hvalue : ∀ n < 0x20, hexValue '0' '0' (Nat.digitChar (n / 16)) (Nat.digitChar (n % 16)) = some n := by
    decide
  have hbytes : Text.utf8Bytes (.ofNat c.toNat) = [c] := by
    rw [Char.ofNat_toNat, Text.utf8Bytes, if_pos (by omega)]
  rw [unescape.eq_def]
  split
  · next heq => cases heq
  · next heq =>
    -- another number may follow, and only surrogates are read together
    cases heq
    simp only [hvalue _ hc, Option.bind_eq_bind, Option.bind_some]
    rw [if_neg (by omega), if_neg (by omega), hs, hbytes]
    rfl
  · next heq =>
    cases heq
    simp only [hvalue _ hc, Option.bind_eq_bind, Option.bind_some]
    rw [if_neg (by omega), hs, hbytes]
    rfl
  · next _ hne heq =>
    cases heq
    exact (hne _ _ _ _ _ rfl rfl).elim
  · next hne heq =>
    cases heq
    exact (hne _ _ rfl rfl).elim

theorem unescape_escapeChar (c : Char) {s t : List Char} (hs : unescape s = some t) :
    unescape (escapeChar c ++ s) = some (c :: t) := by
  have hletter {d : Char} (hd : d ≠ 'u') (hescaped : escaped d = some c) : unescape ('\\' :: d :: s) = some (c :: t) := by
    rw [unescape, hescaped, hs]
    · rfl
    · rintro _ _ _ _ _ _ _ _ _ rfl -
      exact hd rfl
    · rintro _ _ _ _ _ rfl -
      exact hd rfl
  rw [escapeChar]
  split_ifs with hquote hback hb hf hn hr ht hcontrol
  · exact hletter (by decide) (by rw [hquote]; rfl)
  · exact hletter (by decide) (by rw [hback]; rfl)
  · exact hletter (by decide) (by rw [hb]; rfl)
  · exact hletter (by decide) (by rw [hf]; rfl)
  · exact hletter (by decide) (by rw [hn]; rfl)
  · exact hletter (by decide) (by rw [hr]; rfl)
  · exact hletter (by decide) (by rw [ht]; rfl)
  · exact unescape_number hcontrol hs
  · have hplain : ¬ (c = '\\' ∨ c = '"' ∨ c.toNat < 0x20) := by
      rintro (h | h | h)
      exacts [hback h, hquote h, hcontrol h]
    rw [singleton_append, unescape.eq_def]
    split
    · next heq => cases heq
    · next heq => exact absurd (List.cons.inj heq).1 hback
    · next heq => exact absurd (List.cons.inj heq).1 hback
    · next heq => exact absurd (List.cons.inj heq).1 hback
    · next heq =>
      cases heq
      rw [if_neg hplain, hs]
      rfl

theorem unescape_escape (s : String) : unescape (escape s) = some s.toList := by
  rw [escape]
  induction s.toList with
  | nil => rfl
  | cons c l ih => exact unescape_escapeChar c ih

/-- A parser delivers the strings of a text: every string in the value is one between quotation marks in
the text, with its escapes decoded. -/
def Delivers (parse : List Char → Option Json) : Prop :=
  ∀ text j, parse text = some j → ∀ str ∈ j.strings,
    ∃ raw, '"' :: raw ++ ['"'] <:+: text ∧ unescape raw = some str.toList

/-! ## Writing and reading texts -/

/-- A parser: `none` for a text that is not JSON, as the empty text. -/
structure Parser where
  parse : String → Option Json
  parse_empty : parse "" = none

end RavBot.Lib.Json
