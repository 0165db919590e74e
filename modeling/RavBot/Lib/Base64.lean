import Mathlib.Algebra.Order.Floor.Div

/-!
# Base64

Three bytes are written as four letters of an alphabet of 64, six bits each.  A text whose last group has
one or two bytes is filled up with zero bits and padded.  The decoder is strict: it takes padding only at
the end, and only zero bits for what the padding stands for.  So each sequence of bytes has one text, and
`encode` and `decode` are inverse to each other.
-/

namespace RavBot.Lib

/-- The letters for the numbers below 64, and the letter that pads. -/
structure Base64 where
  /-- The letters, in the order of the numbers they stand for. -/
  letters : List Char
  /-- The letter that pads. -/
  pad : Char
  length_letters : letters.length = 64
  nodup_letters : letters.Nodup
  pad_notMem : pad ∉ letters

namespace Base64

def lettersFrom (first : Char) (count : Nat) : List Char :=
  (List.range count).map fun n => .ofNat (first.toNat + n)

/-- The standard alphabet. -/
def standard : Base64 where
  letters := lettersFrom 'A' 26 ++ lettersFrom 'a' 26 ++ lettersFrom '0' 10 ++ ['+', '/']
  pad := '='
  length_letters := by decide
  nodup_letters := by decide +kernel
  pad_notMem := by decide +kernel

variable (α : Base64)

/-! ## Letters -/

def letter (n : Nat) : Char := α.letters.getD n α.pad

def value (c : Char) : Option Nat := if c ∈ α.letters then some (α.letters.idxOf c) else none

theorem value_letter {n : Nat} (h : n < 64) : α.value (α.letter n) = some n := by
  have hlt : n < α.letters.length := α.length_letters.symm ▸ h
  have hletter : α.letter n = α.letters[n] := (List.getElem_eq_getD α.pad).symm
  rw [value, hletter, if_pos (List.getElem_mem hlt), α.nodup_letters.idxOf_getElem n hlt]

theorem letter_ne_pad {n : Nat} (h : n < 64) : α.letter n ≠ α.pad := by
  intro heq
  have hvalue := α.value_letter h
  rw [heq, value, if_neg α.pad_notMem] at hvalue
  cases hvalue

/-! ## Texts -/

/-- The text of a sequence of bytes. -/
def encode : List UInt8 → List Char
  | a :: b :: c :: bytes =>
    α.letter (a.toNat / 4) :: α.letter (a.toNat % 4 * 16 + b.toNat / 16) ::
      α.letter (b.toNat % 16 * 4 + c.toNat / 64) :: α.letter (c.toNat % 64) :: encode bytes
  | [a, b] =>
    [α.letter (a.toNat / 4), α.letter (a.toNat % 4 * 16 + b.toNat / 16),
      α.letter (b.toNat % 16 * 4), α.pad]
  | [a] => [α.letter (a.toNat / 4), α.letter (a.toNat % 4 * 16), α.pad, α.pad]
  | [] => []

/-- The bytes of a group without padding. -/
def decodeGroup (a b c d : Char) : Option (List UInt8) := do
  let a ← α.value a
  let b ← α.value b
  let c ← α.value c
  let d ← α.value d
  return [.ofNat (a * 4 + b / 16), .ofNat (b % 16 * 16 + c / 4), .ofNat (c % 4 * 64 + d)]

/-- The bytes of a group whose last letter is padding. -/
def decodePadded (a b c : Char) : Option (List UInt8) := do
  let a ← α.value a
  let b ← α.value b
  if c = α.pad then
    if b % 16 = 0 then return [.ofNat (a * 4 + b / 16)] else none
  else
    let c ← α.value c
    if c % 4 = 0 then return [.ofNat (a * 4 + b / 16), .ofNat (b % 16 * 16 + c / 4)] else none

/-- The bytes of a text. -/
def decode : List Char → Option (List UInt8)
  | [] => some []
  | a :: b :: c :: d :: text =>
    if d = α.pad then
      if text = [] then α.decodePadded a b c else none
    else do
      let group ← α.decodeGroup a b c d
      let bytes ← decode text
      return group ++ bytes
  | _ => none

theorem length_encode (bytes : List UInt8) : (α.encode bytes).length = 4 * (bytes.length ⌈/⌉ 3) := by
  rw [Nat.ceilDiv_eq_add_pred_div]
  induction bytes using encode.induct with
  | case1 a b c bytes ih =>
    simp only [encode, List.length_cons, ih]
    omega
  | case2 | case3 | case4 => simp [encode]

theorem byte_eq {b : UInt8} {n : Nat} (h : n = b.toNat) : UInt8.ofNat n = b := by
  rw [h]
  exact UInt8.ofNat_toNat

theorem decode_encode (bytes : List UInt8) : α.decode (α.encode bytes) = some bytes := by
  induction bytes using encode.induct with
  | case1 a b c bytes ih =>
    have ha := a.toNat_lt
    have hb := b.toNat_lt
    have hc := c.toNat_lt
    have hgroup : α.decodeGroup (α.letter (a.toNat / 4)) (α.letter (a.toNat % 4 * 16 + b.toNat / 16))
        (α.letter (b.toNat % 16 * 4 + c.toNat / 64)) (α.letter (c.toNat % 64)) = some [a, b, c] := by
      rw [decodeGroup, α.value_letter (by omega), α.value_letter (by omega), α.value_letter (by omega),
        α.value_letter (by omega)]
      simp only [Option.bind_eq_bind, Option.bind_some, Option.pure_def]
      rw [byte_eq (b := a) (by omega), byte_eq (b := b) (by omega), byte_eq (b := c) (by omega)]
    rw [encode, decode, if_neg (α.letter_ne_pad (by omega)), hgroup, ih]
    rfl
  | case2 a b =>
    have ha := a.toNat_lt
    have hb := b.toNat_lt
    have hgroup : α.decodePadded (α.letter (a.toNat / 4)) (α.letter (a.toNat % 4 * 16 + b.toNat / 16))
        (α.letter (b.toNat % 16 * 4)) = some [a, b] := by
      rw [decodePadded, α.value_letter (by omega), α.value_letter (by omega)]
      simp only [Option.bind_eq_bind, Option.bind_some, Option.pure_def]
      rw [if_neg (α.letter_ne_pad (by omega)), α.value_letter (by omega), Option.bind_some,
        if_pos (by omega), byte_eq (b := a) (by omega), byte_eq (b := b) (by omega)]
    rw [encode, decode, if_pos rfl, if_pos rfl, hgroup]
  | case3 a =>
    have ha := a.toNat_lt
    have hgroup : α.decodePadded (α.letter (a.toNat / 4)) (α.letter (a.toNat % 4 * 16)) α.pad =
        some [a] := by
      rw [decodePadded, α.value_letter (by omega), α.value_letter (by omega)]
      simp only [Option.bind_eq_bind, Option.bind_some, Option.pure_def]
      rw [if_true, if_pos (by omega), byte_eq (b := a) (by omega)]
    rw [encode, decode, if_pos rfl, if_pos rfl, hgroup]
  | case4 => rfl

end Base64

end RavBot.Lib
