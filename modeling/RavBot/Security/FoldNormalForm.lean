import RavBot.Security.MarkerFolding

/-!
# Folding as a normal form

`FoldMarkerText` walks over a text by index and looks at bytes that its first byte promises.  Here it is
taken as it stands, with every access to the text checked: no access fails, and the walk computes the
folding that goes along the text.  On UTF-8 the folding takes one character after another.
-/

open List

namespace RavBot.Security

open RavBot.Lib

namespace ExternalContentWrapper

/-! ## The code, by index -/

/-- `input[i]`, which must be in the text. -/
def byteAt (input : List Char) (i : Nat) : Option Nat := input[i]?.map Char.toNat

/-- The sequence at a position: `codepoint` and `seq_len`. -/
def readSequence (input : List Char) (i : Nat) : Option (Nat × Nat) := do
  let c ← byteAt input i
  if c < 0x80 then return (c, 1)
  else if c &&& 0xe0 = 0xc0 ∧ i + 1 < input.length then
    let codepoint := c &&& 0x1f
    let codepoint := codepoint <<< 6 ||| ((← byteAt input (i + 1)) &&& 0x3f)
    return (codepoint, 2)
  else if c &&& 0xf0 = 0xe0 ∧ i + 2 < input.length then
    let codepoint := c &&& 0x0f
    let codepoint := codepoint <<< 6 ||| ((← byteAt input (i + 1)) &&& 0x3f)
    let codepoint := codepoint <<< 6 ||| ((← byteAt input (i + 2)) &&& 0x3f)
    return (codepoint, 3)
  else if c &&& 0xf8 = 0xf0 ∧ i + 3 < input.length then
    let codepoint := c &&& 0x07
    let codepoint := codepoint <<< 6 ||| ((← byteAt input (i + 1)) &&& 0x3f)
    let codepoint := codepoint <<< 6 ||| ((← byteAt input (i + 2)) &&& 0x3f)
    let codepoint := codepoint <<< 6 ||| ((← byteAt input (i + 3)) &&& 0x3f)
    return (codepoint, 4)
  else return (0, 1)

/-- The rounds of the loop from a position on, `fuel` of them at most.  `none` stands for an access
outside of the text, and for a loop that has not ended. -/
def foldLoop (input : List Char) : Nat → Nat → List Char → Option (List Char)
  | 0, _, _ => none
  | fuel + 1, i, output =>
    if i < input.length then do
      let (codepoint, seqLen) ← readSequence input i
      match foldCodepoint codepoint with
      | some ascii => foldLoop input fuel (i + seqLen) (output ++ [ascii])
      | none => foldLoop input fuel (i + seqLen) (output ++ (← Text.substr input i seqLen))
    else some output

/-! ## The walk by index -/

variable {input : List Char}

theorem byteAt_add {i : Nat} {c : Char} {s : List Char} (h : input.drop i = c :: s)
    (k : Nat) : byteAt input (i + k) = (c :: s)[k]?.map Char.toNat := by
  rw [byteAt, ← h, getElem?_drop]

theorem readSequence_eq {i : Nat} {c : Char} {s : List Char}
    (h : input.drop i = c :: s) : readSequence input i = some (decode (c :: s)) := by
  have hbyte := byteAt_add h
  have hlength : input.length = i + 1 + s.length := by
    have hdrop := congrArg List.length h
    rw [length_drop, length_cons] at hdrop
    omega
  have hfits (k : Nat) : i + k < input.length ↔ k ≤ s.length := by omega
  have hfirst : byteAt input i = some c.toNat := hbyte 0
  rw [readSequence, hfirst, Option.bind_eq_bind, Option.bind_some, decode]
  simp only [hfits, hbyte]
  split_ifs with h₁ h₂ h₃ h₄
  · rfl
  · obtain ⟨b, s, rfl⟩ := exists_cons_of_length_pos (Nat.lt_of_lt_of_le (by decide) h₂.2)
    rfl
  · obtain ⟨b₁, s, rfl⟩ := exists_cons_of_length_pos (Nat.lt_of_lt_of_le (by decide) h₃.2)
    obtain ⟨b₂, s, rfl⟩ := exists_cons_of_length_pos (Nat.le_of_succ_le_succ h₃.2)
    rfl
  · obtain ⟨b₁, s, rfl⟩ := exists_cons_of_length_pos (Nat.lt_of_lt_of_le (by decide) h₄.2)
    obtain ⟨b₂, s, rfl⟩ := exists_cons_of_length_pos
      (Nat.lt_of_lt_of_le (by decide) (Nat.le_of_succ_le_succ h₄.2))
    obtain ⟨b₃, s, rfl⟩ := exists_cons_of_length_pos
      (Nat.le_of_succ_le_succ (Nat.le_of_succ_le_succ h₄.2))
    rfl
  · rfl

theorem decode_pos (c : Char) (s : List Char) : 1 ≤ (decode (c :: s)).2 := by
  simp only [decode]
  split_ifs <;> exact Nat.le_add_left 1 _

theorem foldLoop_eq {fuel i : Nat} (h : input.length < i + fuel)
    (hi : 0 < fuel) (output : List Char) :
    foldLoop input fuel i output = some (output ++ foldMarkerText (input.drop i)) := by
  induction fuel generalizing i output with
  | zero => exact absurd hi (Nat.lt_irrefl 0)
  | succ fuel ih =>
    rw [foldLoop]
    cases hrest : input.drop i with
    | nil =>
      have hend : ¬ i < input.length := Nat.not_lt.2 (drop_eq_nil_iff.1 hrest)
      rw [if_neg hend]
      exact congrArg some (append_nil output).symm
    | cons c s =>
      have hlt : i < input.length := by
        have hlength := congrArg List.length hrest
        rw [length_drop, length_cons] at hlength
        omega
      have hstep := decode_pos c s
      have hnext : input.drop (i + (decode (c :: s)).2) = s.drop ((decode (c :: s)).2 - 1) := by
        obtain ⟨k, hk⟩ := Nat.exists_eq_add_of_le' hstep
        rw [← drop_drop, hrest, hk, drop_succ_cons]
        rfl
      have hwrite : foldMarkerText (c :: s) = foldSequence (c :: s) ++
          foldMarkerText (s.drop ((decode (c :: s)).2 - 1)) := by
        rw [foldMarkerText, foldFrom, foldFrom_eq]
      have hround (written : List Char) :
          foldLoop input fuel (i + (decode (c :: s)).2) (output ++ written) =
            some (output ++ (written ++ foldMarkerText (s.drop ((decode (c :: s)).2 - 1)))) := by
        rw [ih (by omega) (by omega), hnext, append_assoc]
      have hcopy : Text.substr input i (decode (c :: s)).2 = some ((c :: s).take (decode (c :: s)).2) := by
        rw [Text.substr, if_pos hlt.le, hrest]
      rw [if_pos hlt, readSequence_eq hrest, hwrite, foldSequence]
      simp only [Option.bind_eq_bind, Option.bind_some]
      cases foldCodepoint (decode (c :: s)).1 with
      | some ascii => exact hround [ascii]
      | none =>
        rw [hcopy, Option.bind_some]
        exact hround _

/-! ## Characters -/

def foldChar (c : Char) : Char := (foldCodepoint c.toNat).getD c

theorem toNat_byte {n : Nat} (h : n < 256) : (Char.ofNat n).toNat = n := by
  have hvalid : n.isValidChar := .inl (by omega)
  rw [Char.ofNat, dif_pos hvalid]
  rfl

theorem lead_bits :
    (∀ k < 32, (0xC0 + k) &&& 0xe0 = 0xc0 ∧ (0xC0 + k) &&& 0x1f = k) ∧
      (∀ k < 16, (0xE0 + k) &&& 0xe0 ≠ 0xc0 ∧ (0xE0 + k) &&& 0xf0 = 0xe0 ∧ (0xE0 + k) &&& 0x0f = k) ∧
        ∀ k < 8, (0xF0 + k) &&& 0xe0 ≠ 0xc0 ∧ (0xF0 + k) &&& 0xf0 ≠ 0xe0 ∧
          (0xF0 + k) &&& 0xf8 = 0xf0 ∧ (0xF0 + k) &&& 0x07 = k := by
  decide

theorem decode_two {lead b : Char} {k : Nat} (hlead : lead.toNat = 0xC0 + k) (hk : k < 32) :
    sequenceLength lead = 2 ∧ (decode [lead, b]).1 = k * 64 + b.toNat % 64 := by
  obtain ⟨hmark, hbits⟩ := lead_bits.1 k hk
  have hlarge : ¬ 0xC0 + k < 0x80 := by omega
  constructor
  · rw [sequenceLength, hlead, if_neg hlarge, if_pos hmark]
  · simp only [decode, hlead, if_neg hlarge, hmark, length_singleton, le_refl, and_self, if_true]
    rw [hbits]
    exact pushByte_eq k b

theorem decode_three {lead b₁ b₂ : Char} {k : Nat} (hlead : lead.toNat = 0xE0 + k) (hk : k < 16) :
    sequenceLength lead = 3 ∧
      (decode [lead, b₁, b₂]).1 = (k * 64 + b₁.toNat % 64) * 64 + b₂.toNat % 64 := by
  obtain ⟨htwo, hmark, hbits⟩ := lead_bits.2.1 k hk
  have hlarge : ¬ 0xE0 + k < 0x80 := by omega
  constructor
  · rw [sequenceLength, hlead, if_neg hlarge, if_neg htwo, if_pos hmark]
  · have hdecode : decode [lead, b₁, b₂] = ([b₁, b₂].foldl pushByte k, 3) := by
      simp only [decode, hlead, if_neg hlarge, htwo, hmark, hbits, false_and, if_false]
      rfl
    rw [hdecode, foldl_cons, foldl_cons, foldl_nil, pushByte_eq, pushByte_eq]

theorem decode_four {lead b₁ b₂ b₃ : Char} {k : Nat} (hlead : lead.toNat = 0xF0 + k) (hk : k < 8) :
    sequenceLength lead = 4 ∧ (decode [lead, b₁, b₂, b₃]).1 =
      ((k * 64 + b₁.toNat % 64) * 64 + b₂.toNat % 64) * 64 + b₃.toNat % 64 := by
  obtain ⟨htwo, hthree, hmark, hbits⟩ := lead_bits.2.2 k hk
  have hlarge : ¬ 0xF0 + k < 0x80 := by omega
  constructor
  · rw [sequenceLength, hlead, if_neg hlarge, if_neg htwo, if_neg hthree, if_pos hmark]
  · have hdecode : decode [lead, b₁, b₂, b₃] = ([b₁, b₂, b₃].foldl pushByte k, 4) := by
      simp only [decode, hlead, if_neg hlarge, htwo, hthree, hmark, hbits, false_and, if_false]
      rfl
    rw [hdecode, foldl_cons, foldl_cons, foldl_cons, foldl_nil, pushByte_eq,
      pushByte_eq, pushByte_eq]

theorem decode_utf8Bytes (c : Char) : ∃ lead tail, Text.utf8Bytes c = lead :: tail ∧
    tail.length + 1 = sequenceLength lead ∧ (decode (lead :: tail)).1 = c.toNat := by
  have hmax : c.toNat < 0x110000 := by
    rcases c.valid with hlow | hhigh
    · exact Nat.lt_trans hlow (by decide)
    · exact hhigh.2
  have hnext (n : Nat) : (Char.ofNat (0x80 + n % 64)).toNat % 64 = n % 64 := by
    rw [toNat_byte (by omega)]
    omega
  rw [Text.utf8Bytes]
  split_ifs with h₁ h₂ h₃
  · have hascii : c.toNat < 0x80 := by omega
    exact ⟨c, [], rfl, (sequenceLength_of_ascii hascii).symm, by simp only [decode, hascii, if_true]⟩
  · have hlead : (Char.ofNat (0xC0 + c.toNat / 2 ^ 6)).toNat = 0xC0 + c.toNat / 2 ^ 6 :=
      toNat_byte (by omega)
    obtain ⟨hlength, hdecode⟩ := decode_two (b := .ofNat (0x80 + c.toNat / 2 ^ 0 % 64)) hlead (by omega)
    refine ⟨_, _, rfl, hlength.symm, ?_⟩
    rw [hdecode, hnext]
    omega
  · have hlead : (Char.ofNat (0xE0 + c.toNat / 2 ^ 12)).toNat = 0xE0 + c.toNat / 2 ^ 12 :=
      toNat_byte (by omega)
    obtain ⟨hlength, hdecode⟩ := @decode_three _ (.ofNat (0x80 + c.toNat / 2 ^ 6 % 64))
      (.ofNat (0x80 + c.toNat / 2 ^ 0 % 64)) _ hlead (by omega)
    refine ⟨_, _, rfl, hlength.symm, ?_⟩
    rw [hdecode, hnext, hnext]
    omega
  · have hlead : (Char.ofNat (0xF0 + c.toNat / 2 ^ 18)).toNat = 0xF0 + c.toNat / 2 ^ 18 :=
      toNat_byte (by omega)
    obtain ⟨hlength, hdecode⟩ := @decode_four _ (.ofNat (0x80 + c.toNat / 2 ^ 12 % 64))
      (.ofNat (0x80 + c.toNat / 2 ^ 6 % 64)) (.ofNat (0x80 + c.toNat / 2 ^ 0 % 64)) _ hlead (by omega)
    refine ⟨_, _, rfl, hlength.symm, ?_⟩
    rw [hdecode, hnext, hnext, hnext]
    omega

theorem fold_utf8 (text : List Char) :
    foldMarkerText (text.flatMap Text.utf8Bytes) = (text.map foldChar).flatMap Text.utf8Bytes := by
  induction text with
  | nil => rfl
  | cons c text ih =>
    obtain ⟨lead, tail, hbytes, hlength, hcodepoint⟩ := decode_utf8Bytes c
    rw [flatMap_cons, map_cons, flatMap_cons, hbytes, cons_append,
      fold_cons_append hlength, ih, foldChar]
    congr 1
    rw [foldSequence, hcodepoint]
    cases hfold : foldCodepoint c.toNat with
    | some ascii =>
      have hascii : ascii.toNat ≤ 0x7F := Nat.le_of_lt_succ (foldCodepoint_range hfold).2
      rw [Option.getD_some, Text.utf8Bytes, if_pos hascii]
    | none =>
      have hread : (decode (lead :: tail)).2 = (lead :: tail).length := by
        rw [(decode_of_fit hlength []).2.1, length_cons]
      rw [hread, take_length, Option.getD_none, hbytes]

/-- For every byte string the loop of `FoldMarkerText` ends without an access outside of the string, and
writes the folded string.  Folding it again changes nothing, ASCII strings stay as they are, and on
UTF-8 every look-alike is written as its letter and every other character as itself. -/
theorem fold_normal_form (input : List Char) :
    foldLoop input (input.length + 1) 0 [] = some (foldMarkerText input) ∧
      foldMarkerText (foldMarkerText input) = foldMarkerText input ∧
        ((∀ c ∈ input, c.toNat < 0x80) → foldMarkerText input = input) ∧
          ∀ text : List Char, input = text.flatMap Text.utf8Bytes →
            foldMarkerText input = (text.map foldChar).flatMap Text.utf8Bytes := by
  refine ⟨?_, fold_fold input, fun hascii => ?_, ?_⟩
  · exact foldLoop_eq (by omega) (Nat.succ_pos _) []
  · have hsame := fold_append_of_ascii hascii []
    rwa [append_nil, show foldMarkerText [] = [] from rfl, append_nil] at hsame
  · rintro text rfl
    exact fold_utf8 text

end ExternalContentWrapper

end RavBot.Security
