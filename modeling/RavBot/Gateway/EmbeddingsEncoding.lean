import RavBot.Lib.Base64

/-!
# The encoding of embeddings

The gateway answers with the bytes of an embedding in base64.  `Base64Encode` gathers three bytes in a
block of 24 bits and writes it six bits at a time, by shifts and masks; one or two bytes that are left are
written by themselves and padded.  The shifts and masks compute the digits of the standard encoding.
-/

namespace RavBot.Gateway

open RavBot.Lib

/-! ## The code -/

def kAlphabet : List Char := "ABCDEFGHIJKLMNOPQRSTUVWXYZabcdefghijklmnopqrstuvwxyz0123456789+/".toList

/-- The letter that the last six bits of a word select, `kAlphabet[bits & 0x3F]`. -/
def alphabetLetter (bits : UInt32) : Char := kAlphabet.getD (bits &&& 0x3F).toNat '\x00'

def base64Encode : List UInt8 → List Char
  | a :: b :: c :: bytes =>
    let block := a.toUInt32 <<< 16 ||| b.toUInt32 <<< 8 ||| c.toUInt32
    alphabetLetter (block >>> 18) :: alphabetLetter (block >>> 12) :: alphabetLetter (block >>> 6) ::
      alphabetLetter block :: base64Encode bytes
  | [a, b] =>
    let block := a.toUInt32 <<< 16 ||| b.toUInt32 <<< 8
    [alphabetLetter (block >>> 18), alphabetLetter (block >>> 12), alphabetLetter (block >>> 6), '=']
  | [a] =>
    let block := a.toUInt32 <<< 16
    [alphabetLetter (block >>> 18), alphabetLetter (block >>> 12), '=', '=']
  | [] => []

/-! ## Blocks -/

theorem kAlphabet_eq : kAlphabet = Base64.standard.letters := by decide +kernel

theorem alphabetLetter_eq (bits : UInt32) : alphabetLetter bits = Base64.standard.letter (bits.toNat % 64) := by
  have hbits : (bits &&& 0x3F).toNat = bits.toNat % 64 := by
    rw [UInt32.toNat_and]
    exact Nat.and_two_pow_sub_one_eq_mod bits.toNat 6
  have hlt : bits.toNat % 64 < Base64.standard.letters.length := by
    rw [Base64.standard.length_letters]
    exact Nat.mod_lt _ (by decide)
  rw [alphabetLetter, hbits, kAlphabet_eq, Base64.letter, ← List.getElem_eq_getD (h := hlt),
    ← List.getElem_eq_getD (h := hlt)]

theorem toNat_shiftLeft_byte {b : UInt8} {k : UInt32} {n : Nat} (hk : k.toNat = n) (h : n ≤ 16) :
    (b.toUInt32 <<< k).toNat = b.toNat * 2 ^ n := by
  have hb := b.toNat_lt
  have hpow : 2 ^ n ≤ 2 ^ 16 := Nat.pow_le_pow_right (by decide) h
  have hlt : b.toNat * 2 ^ n < 2 ^ 32 := by
    calc b.toNat * 2 ^ n ≤ b.toNat * 2 ^ 16 := Nat.mul_le_mul_left _ hpow
      _ < 2 ^ 32 := by omega
  rw [UInt32.toNat_shiftLeft, hk, Nat.mod_eq_of_lt (h.trans_lt (by decide)), UInt8.toNat_toUInt32,
    Nat.shiftLeft_eq, Nat.mod_eq_of_lt hlt]

theorem toNat_block (a b c : UInt8) :
    (a.toUInt32 <<< 16 ||| b.toUInt32 <<< 8 ||| c.toUInt32).toNat =
      a.toNat * 65536 + b.toNat * 256 + c.toNat := by
  have hb := b.toNat_lt
  have hc := c.toNat_lt
  have hlow : b.toNat * 2 ^ 8 < 2 ^ 16 := by omega
  have hfirst : a.toNat * 2 ^ 16 ||| b.toNat * 2 ^ 8 = (a.toNat * 256 + b.toNat) * 2 ^ 8 := by
    rw [← Nat.shiftLeft_eq, ← Nat.shiftLeft_add_eq_or_of_lt hlow, Nat.shiftLeft_eq]
    omega
  rw [UInt32.toNat_or, UInt32.toNat_or, toNat_shiftLeft_byte (n := 16) rfl (by decide),
    toNat_shiftLeft_byte (n := 8) rfl (by decide), hfirst, UInt8.toNat_toUInt32, ← Nat.shiftLeft_eq,
    ← Nat.shiftLeft_add_eq_or_of_lt hc, Nat.shiftLeft_eq]
  omega

theorem toNat_shiftRight {block k : UInt32} {n : Nat} (hk : k.toNat = n) (h : n < 32) :
    (block >>> k).toNat = block.toNat / 2 ^ n := by
  rw [UInt32.toNat_shiftRight, hk, Nat.mod_eq_of_lt h, Nat.shiftRight_eq_div_pow]

theorem block_zero (a b : UInt8) :
    a.toUInt32 <<< 16 ||| b.toUInt32 <<< 8 = a.toUInt32 <<< 16 ||| b.toUInt32 <<< 8 ||| (0 : UInt8).toUInt32 :=
  UInt32.or_zero.symm

theorem base64Encode_eq (bytes : List UInt8) : base64Encode bytes = Base64.standard.encode bytes := by
  -- the four letters of a block of three bytes, as numbers
  have hletters (a b c : UInt8) :
      let block := a.toUInt32 <<< 16 ||| b.toUInt32 <<< 8 ||| c.toUInt32
      alphabetLetter (block >>> 18) = Base64.standard.letter (a.toNat / 4) ∧
        alphabetLetter (block >>> 12) = Base64.standard.letter (a.toNat % 4 * 16 + b.toNat / 16) ∧
        alphabetLetter (block >>> 6) = Base64.standard.letter (b.toNat % 16 * 4 + c.toNat / 64) ∧
        alphabetLetter block = Base64.standard.letter (c.toNat % 64) := by
    have ha := a.toNat_lt
    have hb := b.toNat_lt
    have hc := c.toNat_lt
    refine ⟨?_, ?_, ?_, ?_⟩
    · rw [alphabetLetter_eq, toNat_shiftRight (n := 18) rfl (by decide), toNat_block]
      congr 1
      omega
    · rw [alphabetLetter_eq, toNat_shiftRight (n := 12) rfl (by decide), toNat_block]
      congr 1
      omega
    · rw [alphabetLetter_eq, toNat_shiftRight (n := 6) rfl (by decide), toNat_block]
      congr 1
      omega
    · rw [alphabetLetter_eq, toNat_block]
      congr 1
      omega
  induction bytes using base64Encode.induct with
  | case1 a b c bytes ih =>
    obtain ⟨h₁, h₂, h₃, h₄⟩ := hletters a b c
    rw [base64Encode, Base64.encode, h₁, h₂, h₃, h₄, ih]
  | case2 a b =>
    obtain ⟨h₁, h₂, h₃, -⟩ := hletters a b 0
    rw [base64Encode, Base64.encode, block_zero, h₁, h₂, h₃]
    rfl
  | case3 a =>
    obtain ⟨h₁, h₂, -, -⟩ := hletters a 0 0
    have hblock : a.toUInt32 <<< 16 =
        a.toUInt32 <<< 16 ||| (0 : UInt8).toUInt32 <<< 8 ||| (0 : UInt8).toUInt32 := by
      rw [← block_zero]
      exact UInt32.or_zero.symm
    rw [base64Encode, Base64.encode, hblock, h₁, h₂]
    rfl
  | case4 => rfl

/-- Decoding by the standard alphabet takes what `Base64Encode` writes back to the bytes, and there are
four letters for every three bytes that are begun. -/
theorem base64Encode_decodes (bytes : List UInt8) :
    Base64.standard.decode (base64Encode bytes) = some bytes ∧
      (base64Encode bytes).length = 4 * (bytes.length ⌈/⌉ 3) := by
  rw [base64Encode_eq]
  exact ⟨Base64.standard.decode_encode bytes, Base64.standard.length_encode bytes⟩

example : base64Encode [0x66, 0x6F, 0x6F, 0x62] = "Zm9vYg==".toList := by decide +kernel

end RavBot.Gateway
