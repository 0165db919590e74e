import Mathlib.Data.Nat.Digits.Defs
import Mathlib.Tactic.Ring

/-!
# Binary streams

Numbers of a fixed width are written with their lowest byte first.  A `ByteStream` models an input
stream from which a program reads blocks of bytes without asking whether a read succeeded: a read that
comes to the end of the stream delivers what was left, and from then on nothing is read any more.  A
variable that is read then keeps those of its bytes that were not delivered (`readNat`).
-/

namespace RavBot.Lib

/-- The number whose bytes these are, the lowest first. -/
def ofBytes (bs : List UInt8) : Nat := Nat.ofDigits 256 (bs.map UInt8.toNat)

theorem ofBytes_cons (b : UInt8) (bs : List UInt8) :
    ofBytes (b :: bs) = b.toNat + 256 * ofBytes bs := by
  rw [ofBytes, List.map_cons, Nat.ofDigits_cons]
  rfl

/-- The lowest `w` bytes of a number, the lowest first. -/
def leBytes : Nat → Nat → List UInt8
  | 0, _ => []
  | w + 1, n => UInt8.ofNat n :: leBytes w (n / 256)

@[simp] theorem length_leBytes (w n : Nat) : (leBytes w n).length = w := by
  induction w generalizing n with
  | zero => rfl
  | succ w ih => rw [leBytes, List.length_cons, ih]

theorem ofBytes_leBytes (w n : Nat) : ofBytes (leBytes w n) = n % 256 ^ w := by
  induction w generalizing n with
  | zero => simp [leBytes, ofBytes, Nat.mod_one]
  | succ w ih =>
    rw [leBytes, ofBytes_cons, ih, pow_succ', Nat.mod_mul]
    rfl

theorem ofBytes_lt (bs : List UInt8) : ofBytes bs < 256 ^ bs.length := by
  have h := Nat.ofDigits_lt_base_pow_length (b := 256) (l := bs.map UInt8.toNat) (by decide)
    fun x hx => by
      obtain ⟨b, -, rfl⟩ := List.mem_map.1 hx
      exact b.toNat_lt
  rwa [List.length_map] at h

/-- The string with the given bytes, one character a byte. -/
def stringOfBytes (bs : List UInt8) : String := String.ofList (bs.map fun b => Char.ofNat b.toNat)

def bytesOfString (s : String) : List UInt8 := s.toList.map fun c => UInt8.ofNat c.toNat

@[simp] theorem bytesOfString_stringOfBytes (bs : List UInt8) :
    bytesOfString (stringOfBytes bs) = bs := by
  have hbyte (b : UInt8) : UInt8.ofNat (Char.ofNat b.toNat).toNat = b := by
    have hvalid : b.toNat.isValidChar := .inl (Nat.lt_trans b.toNat_lt (by decide))
    have hchar : (Char.ofNat b.toNat).toNat = b.toNat := by
      rw [Char.ofNat, dif_pos hvalid]
      rfl
    rw [hchar, UInt8.ofNat_toNat]
  rw [bytesOfString, stringOfBytes, String.toList_ofList, List.map_map]
  exact List.map_id'' hbyte bs

/-- An input stream: the bytes that are left, `none` once a read has failed. -/
abbrev ByteStream := Option (List UInt8)

namespace ByteStream

/-- Read a number of bytes: what is delivered, and the stream after it. -/
def read (n : Nat) : ByteStream → List UInt8 × ByteStream
  | none => ([], none)
  | some bs => (bs.take n, if n ≤ bs.length then some (bs.drop n) else none)

/-- Read `w` bytes into a number, of which those that are not delivered stay. -/
def readNat (w old : Nat) (s : ByteStream) : Nat × ByteStream :=
  let (bs, s) := s.read w
  (ofBytes bs + old / 256 ^ bs.length * 256 ^ bs.length, s)

theorem length_read_le (n : Nat) (s : ByteStream) : (s.read n).1.length ≤ n := by
  cases s with
  | none => exact Nat.zero_le n
  | some bs => exact List.length_take_le n bs

theorem read_append (bs rest : List UInt8) :
    read bs.length (some (bs ++ rest)) = (bs, some rest) := by
  rw [read, List.take_left, List.drop_left, if_pos]
  rw [List.length_append]
  exact Nat.le_add_right _ _

theorem readNat_leBytes {w n old : Nat} (hn : n < 256 ^ w) (hold : old < 256 ^ w)
    (rest : List UInt8) : readNat w old (some (leBytes w n ++ rest)) = (n, some rest) := by
  have hread : read w (some (leBytes w n ++ rest)) = (leBytes w n, some rest) := by
    have h := read_append (leBytes w n) rest
    rwa [length_leBytes] at h
  rw [readNat, hread]
  dsimp only
  rw [ofBytes_leBytes, length_leBytes, Nat.mod_eq_of_lt hn, Nat.div_eq_of_lt hold, Nat.zero_mul,
    Nat.add_zero]

theorem readNat_lt {w old : Nat} (hold : old < 256 ^ w) (s : ByteStream) :
    (s.readNat w old).1 < 256 ^ w := by
  rw [readNat]
  dsimp only
  generalize hbs : (s.read w).1 = bs
  have hlength : bs.length ≤ w := hbs ▸ length_read_le w s
  have hwidth : 256 ^ (w - bs.length) * 256 ^ bs.length = 256 ^ w := by
    rw [← pow_add, Nat.sub_add_cancel hlength]
  have hhigh : old / 256 ^ bs.length < 256 ^ (w - bs.length) := by
    rw [Nat.div_lt_iff_lt_mul (by positivity), hwidth]
    exact hold
  calc ofBytes bs + old / 256 ^ bs.length * 256 ^ bs.length
      < 256 ^ bs.length + old / 256 ^ bs.length * 256 ^ bs.length :=
        Nat.add_lt_add_right (ofBytes_lt bs) _
    _ = (old / 256 ^ bs.length + 1) * 256 ^ bs.length := by ring
    _ ≤ 256 ^ (w - bs.length) * 256 ^ bs.length := Nat.mul_le_mul_right _ hhigh
    _ = 256 ^ w := hwidth

end ByteStream

end RavBot.Lib
