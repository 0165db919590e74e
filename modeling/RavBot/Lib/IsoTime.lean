import RavBot.Lib.Calendar
import RavBot.Lib.Text

/-!
# Times as texts

The format `%Y-%m-%dT%H:%M:%SZ` as `std::put_time` writes it and as `std::get_time` reads it.  Between the
years 0 and 9999 what is written is read back (`getTime_putTime`).
-/

open List

namespace RavBot.Lib.IsoTime

/-- A number, with zeros in front of it up to a width. -/
def padded (width : Nat) (n : Int) : List Char := List.leftpad width '0' (toString n.toNat).toList

/-- `std::put_time`, for a time in seconds. -/
def putTime (t : Int) : List Char :=
  let tm := Tm.ofTime t
  padded 4 (tm.tmYear + 1900) ++ '-' :: padded 2 (tm.tmMon + 1) ++ '-' :: padded 2 tm.tmMday ++
    'T' :: padded 2 tm.tmHour ++ ':' :: padded 2 tm.tmMin ++ ':' :: padded 2 tm.tmSec ++ ['Z']

/-- Read a number of so many digits in a range. -/
def readNumber (width : Nat) (lo hi : Int) (s : List Char) : Option (Int × List Char) :=
  let digits := s.take width
  if digits.length = width ∧ digits.all Char.isDigit ∧ lo ≤ Text.ofDigits digits ∧ Text.ofDigits digits ≤ hi then
    some (Text.ofDigits digits, s.drop width)
  else none

def readChar (c : Char) : List Char → Option (List Char)
  | [] => none
  | d :: s => if d = c then some s else none

/-- `std::get_time`, behind white space.  What follows is not looked at. -/
def getTime (s : List Char) : Option Tm := do
  let (year, s) ← readNumber 4 0 9999 (s.dropWhile Text.isSpace)
  let s ← readChar '-' s
  let (month, s) ← readNumber 2 1 12 s
  let s ← readChar '-' s
  let (day, s) ← readNumber 2 1 31 s
  let s ← readChar 'T' s
  let (hour, s) ← readNumber 2 0 23 s
  let s ← readChar ':' s
  let (min, s) ← readNumber 2 0 59 s
  let s ← readChar ':' s
  let (sec, s) ← readNumber 2 0 60 s
  let _ ← readChar 'Z' s
  some ⟨sec, min, hour, day, month - 1, year - 1900, 0⟩

example : putTime 1767323045 = "2026-01-02T03:04:05Z".toList := by decide +kernel

/-! ## Numbers -/

variable {width : Nat} {n : Int}

theorem isDigit_of_mem_padded {c : Char} (hc : c ∈ padded width n) : c.isDigit := by
  rw [padded, List.leftpad, mem_append] at hc
  rcases hc with hc | hc
  · rw [eq_of_mem_replicate hc]
    rfl
  · rw [Nat.toString_eq_ofList_toDigits, String.toList_ofList] at hc
    exact Nat.isDigit_of_mem_toDigits (by decide) (by decide) hc

theorem ofDigits_replicate_append (k : Nat) (ds : List Char) :
    Text.ofDigits (List.replicate k '0' ++ ds) = Text.ofDigits ds := by
  induction k with
  | zero => rfl
  | succ k ih =>
    rw [replicate_succ, cons_append, Text.ofDigits, foldl_cons]
    exact ih

theorem ofDigits_padded (width : Nat) (h : 0 ≤ n) : Text.ofDigits (padded width n) = n := by
  rw [padded, List.leftpad, ofDigits_replicate_append]
  have hdigits : ∀ c ∈ (toString n.toNat).toList, c.isDigit := by
    intro c hc
    rw [Nat.toString_eq_ofList_toDigits, String.toList_ofList] at hc
    exact Nat.isDigit_of_mem_toDigits (by decide) (by decide) hc
  rw [Text.ofDigits_eq_ofDigitChars hdigits, Nat.toString_eq_ofList_toDigits, String.toList_ofList,
    Nat.ofDigitChars_ten_toDigits]
  exact Int.toNat_of_nonneg h

theorem length_padded (hwidth : 0 < width) (hn : n < 10 ^ width) :
    (padded width n).length = width := by
  rw [padded, length_leftpad]
  refine max_eq_left ?_
  rw [Nat.toString_eq_ofList_toDigits, String.toList_ofList]
  rw [Nat.length_toDigits_le_iff (by decide) hwidth]
  have hcast : ((10 ^ width : Nat) : Int) = 10 ^ width := Nat.cast_pow 10 width
  have hpos : 0 < 10 ^ width := Nat.pow_pos (by decide)
  omega

theorem readNumber_padded {lo hi : Int} (hwidth : 0 < width) (hn : 0 ≤ n) (hfits : n < 10 ^ width)
    (hlo : lo ≤ n) (hhi : n ≤ hi) (s : List Char) :
    readNumber width lo hi (padded width n ++ s) = some (n, s) := by
  have hlength := length_padded hwidth hfits
  have htake : (padded width n ++ s).take width = padded width n := by
    rw [take_append_of_le_length hlength.ge, take_of_length_le hlength.le]
  have hdrop : (padded width n ++ s).drop width = s := by
    rw [drop_append_of_le_length hlength.ge, drop_of_length_le hlength.le, nil_append]
  rw [readNumber, htake, hdrop, ofDigits_padded width hn]
  exact if_pos ⟨hlength, all_eq_true.2 fun c hc => isDigit_of_mem_padded hc, hlo, hhi⟩

theorem readChar_cons (c : Char) (s : List Char) : readChar c (c :: s) = some s := if_pos rfl

theorem ascii_of_mem_putTime {t : Int} {c : Char} (hc : c ∈ putTime t) : c.toNat < 128 := by
  have hdigit {width : Nat} {n : Int} (hc : c ∈ padded width n) : c.toNat < 128 := by
    have hc := isDigit_of_mem_padded hc
    simp only [Char.isDigit, Bool.and_eq_true, decide_eq_true_eq] at hc
    have hle := hc.2
    simp only [UInt32.le_iff_toNat_le] at hle
    exact Nat.lt_of_le_of_lt hle (by decide)
  simp only [putTime, mem_append, mem_cons, not_mem_nil, or_false] at hc
  rcases hc with ((((((hc | rfl | hc) | rfl | hc) | rfl | hc) | rfl | hc) | rfl | hc) | rfl) <;>
    first | exact hdigit hc | decide

/-! ## Times -/

theorem day_ofDays (z : Int) : 1 ≤ (Date.ofDays z).day ∧ (Date.ofDays z).day ≤ 31 := by
  obtain ⟨y, m, d, -, hd, hm0, hm11, hmonth, -, hdate⟩ := Date.exists_march z
  rw [hdate, Date.ofMarch]
  unfold Date.monthStart at hmonth
  split_ifs <;> dsimp only <;> omega

theorem year_ofDays {z lo hi : Int} (hlo : Date.yearStart lo ≤ z + Date.epoch)
    (hhi : z + Date.epoch < Date.yearStart hi) :
    lo ≤ (Date.ofDays z).year ∧ (Date.ofDays z).year ≤ hi := by
  obtain ⟨y, m, d, hz, hd, hm0, hm11, -, hyear, hdate⟩ := Date.exists_march z
  have hfrom : lo ≤ y := by
    by_contra hlt
    have := Date.yearStart_mono (show y + 1 ≤ lo by omega)
    omega
  have hto : y < hi := by
    by_contra hge
    have := Date.yearStart_mono (show hi ≤ y by omega)
    unfold Date.monthStart at hz
    omega
  rw [hdate, Date.ofMarch]
  split_ifs <;> dsimp only <;> omega

theorem getTime_putTime {t : Int} (hlo : 0 ≤ (Tm.ofTime t).tmYear + 1900) (hhi : (Tm.ofTime t).tmYear + 1900 ≤ 9999) :
    getTime (putTime t) = some { Tm.ofTime t with tmWday := 0 } := by
  obtain ⟨hmonth, hmonth'⟩ := Tm.month_ofDays (t / 86400)
  obtain ⟨hday, hday'⟩ := day_ofDays (t / 86400)
  have hmon : 1 ≤ (Tm.ofTime t).tmMon + 1 ∧ (Tm.ofTime t).tmMon + 1 ≤ 12 := by
    dsimp only [Tm.ofTime]
    omega
  have hmday : 1 ≤ (Tm.ofTime t).tmMday ∧ (Tm.ofTime t).tmMday ≤ 31 := ⟨hday, hday'⟩
  have hhour : 0 ≤ (Tm.ofTime t).tmHour ∧ (Tm.ofTime t).tmHour ≤ 23 := by
    dsimp only [Tm.ofTime]
    omega
  have hmin : 0 ≤ (Tm.ofTime t).tmMin ∧ (Tm.ofTime t).tmMin ≤ 59 := by
    dsimp only [Tm.ofTime]
    omega
  have hsec : 0 ≤ (Tm.ofTime t).tmSec ∧ (Tm.ofTime t).tmSec ≤ 59 := by
    dsimp only [Tm.ofTime]
    omega
  have hspace : (putTime t).dropWhile Text.isSpace = putTime t := by
    have hne : padded 4 ((Tm.ofTime t).tmYear + 1900) ≠ [] := by
      rw [← length_pos_iff, length_padded (by decide) (by omega)]
      decide
    obtain ⟨c, rest, hcons⟩ := exists_cons_of_ne_nil hne
    have hdigit : c.isDigit := by
      refine @isDigit_of_mem_padded 4 ((Tm.ofTime t).tmYear + 1900) c ?_
      rw [hcons]
      exact mem_cons_self
    simp only [putTime, hcons, append_assoc, cons_append]
    rw [dropWhile_cons_of_neg]
    rw [Text.not_isSpace_of_isDigit hdigit]
    exact Bool.false_ne_true
  have hnumber (width : Nat) (lo hi n : Int) (hwidth : 0 < width) (hbounds : 0 ≤ lo ∧ hi < 10 ^ width)
      (hn : lo ≤ n ∧ n ≤ hi) (s : List Char) : readNumber width lo hi (padded width n ++ s) = some (n, s) :=
    readNumber_padded hwidth (hbounds.1.trans hn.1) (hn.2.trans_lt hbounds.2) hn.1 hn.2 s
  rw [getTime, hspace, putTime]
  simp only [append_assoc, cons_append]
  rw [hnumber 4 0 9999 _ (by decide) (by decide) ⟨hlo, hhi⟩]
  simp only [Option.bind_eq_bind, Option.bind_some, readChar_cons]
  rw [hnumber 2 1 12 _ (by decide) (by decide) hmon]
  simp only [Option.bind_some, readChar_cons]
  rw [hnumber 2 1 31 _ (by decide) (by decide) hmday]
  simp only [Option.bind_some, readChar_cons]
  rw [hnumber 2 0 23 _ (by decide) (by decide) hhour]
  simp only [Option.bind_some, readChar_cons]
  rw [hnumber 2 0 59 _ (by decide) (by decide) hmin]
  simp only [Option.bind_some, readChar_cons]
  rw [hnumber 2 0 60 _ (by decide) (by decide) ⟨hsec.1, hsec.2.trans (by decide)⟩]
  simp only [Option.bind_some, readChar_cons, Int.add_sub_cancel]

theorem toTime_getTime_putTime {t : Int} (hlo : 0 ≤ (Tm.ofTime t).tmYear + 1900)
    (hhi : (Tm.ofTime t).tmYear + 1900 ≤ 9999) : (getTime (putTime t)).map Tm.toTime = some t := by
  rw [getTime_putTime hlo hhi, Option.map_some]
  exact congrArg some (Tm.toTime_ofTime t)

theorem bounds_of_readNumber {lo hi : Int} {s rest : List Char}
    (h : readNumber width lo hi s = some (n, rest)) : lo ≤ n ∧ n ≤ hi := by
  rw [readNumber] at h
  split_ifs at h with hread
  cases h
  exact ⟨hread.2.2.1, hread.2.2.2⟩

theorem toTime_lt_of_getTime {s : List Char} {tm : Tm} (h : getTime s = some tm) : tm.toTime < 2 ^ 38 := by
  simp only [getTime, Option.bind_eq_bind, Option.bind_eq_some_iff, Prod.exists] at h
  obtain ⟨year, s₁, hyear, s₂, -, month, s₃, hmonth, s₄, -, day, s₅, hday, s₆, -, hour, s₇, hhour, s₈, -, min, s₉,
    hmin, s₁₀, -, sec, s₁₁, hsec, s₁₂, -, heq⟩ := h
  cases heq
  have hyear := bounds_of_readNumber hyear
  have hmonth := bounds_of_readNumber hmonth
  have hday := bounds_of_readNumber hday
  have hhour := bounds_of_readNumber hhour
  have hmin := bounds_of_readNumber hmin
  have hsec := bounds_of_readNumber hsec
  unfold Tm.toTime Date.toDays Date.yearStart Date.monthStart Date.epoch
  dsimp only
  split_ifs <;> omega

end RavBot.Lib.IsoTime
