import Mathlib.Tactic.IntervalCases
import Mathlib.Tactic.Ring

/-!
# The Gregorian calendar

Days are counted from 1 January 1970, and `Date.ofDays` gives the date of a day in the proleptic
Gregorian calendar.  That it is the calendar says `Date.ofDays_succ`: the date of the next day is the
next date, by the lengths of the months and the rule for leap years.  `Date.toDays` counts the days
up to a date (`Date.toDays_ofDays`).

For counting, a year begins on 1 March, so that the leap day is its last one; `yearStart` and
`monthStart` say when the years and the months so counted begin.
-/

namespace RavBot.Lib

/-- A date. -/
structure Date where
  year : Int
  month : Int
  day : Int
  deriving DecidableEq, Repr

namespace Date

def isLeap (year : Int) : Bool := year % 4 = 0 && (year % 100 ≠ 0 || year % 400 = 0)

/-! ## Counting from March -/

/-- The days before 1 March of a year, from 1 March of the year 0 on. -/
def yearStart (year : Int) : Int := 365 * year + year / 4 - year / 100 + year / 400

/-- The days before the first of a month, from 1 March on; March is the month 0. -/
def monthStart (month : Int) : Int := (153 * month + 2) / 5

/-- 1 January 1970, counted from 1 March of the year 0. -/
def epoch : Int := 719468

/-- The year in which a day lies, both counted from March. -/
def yearOf (n : Int) : Int :=
  let era := n / 146097
  let dayOfEra := n % 146097
  let century := min (dayOfEra / 36524) 3
  let dayOfCentury := dayOfEra - 36524 * century
  400 * era + 100 * century + 4 * (dayOfCentury / 1461) + min (dayOfCentury % 1461 / 365) 3

/-- The month in which a day of a year lies, both counted from March. -/
def monthOf (dayOfYear : Int) : Int := (5 * dayOfYear + 2) / 153

/-- The date of a day of a month, where year and month are counted from March. -/
def ofMarch (year month day : Int) : Date :=
  if month < 10 then ⟨year, month + 3, day⟩ else ⟨year + 1, month - 9, day⟩

/-- The date of a day. -/
def ofDays (z : Int) : Date :=
  let n := z + epoch
  let dayOfYear := n - yearStart (yearOf n)
  let month := monthOf dayOfYear
  ofMarch (yearOf n) month (dayOfYear - monthStart month + 1)

/-- The day of a date.  The day of the month need not exist. -/
def toDays (d : Date) : Int :=
  (if d.month ≤ 2 then yearStart (d.year - 1) + monthStart (d.month + 9)
    else yearStart d.year + monthStart (d.month - 3)) + (d.day - 1) - epoch

theorem yearStart_parts {era century quad year : Int} (hcentury : 0 ≤ century ∧ century ≤ 3)
    (hquad : 0 ≤ quad ∧ quad ≤ 24) (hyear : 0 ≤ year ∧ year ≤ 3) :
    yearStart (400 * era + 100 * century + 4 * quad + year) =
      146097 * era + 36524 * century + 1461 * quad + 365 * year := by
  have h4 : (400 * era + 100 * century + 4 * quad + year) / 4 =
      100 * era + 25 * century + quad := by omega
  have h100 : (400 * era + 100 * century + 4 * quad + year) / 100 = 4 * era + century := by omega
  have h400 : (400 * era + 100 * century + 4 * quad + year) / 400 = era := by omega
  rw [yearStart, h4, h100, h400]
  ring

/-- The parts of the year of a day, and how far into the year the day is.  The last year of four has a
day more, unless it is the last of a century that is not the last of its era. -/
theorem yearOf_parts (n : Int) : ∃ era century quad year,
    yearOf n = 400 * era + 100 * century + 4 * quad + year ∧
    (0 ≤ century ∧ century ≤ 3) ∧ (0 ≤ quad ∧ quad ≤ 24) ∧ (0 ≤ year ∧ year ≤ 3) ∧
    0 ≤ n - (146097 * era + 36524 * century + 1461 * quad + 365 * year) ∧
    (n - (146097 * era + 36524 * century + 1461 * quad + 365 * year) < 365 ∨
      n - (146097 * era + 36524 * century + 1461 * quad + 365 * year) = 365 ∧
        year = 3 ∧ (quad < 24 ∨ century = 3)) := by
  have hera : n = 146097 * (n / 146097) + n % 146097 := by omega
  have hdoe : 0 ≤ n % 146097 ∧ n % 146097 < 146097 := by omega
  unfold yearOf
  dsimp only
  generalize n / 146097 = era at *
  generalize n % 146097 = dayOfEra at *
  have hcentury : 0 ≤ min (dayOfEra / 36524) 3 ∧ min (dayOfEra / 36524) 3 ≤ 3 ∧
      0 ≤ dayOfEra - 36524 * min (dayOfEra / 36524) 3 ∧
      (dayOfEra - 36524 * min (dayOfEra / 36524) 3 < 36524 ∨
        dayOfEra - 36524 * min (dayOfEra / 36524) 3 = 36524 ∧ min (dayOfEra / 36524) 3 = 3) := by
    omega
  generalize min (dayOfEra / 36524) 3 = century at *
  generalize hdoc : dayOfEra - 36524 * century = dayOfCentury at *
  have hquad : dayOfCentury = 1461 * (dayOfCentury / 1461) + dayOfCentury % 1461 := by omega
  have hdoq : 0 ≤ dayOfCentury % 1461 ∧ dayOfCentury % 1461 < 1461 := by omega
  generalize dayOfCentury / 1461 = quad at *
  generalize dayOfCentury % 1461 = dayOfQuad at *
  have hyear : 0 ≤ min (dayOfQuad / 365) 3 ∧ min (dayOfQuad / 365) 3 ≤ 3 ∧
      0 ≤ dayOfQuad - 365 * min (dayOfQuad / 365) 3 ∧
      (dayOfQuad - 365 * min (dayOfQuad / 365) 3 < 365 ∨
        dayOfQuad - 365 * min (dayOfQuad / 365) 3 = 365 ∧ min (dayOfQuad / 365) 3 = 3) := by omega
  generalize min (dayOfQuad / 365) 3 = year at *
  refine ⟨era, century, quad, year, rfl, ?_, ?_, ?_, ?_, ?_⟩ <;> omega

theorem yearStart_yearOf (n : Int) : yearStart (yearOf n) ≤ n ∧ n < yearStart (yearOf n + 1) := by
  obtain ⟨era, century, quad, year, heq, hcentury, hquad, hyear, hfrom, hto⟩ := yearOf_parts n
  rw [heq, yearStart_parts hcentury hquad hyear]
  refine ⟨by omega, ?_⟩
  unfold yearStart
  omega

theorem yearStart_mono {y y' : Int} (h : y ≤ y') : yearStart y ≤ yearStart y' := by
  unfold yearStart
  omega

theorem yearStart_succ (y : Int) :
    yearStart (y + 1) = yearStart y + if isLeap (y + 1) then 366 else 365 := by
  unfold yearStart isLeap
  by_cases h4 : (y + 1) % 4 = 0
  · by_cases h100 : (y + 1) % 100 = 0
    · by_cases h400 : (y + 1) % 400 = 0
      · simp only [h4, h100, h400]
        norm_num
        omega
      · simp only [h4, h100, h400]
        norm_num
        omega
    · simp only [h4]
      norm_num
      omega
  · simp only [h4]
    norm_num
    omega

theorem monthOf_bounds {doy : Int} (hfrom : 0 ≤ doy) (hto : doy < 366) :
    0 ≤ monthOf doy ∧ monthOf doy ≤ 11 ∧ monthStart (monthOf doy) ≤ doy ∧
      doy < monthStart (monthOf doy + 1) := by
  unfold monthOf monthStart
  omega

theorem exists_march (z : Int) : ∃ y m d, z = yearStart y + monthStart m + (d - 1) - epoch ∧
    1 ≤ d ∧ 0 ≤ m ∧ m ≤ 11 ∧ monthStart m + (d - 1) < monthStart (m + 1) ∧
    yearStart y + monthStart m + (d - 1) < yearStart (y + 1) ∧ ofDays z = ofMarch y m d := by
  obtain ⟨hfrom, hto⟩ := yearStart_yearOf (z + epoch)
  have hsucc := yearStart_succ (yearOf (z + epoch))
  generalize hy : yearOf (z + epoch) = y at *
  have hdoy : z + epoch - yearStart y < 366 := by
    split_ifs at hsucc <;> omega
  obtain ⟨hm0, hm11, hmfrom, hmto⟩ := monthOf_bounds (by omega) hdoy
  generalize hm : monthOf (z + epoch - yearStart y) = m at *
  refine ⟨y, m, z + epoch - yearStart y - monthStart m + 1, by ring, by omega, hm0, hm11, by omega,
    by omega, ?_⟩
  rw [ofDays, hy, hm]

theorem toDays_ofMarch {y m d : Int} (hm0 : 0 ≤ m) (hm11 : m ≤ 11) :
    toDays (ofMarch y m d) = yearStart y + monthStart m + (d - 1) - epoch := by
  rw [ofMarch]
  by_cases hlt : m < 10
  · have hgt : ¬ m + 3 ≤ 2 := by omega
    rw [if_pos hlt, toDays, if_neg hgt]
    congr 4
    ring
  · have hle : m - 9 ≤ 2 := by omega
    rw [if_neg hlt, toDays, if_pos hle, Int.add_sub_cancel, Int.sub_add_cancel]

@[simp] theorem toDays_ofDays (z : Int) : toDays (ofDays z) = z := by
  obtain ⟨y, m, d, hz, -, hm0, hm11, -, -, hdate⟩ := exists_march z
  rw [hdate, toDays_ofMarch hm0 hm11, hz]

end Date

/-! ## Broken-down time -/

/-- `std::tm`, without the fields that no one reads: months and days of the week are counted from
zero, and years from 1900. -/
structure Tm where
  tmSec : Int
  tmMin : Int
  tmHour : Int
  tmMday : Int
  tmMon : Int
  tmYear : Int
  tmWday : Int
  deriving DecidableEq, Repr

namespace Tm

/-- The broken-down time of a time in seconds (`gmtime`).  1 January 1970 was a Thursday. -/
def ofTime (t : Int) : Tm :=
  let days := t / 86400
  let seconds := t % 86400
  let date := Date.ofDays days
  { tmSec := seconds % 60
    tmMin := seconds / 60 % 60
    tmHour := seconds / 3600
    tmMday := date.day
    tmMon := date.month - 1
    tmYear := date.year - 1900
    tmWday := (days + 4) % 7 }

/-- The time of a broken-down time, of which the fields may lie outside their ranges (`timegm`). -/
def toTime (tm : Tm) : Int :=
  Date.toDays ⟨tm.tmYear + 1900 + tm.tmMon / 12, tm.tmMon % 12 + 1, tm.tmMday⟩ * 86400 +
    tm.tmHour * 3600 + tm.tmMin * 60 + tm.tmSec

/-- `std::mktime` where local time is UTC: the broken-down time is normalized, and its time is
given. -/
def mktime (tm : Tm) : Tm × Int := (ofTime tm.toTime, tm.toTime)

theorem month_ofDays (z : Int) : 1 ≤ (Date.ofDays z).month ∧ (Date.ofDays z).month ≤ 12 := by
  obtain ⟨y, m, d, -, -, hm0, hm11, -, -, hdate⟩ := Date.exists_march z
  rw [hdate, Date.ofMarch]
  split_ifs <;> dsimp only <;> omega

@[simp] theorem toTime_ofTime (t : Int) : (ofTime t).toTime = t := by
  obtain ⟨hlo, hhi⟩ := month_ofDays (t / 86400)
  have hdate : (⟨(Date.ofDays (t / 86400)).year - 1900 + 1900 +
      ((Date.ofDays (t / 86400)).month - 1) / 12, ((Date.ofDays (t / 86400)).month - 1) % 12 + 1,
      (Date.ofDays (t / 86400)).day⟩ : Date) = Date.ofDays (t / 86400) := by
    generalize Date.ofDays (t / 86400) = date at *
    obtain ⟨year, month, day⟩ := date
    dsimp only at hlo hhi
    rw [Date.mk.injEq]
    refine ⟨?_, ?_, rfl⟩ <;> dsimp only <;> omega
  rw [toTime]
  dsimp only [ofTime]
  rw [hdate, Date.toDays_ofDays]
  omega

theorem toTime_minute (t : Int) :
    { ofTime t with tmMin := (ofTime t).tmMin + 1 }.toTime = t + 60 := by
  have h := toTime_ofTime t
  rw [toTime] at h ⊢
  dsimp only
  omega

theorem toTime_nextMinute (t : Int) :
    { ofTime t with tmSec := 0, tmMin := (ofTime t).tmMin + 1 }.toTime = 60 * (t / 60 + 1) := by
  have h := toTime_ofTime t
  have hsec : (ofTime t).tmSec = t % 60 := by
    dsimp only [ofTime]
    omega
  rw [toTime] at h ⊢
  dsimp only
  omega

end Tm

end RavBot.Lib
