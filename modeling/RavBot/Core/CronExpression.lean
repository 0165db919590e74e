import RavBot.Lib.Calendar
import RavBot.Lib.Text

/-!
# Cron expressions

A `CronExpression` has a list of values for each of its five fields, of which an empty one stands for
every value.  `NextAfter` goes through the minutes one after the other and takes the first that
matches, but it gives up after 525960 of them, which are 365 days and a quarter, and then answers with
the time an hour later whether that matches or not.  So it finds the next firing time exactly when
that comes soon enough (`nextAfter_isNext_iff`).

Times are nanoseconds since 1970, and local time is UTC.
-/

namespace RavBot.Core

open RavBot.Lib

/-- `CronExpression`: the values of its fields. -/
structure CronExpression where
  minute : List Int
  hour : List Int
  dayOfMonth : List Int
  month : List Int
  dayOfWeek : List Int
  deriving DecidableEq, Repr

namespace CronExpression

def second : Int := 1000000000

/-- The values `lo`, `lo + step`, `lo + 2 * step`, ... up to `hi`. -/
def valuesUpTo (lo hi step : Int) : List Int :=
  (List.range ((hi - lo) / step + 1).toNat).map fun k => lo + step * k

/-- A part of a field between commas: a number, or a range, which is cut off at the largest value. -/
def parseToken (max : Int) (token : List Char) : Option (List Int) :=
  match Text.find ['-'] token with
  | some dash => do
      let lo ← Text.stoi (token.take dash)
      let hi ← Text.stoi (token.drop (dash + 1))
      return valuesUpTo lo (min hi max) 1
  | none => (Text.stoi token).map fun value => [value]

/-- `parse_field`.  `none` is the exception of `stoi`.  A step that is not positive stands for every
value, like no values at all. -/
def parseField (field : List Char) (min max : Int) : Option (List Int) :=
  if field = ['*'] then some []
  else if 2 < field.length ∧ field.take 2 = ['*', '/'] then
    (Text.stoi (field.drop 2)).map fun step => if 0 < step then valuesUpTo min max step else []
  else ((Text.pieces ',' field).mapM (parseToken max)).map List.flatten

/-- The constructor.  Fields that are missing are `*`, and words after the fifth are not read. -/
def parse (expr : String) : Option CronExpression := do
  let fields := Text.words expr.toList
  let minute ← parseField (fields.getD 0 ['*']) 0 59
  let hour ← parseField (fields.getD 1 ['*']) 0 23
  let dayOfMonth ← parseField (fields.getD 2 ['*']) 1 31
  let month ← parseField (fields.getD 3 ['*']) 1 12
  let dayOfWeek ← parseField (fields.getD 4 ['*']) 0 6
  return { minute, hour, dayOfMonth, month, dayOfWeek }

def fieldMatches (values : List Int) (value : Int) : Bool :=
  values.isEmpty || decide (value ∈ values)

/-- `Matches`. -/
def matchesTm (e : CronExpression) (tm : Tm) : Bool :=
  fieldMatches e.minute tm.tmMin && fieldMatches e.hour tm.tmHour &&
    fieldMatches e.dayOfMonth tm.tmMday && fieldMatches e.month (tm.tmMon + 1) &&
    fieldMatches e.dayOfWeek tm.tmWday

/-- `to_time_t`, which cuts a time to seconds towards 1970. -/
def toTimeT (time : Int) : Int := time.tdiv second

def searchSteps : Nat := 525960

/-- The search for a minute that matches. -/
def search (e : CronExpression) : Nat → Tm → Option Int
  | 0, _ => none
  | steps + 1, tm =>
    if e.matchesTm tm then some tm.mktime.2
    else search e steps { tm with tmMin := tm.tmMin + 1 }.mktime.1

def nextAfter (e : CronExpression) (after : Int) : Int :=
  let tm := Tm.ofTime (toTimeT after)
  let tm := { tm with tmSec := 0, tmMin := tm.tmMin + 1 }.mktime.1
  match e.search searchSteps tm with
  | some t => t * second
  | none => after + 3600 * second

def MatchesAt (e : CronExpression) (t : Int) : Prop := e.matchesTm (Tm.ofTime t)

instance (e : CronExpression) (t : Int) : Decidable (e.MatchesAt t) :=
  inferInstanceAs (Decidable (e.matchesTm (Tm.ofTime t) = true))

/-- The least whole minute after a time that matches. -/
structure IsNext (e : CronExpression) (after next : Int) : Prop where
  wholeMinute : next % (60 * second) = 0
  later : after < next
  matchesAt : e.MatchesAt (next / second)
  least : ∀ other, other % (60 * second) = 0 → after < other → e.MatchesAt (other / second) →
    next ≤ other

def firstMinute (after : Int) : Int := 60 * (toTimeT after / 60 + 1)

/-- One of the minutes that the search goes through matches, and the search passes over none that
does: the time is not before 1970 and less than a second before a whole minute that matches. -/
structure InReach (e : CronExpression) (after : Int) : Prop where
  found : ∃ i : Nat, i < searchSteps ∧ e.MatchesAt (firstMinute after + 60 * i)
  notPassed : ¬ (after < toTimeT after * second ∧ toTimeT after % 60 = 0 ∧
    e.MatchesAt (toTimeT after))

variable {e : CronExpression}

theorem search_eq_some {steps : Nat} {t r : Int}
    (h : e.search steps (Tm.ofTime t) = some r) :
    ∃ i : Nat, i < steps ∧ r = t + 60 * i ∧ e.MatchesAt (t + 60 * i) ∧
      ∀ j : Nat, j < i → ¬ e.MatchesAt (t + 60 * j) := by
  induction steps generalizing t with
  | zero => cases h
  | succ steps ih =>
    rw [search] at h
    split_ifs at h with hmatches
    · refine ⟨0, Nat.succ_pos steps, ?_, by simpa [MatchesAt] using hmatches, nofun⟩
      rw [Tm.mktime, Tm.toTime_ofTime, Option.some.injEq] at h
      simp [← h]
    · rw [Tm.mktime, Tm.toTime_minute] at h
      obtain ⟨i, hi, hr, hat, hbefore⟩ := ih h
      have hshift (j : Nat) : t + 60 * ((j + 1 : Nat) : Int) = t + 60 + 60 * j := by
        push_cast
        ring
      refine ⟨i + 1, Nat.succ_lt_succ hi, hr.trans (hshift i).symm, (hshift i).symm ▸ hat, ?_⟩
      rintro (_ | j) hj
      · simpa [MatchesAt] using hmatches
      · rw [hshift j]
        exact hbefore j (Nat.lt_of_succ_lt_succ hj)

theorem search_eq_none {steps : Nat} {t : Int}
    (h : e.search steps (Tm.ofTime t) = none) (i : Nat) (hi : i < steps) :
    ¬ e.MatchesAt (t + 60 * i) := by
  induction steps generalizing t i with
  | zero => cases hi
  | succ steps ih =>
    rw [search] at h
    split_ifs at h with hmatches
    rw [Tm.mktime, Tm.toTime_minute] at h
    cases i with
    | zero => simpa [MatchesAt] using hmatches
    | succ i =>
      have hshift : t + 60 * ((i + 1 : Nat) : Int) = t + 60 + 60 * i := by
        push_cast
        ring
      rw [hshift]
      exact ih h i (Nat.lt_of_succ_lt_succ hi)

theorem nextAfter_eq (e : CronExpression) (after : Int) :
    e.nextAfter after = match e.search searchSteps (Tm.ofTime (firstMinute after)) with
      | some t => t * second
      | none => after + 3600 * second := by
  rw [nextAfter]
  dsimp only [Tm.mktime]
  rw [Tm.toTime_nextMinute, firstMinute]

theorem toTimeT_spec (time : Int) :
    toTimeT time = time / second ∨
      time < toTimeT time * second ∧ toTimeT time = time / second + 1 := by
  rw [toTimeT, second]
  rcases lt_or_ge time 0 with hneg | hpos
  · have hcut : time.tdiv 1000000000 = -(-time / 1000000000) := by
      rw [← Int.tdiv_eq_ediv_of_nonneg (by omega), Int.neg_tdiv, neg_neg]
    rw [hcut]
    omega
  · exact .inl (Int.tdiv_eq_ediv_of_nonneg hpos)

variable {after : Int}

theorem wholeMinute_cases {other : Int} (hwhole : other % (60 * second) = 0)
    (hlater : after < other) :
    (after < toTimeT after * second ∧ toTimeT after % 60 = 0 ∧ other / second = toTimeT after) ∨
      ∃ j : Nat, other = (firstMinute after + 60 * j) * second := by
  have hspec := toTimeT_spec after
  rw [firstMinute]
  generalize toTimeT after = s at *
  simp only [second] at *
  by_cases hpassed : other / 1000000000 = s
  · left
    omega
  · right
    refine ⟨((other / 1000000000 - 60 * (s / 60 + 1)) / 60).toNat, ?_⟩
    omega

theorem firstMinute_later (after : Int) (i : Nat) :
    (firstMinute after + 60 * i) * second % (60 * second) = 0 ∧
      after < (firstMinute after + 60 * i) * second ∧
      toTimeT after * second < (firstMinute after + 60 * i) * second := by
  have hspec := toTimeT_spec after
  rw [firstMinute]
  generalize toTimeT after = s at *
  simp only [second] at *
  omega

theorem mul_second_ediv (t : Int) : t * second / second = t :=
  Int.mul_ediv_cancel t (by decide)

theorem not_isNext_of_none
    (h : e.search searchSteps (Tm.ofTime (firstMinute after)) = none) :
    ¬ e.IsNext after (after + 3600 * second) := by
  intro hnext
  have hlate : (after + 3600 * second) / second = firstMinute after + 60 * (59 : Nat) := by
    have hwhole := hnext.wholeMinute
    have hspec := toTimeT_spec after
    rw [firstMinute]
    generalize toTimeT after = s at *
    simp only [second] at *
    omega
  have hmatches := hnext.matchesAt
  rw [hlate] at hmatches
  exact search_eq_none h 59 (by decide) hmatches

theorem inReach_of_isNext
    (hnext : e.IsNext after (e.nextAfter after)) : e.InReach after := by
  rw [nextAfter_eq] at hnext
  split at hnext
  · next t hsearch =>
      obtain ⟨i, hi, rfl, hmatches, -⟩ := search_eq_some hsearch
      refine ⟨⟨i, hi, hmatches⟩, ?_⟩
      rintro ⟨hearly, hminute, hat⟩
      refine absurd (firstMinute_later after i).2.2 (not_lt.2 (hnext.least _ ?_ hearly ?_))
      · simp only [second]
        omega
      · rw [mul_second_ediv]
        exact hat
  · next hsearch => exact absurd hnext (not_isNext_of_none hsearch)

theorem isNext_of_inReach (hreach : e.InReach after) : e.IsNext after (e.nextAfter after) := by
  rw [nextAfter_eq]
  split
  · next t hsearch =>
      obtain ⟨i, hi, rfl, hmatches, hbefore⟩ := search_eq_some hsearch
      obtain ⟨hwhole, hlater, -⟩ := firstMinute_later after i
      refine ⟨hwhole, hlater, by rwa [mul_second_ediv], fun other hother hafter hat => ?_⟩
      rcases wholeMinute_cases hother hafter with ⟨hearly, hminute, heq⟩ | ⟨j, rfl⟩
      · exact absurd ⟨hearly, hminute, heq ▸ hat⟩ hreach.notPassed
      · rw [mul_second_ediv] at hat
        have hle : i ≤ j := by
          by_contra hlt
          exact hbefore j (not_le.1 hlt) hat
        exact Int.mul_le_mul_of_nonneg_right (by omega) (by decide)
  · next hsearch =>
      obtain ⟨i, hi, hmatches⟩ := hreach.found
      exact absurd hmatches (search_eq_none hsearch i hi)

/-- **When `NextAfter` is the next firing time.**  For every expression and every time it is the least
whole minute after the time that matches exactly when that is in reach of the search. -/
theorem nextAfter_isNext_iff (e : CronExpression) (after : Int) :
    e.IsNext after (e.nextAfter after) ↔ e.InReach after :=
  ⟨inReach_of_isNext, isNext_of_inReach⟩

/-- The values of the fields are within their bounds. -/
structure InRange (e : CronExpression) : Prop where
  minute : ∀ v ∈ e.minute, 0 ≤ v ∧ v ≤ 59
  hour : ∀ v ∈ e.hour, 0 ≤ v ∧ v ≤ 23
  dayOfMonth : ∀ v ∈ e.dayOfMonth, 1 ≤ v ∧ v ≤ 31
  month : ∀ v ∈ e.month, 1 ≤ v ∧ v ≤ 12
  dayOfWeek : ∀ v ∈ e.dayOfWeek, 0 ≤ v ∧ v ≤ 6

/-- Midnight of 1 March. -/
def firstOfMarch : CronExpression where
  minute := [0]
  hour := [0]
  dayOfMonth := [1]
  month := [3]
  dayOfWeek := []

theorem not_firstOfMarch_before (k : Nat) (hpos : 0 < k) (hk : k < 366) :
    ¬ ((Date.ofDays (19417 + k)).month = 3 ∧ (Date.ofDays (19417 + k)).day = 1) := by
  have hall : ∀ k : Nat, k < 366 → 0 < k →
      ¬ ((Date.ofDays (19417 + (k : Int))).month = 3 ∧ (Date.ofDays (19417 + (k : Int))).day = 1) := by
    decide +kernel
  exact hall k hk hpos

theorem matchesAt_firstOfMarch {t : Int} (h : firstOfMarch.MatchesAt t) :
    t % 86400 / 60 % 60 = 0 ∧ t % 86400 / 3600 = 0 ∧ (Date.ofDays (t / 86400)).month = 3 ∧
      (Date.ofDays (t / 86400)).day = 1 := by
  simp only [MatchesAt, matchesTm, fieldMatches, firstOfMarch, Tm.ofTime, List.isEmpty_cons,
    List.isEmpty_nil, Bool.false_or, Bool.true_or, Bool.and_eq_true, decide_eq_true_eq,
    List.mem_singleton, and_true] at h
  obtain ⟨⟨⟨hmin, hhour⟩, hday⟩, hmonth⟩ := h
  exact ⟨hmin, hhour, by omega, hday⟩

/-- At midnight of 1 March 2023 the next midnight of a 1 March is 366 days away, because 2024 is a leap
year, and that is more than the search goes through. -/
theorem not_matchesAt_firstOfMarch (i : Nat) (hi : i < searchSteps) :
    ¬ firstOfMarch.MatchesAt (firstMinute (1677628800 * second) + 60 * i) := by
  have hfirst : firstMinute (1677628800 * second) = 1677628860 := by decide
  intro hmatches
  obtain ⟨hmin, hhour, hdate⟩ := matchesAt_firstOfMarch hmatches
  rw [hfirst] at hmin hhour hdate
  rw [searchSteps] at hi
  have hday : 0 < ((1677628860 + 60 * (i : Int)) / 86400 - 19417).toNat := by
    clear hdate
    omega
  have hk : (1677628860 + 60 * (i : Int)) / 86400 =
      19417 + (((1677628860 + 60 * (i : Int)) / 86400 - 19417).toNat : Nat) := by
    clear hdate
    omega
  have hyear : ((1677628860 + 60 * (i : Int)) / 86400 - 19417).toNat < 366 := by
    clear hdate
    omega
  rw [hk] at hdate
  exact not_firstOfMarch_before _ hday hyear hdate

/-- `NextAfter` is not always the next firing time.  At midnight of 1 March 2023 the next midnight of a
1 March is 366 days away, because 2024 is a leap year. -/
theorem not_nextAfter_isNext :
    ¬ ∀ (expr : String) (e : CronExpression), parse expr = some e → e.InRange →
      (∃ t : Int, t % 60 = 0 ∧ e.MatchesAt t) → ∀ after, e.IsNext after (e.nextAfter after) := by
  intro h
  have hparse : parse "0 0 1 3 *" = some firstOfMarch := by decide +kernel
  have hrange : firstOfMarch.InRange := by
    constructor <;> decide
  have hnext := h _ _ hparse hrange ⟨1677628800, by decide, by decide +kernel⟩
    (1677628800 * second)
  obtain ⟨i, hi, hmatches⟩ := (inReach_of_isNext hnext).found
  exact not_matchesAt_firstOfMarch i hi hmatches

end CronExpression

end RavBot.Core
