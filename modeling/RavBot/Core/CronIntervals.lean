import Mathlib.Algebra.Ring.Divisibility.Basic
import RavBot.Core.CronFields

/-!
# Firing times that are apart by an interval

A schedule that is iterated fires at the minutes that match, one after the other.  They are always the same
time apart exactly when, from the first of them on, they are the multiples of that time.  A step in the
field of the minutes starts again with each hour, and one in the field of the hours with each day; so it is
an interval only when it divides the hour or the day.
-/

namespace RavBot.Core.CronExpression

open RavBot.Lib

/-! ## Firing -/

/-- The `n`-th time that a schedule fires after a time. -/
def firing (e : CronExpression) (start : Int) (n : Nat) : Int := e.nextAfter^[n + 1] start

/-- The schedule fires each `minutes` minutes, whenever it is started. -/
def FiresEvery (e : CronExpression) (minutes : Int) : Prop :=
  ∀ (start : Int) (n : Nat), e.firing start (n + 1) - e.firing start n = minutes * 60 * second

/-- The minutes that match, counted from 1970, are those with a property. -/
def MatchesMinutes (e : CronExpression) (P : Int → Prop) : Prop := ∀ k : Int, e.MatchesAt (60 * k) ↔ P k

def Daily (P : Int → Prop) : Prop := ∀ k : Int, ∃ j, k < j ∧ j ≤ k + 1440 ∧ P j

def minuteTime (k : Int) : Int := 60 * k * second

section Minutes

variable {e : CronExpression} {P : Int → Prop} (hmatches : e.MatchesMinutes P) (hdaily : Daily P)

include hmatches hdaily

theorem nextAfter_matches (start : Int) : ∃ j, e.nextAfter start = minuteTime j ∧ P j := by
  obtain ⟨first, hfirst⟩ : ∃ first, firstMinute start = 60 * first := ⟨_, rfl⟩
  rw [nextAfter_eq, hfirst]
  split
  · next t hsearch =>
      obtain ⟨i, -, rfl, hat, -⟩ := search_eq_some hsearch
      have htime : 60 * first + 60 * (i : Int) = 60 * (first + i) := by omega
      rw [htime] at hat ⊢
      exact ⟨first + i, rfl, (hmatches _).1 hat⟩
  · next hsearch =>
      obtain ⟨j, hlater, hsoon, hj⟩ := hdaily (first - 1)
      refine absurd ?_ (search_eq_none hsearch (j - first).toNat ?_)
      · have htime : 60 * first + 60 * ((j - first).toNat : Int) = 60 * j := by omega
        rw [htime]
        exact (hmatches j).2 hj
      · rw [searchSteps]
        omega

theorem nextAfter_minute (k : Int) : ∃ next, e.nextAfter (minuteTime k) = minuteTime next ∧ k < next ∧
    P next ∧ ∀ j, k < j → P j → next ≤ j := by
  have hcut : toTimeT (minuteTime k) = 60 * k := by
    rw [toTimeT, minuteTime]
    exact Int.mul_tdiv_cancel _ (by decide)
  have hfirst : firstMinute (minuteTime k) = 60 * (k + 1) := by
    rw [firstMinute, hcut]
    omega
  have hreach : e.InReach (minuteTime k) := by
    obtain ⟨j, hlater, hsoon, hj⟩ := hdaily k
    refine ⟨⟨(j - (k + 1)).toNat, ?_, ?_⟩, ?_⟩
    · rw [searchSteps]
      omega
    · have htime : firstMinute (minuteTime k) + 60 * ((j - (k + 1)).toNat : Int) = 60 * j := by
        rw [hfirst]
        omega
      rw [htime]
      exact (hmatches j).2 hj
    · rintro ⟨hearly, -⟩
      rw [hcut, minuteTime] at hearly
      exact lt_irrefl _ hearly
  have hnext := isNext_of_inReach hreach
  obtain ⟨next, heq, hP⟩ := nextAfter_matches hmatches hdaily (minuteTime k)
  rw [heq] at hnext
  have hlater := hnext.later
  refine ⟨next, heq, ?_, hP, fun j hj hPj => ?_⟩
  · simp only [minuteTime, second] at hlater
    omega
  · have hat : e.MatchesAt (minuteTime j / second) := by
      rw [minuteTime, mul_second_ediv]
      exact (hmatches j).2 hPj
    have hle := hnext.least (minuteTime j) ?_ ?_ hat
    · simp only [minuteTime, second] at hle
      omega
    · simp only [minuteTime, second]
      omega
    · simp only [minuteTime, second]
      omega

omit hmatches hdaily in
theorem firing_succ (start : Int) (n : Nat) : e.firing start (n + 1) = e.nextAfter (e.firing start n) := by
  rw [firing, Function.iterate_succ_apply']
  rfl

/-- A schedule fires each `minutes` minutes exactly when the minutes with the property are, from each of them
on, those that are a multiple of that time away. -/
theorem firesEvery_iff {minutes : Int} (hpos : 0 < minutes) :
    e.FiresEvery minutes ↔ ∀ a b, P a → a ≤ b → (P b ↔ minutes ∣ b - a) := by
  constructor
  · intro h a b ha hab
    -- started in the minute before `a`, the schedule fires at `a` and at its multiples
    have hfiring (n : Nat) : e.firing (minuteTime (a - 1)) n = minuteTime (a + n * minutes) := by
      induction n with
      | zero =>
        obtain ⟨next, heq, hlater, -, hleast⟩ := nextAfter_minute hmatches hdaily (a - 1)
        have hle := hleast a (by omega) ha
        have hnext : next = a + ((0 : Nat) : Int) * minutes := by
          rw [Nat.cast_zero, Int.zero_mul]
          omega
        rw [← hnext]
        exact heq
      | succ n ih =>
        have hstep := h (minuteTime (a - 1)) n
        rw [ih] at hstep
        have hmul : ((n + 1 : Nat) : Int) * minutes = n * minutes + minutes := by
          rw [Nat.cast_succ, Int.add_mul, Int.one_mul]
        rw [hmul]
        simp only [minuteTime, second] at hstep ⊢
        omega
    constructor
    · intro hb
      obtain ⟨n, hn⟩ : ∃ n : Nat, (n : Int) = (b - a) / minutes :=
        ⟨_, Int.toNat_of_nonneg (Int.ediv_nonneg (by omega) hpos.le)⟩
      have hdiv := Int.emod_add_mul_ediv (b - a) minutes
      have hrest := Int.emod_lt_of_pos (b - a) hpos
      have hrest' := Int.emod_nonneg (b - a) hpos.ne'
      rw [← hn, Int.mul_comm minutes] at hdiv
      refine Int.dvd_of_emod_eq_zero ?_
      by_contra hne
      -- the next firing time after the multiple is not behind `b`
      obtain ⟨next, heq, -, -, hleast⟩ := nextAfter_minute hmatches hdaily (a + n * minutes)
      have hle := hleast b (by omega) hb
      have hstep := h (minuteTime (a - 1)) n
      rw [firing_succ, hfiring, heq] at hstep
      simp only [minuteTime, second] at hstep
      omega
    · rintro ⟨n, hn⟩
      have hn' : 0 ≤ n := by
        by_contra hneg
        have hmul := Int.mul_neg_of_pos_of_neg hpos (not_le.1 hneg)
        omega
      obtain ⟨m, rfl⟩ := Int.eq_ofNat_of_zero_le hn'
      obtain ⟨j, hj, hP⟩ : ∃ j, e.firing (minuteTime (a - 1)) m = minuteTime j ∧ P j := by
        cases m with
        | zero => exact nextAfter_matches hmatches hdaily _
        | succ m =>
          rw [firing_succ]
          exact nextAfter_matches hmatches hdaily _
      rw [hfiring] at hj
      have hb : b = j := by
        rw [Int.mul_comm] at hn
        simp only [minuteTime, second] at hj
        omega
      rwa [hb]
  · intro h start n
    have hminute (n : Nat) : ∃ j, e.firing start n = minuteTime j ∧ P j := by
      cases n with
      | zero => exact nextAfter_matches hmatches hdaily _
      | succ n =>
        rw [firing_succ]
        exact nextAfter_matches hmatches hdaily _
    obtain ⟨j, hj, hP⟩ := hminute n
    obtain ⟨next, heq, hlater, hnext, hleast⟩ := nextAfter_minute hmatches hdaily j
    rw [firing_succ, hj, heq]
    have hle := hleast (j + minutes) (by omega)
      ((h j _ hP (by omega)).2 (by rw [add_sub_cancel_left]))
    have hdvd := Int.le_of_dvd (by omega) ((h j next hP hlater.le).1 hnext)
    simp only [minuteTime, second]
    omega

end Minutes

/-! ## Steps -/

def minuteStep (step : Int) : CronExpression := ⟨valuesUpTo 0 59 step, [], [], [], []⟩

def hourStep (step : Int) : CronExpression := ⟨[0], valuesUpTo 0 23 step, [], [], []⟩

theorem fieldMatches_valuesUpTo {max step v : Int} (hstep : 0 < step) (hmax : 0 ≤ max) (hv : 0 ≤ v)
    (hv' : v ≤ max) : fieldMatches (valuesUpTo 0 max step) v = true ↔ v % step = 0 := by
  rw [fieldMatches_iff, mem_valuesUpTo hstep, Int.sub_zero, and_iff_right hv, and_iff_right hv',
    or_iff_right]
  intro hnil
  have hzero : (0 : Int) ∈ valuesUpTo 0 max step :=
    (mem_valuesUpTo hstep).2 ⟨le_refl 0, hmax, by rw [Int.sub_zero, Int.zero_emod]⟩
  rw [hnil] at hzero
  cases hzero

theorem ofTime_minute (k : Int) :
    (Tm.ofTime (60 * k)).tmMin = k % 60 ∧ (Tm.ofTime (60 * k)).tmHour = k / 60 % 24 := by
  simp only [Tm.ofTime]
  omega

theorem fieldMatches_nil (v : Int) : fieldMatches [] v = true := rfl

theorem fieldMatches_singleton (value v : Int) : fieldMatches [value] v = true ↔ v = value := by
  rw [fieldMatches_iff, or_iff_right (List.cons_ne_nil _ _), List.mem_singleton]

theorem matchesMinutes_minuteStep {step : Int} (hstep : 0 < step) :
    (minuteStep step).MatchesMinutes fun k => k % 60 % step = 0 := by
  intro k
  have hfield := @fieldMatches_valuesUpTo 59 step (k % 60) hstep (by decide) (by omega) (by omega)
  show (minuteStep step).MatchesAt (60 * k) ↔ k % 60 % step = 0
  rw [MatchesAt, matchesTm, (ofTime_minute k).1, ← hfield]
  simp only [minuteStep, fieldMatches_nil, Bool.and_true]

theorem matchesMinutes_hourStep {step : Int} (hstep : 0 < step) :
    (hourStep step).MatchesMinutes fun k => k % 60 = 0 ∧ k / 60 % 24 % step = 0 := by
  intro k
  have hfield := @fieldMatches_valuesUpTo 23 step (k / 60 % 24) hstep (by decide) (by omega) (by omega)
  show (hourStep step).MatchesAt (60 * k) ↔ k % 60 = 0 ∧ k / 60 % 24 % step = 0
  rw [MatchesAt, matchesTm, (ofTime_minute k).1, (ofTime_minute k).2, ← hfield]
  simp only [hourStep, fieldMatches_nil, Bool.and_true, Bool.and_eq_true, fieldMatches_singleton]

theorem firesEvery_minuteStep_iff {minutes : Int} (hpos : 0 < minutes) :
    (minuteStep minutes).FiresEvery minutes ↔ minutes ∣ 60 := by
  have hdaily : Daily fun k => k % 60 % minutes = 0 := by
    intro k
    refine ⟨60 * (k / 60 + 1), by omega, by omega, ?_⟩
    show 60 * (k / 60 + 1) % 60 % minutes = 0
    rw [Int.mul_emod_right, Int.zero_emod]
  rw [firesEvery_iff (matchesMinutes_minuteStep hpos) hdaily hpos]
  constructor
  · intro h
    exact (h 0 60 (Int.zero_emod _) (by decide)).1 (Int.zero_emod _)
  · intro hdvd a b ha _
    rw [Int.emod_emod_of_dvd _ hdvd] at ha
    rw [Int.emod_emod_of_dvd _ hdvd, dvd_sub_left (Int.dvd_of_emod_eq_zero ha)]
    exact Int.dvd_iff_emod_eq_zero.symm

theorem firesEvery_hourStep_iff {minutes : Int} (hpos : 60 ≤ minutes) :
    (hourStep (minutes / 60)).FiresEvery minutes ↔ 60 ∣ minutes ∧ minutes ∣ 1440 := by
  have hstep : 0 < minutes / 60 := by omega
  have hdaily : Daily fun k => k % 60 = 0 ∧ k / 60 % 24 % (minutes / 60) = 0 := by
    intro k
    have hzero : 1440 * (k / 1440 + 1) / 60 % 24 = 0 := by omega
    refine ⟨1440 * (k / 1440 + 1), by omega, by omega, by omega, ?_⟩
    rw [hzero, Int.zero_emod]
  rw [firesEvery_iff (matchesMinutes_hourStep hstep) hdaily (by omega)]
  constructor
  · intro h
    have hstart : (0 : Int) % 60 = 0 ∧ 0 / 60 % 24 % (minutes / 60) = 0 := ⟨rfl, Int.zero_emod _⟩
    have hday : minutes ∣ 1440 := (h 0 1440 hstart (by decide)).1 ⟨rfl, Int.zero_emod _⟩
    refine ⟨?_, hday⟩
    have hle := Int.le_of_dvd (by decide) hday
    by_cases hlate : minutes / 60 ≤ 23
    · have hmatch : 60 * (minutes / 60) / 60 % 24 % (minutes / 60) = 0 := by
        rw [Int.mul_ediv_cancel_left _ (by decide), Int.emod_eq_of_lt hstep.le (by omega), Int.emod_self]
      have hdvd := (h 0 (60 * (minutes / 60)) hstart (by omega)).1 ⟨by omega, hmatch⟩
      have hle' := Int.le_of_dvd (by omega) hdvd
      omega
    · omega
  · rintro ⟨⟨hours, rfl⟩, hday⟩ a b ⟨ha, ha'⟩ _
    rw [Int.mul_ediv_cancel_left _ (by decide)] at ha' ⊢
    have hdvd : hours ∣ 24 := Int.dvd_of_mul_dvd_mul_left (a := 60) (by decide) hday
    have hmatch (k : Int) : k % 60 = 0 ∧ k / 60 % 24 % hours = 0 ↔ 60 * hours ∣ k := by
      rw [Int.emod_emod_of_dvd _ hdvd]
      constructor
      · rintro ⟨hfull, hhour⟩
        obtain ⟨j, rfl⟩ := Int.dvd_of_emod_eq_zero hfull
        rw [Int.mul_ediv_cancel_left _ (by decide)] at hhour
        exact mul_dvd_mul_left 60 (Int.dvd_of_emod_eq_zero hhour)
      · rintro ⟨j, rfl⟩
        rw [Int.mul_assoc, Int.mul_ediv_cancel_left _ (by decide)]
        exact ⟨Int.mul_emod_right 60 _, Int.mul_emod_right hours j⟩
    rw [hmatch, dvd_sub_left ((hmatch a).1 ⟨ha, ha'⟩)]

/-! ## Schedules of steps -/

/-- A number as it is printed. -/
def printed (n : Nat) : Number where
  digits := (toString n).toList
  ne_nil := by
    rw [Nat.toString_eq_ofList_toDigits, String.toList_ofList]
    exact Nat.toDigits_ne_nil
  isDigit := by
    intro c hc
    rw [Nat.toString_eq_ofList_toDigits, String.toList_ofList] at hc
    exact Nat.isDigit_of_mem_toDigits (by decide) (by decide) hc

theorem value_printed (n : Nat) : (printed n).value = n := by
  rw [Number.value, Text.ofDigits_eq_ofDigitChars (printed n).isDigit]
  show ((Nat.ofDigitChars 10 (toString n).toList 0 : Nat) : Int) = n
  rw [Nat.toString_eq_ofList_toDigits, String.toList_ofList, Nat.ofDigitChars_ten_toDigits]

theorem words_cons {w : List Char} (hne : w ≠ []) (hw : ∀ c ∈ w, Text.isSpace c = false) (rest : List Char) :
    Text.words (w ++ ' ' :: rest) = w :: Text.words rest := by
  have hkept : (!w.isEmpty) = true := by simpa using hne
  rw [Text.words, List.splitOnP_append_cons_of_forall_mem hw ' ' rfl, List.filter_cons, if_pos hkept,
    Text.words]

def stepText (n : Nat) : List Char := "*/".toList ++ (toString n).toList

variable {n : Nat}

theorem parseField_stepText (hpos : 0 < n) (max : Int) :
    parseField (stepText n) 0 max = if n ≤ 2147483647 then some (valuesUpTo 0 max n) else none := by
  have hread := parseField_step 0 max (printed n) []
  rw [Number.Fits, value_printed] at hread
  split_ifs with hfits
  · have hsome := hread.1 (by omega)
    rw [if_pos (by omega)] at hsome
    exact hsome
  · exact hread.2 (by omega)

theorem not_isSpace_stepText : ∀ c ∈ stepText n, Text.isSpace c = false := by
  intro c hc
  rcases List.mem_append.1 hc with hstar | hdigit
  · rcases List.mem_cons.1 hstar with rfl | hslash
    · rfl
    · rw [List.mem_singleton.1 hslash]
      rfl
  · exact Text.not_isSpace_of_isDigit ((printed n).isDigit c hdigit)

theorem parse_minuteStep (hpos : 0 < n) :
    parse (String.ofList (stepText n ++ " * * * *".toList)) =
      if n ≤ 2147483647 then some (minuteStep n) else none := by
  have hne : stepText n ≠ [] := List.cons_ne_nil _ _
  have hwords : Text.words (stepText n ++ " * * * *".toList) = [stepText n, ['*'], ['*'], ['*'], ['*']] := by
    rw [show " * * * *".toList = ' ' :: "* * * *".toList from rfl, words_cons hne not_isSpace_stepText]
    congr 1
  rw [parse, String.toList_ofList, hwords]
  show (parseField (stepText n) 0 59 >>= _) = _
  rw [parseField_stepText hpos]
  split_ifs <;> rfl

theorem parse_hourStep (hpos : 0 < n) :
    parse (String.ofList ("0 ".toList ++ (stepText n ++ " * * *".toList))) =
      if n ≤ 2147483647 then some (hourStep n) else none := by
  have hne : stepText n ≠ [] := List.cons_ne_nil _ _
  have hwords : Text.words ("0 ".toList ++ (stepText n ++ " * * *".toList)) =
      [['0'], stepText n, ['*'], ['*'], ['*']] := by
    rw [show "0 ".toList ++ (stepText n ++ " * * *".toList) =
        ['0'] ++ ' ' :: (stepText n ++ ' ' :: "* * *".toList) from rfl,
      words_cons (List.cons_ne_nil _ _) (Text.forall_of_all (by decide)), words_cons hne not_isSpace_stepText]
    congr 2
  have hzero : parseField ['0'] 0 59 = some [0] := by decide
  rw [parse, String.toList_ofList, hwords]
  show (parseField ['0'] 0 59 >>= fun _ => parseField (stepText n) 0 23 >>= _) = _
  rw [hzero]
  show (parseField (stepText n) 0 23 >>= _) = _
  rw [parseField_stepText hpos]
  split_ifs <;> rfl

end RavBot.Core.CronExpression
