import Mathlib.Algebra.Order.BigOperators.GroupWithZero.List
import RavBot.Session.SessionMaintenance

/-!
# The limits of the maintenance

`ParseDurationSeconds` and `ParseSizeBytes` read a number and a unit from the configuration.  Both match a
regular expression first, and convert a text that matches outside of a `try` block; the products are not
checked.  `limits_iff` says for which texts they read what the text means.
-/

open List

namespace RavBot.Session

open RavBot.Lib

/-! ## Numbers of the language -/

/-- `std::stoi` and `std::stoll`: skip white space, read an optional sign and as many digits as there are. -/
def strto (lo hi : Int) (s : List Char) : Option Int :=
  let s := s.dropWhile Text.isSpace
  let ds := (match s with
    | '-' :: t => t
    | '+' :: t => t
    | t => t).takeWhile Char.isDigit
  let n := if s.head? = some '-' then -Text.ofDigits ds else Text.ofDigits ds
  if ds = [] ∨ n < lo ∨ hi < n then none else some n

/-- Why no limit is returned: an exception, or a product that is not defined. -/
inductive LimitFault where
  | outOfRange
  | overflow
  deriving DecidableEq, Repr

def mulInt (max a b : Int) : Except LimitFault Int :=
  if -max - 1 ≤ a * b ∧ a * b ≤ max then .ok (a * b) else .error .overflow

/-! ## The two parsers -/

/-- A text for a limit: the largest value of the result, whether case is ignored, and the units that the regular
expression has behind the number and white space, each with the factors that the number is multiplied by. -/
structure LimitFormat where
  max : Int
  icase : Bool
  units : List (List Char × List Int)
  pos : 0 ≤ max
  plain : ∀ u ∈ units, ∀ c ∈ u.1.head?, c.isDigit = false ∧ Text.isSpace c = false
  bare : ∀ u ∈ units, u.1 = [] → u.2 = []
  nodup : (units.map Prod.fst).Nodup
  factors : ∀ u ∈ units, ∀ k ∈ u.2, 1 ≤ k

namespace LimitFormat

def fold (f : LimitFormat) (unit : List Char) : List Char := if f.icase then unit.map Text.lowerChar else unit

/-- `std::regex_match`: the digits, and the factors of the unit. -/
def regexMatch (f : LimitFormat) (s : List Char) : Option (List Char × List Int) :=
  let digits := s.takeWhile Char.isDigit
  let unit := (s.dropWhile Char.isDigit).dropWhile Text.isSpace
  if digits = [] then none else (f.units.lookup (f.fold unit)).map (digits, ·)

/-- Read a limit. -/
def parse (f : LimitFormat) (s : List Char) : Except LimitFault Int :=
  if s = [] then .ok 0
  else match f.regexMatch s with
    | none => .ok ((strto (-f.max - 1) f.max s).getD 0)
    | some (digits, factors) =>
      match strto (-f.max - 1) f.max digits with
      | none => .error .outOfRange
      | some value => factors.foldlM (mulInt f.max) value

/-! ## What is to hold -/

/-- A text is a number, white space and one of the units, and together they are `n`. -/
def Quantity (f : LimitFormat) (units : List (List Char × List Int)) (s : List Char) (n : Int) : Prop :=
  ∃ digits spaces unit factors, digits ≠ [] ∧ (∀ c ∈ digits, c.isDigit) ∧ (∀ c ∈ spaces, Text.isSpace c) ∧
    (f.fold unit, factors) ∈ units ∧ s = digits ++ spaces ++ unit ∧ n = Text.ofDigits digits * factors.prod

def Means (f : LimitFormat) (s : List Char) (n : Int) : Prop := f.Quantity (([], []) :: f.units) s n

/-- A limit is read, it is not negative, and it is the number times the unit where that fits; otherwise it is no
smaller than what fits, or there is no limit. -/
structure Right (f : LimitFormat) (s : List Char) : Prop where
  returns : ∃ v, f.parse s = .ok v
  nonneg : ∀ v, f.parse s = .ok v → 0 ≤ v
  exact : ∀ n, f.Means s n → n ≤ f.max → f.parse s = .ok n
  large : ∀ n, f.Means s n → f.max < n → ∀ v, f.parse s = .ok v → f.max ≤ v ∨ v = 0

/-- A number with a unit of the regular expression fits, and no other text begins with a negative number. -/
def Fits (f : LimitFormat) (s : List Char) : Prop :=
  (∀ n, f.Quantity f.units s n → n ≤ f.max) ∧
    ((∀ n, ¬ f.Quantity f.units s n) → ∀ v, strto (-f.max - 1) f.max s = some v → 0 ≤ v)

end LimitFormat

theorem plain_of_all {units : List (List Char × List Int)}
    (h : (units.all fun u => u.1.head?.all fun c => !c.isDigit && !Text.isSpace c) = true) :
    ∀ u ∈ units, ∀ c ∈ u.1.head?, c.isDigit = false ∧ Text.isSpace c = false := by
  intro u hu c hc
  have hall := (Option.all_eq_true _ _).1 (all_eq_true.1 h u hu) c hc
  rw [Bool.and_eq_true, Bool.not_eq_true', Bool.not_eq_true'] at hall
  exact hall

/-- The texts for durations. -/
def durationFormat : LimitFormat where
  max := 2147483647
  icase := false
  units := [(['s'], []), (['m'], [60]), (['h'], [3600]), (['d'], [86400]), (['w'], [604800])]
  pos := by decide
  plain := plain_of_all (by decide)
  bare := by decide
  nodup := by decide
  factors := by decide

/-- The texts for sizes. -/
def sizeFormat : LimitFormat where
  max := 9223372036854775807
  icase := true
  units := [([], []), (['b'], []), (['k', 'b'], [1024]), (['m', 'b'], [1024, 1024]),
    (['g', 'b'], [1024, 1024, 1024]), (['t', 'b'], [1024, 1024, 1024, 1024])]
  pos := by decide
  plain := plain_of_all (by decide)
  bare := by decide
  nodup := by decide
  factors := by decide

def parseDurationSeconds (s : List Char) : Except LimitFault Int := durationFormat.parse s

def parseSizeBytes (s : List Char) : Except LimitFault Int := sizeFormat.parse s

example : parseDurationSeconds "2w".toList = .ok 1209600 := by decide +kernel
example : parseSizeBytes "10 mb".toList = .ok 10485760 := by decide +kernel

/-! ## Reading a number -/

theorem span_append {p : Char → Bool} {l rest : List Char} (h : ∀ c ∈ l, p c)
    (hrest : ∀ c ∈ rest.head?, p c = false) :
    (l ++ rest).takeWhile p = l ∧ (l ++ rest).dropWhile p = rest := by
  rw [takeWhile_append_of_pos h, dropWhile_append_of_pos h]
  cases rest with
  | nil => exact ⟨append_nil l, rfl⟩
  | cons c rest =>
    have hc : ¬ p c := by
      rw [hrest c rfl]
      exact Bool.false_ne_true
    rw [takeWhile_cons_of_neg hc, dropWhile_cons_of_neg hc, append_nil]
    exact ⟨rfl, rfl⟩

theorem strto_digits_append {lo hi : Int} (hlo : lo ≤ 0) {ds rest : List Char} (hne : ds ≠ [])
    (h : ∀ c ∈ ds, c.isDigit) (hrest : ∀ c ∈ rest.head?, c.isDigit = false) :
    strto lo hi (ds ++ rest) = if hi < Text.ofDigits ds then none else some (Text.ofDigits ds) := by
  have hnonneg := Text.ofDigits_nonneg h
  obtain ⟨c, tail, rfl⟩ := exists_cons_of_ne_nil hne
  have hc : c.isDigit := h c mem_cons_self
  have hminus : c ≠ '-' := by
    rintro rfl
    exact absurd hc (by decide)
  have hplus : c ≠ '+' := by
    rintro rfl
    exact absurd hc (by decide)
  have hdrop : (c :: tail ++ rest).dropWhile Text.isSpace = c :: tail ++ rest := by
    rw [cons_append, dropWhile_cons_of_neg]
    rw [Text.not_isSpace_of_isDigit hc]
    exact Bool.false_ne_true
  have htake := (span_append h hrest).1
  have hsign : (match c :: tail ++ rest with
      | '-' :: t => t
      | '+' :: t => t
      | t => t) = c :: tail ++ rest := by
    rw [cons_append]
    split
    · next heq => exact absurd (List.cons.inj heq).1 hminus
    · next heq => exact absurd (List.cons.inj heq).1 hplus
    · rfl
  have hhead : (c :: tail ++ rest).head? ≠ some '-' := by simpa using hminus
  rw [strto, hdrop, hsign, htake, if_neg hhead]
  refine if_congr ?_ rfl rfl
  simp only [reduceCtorEq, false_or]
  omega

theorem foldlM_mulInt {max v : Int} (hv : 0 ≤ v) (hmax : v ≤ max) {factors : List Int} (h : ∀ k ∈ factors, 1 ≤ k) :
    factors.foldlM (mulInt max) v =
      if v * factors.prod ≤ max then .ok (v * factors.prod) else .error .overflow := by
  induction factors generalizing v with
  | nil =>
    rw [prod_nil, mul_one, if_pos hmax]
    rfl
  | cons k factors ih =>
    rw [forall_mem_cons] at h
    have hprod : 1 ≤ factors.prod := one_le_prod h.2
    have hk : 0 ≤ v * k := mul_nonneg hv (by omega)
    rw [foldlM_cons, prod_cons, ← mul_assoc, mulInt]
    by_cases hfits : v * k ≤ max
    · rw [if_pos ⟨by omega, hfits⟩]
      exact ih hk hfits h.2
    · have hlarge : v * k ≤ v * k * factors.prod := le_mul_of_one_le_right hk hprod
      rw [if_neg fun hboth => hfits hboth.2, if_neg (by omega)]
      rfl

namespace LimitFormat

variable {f : LimitFormat} {s : List Char}

/-! ## What matches -/

theorem lowerChar_of_isDigit {c : Char} (h : c.isDigit) : Text.lowerChar c = c := by
  have hle : c.toNat ≤ 57 := by
    simp only [Char.isDigit, Bool.and_eq_true, decide_eq_true_eq] at h
    exact h.2
  refine if_neg fun hupper => ?_
  have hge : 65 ≤ c.toNat := hupper.1
  omega

variable {factors : List Int}

theorem unit_head {unit : List Char} (h : (f.fold unit, factors) ∈ f.units) :
    ∀ c ∈ unit.head?, c.isDigit = false ∧ Text.isSpace c = false := by
  have hplain := f.plain _ h
  intro c hc
  cases hcase : f.icase with
  | false =>
    rw [fold, hcase] at hplain
    exact hplain c hc
  | true =>
    rw [fold, hcase, if_pos rfl, head?_map] at hplain
    have hlower := hplain (Text.lowerChar c) (Option.mem_map_of_mem _ hc)
    refine ⟨?_, (Text.lowerChar_spec c).2.1 ▸ hlower.2⟩
    by_contra hdigit
    rw [Bool.not_eq_false] at hdigit
    rw [lowerChar_of_isDigit hdigit, hdigit] at hlower
    exact Bool.false_ne_true hlower.1.symm

variable {digits : List Char}

theorem regexMatch_eq_some_iff :
    f.regexMatch s = some (digits, factors) ↔ digits ≠ [] ∧ (∀ c ∈ digits, c.isDigit) ∧
      ∃ spaces unit, (∀ c ∈ spaces, Text.isSpace c) ∧ (f.fold unit, factors) ∈ f.units ∧
        s = digits ++ spaces ++ unit := by
  constructor
  · intro h
    rw [regexMatch] at h
    split_ifs at h with hne
    obtain ⟨factors', hlookup, heq⟩ := Option.map_eq_some_iff.1 h
    cases heq
    obtain ⟨front, back, hunits, -⟩ := List.lookup_eq_some_iff.1 hlookup
    refine ⟨hne, fun c hc => mem_takeWhile_imp hc, (s.dropWhile Char.isDigit).takeWhile Text.isSpace,
      (s.dropWhile Char.isDigit).dropWhile Text.isSpace, fun c hc => mem_takeWhile_imp hc, ?_, ?_⟩
    · rw [hunits]
      exact mem_append_right _ mem_cons_self
    · rw [append_assoc, takeWhile_append_dropWhile, takeWhile_append_dropWhile]
  · rintro ⟨hne, hdigits, spaces, unit, hspaces, hmem, rfl⟩
    have hhead := unit_head hmem
    have hrest : ∀ c ∈ (spaces ++ unit).head?, c.isDigit = false := by
      intro c hc
      cases spaces with
      | nil => exact (hhead c hc).1
      | cons d spaces =>
        obtain rfl := Option.some.inj hc
        have hspace := hspaces d mem_cons_self
        by_contra hdigit
        rw [Text.not_isSpace_of_isDigit (Bool.of_not_eq_false hdigit)] at hspace
        exact Bool.false_ne_true hspace
    obtain ⟨htake, hdrop⟩ := span_append hdigits hrest
    have hunit := (span_append hspaces fun c hc => (hhead c hc).2).2
    have hlookup : f.units.lookup (f.fold unit) = some factors := by
      obtain ⟨front, back, hunits⟩ := append_of_mem hmem
      rw [List.lookup_eq_some_iff]
      refine ⟨front, back, hunits, fun p hp => ?_⟩
      have hnodup := f.nodup
      rw [hunits, map_append, map_cons, nodup_append] at hnodup
      exact bne_iff_ne.2 (hnodup.2.2 p.1 (mem_map_of_mem hp) _ mem_cons_self).symm
    rw [append_assoc, regexMatch, htake, hdrop, hunit, if_neg hne, hlookup, Option.map_some]

theorem quantity_iff {n : Int} : f.Quantity f.units s n ↔
    ∃ digits factors, f.regexMatch s = some (digits, factors) ∧ n = Text.ofDigits digits * factors.prod := by
  constructor
  · rintro ⟨digits, spaces, unit, factors, hne, hdigits, hspaces, hmem, hs, rfl⟩
    exact ⟨digits, factors, regexMatch_eq_some_iff.2 ⟨hne, hdigits, spaces, unit, hspaces, hmem, hs⟩, rfl⟩
  · rintro ⟨digits, factors, hmatch, rfl⟩
    obtain ⟨hne, hdigits, spaces, unit, hspaces, hmem, hs⟩ := regexMatch_eq_some_iff.1 hmatch
    exact ⟨digits, spaces, unit, factors, hne, hdigits, hspaces, hmem, hs, rfl⟩

theorem means_iff {n : Int} : f.Means s n ↔ f.Quantity f.units s n ∨
    ∃ digits spaces, digits ≠ [] ∧ (∀ c ∈ digits, c.isDigit) ∧ (∀ c ∈ spaces, Text.isSpace c) ∧
      s = digits ++ spaces ∧ n = Text.ofDigits digits := by
  constructor
  · rintro ⟨digits, spaces, unit, factors, hne, hdigits, hspaces, hmem, hs, hn⟩
    rcases mem_cons.1 hmem with heq | hmem
    · obtain ⟨hunit, rfl⟩ := Prod.mk.inj heq
      have hnil : unit = [] := by
        rw [fold] at hunit
        split_ifs at hunit
        · exact map_eq_nil_iff.1 hunit
        · exact hunit
      rw [hnil, append_nil] at hs
      rw [prod_nil, mul_one] at hn
      exact .inr ⟨digits, spaces, hne, hdigits, hspaces, hs, hn⟩
    · exact .inl ⟨digits, spaces, unit, factors, hne, hdigits, hspaces, hmem, hs, hn⟩
  · rintro (⟨digits, spaces, unit, factors, hne, hdigits, hspaces, hmem, hs, hn⟩ |
      ⟨digits, spaces, hne, hdigits, hspaces, hs, hn⟩)
    · exact ⟨digits, spaces, unit, factors, hne, hdigits, hspaces, mem_cons_of_mem _ hmem, hs, hn⟩
    · refine ⟨digits, spaces, [], [], hne, hdigits, hspaces, ?_, ?_, ?_⟩
      · rw [fold, map_nil, ite_self]
        exact mem_cons_self
      · rw [append_nil, hs]
      · rw [prod_nil, mul_one, hn]

theorem not_isDigit_of_space {spaces : List Char} (hspaces : ∀ c ∈ spaces, Text.isSpace c) :
    ∀ c ∈ spaces.head?, c.isDigit = false := by
  intro c hc
  have hspace := hspaces c (mem_of_mem_head? hc)
  by_contra hdigit
  rw [Text.not_isSpace_of_isDigit (Bool.of_not_eq_false hdigit)] at hspace
  exact Bool.false_ne_true hspace

theorem regexMatch_bare {spaces digits' : List Char} (hne : digits ≠ [])
    (hdigits : ∀ c ∈ digits, c.isDigit) (hspaces : ∀ c ∈ spaces, Text.isSpace c)
    (h : f.regexMatch (digits ++ spaces) = some (digits', factors)) : digits' = digits ∧ factors = [] := by
  obtain ⟨htake, hdrop⟩ := span_append hdigits (not_isDigit_of_space hspaces)
  have hrest : spaces.dropWhile Text.isSpace = [] := dropWhile_eq_nil_iff.2 hspaces
  rw [regexMatch, htake, hdrop, hrest, if_neg hne] at h
  obtain ⟨factors', hlookup, heq⟩ := Option.map_eq_some_iff.1 h
  cases heq
  obtain ⟨front, back, hunits, -⟩ := List.lookup_eq_some_iff.1 hlookup
  refine ⟨rfl, f.bare _ (hunits ▸ mem_append_right _ mem_cons_self) ?_⟩
  rw [fold, map_nil, ite_self]

theorem strto_of_bare {spaces : List Char} (hne : digits ≠ []) (hdigits : ∀ c ∈ digits, c.isDigit)
    (hspaces : ∀ c ∈ spaces, Text.isSpace c) :
    strto (-f.max - 1) f.max (digits ++ spaces) =
      if f.max < Text.ofDigits digits then none else some (Text.ofDigits digits) := by
  have hpos := f.pos
  exact strto_digits_append (by omega) hne hdigits (not_isDigit_of_space hspaces)

/-! ## Right texts -/

theorem right_iff_of_none (hne : s ≠ []) (hmatch : f.regexMatch s = none) :
    f.Right s ↔ ∀ v, strto (-f.max - 1) f.max s = some v → 0 ≤ v := by
  have hparse : f.parse s = .ok ((strto (-f.max - 1) f.max s).getD 0) := by
    rw [parse, if_neg hne]
    simp only [hmatch]
  have hbare {n : Int} (hn : f.Means s n) : strto (-f.max - 1) f.max s = if f.max < n then none else some n := by
    rcases means_iff.1 hn with hunit | ⟨digits, spaces, hdigitsne, hdigits, hspaces, rfl, rfl⟩
    · obtain ⟨digits, factors, hsome, -⟩ := quantity_iff.1 hunit
      rw [hmatch] at hsome
      cases hsome
    · exact strto_of_bare hdigitsne hdigits hspaces
  constructor
  · intro h v hv
    refine h.nonneg v ?_
    rw [hparse, hv, Option.getD_some]
  · intro h
    refine ⟨⟨_, hparse⟩, fun v hv => ?_, fun n hn hle => ?_, fun n hn hlt v hv => .inr ?_⟩
    · rw [hparse] at hv
      cases hv
      cases hread : strto (-f.max - 1) f.max s with
      | none => exact le_rfl
      | some v => exact h v hread
    · rw [hparse, hbare hn, if_neg (not_lt.2 hle), Option.getD_some]
    · rw [hparse, hbare hn, if_pos hlt] at hv
      cases hv
      rfl

theorem right_iff_of_some
    (hmatch : f.regexMatch s = some (digits, factors)) :
    f.Right s ↔ Text.ofDigits digits * factors.prod ≤ f.max := by
  obtain ⟨hne, hdigits, spaces, unit, hspaces, hmem, hs⟩ := regexMatch_eq_some_iff.1 hmatch
  have hpos := f.pos
  have hnonneg := Text.ofDigits_nonneg hdigits
  have hprod : 1 ≤ factors.prod := one_le_prod (f.factors _ hmem)
  have hle : Text.ofDigits digits ≤ Text.ofDigits digits * factors.prod := le_mul_of_one_le_right hnonneg hprod
  have hread : strto (-f.max - 1) f.max digits =
      if f.max < Text.ofDigits digits then none else some (Text.ofDigits digits) := by
    have happ : strto (-f.max - 1) f.max (digits ++ []) =
        if f.max < Text.ofDigits digits then none else some (Text.ofDigits digits) :=
      strto_of_bare hne hdigits (forall_mem_nil _)
    rwa [append_nil] at happ
  have hmeans {n : Int} (hn : f.Means s n) : n = Text.ofDigits digits * factors.prod := by
    rcases means_iff.1 hn with hunit | ⟨digits', spaces', hne', hdigits', hspaces', hs', rfl⟩
    · obtain ⟨digits', factors', hsome, rfl⟩ := quantity_iff.1 hunit
      cases hmatch.symm.trans hsome
      rfl
    · obtain ⟨rfl, rfl⟩ := regexMatch_bare hne' hdigits' hspaces' (hs' ▸ hmatch)
      rw [prod_nil, mul_one]
  have hparse : f.parse s = if Text.ofDigits digits * factors.prod ≤ f.max then
      .ok (Text.ofDigits digits * factors.prod) else
        if f.max < Text.ofDigits digits then .error .outOfRange else .error .overflow := by
    have hsne : s ≠ [] := by
      rw [hs]
      simp [hne]
    rw [parse, if_neg hsne]
    simp only [hmatch, hread]
    by_cases hlarge : f.max < Text.ofDigits digits
    · rw [if_pos hlarge, if_neg (by omega), if_pos hlarge]
    · rw [if_neg hlarge, if_neg hlarge]
      exact foldlM_mulInt hnonneg (not_lt.1 hlarge) (f.factors _ hmem)
  constructor
  · intro h
    obtain ⟨v, hv⟩ := h.returns
    by_contra hlarge
    rw [hparse, if_neg hlarge] at hv
    split_ifs at hv
  · intro hfits
    rw [if_pos hfits] at hparse
    refine ⟨⟨_, hparse⟩, fun v hv => ?_, fun n hn _ => ?_, fun n hn hlt => ?_⟩
    · cases hparse.symm.trans hv
      omega
    · rw [hmeans hn, hparse]
    · rw [hmeans hn] at hlt
      omega

/-- A limit is read right exactly when it fits. -/
theorem right_iff_fits (f : LimitFormat) (s : List Char) : f.Right s ↔ f.Fits s := by
  by_cases hne : s = []
  · subst hne
    have hnone (units : List (List Char × List Int)) (n : Int) : ¬ f.Quantity units [] n := by
      rintro ⟨digits, spaces, unit, factors, hne, -, -, -, hs, -⟩
      rw [eq_comm, append_eq_nil_iff, append_eq_nil_iff] at hs
      exact hne hs.1.1
    have hparse : f.parse [] = .ok 0 := if_pos rfl
    refine iff_of_true ⟨⟨0, hparse⟩, fun v hv => ?_, fun n hn => absurd hn (hnone _ n),
      fun n hn => absurd hn (hnone _ n)⟩ ⟨fun n hn => absurd hn (hnone _ n), fun _ v hv => ?_⟩
    · cases hparse.symm.trans hv
      exact le_rfl
    · cases hv
  · cases hmatch : f.regexMatch s with
    | none =>
      have hnone (n : Int) : ¬ f.Quantity f.units s n := by
        intro hn
        obtain ⟨digits, factors, hsome, -⟩ := quantity_iff.1 hn
        rw [hmatch] at hsome
        cases hsome
      rw [right_iff_of_none hne hmatch]
      exact ⟨fun h => ⟨fun n hn => absurd hn (hnone n), fun _ => h⟩, fun h => h.2 hnone⟩
    | some found =>
      obtain ⟨digits, factors⟩ := found
      have hn : f.Quantity f.units s (Text.ofDigits digits * factors.prod) := quantity_iff.2 ⟨_, _, hmatch, rfl⟩
      rw [right_iff_of_some hmatch]
      refine ⟨fun hle => ⟨fun n hn' => ?_, fun hnone => absurd hn (hnone _)⟩, fun h => h.1 _ hn⟩
      obtain ⟨digits', factors', hsome, rfl⟩ := quantity_iff.1 hn'
      cases hmatch.symm.trans hsome
      exact hle

end LimitFormat

/-! ## Both parsers -/

/-- **Limits.**  Each parser is right on a text exactly when the text fits; and where the duration is right, files
that are no older than the text says, or than the largest `int` says, are not pruned. -/
theorem limits_iff (s : List Char) :
    (durationFormat.Right s ↔ durationFormat.Fits s) ∧ (sizeFormat.Right s ↔ sizeFormat.Fits s) ∧
      (durationFormat.Right s → ∀ n, durationFormat.Means s n → ∀ cfg : SessionMaintenanceConfig,
        parseDurationSeconds s = .ok cfg.pruneAfterSeconds → 0 < cfg.pruneAfterSeconds → ∀ now files,
          ∀ info ∈ Sweeping.tooOld cfg now files, min n 2147483647 * 10 ^ 9 < now - info.mtime) := by
  refine ⟨durationFormat.right_iff_fits s, sizeFormat.right_iff_fits s,
    fun h n hn cfg hparse hpos now files info hinfo => ?_⟩
  have hold := of_decide_eq_true (mem_filter.1 hinfo).2
  have hle : min n 2147483647 ≤ cfg.pruneAfterSeconds := by
    by_cases hfits : n ≤ durationFormat.max
    · cases hparse.symm.trans (h.exact n hn hfits)
      exact min_le_left _ _
    · rcases h.large n hn (not_le.1 hfits) _ hparse with hlarge | hzero
      · exact (min_le_right _ _).trans hlarge
      · omega
  have hmul := mul_le_mul_of_nonneg_right hle (by norm_num : (0 : Int) ≤ 10 ^ 9)
  omega

/-- A duration that is too long for an `int` throws. -/
theorem not_limits : ¬ ∀ s, durationFormat.Right s ∧ sizeFormat.Right s := by
  intro h
  obtain ⟨v, hv⟩ := (h "99999999999d".toList).1.returns
  have hthrows : durationFormat.parse "99999999999d".toList = .error .outOfRange := by decide +kernel
  cases hthrows.symm.trans hv

end RavBot.Session
