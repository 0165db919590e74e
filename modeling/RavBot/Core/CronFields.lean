import RavBot.Core.CronExpression
import RavBot.Lib.Json

/-!
# What the fields of a cron expression mean

A field is a list of items (`Item`), and matches the values that an item covers.  `parse_field` knows `*` and
steps only when they are the field, or stand at its beginning, and then it does not read the rest; it does
not read the step of a range at all.  The values that it collects are those that the items span
(`parseField_plain`), and when there are none, every value matches.

So a field means what it should exactly in three cases (`Right`); and where it covers nothing, it may also
be rejected (`meansCron_iff`).
-/

open List

namespace RavBot.Core.CronExpression

open RavBot.Lib

/-! ## Items -/

structure Number where
  digits : List Char
  ne_nil : digits ≠ []
  isDigit : ∀ c ∈ digits, c.isDigit

namespace Number

def value (n : Number) : Int := Text.ofDigits n.digits

/-- A number is an `int`. -/
def Fits (n : Number) : Prop := n.value ≤ 2147483647

theorem stoi_append (n : Number) {rest : List Char} (hrest : ∀ c ∈ rest.head?, c.isDigit = false) :
    (n.Fits → Text.stoi (n.digits ++ rest) = some n.value) ∧
      (¬ n.Fits → Text.stoi (n.digits ++ rest) = none) := by
  rw [Text.stoi_digits_append n.ne_nil n.isDigit hrest]
  exact ⟨fun hfits => if_neg (not_lt.2 hfits), fun hfits => if_pos (not_le.1 hfits)⟩

theorem stoi_digits (n : Number) :
    (n.Fits → Text.stoi n.digits = some n.value) ∧ (¬ n.Fits → Text.stoi n.digits = none) := by
  have h := @stoi_append n [] nofun
  rwa [append_nil] at h

theorem notMem (n : Number) {c : Char} (hc : c.isDigit = false) : c ∉ n.digits := fun hmem => by
  rw [n.isDigit c hmem] at hc
  cases hc

end Number

/-- `*`, `*/n`, `a`, `a-b` and `a-b/n`. -/
inductive Item where
  | all
  | step (n : Number)
  | value (a : Number)
  | range (a b : Number)
  | rangeStep (a b n : Number)

namespace Item

/-- How an item is written. -/
def text : Item → List Char
  | all => ['*']
  | step n => '*' :: '/' :: n.digits
  | value a => a.digits
  | range a b => a.digits ++ '-' :: b.digits
  | rangeStep a b n => a.digits ++ '-' :: (b.digits ++ '/' :: n.digits)

/-- An item covers a value of a field that begins with `min`. -/
def Covers (min v : Int) : Item → Prop
  | all => True
  | step n => 1 ≤ n.value ∧ (v - min) % n.value = 0
  | value a => v = a.value
  | range a b => a.value ≤ v ∧ v ≤ b.value
  | rangeStep a b n => 1 ≤ n.value ∧ (a.value ≤ v ∧ v ≤ b.value) ∧ (v - a.value) % n.value = 0

/-- The numbers of an item are values of the field, and steps are positive. -/
def InRange (min max : Int) : Item → Prop
  | all => True
  | step n => 1 ≤ n.value ∧ min ≤ n.value ∧ n.value ≤ max
  | value a => min ≤ a.value ∧ a.value ≤ max
  | range a b => (min ≤ a.value ∧ a.value ≤ max) ∧ min ≤ b.value ∧ b.value ≤ max
  | rangeStep a b n => (min ≤ a.value ∧ a.value ≤ max) ∧ (min ≤ b.value ∧ b.value ≤ max) ∧
      1 ≤ n.value ∧ min ≤ n.value ∧ n.value ≤ max

/-- From where to where an item without a star goes, whatever its step. -/
def interval : Item → Option (Number × Number)
  | value a => some (a, a)
  | range a b => some (a, b)
  | rangeStep a b _ => some (a, b)
  | _ => none

def Spans (v : Int) (item : Item) : Prop :=
  ∃ a b, item.interval = some (a, b) ∧ a.value ≤ v ∧ v ≤ b.value

/-- A range that is reversed or begins behind the last value of the field. -/
def Void (max : Int) : Item → Prop
  | range a b => b.value < a.value ∨ max < a.value
  | rangeStep a b _ => b.value < a.value ∨ max < a.value
  | _ => False

/-- The ends of an item are `int`s. -/
def Fits (item : Item) : Prop := ∀ a b, item.interval = some (a, b) → a.Fits ∧ b.Fits

theorem text_ne_nil (item : Item) : item.text ≠ [] := by
  cases item with
  | all => exact cons_ne_nil _ _
  | step n => exact cons_ne_nil _ _
  | value a => exact a.ne_nil
  | range a b => exact append_ne_nil_of_left_ne_nil a.ne_nil _
  | rangeStep a b n => exact append_ne_nil_of_left_ne_nil a.ne_nil _

theorem comma_notMem_text (item : Item) : ',' ∉ item.text := by
  have hdigit (n : Number) : ',' ∉ n.digits := n.notMem (by decide)
  cases item <;> simp [text, hdigit]

theorem Covers.spans {min v : Int} {item : Item} (h : item.Covers min v) (hplain : item.interval.isSome) :
    item.Spans v := by
  cases item with
  | all => cases hplain
  | step n => cases hplain
  | value a => exact ⟨a, a, rfl, h.ge, h.le⟩
  | range a b => exact ⟨a, b, rfl, h⟩
  | rangeStep a b n => exact ⟨a, b, rfl, h.2.1⟩

theorem InRange.fits {min max : Int} {item : Item} (h : item.InRange min max) (hmax : max ≤ 2147483647) :
    item.Fits := by
  intro a b heq
  cases item with
  | all => cases heq
  | step n => cases heq
  | value a =>
    cases heq
    exact ⟨h.2.trans hmax, h.2.trans hmax⟩
  | range a b =>
    cases heq
    exact ⟨h.1.2.trans hmax, h.2.2.trans hmax⟩
  | rangeStep a b n =>
    cases heq
    exact ⟨h.1.2.trans hmax, h.2.1.2.trans hmax⟩

end Item

def fieldText : Item → List Item → List Char
  | item, [] => item.text
  | item, next :: items => item.text ++ ',' :: fieldText next items

/-- A field means what cron says: where its numbers are in range, it matches the values that an item covers;
and where its items cover no value, it matches none, or is rejected. -/
structure MeansCron (min max : Int) (item : Item) (items : List Item) : Prop where
  covers : (∀ i ∈ item :: items, i.InRange min max) →
    ∃ values, parseField (fieldText item items) min max = some values ∧
      ∀ v, min ≤ v → v ≤ max → (fieldMatches values v = true ↔ ∃ i ∈ item :: items, i.Covers min v)
  never : (∀ v, min ≤ v → v ≤ max → ∀ i ∈ item :: items, ¬ i.Covers min v) →
    ∀ values, parseField (fieldText item items) min max = some values →
      ∀ v, min ≤ v → v ≤ max → fieldMatches values v = false

/-- The fields that are read right: `*`; a step, and items that cover nothing more; and items without
stars, of which one is not void and which cover what they span. -/
def Right (min max : Int) (item : Item) (items : List Item) : Prop :=
  (item = .all ∧ items = []) ∨
  (∃ n, item = .step n ∧ 1 ≤ n.value ∧
    ∀ v, min ≤ v → v ≤ max → ∀ i ∈ items, i.Covers min v → item.Covers min v) ∨
  ((∀ i ∈ item :: items, i.interval.isSome) ∧ (∃ i ∈ item :: items, ¬ i.Void max) ∧
    ∀ v, min ≤ v → v ≤ max → ∀ i ∈ item :: items, i.Spans v → ∃ i' ∈ item :: items, i'.Covers min v)

/-- The fields that the constructor rejects: they do not begin with a step, and an item has a star or a
number that is no `int`. -/
def Rejected (item : Item) (items : List Item) : Prop :=
  (∀ n, item ≠ .step n) ∧ ¬ (item = .all ∧ items = []) ∧
    ∃ i ∈ item :: items, ¬ (i.interval.isSome ∧ i.Fits)

/-! ## Parsing -/

theorem mem_valuesUpTo {lo hi step v : Int} (hstep : 0 < step) :
    v ∈ valuesUpTo lo hi step ↔ lo ≤ v ∧ v ≤ hi ∧ (v - lo) % step = 0 := by
  have hmem : v ∈ valuesUpTo lo hi step ↔
      ∃ k : Nat, k < ((hi - lo) / step + 1).toNat ∧ lo + step * (k : Int) = v := by simp [valuesUpTo]
  rw [hmem]
  constructor
  · rintro ⟨k, hk, rfl⟩
    have hle : (k : Int) ≤ (hi - lo) / step := by omega
    have hmul := Int.mul_le_of_le_ediv hstep hle
    have hnonneg : 0 ≤ step * (k : Int) := Int.mul_nonneg hstep.le (Int.natCast_nonneg k)
    rw [Int.mul_comm] at hmul
    refine ⟨by omega, by omega, ?_⟩
    rw [add_sub_cancel_left]
    exact Int.mul_emod_right step k
  · rintro ⟨hlo, hhi, hmod⟩
    have hdvd : step * ((v - lo) / step) = v - lo := Int.mul_ediv_cancel' (Int.dvd_of_emod_eq_zero hmod)
    have hquot : 0 ≤ (v - lo) / step := Int.ediv_nonneg (by omega) hstep.le
    have hle : (v - lo) / step ≤ (hi - lo) / step := Int.ediv_le_ediv hstep (by omega)
    refine ⟨((v - lo) / step).toNat, by omega, ?_⟩
    rw [Int.toNat_of_nonneg hquot, hdvd]
    omega

theorem pieces_fieldText (item : Item) (items : List Item) :
    Text.pieces ',' (fieldText item items) = (item :: items).map Item.text := by
  induction items generalizing item with
  | nil => rw [fieldText, Text.pieces_of_notMem item.comma_notMem_text, if_neg item.text_ne_nil]; rfl
  | cons next items ih => rw [fieldText, Text.pieces_append item.comma_notMem_text, ih]; rfl

theorem stoi_star (s : List Char) : Text.stoi ('*' :: s) = none := by
  rw [Text.stoi]
  rfl

theorem parseToken_of_star {max : Int} {item : Item} (h : item.interval = none) :
    parseToken max item.text = none := by
  have hnone (s : List Char) (hs : '-' ∉ s) : parseToken max ('*' :: s) = none := by
    have hfind : Text.find ['-'] ('*' :: s) = none := by
      have hskip := Text.find_append_of_notMem (by simpa using hs : '-' ∉ '*' :: s) [] []
      rw [append_nil] at hskip
      exact hskip
    rw [parseToken, hfind]
    dsimp only
    rw [stoi_star]
    rfl
  cases item with
  | all => exact hnone [] not_mem_nil
  | step n =>
    refine hnone ('/' :: n.digits) ?_
    rw [mem_cons, not_or]
    exact ⟨by decide, n.notMem (by decide)⟩
  | value a => cases h
  | range a b => cases h
  | rangeStep a b n => cases h

theorem parseToken_range (max : Int) (a b : Number) {rest : List Char}
    (hrest : ∀ c ∈ rest.head?, c.isDigit = false) :
    (a.Fits ∧ b.Fits → parseToken max (a.digits ++ '-' :: (b.digits ++ rest)) =
      some (valuesUpTo a.value (min b.value max) 1)) ∧
    (¬ (a.Fits ∧ b.Fits) → parseToken max (a.digits ++ '-' :: (b.digits ++ rest)) = none) := by
  have hfind : Text.find ['-'] (a.digits ++ '-' :: (b.digits ++ rest)) = some a.digits.length := by
    rw [Text.find_append_of_notMem (a.notMem (by decide)), show '-' :: (b.digits ++ rest) = ['-'] ++ (b.digits ++ rest) from rfl,
      Text.find_append_self, Option.map_some, Nat.zero_add]
  have hdrop : (a.digits ++ '-' :: (b.digits ++ rest)).drop (a.digits.length + 1) = b.digits ++ rest := by
    rw [← drop_drop, drop_left]
    rfl
  rw [parseToken, hfind]
  dsimp only
  rw [take_left, hdrop]
  refine ⟨fun ⟨ha, hb⟩ => ?_, fun hfits => ?_⟩
  · rw [a.stoi_digits.1 ha, (b.stoi_append hrest).1 hb]
    rfl
  · by_cases ha : a.Fits
    · rw [a.stoi_digits.1 ha, (b.stoi_append hrest).2 fun hb => hfits ⟨ha, hb⟩]
      rfl
    · rw [a.stoi_digits.2 ha]
      rfl

theorem parseToken_plain (max : Int) {item : Item} (h : item.interval.isSome) :
    (item.Fits → ∃ values, parseToken max item.text = some values ∧
      (∀ v, v ≤ max → (v ∈ values ↔ item.Spans v)) ∧ (values = [] ↔ item.Void max)) ∧
    (¬ item.Fits → parseToken max item.text = none) := by
  have hrange (a b : Number) (hinterval : item.interval = some (a, b))
      (hvoid : item.Void max ↔ b.value < a.value ∨ max < a.value) :
      (∀ v, v ≤ max → (v ∈ valuesUpTo a.value (min b.value max) 1 ↔ item.Spans v)) ∧
        (valuesUpTo a.value (min b.value max) 1 = [] ↔ item.Void max) := by
    have hspans (v : Int) : item.Spans v ↔ a.value ≤ v ∧ v ≤ b.value := by
      rw [Item.Spans, hinterval]
      constructor
      · rintro ⟨a', b', heq, hle⟩
        cases heq
        exact hle
      · exact fun hle => ⟨a, b, rfl, hle⟩
    constructor
    · intro v hv
      rw [hspans, mem_valuesUpTo Int.one_pos, Int.emod_one]
      omega
    · rw [hvoid, eq_nil_iff_forall_not_mem]
      constructor
      · intro hnone
        have hfirst := hnone a.value
        rw [mem_valuesUpTo Int.one_pos, Int.emod_one] at hfirst
        omega
      · intro hempty v hmem
        rw [mem_valuesUpTo Int.one_pos] at hmem
        omega
  have hfits (a b : Number) (hinterval : item.interval = some (a, b)) : item.Fits ↔ a.Fits ∧ b.Fits := by
    rw [Item.Fits, hinterval]
    constructor
    · exact fun hall => hall a b rfl
    · rintro hboth a' b' heq
      cases heq
      exact hboth
  cases item with
  | all => cases h
  | step n => cases h
  | value a =>
    have hfind : Text.find ['-'] a.digits = none := by
      have hskip := Text.find_append_of_notMem (a.notMem (by decide) : '-' ∉ a.digits) [] []
      rw [append_nil] at hskip
      exact hskip
    have hparse : parseToken max (Item.value a).text = (Text.stoi a.digits).map fun value => [value] := by
      rw [Item.text, parseToken, hfind]
    rw [hparse, hfits a a rfl, and_self]
    refine ⟨fun ha => ⟨[a.value], by rw [a.stoi_digits.1 ha]; rfl, fun v _ => ?_, ?_⟩, fun ha => ?_⟩
    · rw [mem_singleton]
      constructor
      · rintro rfl
        exact ⟨a, a, rfl, le_rfl, le_rfl⟩
      · rintro ⟨_, _, heq, hle⟩
        cases heq
        omega
    · exact iff_of_false (cons_ne_nil _ _) id
    · rw [a.stoi_digits.2 ha]
      rfl
  | range a b =>
    obtain ⟨hsome, hnone⟩ := @parseToken_range max a b [] nofun
    rw [append_nil] at hsome hnone
    rw [hfits a b rfl]
    exact ⟨fun hboth => ⟨_, hsome hboth, hrange a b rfl Iff.rfl⟩, hnone⟩
  | rangeStep a b n =>
    obtain ⟨hsome, hnone⟩ := @parseToken_range max a b ('/' :: n.digits) (by rintro _ ⟨⟩; decide)
    rw [hfits a b rfl]
    exact ⟨fun hboth => ⟨_, hsome hboth, hrange a b rfl Iff.rfl⟩, hnone⟩

theorem exists_fieldText (item : Item) (items : List Item) :
    ∃ rest, fieldText item items = item.text ++ rest ∧ (∀ c ∈ rest.head?, c = ',') ∧ (items = [] ↔ rest = []) := by
  cases items with
  | nil => exact ⟨[], (append_nil _).symm, nofun, iff_of_true rfl rfl⟩
  | cons next items =>
    refine ⟨',' :: fieldText next items, rfl, ?_, iff_of_false (cons_ne_nil _ _) (cons_ne_nil _ _)⟩
    rintro _ ⟨⟩
    rfl

theorem parseField_step (min max : Int) (n : Number) (items : List Item) :
    (n.Fits → parseField (fieldText (.step n) items) min max =
      some (if 0 < n.value then valuesUpTo min max n.value else [])) ∧
    (¬ n.Fits → parseField (fieldText (.step n) items) min max = none) := by
  obtain ⟨rest, htext, hcomma, -⟩ := exists_fieldText (.step n) items
  have hrest : ∀ c ∈ rest.head?, c.isDigit = false := by
    intro c hc
    rw [hcomma c hc]
    decide
  have hlength := length_pos_iff.2 n.ne_nil
  have hstep : 2 < (Item.text (.step n) ++ rest).length ∧
      (Item.text (.step n) ++ rest).take 2 = ['*', '/'] := by
    refine ⟨?_, rfl⟩
    simp only [Item.text, length_append, length_cons]
    omega
  have hstar : Item.text (.step n) ++ rest ≠ ['*'] := by
    intro heq
    rw [heq] at hstep
    exact absurd hstep.1 (by decide)
  rw [htext, parseField, if_neg hstar, if_pos hstep]
  show (n.Fits → (Text.stoi (n.digits ++ rest)).map _ = _) ∧ (¬ n.Fits → (Text.stoi (n.digits ++ rest)).map _ = _)
  refine ⟨fun hfits => ?_, fun hfits => ?_⟩
  · rw [(n.stoi_append hrest).1 hfits]
    rfl
  · rw [(n.stoi_append hrest).2 hfits]
    rfl

theorem parseField_list (min max : Int) {item : Item} {items : List Item} (hstep : ∀ n, item ≠ .step n)
    (hall : ¬ (item = .all ∧ items = [])) :
    parseField (fieldText item items) min max =
      (((item :: items).map Item.text).mapM (parseToken max)).map List.flatten := by
  obtain ⟨rest, htext, hcomma, hnil⟩ := exists_fieldText item items
  -- a number does not begin with a star
  have hdigit (a : Number) (tail : List Char) : (a.digits ++ tail).head? ≠ some '*' := by
    obtain ⟨c, ds, hds⟩ := exists_cons_of_ne_nil a.ne_nil
    have hc := a.isDigit c (hds ▸ mem_cons_self)
    rw [hds, cons_append, head?_cons]
    rintro ⟨⟩
    exact absurd hc (by decide)
  have hcases : fieldText item items ≠ ['*'] ∧ (fieldText item items).take 2 ≠ ['*', '/'] := by
    rw [htext]
    have hplain (a : Number) (tail : List Char) (hitem : item.text = a.digits ++ tail) :
        item.text ++ rest ≠ ['*'] ∧ (item.text ++ rest).take 2 ≠ ['*', '/'] := by
      have hhead := hdigit a (tail ++ rest)
      rw [← append_assoc, ← hitem] at hhead
      refine ⟨fun heq => hhead (by rw [heq]; rfl), fun heq => hhead ?_⟩
      have hfirst := congrArg List.head? heq
      rwa [head?_take, if_neg (by decide)] at hfirst
    cases item with
    | all =>
      cases rest with
      | nil => exact absurd ⟨rfl, hnil.2 rfl⟩ hall
      | cons c rest =>
        obtain rfl := hcomma c rfl
        exact ⟨by simp [Item.text], by simp [Item.text]⟩
    | step n => exact absurd rfl (hstep n)
    | value a => exact hplain a [] (append_nil _).symm
    | range a b => exact hplain a _ rfl
    | rangeStep a b n => exact hplain a _ rfl
  rw [parseField, if_neg hcases.1, if_neg fun h => hcases.2 h.2, pieces_fieldText]

theorem parseField_plain (min max : Int) {item : Item} {items : List Item}
    (h : ∀ i ∈ item :: items, i.interval.isSome ∧ i.Fits) :
    ∃ values, parseField (fieldText item items) min max = some values ∧
      (∀ v, v ≤ max → (v ∈ values ↔ ∃ i ∈ item :: items, i.Spans v)) ∧
      (values = [] ↔ ∀ i ∈ item :: items, i.Void max) := by
  have hplain := (h item mem_cons_self).1
  have hstep : ∀ n, item ≠ .step n := by
    rintro n rfl
    cases hplain
  have hall : ¬ (item = .all ∧ items = []) := by
    rintro ⟨rfl, -⟩
    cases hplain
  rw [parseField_list min max hstep hall]
  clear hplain hstep hall
  generalize item :: items = all at h
  induction all with
  | nil => exact ⟨[], rfl, fun v _ => by simp, by simp⟩
  | cons i all ih =>
    rw [forall_mem_cons] at h
    obtain ⟨values, hread, hmem, hempty⟩ := (parseToken_plain max h.1.1).1 h.1.2
    obtain ⟨rest, hrest, hmem', hempty'⟩ := ih h.2
    rw [Option.map_eq_some_iff] at hrest
    obtain ⟨parts, hparts, rfl⟩ := hrest
    refine ⟨values ++ parts.flatten, ?_, fun v hv => ?_, ?_⟩
    · rw [map_cons, mapM_cons, hread, hparts]
      rfl
    · rw [mem_append, hmem v hv, hmem' v hv, exists_mem_cons_iff]
    · rw [append_eq_nil_iff, hempty, hempty', forall_mem_cons]

theorem parseField_rejected (min max : Int) {item : Item} {items : List Item} (h : Rejected item items) :
    parseField (fieldText item items) min max = none := by
  obtain ⟨hstep, hall, i, hi, hbad⟩ := h
  rw [parseField_list min max hstep hall, Option.map_eq_none_iff]
  cases hread : ((item :: items).map Item.text).mapM (parseToken max) with
  | none => rfl
  | some parts =>
    rw [mapM_eq_some_iff] at hread
    obtain ⟨values, -, hvalues⟩ := exists_of_forall₂ hread i.text (mem_map_of_mem hi)
    by_cases hplain : i.interval.isSome
    · rw [(parseToken_plain max hplain).2 fun hfits => hbad ⟨hplain, hfits⟩] at hvalues
      cases hvalues
    · rw [Option.not_isSome_iff_eq_none] at hplain
      rw [parseToken_of_star hplain] at hvalues
      cases hvalues

/-! ## Meaning -/

/-- The first and the last value of a field. -/
structure Bounds where
  min : Int
  max : Int
  ordered : min ≤ max
  fits : max ≤ 2147483647

theorem fieldMatches_iff (values : List Int) (v : Int) :
    fieldMatches values v = true ↔ values = [] ∨ v ∈ values := by
  rw [fieldMatches, Bool.or_eq_true, List.isEmpty_iff, decide_eq_true_eq]

section

variable {bounds : Bounds} {item : Item} {items : List Item}

theorem forall_of_not_rejected (hstep : ∀ n, item ≠ .step n) (hall : ¬ (item = .all ∧ items = []))
    (h : ¬ Rejected item items) : ∀ i ∈ item :: items, i.interval.isSome ∧ i.Fits := by
  intro i hi
  by_contra hbad
  exact h ⟨hstep, hall, i, hi, hbad⟩

theorem mem_step {n : Number} (hpos : 1 ≤ n.value) {v : Int} (hmin : bounds.min ≤ v) (hmax : v ≤ bounds.max) :
    v ∈ valuesUpTo bounds.min bounds.max n.value ↔ (Item.step n).Covers bounds.min v := by
  rw [mem_valuesUpTo (by omega)]
  exact ⟨fun h => ⟨hpos, h.2.2⟩, fun h => ⟨hmin, hmax, h.2⟩⟩

theorem covers_min {n : Number} (hpos : 1 ≤ n.value) : (Item.step n).Covers bounds.min bounds.min :=
  ⟨hpos, by rw [Int.sub_self, Int.zero_emod]⟩

theorem fieldMatches_step {n : Number} (hpos : 1 ≤ n.value) {v : Int} (hmin : bounds.min ≤ v)
    (hmax : v ≤ bounds.max) :
    fieldMatches (valuesUpTo bounds.min bounds.max n.value) v = true ↔
      (Item.step n).Covers bounds.min v := by
  rw [fieldMatches_iff, mem_step hpos hmin hmax, or_iff_right]
  intro hnil
  have hfirst := (mem_step hpos le_rfl bounds.ordered).2 (covers_min hpos)
  rw [hnil] at hfirst
  cases hfirst

theorem MeansCron.right (h : MeansCron bounds.min bounds.max item items)
    (hin : ∀ i ∈ item :: items, i.InRange bounds.min bounds.max) :
    Right bounds.min bounds.max item items := by
  obtain ⟨values, hparse, hmeans⟩ := h.covers hin
  have hrejected : ¬ Rejected item items := fun hrejected => by
    rw [parseField_rejected _ _ hrejected] at hparse
    cases hparse
  by_cases hall : item = .all ∧ items = []
  · exact .inl hall
  by_cases hstep : ∃ n, item = .step n
  · obtain ⟨n, rfl⟩ := hstep
    obtain ⟨hpos, -, hle⟩ := hin _ mem_cons_self
    have hfits : n.Fits := hle.trans bounds.fits
    rw [(parseField_step _ _ n items).1 hfits, if_pos (by omega)] at hparse
    cases hparse
    refine .inr (.inl ⟨n, rfl, hpos, fun v hmin hmax i hi hcovers => ?_⟩)
    exact (fieldMatches_step hpos hmin hmax).1
      ((hmeans v hmin hmax).2 ⟨i, mem_cons_of_mem _ hi, hcovers⟩)
  · have hplain := forall_of_not_rejected (fun n hn => hstep ⟨n, hn⟩) hall hrejected
    obtain ⟨values', hparse', hmem, hvoid⟩ := parseField_plain bounds.min bounds.max hplain
    rw [hparse] at hparse'
    cases hparse'
    refine .inr (.inr ⟨fun i hi => (hplain i hi).1, ?_, fun v hmin hmax i hi hspans => ?_⟩)
    · by_contra hnone
      -- all items are void, so every value matches and none is spanned
      have hnil : values = [] := hvoid.2 fun i hi => by
        by_contra hvoid
        exact hnone ⟨i, hi, hvoid⟩
      obtain ⟨i, hi, hcovers⟩ := (hmeans bounds.min le_rfl bounds.ordered).1
        ((fieldMatches_iff _ _).2 (.inl hnil))
      have hfirst := (hmem bounds.min bounds.ordered).2 ⟨i, hi, hcovers.spans (hplain i hi).1⟩
      rw [hnil] at hfirst
      cases hfirst
    · exact (hmeans v hmin hmax).1 ((fieldMatches_iff _ _).2 (.inr ((hmem v hmax).2 ⟨i, hi, hspans⟩)))

theorem MeansCron.right_or (h : MeansCron bounds.min bounds.max item items)
    (hnone : ∀ v, bounds.min ≤ v → v ≤ bounds.max → ∀ i ∈ item :: items, ¬ i.Covers bounds.min v) :
    Right bounds.min bounds.max item items ∨ Rejected item items := by
  by_cases hrejected : Rejected item items
  · exact .inr hrejected
  left
  have hnever := h.never hnone
  by_cases hall : item = .all ∧ items = []
  · exact .inl hall
  by_cases hstep : ∃ n, item = .step n
  · obtain ⟨n, rfl⟩ := hstep
    have hzero : ¬ 0 < n.value := fun hpos =>
      hnone bounds.min le_rfl bounds.ordered _ mem_cons_self (covers_min hpos)
    have hfits : n.Fits := (not_lt.1 hzero).trans (by decide)
    have hparse := (parseField_step bounds.min bounds.max n items).1 hfits
    rw [if_neg hzero] at hparse
    have hwild : fieldMatches [] bounds.min = true := rfl
    rw [hnever _ hparse _ le_rfl bounds.ordered] at hwild
    cases hwild
  · have hplain := forall_of_not_rejected (fun n hn => hstep ⟨n, hn⟩) hall hrejected
    obtain ⟨values, hparse, hmem, hvoid⟩ := parseField_plain bounds.min bounds.max hplain
    have hmatches {v : Int} (hmin : bounds.min ≤ v) (hmax : v ≤ bounds.max) :
        ¬ (values = [] ∨ v ∈ values) := by
      rw [← fieldMatches_iff, hnever _ hparse v hmin hmax]
      exact Bool.false_ne_true
    refine .inr (.inr ⟨fun i hi => (hplain i hi).1, ?_, fun v hmin hmax i hi hspans => ?_⟩)
    · by_contra hnot
      refine hmatches le_rfl bounds.ordered (.inl (hvoid.2 fun i hi => ?_))
      by_contra hvoid
      exact hnot ⟨i, hi, hvoid⟩
    · exact absurd (.inr ((hmem v hmax).2 ⟨i, hi, hspans⟩)) (hmatches hmin hmax)

theorem Right.covers (h : Right bounds.min bounds.max item items)
    (hfits : ∀ i ∈ item :: items, i.Fits) (hstep : ∀ n, item = .step n → n.Fits) :
    ∃ values, parseField (fieldText item items) bounds.min bounds.max = some values ∧
      ∀ v, bounds.min ≤ v → v ≤ bounds.max →
        (fieldMatches values v = true ↔ ∃ i ∈ item :: items, i.Covers bounds.min v) := by
  rcases h with ⟨rfl, rfl⟩ | ⟨n, rfl, hpos, hrest⟩ | ⟨hplain, hvoid, hspans⟩
  · exact ⟨[], rfl, fun v _ _ => iff_of_true rfl ⟨.all, mem_cons_self, trivial⟩⟩
  · refine ⟨_, (parseField_step _ _ n items).1 (hstep n rfl), fun v hmin hmax => ?_⟩
    rw [if_pos (by omega), fieldMatches_step hpos hmin hmax, exists_mem_cons_iff]
    exact ⟨.inl, fun hex => hex.elim id fun ⟨i, hi, hcovers⟩ => hrest v hmin hmax i hi hcovers⟩
  · obtain ⟨values, hparse, hmem, hempty⟩ :=
      parseField_plain bounds.min bounds.max fun i hi => ⟨hplain i hi, hfits i hi⟩
    refine ⟨values, hparse, fun v hmin hmax => ?_⟩
    have hne : values ≠ [] := fun hnil => by
      obtain ⟨i, hi, hnot⟩ := hvoid
      exact hnot (hempty.1 hnil i hi)
    rw [fieldMatches_iff, or_iff_right hne, hmem v hmax]
    constructor
    · rintro ⟨i, hi, hi'⟩
      exact hspans v hmin hmax i hi hi'
    · rintro ⟨i, hi, hcovers⟩
      exact ⟨i, hi, hcovers.spans (hplain i hi)⟩

theorem Right.never (h : Right bounds.min bounds.max item items)
    (hnone : ∀ v, bounds.min ≤ v → v ≤ bounds.max → ∀ i ∈ item :: items, ¬ i.Covers bounds.min v)
    {values : List Int} (hparse : parseField (fieldText item items) bounds.min bounds.max = some values)
    {v : Int} (hmin : bounds.min ≤ v) (hmax : v ≤ bounds.max) : fieldMatches values v = false := by
  have hstep : ∀ n, item = .step n → n.Fits := by
    rintro n rfl
    by_contra hfits
    rw [(parseField_step _ _ n items).2 hfits] at hparse
    cases hparse
  have hfits : ∀ i ∈ item :: items, i.Fits := by
    rcases h with ⟨rfl, rfl⟩ | ⟨n, rfl, hpos, -⟩ | ⟨hplain, -⟩
    · exact absurd trivial (hnone v hmin hmax .all mem_cons_self)
    · exact absurd (covers_min hpos) (hnone _ le_rfl bounds.ordered _ mem_cons_self)
    · refine fun i hi => (forall_of_not_rejected (fun n hn => ?_) (fun hall => ?_) (fun hrejected => ?_) i hi).2
      · have hsome := hplain item mem_cons_self
        rw [hn] at hsome
        cases hsome
      · have hsome := hplain item mem_cons_self
        rw [hall.1] at hsome
        cases hsome
      · rw [parseField_rejected _ _ hrejected] at hparse
        cases hparse
  obtain ⟨values', hparse', hmeans⟩ := h.covers hfits hstep
  rw [hparse] at hparse'
  cases hparse'
  rw [← Bool.not_eq_true, hmeans v hmin hmax]
  rintro ⟨i, hi, hcovers⟩
  exact hnone v hmin hmax i hi hcovers

/-- **A field means what cron says** exactly when it is read right, or covers nothing and is rejected. -/
theorem meansCron_iff (bounds : Bounds) (item : Item) (items : List Item) :
    MeansCron bounds.min bounds.max item items ↔
      ((∀ i ∈ item :: items, i.InRange bounds.min bounds.max) → Right bounds.min bounds.max item items) ∧
      ((∀ v, bounds.min ≤ v → v ≤ bounds.max → ∀ i ∈ item :: items, ¬ i.Covers bounds.min v) →
        Right bounds.min bounds.max item items ∨ Rejected item items) := by
  refine ⟨fun h => ⟨h.right, h.right_or⟩, fun ⟨hright, hor⟩ => ⟨fun hin => ?_, fun hnone values hparse v hmin hmax => ?_⟩⟩
  · refine (hright hin).covers (fun i hi => (hin i hi).fits bounds.fits) ?_
    rintro n rfl
    exact (hin _ mem_cons_self).2.2.trans bounds.fits
  · rcases hor hnone with hright | hrejected
    · exact hright.never hnone hparse hmin hmax
    · rw [parseField_rejected _ _ hrejected] at hparse
      cases hparse

end

def minuteBounds : Bounds := ⟨0, 59, by decide, by decide⟩

/-- The number `d`, for a digit `d`. -/
def digitNumber (d : Char) (h : d.isDigit) : Number := ⟨[d], cons_ne_nil _ _, forall_mem_singleton.2 h⟩

/-- The minutes `0-8/2`: the eighth one is covered, and so is said of the first. -/
theorem not_meansCron :
    ¬ MeansCron minuteBounds.min minuteBounds.max
      (.rangeStep (digitNumber '0' (by decide)) (digitNumber '8' (by decide)) (digitNumber '2' (by decide)))
      [] := by
  intro h
  have hin : (Item.rangeStep (digitNumber '0' (by decide)) (digitNumber '8' (by decide))
      (digitNumber '2' (by decide))).InRange minuteBounds.min minuteBounds.max :=
    ⟨⟨by decide, by decide⟩, ⟨by decide, by decide⟩, by decide, by decide, by decide⟩
  obtain ⟨values, hparse, hmeans⟩ := h.covers (forall_mem_singleton.2 hin)
  have hvalues : values = [0, 1, 2, 3, 4, 5, 6, 7, 8] := by
    rw [← Option.some.injEq, ← hparse]
    decide +kernel
  subst hvalues
  obtain ⟨i, hi, hcovers⟩ := (hmeans 1 (by decide) (by decide)).1 (by decide)
  rw [mem_singleton] at hi
  subst hi
  exact absurd hcovers.2.2 (by decide)

end RavBot.Core.CronExpression
