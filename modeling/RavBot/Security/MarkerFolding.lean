import Mathlib.Data.Nat.Bitwise
import RavBot.Lib.Replacement
import RavBot.Lib.Text

/-!
# Folding look-alikes of marker letters

`FoldMarkerText` reads a text as UTF-8 and writes full-width letters and look-alikes of angle brackets as
the ASCII letters they look like.  It does not check that the bytes after the first one of a sequence
belong to it, so that a sequence may swallow ASCII bytes that come after it.  What is proved here says how
far this can go: three ASCII letters end every sequence before them.
-/

open List

namespace RavBot.Security

open RavBot.Lib

namespace ExternalContentWrapper

/-! ## The code -/

def angleBracketMap : List (Nat × Char) :=
  [(0xff1c, '<'), (0xff1e, '>'), (0x2329, '<'), (0x232a, '>'), (0x3008, '<'), (0x3009, '>'),
    (0x2039, '<'), (0x203a, '>'), (0x27e8, '<'), (0x27e9, '>'), (0xfe64, '<'), (0xfe65, '>'),
    (0x00ab, '<'), (0x00bb, '>'), (0x300a, '<'), (0x300b, '>'), (0x27ea, '<'), (0x27eb, '>'),
    (0x27ec, '<'), (0x27ed, '>'), (0x27ee, '<'), (0x27ef, '>'), (0x276c, '<'), (0x276d, '>'),
    (0x276e, '<'), (0x276f, '>')]

def pushByte (codepoint : Nat) (byte : Char) : Nat := codepoint <<< 6 ||| (byte.toNat &&& 0x3f)

/-- Read the UTF-8 sequence at the front of a text: `codepoint` and `seq_len`. -/
def decode : List Char → Nat × Nat
  | [] => (0, 1)
  | c :: s =>
    let lead := c.toNat
    if lead < 0x80 then (lead, 1)
    else if lead &&& 0xe0 = 0xc0 ∧ 1 ≤ s.length then
      ((s.take 1).foldl pushByte (lead &&& 0x1f), 2)
    else if lead &&& 0xf0 = 0xe0 ∧ 2 ≤ s.length then
      ((s.take 2).foldl pushByte (lead &&& 0x0f), 3)
    else if lead &&& 0xf8 = 0xf0 ∧ 3 ≤ s.length then
      ((s.take 3).foldl pushByte (lead &&& 0x07), 4)
    else (0, 1)

/-- The ASCII letter that a code point is written as. -/
def foldCodepoint (codepoint : Nat) : Option Char :=
  if 0xff21 ≤ codepoint ∧ codepoint ≤ 0xff3a then some (.ofNat ('A'.toNat + (codepoint - 0xff21)))
  else if 0xff41 ≤ codepoint ∧ codepoint ≤ 0xff5a then
    some (.ofNat ('a'.toNat + (codepoint - 0xff41)))
  else angleBracketMap.lookup codepoint

/-- What is written for the sequence at the front of a text. -/
def foldSequence (s : List Char) : List Char :=
  match foldCodepoint (decode s).1 with
  | some c => [c]
  | none => s.take (decode s).2

/-- The loop of `FoldMarkerText`; `k` bytes of the last sequence are still to be passed. -/
def foldFrom : Nat → List Char → List Char
  | _, [] => []
  | k + 1, _ :: s => foldFrom k s
  | 0, c :: s => foldSequence (c :: s) ++ foldFrom ((decode (c :: s)).2 - 1) s

def foldMarkerText (input : List Char) : List Char := foldFrom 0 input

/-! ## One sequence -/

/-- The bytes that a sequence has, by its first byte. -/
def sequenceLength (c : Char) : Nat :=
  if c.toNat < 0x80 then 1
  else if c.toNat &&& 0xe0 = 0xc0 then 2
  else if c.toNat &&& 0xf0 = 0xe0 then 3
  else if c.toNat &&& 0xf8 = 0xf0 then 4
  else 1

theorem pushByte_eq (codepoint : Nat) (byte : Char) :
    pushByte codepoint byte = codepoint * 64 + byte.toNat % 64 := by
  have hand : byte.toNat &&& 0x3f = byte.toNat % 64 := Nat.and_two_pow_sub_one_eq_mod byte.toNat 6
  have hlt : byte.toNat % 64 < 2 ^ 6 := Nat.mod_lt _ (by decide)
  rw [pushByte, hand, ← Nat.shiftLeft_add_eq_or_of_lt hlt, Nat.shiftLeft_eq]

theorem sequenceLength_range (c : Char) : 1 ≤ sequenceLength c ∧ sequenceLength c ≤ 4 := by
  rw [sequenceLength]
  split_ifs <;> decide

theorem exists_sequence {c : Char} {s : List Char} (h : sequenceLength c - 1 ≤ s.length) :
    ∃ u v, s = u ++ v ∧ u.length + 1 = sequenceLength c := by
  refine ⟨s.take (sequenceLength c - 1), s.drop _, (take_append_drop _ s).symm, ?_⟩
  have hrange := sequenceLength_range c
  rw [length_take]
  omega

variable {c : Char}

theorem sequenceLength_of_ascii (h : c.toNat < 0x80) : sequenceLength c = 1 := if_pos h

variable {s u : List Char}

theorem decode_of_short (h : s.length + 1 < sequenceLength c) : decode (c :: s) = (0, 1) := by
  rw [sequenceLength] at h
  rw [decode]
  split_ifs at h ⊢ with h₁ h₂ h₃ h₄ h₅ <;> first | omega | rfl

theorem decode_of_fit (h : u.length + 1 = sequenceLength c) (s : List Char) :
    decode (c :: (u ++ s)) = decode (c :: u) ∧ (decode (c :: u)).2 = u.length + 1 ∧
      (u ≠ [] → ∃ first, (decode (c :: u)).1 = u.foldl pushByte first ∧
        (u.length = 1 → first < 32)) := by
  rw [sequenceLength] at h
  have hmask (k m : Nat) : m &&& (2 ^ k - 1) < 2 ^ k := by
    rw [Nat.and_two_pow_sub_one_eq_mod]
    exact Nat.mod_lt _ (Nat.two_pow_pos k)
  have htake (k : Nat) (hk : u.length = k) : (u ++ s).take k = u ∧ u.take k = u := by
    subst hk
    exact ⟨take_left, take_length⟩
  -- whether a sequence fits is only asked for its own kind of first byte
  have hfits (k : Nat) (hk : u.length = k) : k ≤ (u ++ s).length ∧ k ≤ u.length := by
    rw [length_append]
    omega
  have hnone (hnil : u = []) : u ≠ [] → ∃ first, (decode (c :: u)).1 = u.foldl pushByte first ∧
      (u.length = 1 → first < 32) := fun hne => absurd hnil hne
  split_ifs at h with h₁ h₂ h₃ h₄
  · have hu : u = [] := length_eq_zero_iff.1 (by omega)
    have hdecode (t : List Char) : decode (c :: t) = (c.toNat, 1) := by simp only [decode, h₁, if_true]
    exact ⟨by rw [hdecode, hdecode], by rw [hdecode, hu]; rfl, hnone hu⟩
  · have hu : u.length = 1 := by omega
    have hdecode (t : List Char) (ht : 1 ≤ t.length) :
        decode (c :: t) = ((t.take 1).foldl pushByte (c.toNat &&& 0x1f), 2) := by
      simp only [decode, h₁, h₂, ht, if_true, if_false, true_and]
    rw [hdecode _ (hfits 1 hu).1, hdecode _ (hfits 1 hu).2, (htake 1 hu).1, (htake 1 hu).2, hu]
    exact ⟨rfl, rfl, fun _ => ⟨_, rfl, fun _ => hmask 5 _⟩⟩
  · have hu : u.length = 2 := by omega
    have hdecode (t : List Char) (ht : 2 ≤ t.length) :
        decode (c :: t) = ((t.take 2).foldl pushByte (c.toNat &&& 0x0f), 3) := by
      simp only [decode, h₁, h₂, h₃, ht, if_true, if_false, true_and, false_and]
    rw [hdecode _ (hfits 2 hu).1, hdecode _ (hfits 2 hu).2, (htake 2 hu).1, (htake 2 hu).2, hu]
    exact ⟨rfl, rfl, fun _ => ⟨_, rfl, nofun⟩⟩
  · have hu : u.length = 3 := by omega
    have hdecode (t : List Char) (ht : 3 ≤ t.length) :
        decode (c :: t) = ((t.take 3).foldl pushByte (c.toNat &&& 0x07), 4) := by
      simp only [decode, h₁, h₂, h₃, h₄, ht, if_true, if_false, true_and, false_and]
    rw [hdecode _ (hfits 3 hu).1, hdecode _ (hfits 3 hu).2, (htake 3 hu).1, (htake 3 hu).2, hu]
    exact ⟨rfl, rfl, fun _ => ⟨_, rfl, nofun⟩⟩
  · have hu : u = [] := length_eq_zero_iff.1 (by omega)
    have hdecode (t : List Char) : decode (c :: t) = (0, 1) := by
      simp only [decode, h₁, h₂, h₃, h₄, if_false, false_and]
    exact ⟨by rw [hdecode, hdecode], by rw [hdecode, hu]; rfl, hnone hu⟩

variable {codepoint : Nat}

theorem foldCodepoint_range (h : foldCodepoint codepoint = some c) :
    ((0xff21 ≤ codepoint ∧ codepoint ≤ 0xff3a) ∨ (0xff41 ≤ codepoint ∧ codepoint ≤ 0xff5a) ∨
      codepoint ∈ angleBracketMap.map Prod.fst) ∧ c.toNat < 0x80 := by
  have hletter (first n : Nat) (hfirst : first + n < 0x80) : (Char.ofNat (first + n)).toNat < 0x80 := by
    have hvalid : (first + n).isValidChar := .inl (by omega)
    rwa [Char.ofNat, dif_pos hvalid]
  rw [foldCodepoint] at h
  split_ifs at h with h₁ h₂
  · obtain rfl := Option.some.inj h
    exact ⟨.inl h₁, hletter 65 _ (by omega)⟩
  · obtain rfl := Option.some.inj h
    exact ⟨.inr (.inl h₂), hletter 97 _ (by omega)⟩
  · obtain ⟨l₁, l₂, hsplit, -⟩ := List.lookup_eq_some_iff.1 h
    have hmem : (codepoint, c) ∈ angleBracketMap := by
      rw [hsplit]
      exact mem_append_right _ mem_cons_self
    have hascii : ∀ e ∈ angleBracketMap, e.2.toNat < 0x80 := by decide
    exact ⟨.inr (.inr (mem_map_of_mem hmem)), hascii _ hmem⟩

theorem foldCodepoint_bits (h : foldCodepoint codepoint = some c) :
    0x80 ≤ codepoint ∧ codepoint < 0x10000 ∧ codepoint % 64 ≠ 0x3c ∧ codepoint % 64 ≠ 0x1b := by
  have hkeys : ∀ key ∈ angleBracketMap.map Prod.fst,
      0x80 ≤ key ∧ key < 0x10000 ∧ key % 64 ≠ 0x3c ∧ key % 64 ≠ 0x1b := by decide
  rcases (foldCodepoint_range h).1 with hrange | hrange | hkey
  · omega
  · omega
  · exact hkeys _ hkey

/-! ## The loop -/

theorem fold_induction {motive : List Char → Prop} (nil : motive [])
    (short : ∀ c s, s.length + 1 < sequenceLength c → motive s → motive (c :: s))
    (fit : ∀ c u s, u.length + 1 = sequenceLength c → motive s → motive (c :: (u ++ s)))
    (s : List Char) : motive s := by
  induction hlength : s.length using Nat.strong_induction_on generalizing s with
  | _ n ih =>
    cases s with
    | nil => exact nil
    | cons c s =>
      rw [length_cons] at hlength
      rcases Nat.lt_or_ge (s.length + 1) (sequenceLength c) with hshort | hfit
      · exact short c s hshort (ih _ (by omega) s rfl)
      · have hrange := sequenceLength_range c
        have htake : (s.take (sequenceLength c - 1)).length + 1 = sequenceLength c := by
          rw [length_take]
          omega
        have hdrop : (s.drop (sequenceLength c - 1)).length < n := by
          rw [length_drop]
          omega
        rw [← take_append_drop (sequenceLength c - 1) s]
        exact fit c _ _ htake (ih _ hdrop _ rfl)

theorem foldFrom_eq (k : Nat) (s : List Char) : foldFrom k s = foldMarkerText (s.drop k) := by
  induction s generalizing k with
  | nil => cases k <;> rfl
  | cons c s ih =>
    cases k with
    | zero => rfl
    | succ k => rw [foldFrom, ih, drop_succ_cons]

theorem fold_cons_of_short (h : s.length + 1 < sequenceLength c) :
    foldMarkerText (c :: s) = c :: foldMarkerText s := by
  rw [foldMarkerText, foldFrom, foldSequence, decode_of_short h]
  rfl

theorem fold_cons_append (h : u.length + 1 = sequenceLength c)
    (s : List Char) :
    foldMarkerText (c :: (u ++ s)) = foldSequence (c :: u) ++ foldMarkerText s := by
  obtain ⟨hsame, hlength, -⟩ := decode_of_fit h s
  rw [foldMarkerText, foldFrom, foldFrom_eq, foldSequence, foldSequence, hsame, hlength,
    Nat.add_sub_cancel, drop_left]
  cases foldCodepoint (decode (c :: u)).1 with
  | some _ => rfl
  | none => rw [take_succ_cons, take_succ_cons, take_left, take_length]

theorem foldSequence_cases (h : u.length + 1 = sequenceLength c) :
    foldSequence (c :: u) = c :: u ∨
      ∃ letter, foldSequence (c :: u) = [letter] ∧ foldCodepoint (decode (c :: u)).1 = some letter := by
  obtain ⟨-, hlength, -⟩ := decode_of_fit h []
  rw [foldSequence]
  cases hfold : foldCodepoint (decode (c :: u)).1 with
  | some letter => exact .inr ⟨letter, rfl, rfl⟩
  | none =>
    left
    rw [hlength, ← length_cons, take_length]

theorem foldSequence_singleton (h : sequenceLength c = 1) : foldSequence [c] = [c] := by
  have hfit : ([] : List Char).length + 1 = sequenceLength c := h.symm
  rcases foldSequence_cases hfit with hsame | ⟨letter, -, hfold⟩
  · exact hsame
  · have hsmall : (decode [c]).1 < 0x80 := by
      by_cases hc : c.toNat < 0x80
      · simp only [decode, hc, if_true]
      · simp [decode, hc]
    exact absurd (foldCodepoint_bits hfold).1 (Nat.not_le.2 hsmall)

theorem fold_cons_of_ascii (h : c.toNat < 0x80) (s : List Char) :
    foldMarkerText (c :: s) = c :: foldMarkerText s := by
  have hlength := sequenceLength_of_ascii h
  have hfold := fold_cons_append (u := []) hlength.symm s
  rwa [foldSequence_singleton hlength] at hfold

theorem fold_append_of_ascii {t : List Char} (h : ∀ c ∈ t, c.toNat < 0x80) (s : List Char) :
    foldMarkerText (t ++ s) = t ++ foldMarkerText s := by
  induction t with
  | nil => rfl
  | cons c t ih =>
    rw [forall_mem_cons] at h
    rw [cons_append, fold_cons_of_ascii h.1, ih h.2]
    rfl

/-- A sequence that ends with `<` or `[`, or with two of them and another letter, is written as it
stands. -/
theorem foldSequence_of_blunt {x z : Char} (hx : x = '<' ∨ x = '[')
    (h : u.length + 1 = sequenceLength c) (hu : (∃ v, u = v ++ [x]) ∨ u = [x, x, z]) :
    foldSequence (c :: u) = c :: u := by
  rcases foldSequence_cases h with hsame | ⟨letter, -, hfold⟩
  · exact hsame
  · obtain ⟨-, hlt, hangle, hsquare⟩ := foldCodepoint_bits hfold
    have hne : u ≠ [] := by
      rcases hu with ⟨v, rfl⟩ | rfl
      · exact append_ne_nil_of_right_ne_nil v (cons_ne_nil x [])
      · exact cons_ne_nil x _
    obtain ⟨first, hcodepoint, -⟩ := (decode_of_fit h []).2.2 hne
    have hbits : x.toNat = 0x3c ∨ x.toNat = 0x5b := by
      rcases hx with rfl | rfl
      · exact .inl rfl
      · exact .inr rfl
    exfalso
    rcases hu with ⟨v, rfl⟩ | rfl
    · rw [foldl_append, foldl_cons, foldl_nil, pushByte_eq] at hcodepoint
      omega
    · simp only [foldl_cons, foldl_nil, pushByte_eq] at hcodepoint
      omega

theorem length_fold_le (s : List Char) : (foldMarkerText s).length ≤ s.length := by
  induction s using fold_induction with
  | nil => exact Nat.le_refl _
  | short c s h ih =>
    rw [fold_cons_of_short h]
    exact Nat.succ_le_succ ih
  | fit c u s h ih =>
    rw [fold_cons_append h, ← cons_append, length_append, length_append]
    refine Nat.add_le_add ?_ ih
    rcases foldSequence_cases h with hsame | ⟨letter, hletter, -⟩
    · rw [hsame]
    · rw [hletter]
      exact Nat.succ_le_succ (Nat.zero_le _)

@[simp] theorem fold_fold (s : List Char) : foldMarkerText (foldMarkerText s) = foldMarkerText s := by
  induction s using fold_induction with
  | nil => rfl
  | short c s h ih =>
    have hshort : (foldMarkerText s).length + 1 < sequenceLength c :=
      (Nat.succ_le_succ (length_fold_le s)).trans_lt h
    rw [fold_cons_of_short h, fold_cons_of_short hshort, ih]
  | fit c u s h ih =>
    rw [fold_cons_append h]
    rcases foldSequence_cases h with hsame | ⟨letter, hletter, hfold⟩
    · rw [hsame, cons_append, fold_cons_append h, hsame, ih]
      rfl
    · rw [hletter, singleton_append, fold_cons_of_ascii (foldCodepoint_range hfold).2, ih]

theorem fold_append {e : List Char} (he : ∀ c ∈ e, c.toNat < 0x80) (hlength : 3 ≤ e.length)
    (s t : List Char) :
    foldMarkerText (s ++ (e ++ t)) = foldMarkerText (s ++ e) ++ foldMarkerText t := by
  induction hs : s.length using Nat.strong_induction_on generalizing s with
  | _ n ih =>
    cases s with
    | nil =>
      have hself := fold_append_of_ascii he []
      rw [append_nil] at hself
      rw [nil_append, nil_append, fold_append_of_ascii he, hself, append_assoc]
      rfl
    | cons c s =>
      rw [length_cons] at hs
      have hrange := sequenceLength_range c
      rcases Nat.lt_or_ge s.length (sequenceLength c - 1) with hover | hinside
      · -- the sequence goes on in the ASCII letters
        obtain ⟨e₁, e₂, rfl, he₁⟩ : ∃ e₁ e₂, e = e₁ ++ e₂ ∧
            (s ++ e₁).length + 1 = sequenceLength c := by
          refine ⟨e.take (sequenceLength c - 1 - s.length), e.drop _,
            (take_append_drop _ e).symm, ?_⟩
          rw [length_append, length_take]
          omega
        have he₂ : ∀ c ∈ e₂, c.toNat < 0x80 := fun c hc => he c (mem_append_right _ hc)
        have hself := fold_append_of_ascii he₂ []
        rw [append_nil] at hself
        have hsplit (r : List Char) :
            c :: s ++ (e₁ ++ e₂ ++ r) = c :: (s ++ e₁ ++ (e₂ ++ r)) := by simp
        have hsplit' : c :: s ++ (e₁ ++ e₂) = c :: (s ++ e₁ ++ e₂) := by simp
        rw [hsplit, hsplit', fold_cons_append he₁, fold_cons_append he₁,
          fold_append_of_ascii he₂, hself, append_assoc, append_assoc]
        rfl
      · obtain ⟨u, v, rfl, hu⟩ := exists_sequence hinside
        have hv : v.length < n := by
          rw [length_append] at hs
          omega
        have hsplit (r : List Char) : c :: (u ++ v) ++ r = c :: (u ++ (v ++ r)) := by simp
        rw [hsplit, hsplit, fold_cons_append hu, fold_cons_append hu, ih _ hv v rfl, append_assoc]

/-- Two `<` or two `[` and an ASCII letter keep what stands before them apart from what comes after
them. -/
theorem exists_fold_before (s : List Char) : ∃ t, t.length ≤ s.length ∧
    ∀ x z r, (x = '<' ∨ x = '[') → z.toNat < 0x80 →
      foldMarkerText (s ++ x :: x :: z :: r) = t ++ x :: x :: z :: foldMarkerText r := by
  induction hs : s.length using Nat.strong_induction_on generalizing s with
  | _ n ih =>
    have hpass (x z : Char) (r : List Char) (hx : x = '<' ∨ x = '[') (hz : z.toNat < 0x80) :
        foldMarkerText (x :: x :: z :: r) = x :: x :: z :: foldMarkerText r ∧
          foldMarkerText (x :: z :: r) = x :: z :: foldMarkerText r := by
      have hascii : x.toNat < 0x80 := by
        rcases hx with rfl | rfl <;> decide
      rw [fold_cons_of_ascii hascii, fold_cons_of_ascii hascii, fold_cons_of_ascii hz]
      exact ⟨rfl, rfl⟩
    cases s with
    | nil => exact ⟨[], Nat.zero_le _, fun x z r hx hz => (hpass x z r hx hz).1⟩
    | cons c s =>
      rw [length_cons] at hs
      have hrange := sequenceLength_range c
      rcases Nat.lt_or_ge s.length (sequenceLength c - 1) with hover | hinside
      · -- the sequence ends in the three letters, and is written as it stands
        refine ⟨c :: s, hs.le, fun x z r hx hz => ?_⟩
        obtain hone | htwo | hthree : s.length + 2 = sequenceLength c ∨
            s.length + 3 = sequenceLength c ∨ s.length + 4 = sequenceLength c := by omega
        · have hfit : (s ++ [x]).length + 1 = sequenceLength c := by
            rw [length_append, ← hone]
            rfl
          have hfold := fold_cons_append hfit (x :: z :: r)
          rw [foldSequence_of_blunt (z := z) hx hfit (.inl ⟨s, rfl⟩),
            (hpass x z r hx hz).2] at hfold
          simpa using hfold
        · have hfit : (s ++ [x, x]).length + 1 = sequenceLength c := by
            rw [length_append, ← htwo]
            rfl
          have hfold := fold_cons_append hfit (z :: r)
          rw [foldSequence_of_blunt (z := z) hx hfit (.inl ⟨s ++ [x], by simp⟩),
            fold_cons_of_ascii hz] at hfold
          simpa using hfold
        · obtain rfl : s = [] := length_eq_zero_iff.1 (by omega)
          have hfit : [x, x, z].length + 1 = sequenceLength c := hthree
          have hfold := fold_cons_append hfit r
          rw [foldSequence_of_blunt hx hfit (.inr rfl)] at hfold
          simpa using hfold
      · obtain ⟨u, v, rfl, hu⟩ := exists_sequence hinside
        have hv : v.length < n := by
          rw [length_append] at hs
          omega
        obtain ⟨t, ht, hfold⟩ := ih _ hv v rfl
        refine ⟨foldSequence (c :: u) ++ t, ?_, fun x z r hx hz => ?_⟩
        · have hshort : (foldSequence (c :: u)).length ≤ u.length + 1 := by
            rcases foldSequence_cases hu with hsame | ⟨letter, hletter, -⟩
            · rw [hsame]
              rfl
            · rw [hletter]
              exact Nat.succ_le_succ (Nat.zero_le _)
          rw [length_append] at hs ⊢
          omega
        · have hsplit : c :: (u ++ v) ++ x :: x :: z :: r = c :: (u ++ (v ++ x :: x :: z :: r)) := by
            simp
          rw [hsplit, fold_cons_append hu, hfold x z r hx hz, append_assoc]

/-- Replacing a word that begins with `<<<` and ends with `>>>` by ASCII letters that begin with `[[` keeps
a folded text folded. -/
theorem fold_of_rewrites {swap : List Char → List Char → Prop}
    (hword : ∀ w v, swap w v → (∃ m, w = '<' :: '<' :: '<' :: m) ∧ (∃ m, w = m ++ ['>', '>', '>']))
    (hnew : ∀ w v, swap w v → (∃ z m, v = '[' :: '[' :: z :: m) ∧ ∀ c ∈ v, c.toNat < 0x80)
    {t : List Char} (hs : foldMarkerText s = s) (h : Rewrites swap s t) : foldMarkerText t = t := by
  induction hlength : s.length using Nat.strong_induction_on generalizing s t with
  | _ n ih =>
    rcases h.eq_or_exists_swap with rfl | ⟨u, w, v, s', t', rfl, rfl, hw, hrest⟩
    · exact hs
    · obtain ⟨⟨m, rfl⟩, m', hend⟩ := hword _ _ hw
      obtain ⟨⟨z, k, rfl⟩, hascii⟩ := hnew _ _ hw
      obtain ⟨e, he, hfold⟩ := exists_fold_before u
      -- what stands before the word and what comes after it are folded
      have hwhole := hfold '<' '<' (m ++ s') (.inl rfl) (by decide)
      have hsplit : u ++ ('<' :: '<' :: '<' :: m ++ s') = u ++ '<' :: '<' :: '<' :: (m ++ s') := rfl
      rw [← hsplit, hs, hsplit] at hwhole
      have hle := length_fold_le (m ++ s')
      have hlengths := congrArg List.length hwhole
      simp only [length_append, length_cons] at hlengths hle
      obtain ⟨rfl, -⟩ := append_inj hwhole (by omega)
      have hs' : foldMarkerText s' = s' := by
        have hcut := fold_append (e := ['>', '>', '>']) (Text.forall_of_all (by decide)) (by decide)
          (u ++ m') s'
        have heq : u ++ m' ++ (['>', '>', '>'] ++ s') = u ++ ('<' :: '<' :: '<' :: m ++ s') := by
          rw [hend]
          simp only [append_assoc]
        rw [heq, hs] at hcut
        have hle' := length_fold_le (u ++ m' ++ ['>', '>', '>'])
        have hle'' := length_fold_le s'
        have hlengths' := congrArg List.length hcut
        rw [hend] at hcut hlengths'
        simp only [length_append, length_cons, length_nil] at hlengths' hle'
        have hcut' : (u ++ (m' ++ ['>', '>', '>'])) ++ s' =
            foldMarkerText (u ++ m' ++ ['>', '>', '>']) ++ foldMarkerText s' := by
          rw [append_assoc]
          exact hcut
        exact (append_inj' hcut' (by omega)).2.symm
      have hshort : s'.length < n := by
        rw [← hlength]
        simp only [length_append, length_cons]
        omega
      have ht' := ih _ hshort hs' hrest rfl
      rw [forall_mem_cons, forall_mem_cons, forall_mem_cons] at hascii
      have hgoal := hfold '[' z (k ++ t') (.inr rfl) hascii.2.2.1
      rw [fold_append_of_ascii hascii.2.2.2, ht'] at hgoal
      exact hgoal

/-! ## The end of a text -/

theorem foldCodepoint_of_two (h : foldCodepoint codepoint = some c)
    (hlt : codepoint < 0x800) : codepoint = 0xab ∨ codepoint = 0xbb := by
  have hkeys : ∀ key ∈ angleBracketMap.map Prod.fst, key < 0x800 → key = 0xab ∨ key = 0xbb := by decide
  rcases (foldCodepoint_range h).1 with hrange | hrange | hkey
  · omega
  · omega
  · exact hkeys _ hkey hlt

theorem foldCodepoint_of_newline (h : foldCodepoint codepoint = some c)
    (hnewline : codepoint % 64 = 10) : (codepoint = 0x300a ∨ codepoint = 0xff4a) ∧ c ≠ '>' := by
  have hkeys : ∀ key ∈ angleBracketMap.map Prod.fst, key % 64 = 10 → key = 0x300a ∨ key = 0xff4a := by
    decide
  have hcodepoint : codepoint = 0x300a ∨ codepoint = 0xff4a := by
    rcases (foldCodepoint_range h).1 with hrange | hrange | hkey
    · omega
    · omega
    · exact hkeys _ hkey hnewline
  refine ⟨hcodepoint, ?_⟩
  rintro rfl
  rcases hcodepoint with rfl | rfl <;> revert h <;> decide

theorem not_ascii_of_sequenceLength (h : 1 < sequenceLength c) : 0x80 ≤ c.toNat := by
  rw [← Nat.not_lt]
  intro hascii
  rw [sequenceLength_of_ascii hascii] at h
  exact Nat.lt_irrefl 1 h

theorem fold_singleton (c : Char) : foldMarkerText [c] = [c] := by
  have hrange := sequenceLength_range c
  obtain hone | hmore : sequenceLength c = 1 ∨ ([] : List Char).length + 1 < sequenceLength c := by
    rw [length_nil]
    omega
  · have hfold := fold_cons_append (u := []) hone.symm []
    rwa [foldSequence_singleton hone] at hfold
  · rw [fold_cons_of_short hmore]
    rfl

theorem fold_of_length_le_two (h : s.length ≤ 2) :
    foldMarkerText s = s ∨ ∃ a b letter, s = [a, b] ∧ foldMarkerText s = [letter] ∧
      0x80 ≤ a.toNat ∧ (b.toNat % 64 = 0x2b ∨ b.toNat % 64 = 0x3b) := by
  rcases s with _ | ⟨a, _ | ⟨b, _ | ⟨_, _⟩⟩⟩
  · exact .inl rfl
  · exact .inl (fold_singleton a)
  · have hrange := sequenceLength_range a
    obtain hone | htwo | hmore : sequenceLength a = 1 ∨ [b].length + 1 = sequenceLength a ∨
        [b].length + 1 < sequenceLength a := by
      rw [length_singleton]
      omega
    · left
      have hfold := fold_cons_append (u := []) hone.symm [b]
      rw [foldSequence_singleton hone, fold_singleton] at hfold
      exact hfold
    · have hfold := fold_cons_append htwo []
      rw [append_nil] at hfold
      rcases foldSequence_cases htwo with hsame | ⟨letter, hletter, hcodepoint⟩
      · left
        rw [hfold, hsame]
        rfl
      · right
        obtain ⟨first, heq, hfirst⟩ := (decode_of_fit htwo []).2.2 (cons_ne_nil b [])
        have hlt := hfirst rfl
        rw [foldl_cons, foldl_nil, pushByte_eq] at heq
        have hbits := foldCodepoint_of_two hcodepoint (by omega)
        refine ⟨a, b, letter, rfl, ?_, not_ascii_of_sequenceLength ?_, by omega⟩
        · rw [hfold, hletter]
          rfl
        · rw [← htwo]
          exact Nat.one_lt_two
    · left
      rw [fold_cons_of_short hmore, fold_singleton]
  · simp at h

/-- A sequence that swallows a line feed does not become `>`, and has no `>` in it when it becomes another
letter. -/
theorem foldSequence_of_newline (h : (s ++ ['\n']).length + 1 = sequenceLength c) :
    foldSequence (c :: (s ++ ['\n'])) = c :: (s ++ ['\n']) ∨
      ∃ letter, foldSequence (c :: (s ++ ['\n'])) = [letter] ∧ letter ≠ '>' ∧
        foldMarkerText s = s ∧ '>' ∉ c :: s := by
  rcases foldSequence_cases h with hsame | ⟨letter, hletter, hcodepoint⟩
  · exact .inl hsame
  · right
    have hne : s ++ ['\n'] ≠ [] := append_ne_nil_of_right_ne_nil s (cons_ne_nil _ [])
    obtain ⟨first, heq, hfirst⟩ := (decode_of_fit h []).2.2 hne
    rw [foldl_append, foldl_cons, foldl_nil, pushByte_eq] at heq
    have hnewline : '\n'.toNat = 10 := rfl
    obtain ⟨hbits, hnot⟩ := foldCodepoint_of_newline hcodepoint (by omega)
    have hc : 0x80 ≤ c.toNat := by
      refine not_ascii_of_sequenceLength ?_
      rw [← h, length_append, length_singleton]
      omega
    have hclose : ∀ {b : Char}, b.toNat % 64 ≠ 0x3e → b ≠ '>' := by
      rintro b hb rfl
      exact hb rfl
    have hc' : c ≠ '>' := by
      rintro rfl
      revert hc
      decide
    have hrange := sequenceLength_range c
    refine ⟨letter, hletter, hnot, ?_⟩
    rcases s with _ | ⟨a, _ | ⟨b, _ | ⟨_, _⟩⟩⟩
    · -- two bytes give no such code point
      have hlt := hfirst rfl
      rw [foldl_nil] at heq
      omega
    · rw [foldl_cons, foldl_nil, pushByte_eq] at heq
      have ha : a ≠ '>' := hclose (by omega)
      exact ⟨fold_singleton a, by simp [hc'.symm, ha.symm]⟩
    · rw [foldl_cons, foldl_cons, foldl_nil, pushByte_eq, pushByte_eq] at heq
      have ha : a ≠ '>' := hclose (by omega)
      have hb : b ≠ '>' := hclose (by omega)
      refine ⟨?_, by simp [hc'.symm, ha.symm, hb.symm]⟩
      rcases fold_of_length_le_two (s := [a, b]) (Nat.le_refl 2) with hsame | ⟨a', b', _, hpair, -, -, hbits'⟩
      · exact hsame
      · obtain ⟨-, hb'⟩ := List.cons.inj hpair
        obtain ⟨rfl, -⟩ := List.cons.inj hb'
        omega
    · simp only [length_append, length_cons] at h
      omega

/-- How a text is folded that stands in a line before `<<<`: from the same letters as on its own, up to
the last ones, which have no `>` in the line, and none after another one on their own. -/
theorem exists_fold_line (s : List Char) : ∃ p q r, foldMarkerText s = p ++ r ∧ q ≠ [] ∧ '>' ∉ q ∧
    ('>' ∉ r ∨ r = ['>'] ∧ ∃ p' c, p = p' ++ [c] ∧ c ≠ '>') ∧
    ∀ t, foldMarkerText (s ++ '\n' :: '<' :: '<' :: '<' :: t) =
      p ++ (q ++ '<' :: '<' :: '<' :: foldMarkerText t) := by
  induction hs : s.length using Nat.strong_induction_on generalizing s with
  | _ n ih =>
    have hangle (t : List Char) : foldMarkerText ('<' :: t) = '<' :: foldMarkerText t :=
      fold_cons_of_ascii (by decide) t
    have hpass (t : List Char) :
        foldMarkerText ('<' :: '<' :: '<' :: t) = '<' :: '<' :: '<' :: foldMarkerText t := by
      rw [hangle, hangle, hangle]
    cases s with
    | nil =>
      refine ⟨[], ['\n'], [], rfl, by decide, by decide, .inl (by decide), fun t => ?_⟩
      exact fold_append_of_ascii (t := ['\n', '<', '<', '<']) (Text.forall_of_all (by decide)) t
    | cons c s =>
      rw [length_cons] at hs
      have hrange := sequenceLength_range c
      rcases Nat.lt_or_ge s.length (sequenceLength c - 1) with hover | hinside
      · have hc : c ≠ '>' := by
          rintro rfl
          have hlt : (1 : Nat) < sequenceLength '>' := by omega
          revert hlt
          decide
        have hself : foldMarkerText (c :: s) = c :: foldMarkerText s := fold_cons_of_short (by omega)
        obtain hone | htwo | hthree : (s ++ ['\n']).length + 1 = sequenceLength c ∨
            (s ++ ['\n', '<']).length + 1 = sequenceLength c ∨
            (s ++ ['\n', '<', '<']).length + 1 = sequenceLength c := by
          simp only [length_append, length_cons, length_nil]
          omega
        · have hfold (t : List Char) := fold_cons_append hone ('<' :: '<' :: '<' :: t)
          simp only [hpass, append_assoc, singleton_append] at hfold
          rcases foldSequence_of_newline hone with hsame | ⟨letter, hletter, hnot, hfolded, hclose⟩
          · rcases fold_of_length_le_two (s := s) (by omega) with hfolded | ⟨a, b, letter, rfl, hpair, ha, hb⟩
            · refine ⟨c :: s, ['\n'], [], by rw [hself, hfolded, append_nil], by decide, by decide,
                .inl (by decide), fun t => ?_⟩
              rw [cons_append, hfold, hsame]
              simp
            · -- the last two bytes are a bracket on their own, and none in the line
              refine ⟨[c], [a, b, '\n'], [letter], by rw [hself, hpair]; rfl, by simp, ?_, ?_,
                fun t => ?_⟩
              · have ha' : '>' ≠ a := by
                  rintro rfl
                  revert ha
                  decide
                have hb' : '>' ≠ b := by
                  rintro rfl
                  revert hb
                  decide
                simp [ha', hb']
              · by_cases hletter : letter = '>'
                · subst hletter
                  exact .inr ⟨rfl, [], c, rfl, hc⟩
                · exact .inl (by simpa using Ne.symm hletter)
              · rw [cons_append, hfold, hsame]
                rfl
          · refine ⟨[], [letter], c :: s, by rw [hself, hfolded]; rfl, by simp,
              by simpa using hnot.symm, .inl hclose, fun t => ?_⟩
            rw [cons_append, hfold, hletter]
            rfl
        · have hsame := foldSequence_of_blunt (z := 'x') (.inl rfl) htwo (.inl ⟨s ++ ['\n'], by simp⟩)
          have hfolded : foldMarkerText s = s := by
            have hshort : s.length ≤ 1 := by
              simp only [length_append, length_cons, length_nil] at htwo
              omega
            rcases fold_of_length_le_two (s := s) (by omega) with hfolded | ⟨a, b, _, rfl, -⟩
            · exact hfolded
            · simp at hshort
          refine ⟨c :: s, ['\n'], [], by rw [hself, hfolded, append_nil], by decide, by decide,
            .inl (by decide), fun t => ?_⟩
          have hfold := fold_cons_append htwo ('<' :: '<' :: t)
          rw [hsame, hangle, hangle] at hfold
          simpa using hfold
        · have hsame := foldSequence_of_blunt (z := 'x') (.inl rfl) hthree
            (.inl ⟨s ++ ['\n', '<'], by simp⟩)
          obtain rfl : s = [] := by
            simp only [length_append, length_cons, length_nil] at hthree
            exact length_eq_zero_iff.1 (by omega)
          refine ⟨[c], ['\n'], [], by rw [hself]; rfl, by decide, by decide, .inl (by decide),
            fun t => ?_⟩
          have hfold := fold_cons_append hthree ('<' :: t)
          rw [hsame, hangle] at hfold
          simpa using hfold
      · obtain ⟨u, v, rfl, hu⟩ := exists_sequence hinside
        have hv : v.length < n := by
          rw [length_append] at hs
          omega
        obtain ⟨p, q, r, hfold, hne, hq, hr, hline⟩ := ih _ hv v rfl
        refine ⟨foldSequence (c :: u) ++ p, q, r, ?_, hne, hq, ?_, fun t => ?_⟩
        · rw [fold_cons_append hu, hfold, append_assoc]
        · rcases hr with hr | ⟨hr, p', c', rfl, hc'⟩
          · exact .inl hr
          · exact .inr ⟨hr, foldSequence (c :: u) ++ p', c', (append_assoc _ _ _).symm, hc'⟩
        · have hsplit : c :: (u ++ v) ++ '\n' :: '<' :: '<' :: '<' :: t =
              c :: (u ++ (v ++ '\n' :: '<' :: '<' :: '<' :: t)) := by simp
          rw [hsplit, fold_cons_append hu, hline, append_assoc]

end ExternalContentWrapper

end RavBot.Security
