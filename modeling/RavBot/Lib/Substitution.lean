import Mathlib.Order.RelClasses
import Mathlib.Data.Nat.Init

/-!
# Tokens in a text

A scan cuts a text into letters and tokens (`scan`), where `tokenAt` reads the token with which a text
begins, and `spell` gives its letters.  To substitute is to write a value in the stead of each token (`fill`).

In general what a scan finds after some letters depends on these letters, since a token may begin in them.
When a word begins inside no token, a scan of what comes before it and a scan of the rest are one scan
(`scan_append`); so a token is found wherever it stands, and a word that touches no token is left alone.
-/

open List

namespace RavBot.Lib

universe u v

variable {α : Type u} {β : Type v}

/-- `tokenAt` reads the tokens with which a text begins, and `spell` gives their letters. -/
structure Reads (tokenAt : List α → Option β) (spell : β → List α) (token : β → Prop) : Prop where
  sound : ∀ {s b}, tokenAt s = some b → token b ∧ spell b <+: s
  complete : ∀ {b}, token b → ∀ s, tokenAt (spell b ++ s) = some b
  not_nil : ∀ {b}, token b → spell b ≠ []

/-- One of two words is a beginning of the other. -/
def Comparable (w w' : List α) : Prop := w <+: w' ∨ w' <+: w

/-- The word `w'` begins inside the word `w`, or so it may look from the letters that `w` has. -/
def BeginsInside (w' w : List α) : Prop :=
  ∃ a rest, w = a ++ rest ∧ a ≠ [] ∧ rest ≠ [] ∧ Comparable rest w'

/-- Words that begin with the same letter twice and do not have it any more. -/
def Opens (c : α) (w : List α) : Prop := ∃ m, w = c :: c :: m ∧ m ≠ [] ∧ c ∉ m

theorem Opens.not_beginsInside {c : α} {w w' : List α} (h : Opens c w) (h' : Opens c w') :
    ¬ BeginsInside w' w := by
  obtain ⟨m, rfl, hne, hm⟩ := h
  obtain ⟨m', rfl, -, -⟩ := h'
  rintro ⟨a, rest, heq, ha, hrest, hcomparable⟩
  -- the rest begins with the letter, so that only the first letter comes before it
  obtain ⟨d, rest, rfl⟩ := exists_cons_of_ne_nil hrest
  obtain ⟨d', a, rfl⟩ := exists_cons_of_ne_nil ha
  obtain ⟨-, htail⟩ := List.cons.inj heq
  have hd : d = c := by
    rcases hcomparable with hpre | hpre
    · exact (cons_prefix_cons.1 hpre).1
    · exact (cons_prefix_cons.1 hpre).1.symm
  subst hd
  cases a with
  | nil =>
    obtain ⟨-, rfl⟩ := List.cons.inj htail
    obtain ⟨e, m, rfl⟩ := exists_cons_of_ne_nil hne
    have he : e = d := by
      rcases hcomparable with hpre | hpre
      · exact (cons_prefix_cons.1 (cons_prefix_cons.1 hpre).2).1
      · exact (cons_prefix_cons.1 (cons_prefix_cons.1 hpre).2).1.symm
    exact hm (he ▸ mem_cons_self)
  | cons e a =>
    obtain ⟨-, rfl⟩ := List.cons.inj htail
    exact hm (mem_append_right _ mem_cons_self)

theorem comparable_of_begins {w w' s : List α} (h : w <+: s) (h' : w' <+: s) : Comparable w w' :=
  prefix_or_prefix_of_prefix h h'

/-! ## Scanning -/

section

variable (tokenAt : List α → Option β) (spell : β → List α)

/-- The loop, where so many letters of the last token are still to be skipped. -/
def scanFrom : Nat → List α → List (α ⊕ β)
  | _, [] => []
  | k + 1, _ :: s => scanFrom k s
  | 0, c :: s =>
    match tokenAt (c :: s) with
    | some b => .inr b :: scanFrom ((spell b).length - 1) s
    | none => .inl c :: scanFrom 0 s

/-- The letters and the tokens of a text, from left to right. -/
def scan (s : List α) : List (α ⊕ β) := scanFrom tokenAt spell 0 s

end

def tokensOf (ps : List (α ⊕ β)) : List β := ps.filterMap Sum.getRight?

@[simp] theorem tokensOf_nil : tokensOf ([] : List (α ⊕ β)) = [] := rfl

@[simp] theorem tokensOf_inl (c : α) (ps : List (α ⊕ β)) : tokensOf (.inl c :: ps) = tokensOf ps := rfl

@[simp] theorem tokensOf_inr (b : β) (ps : List (α ⊕ β)) :
    tokensOf (.inr b :: ps) = b :: tokensOf ps := rfl

@[simp] theorem tokensOf_append (ps qs : List (α ⊕ β)) :
    tokensOf (ps ++ qs) = tokensOf ps ++ tokensOf qs := filterMap_append

@[simp] theorem tokensOf_map_inl (s : List α) : tokensOf (s.map (Sum.inl : α → α ⊕ β)) = [] := by
  induction s with
  | nil => rfl
  | cons c s ih => rw [map_cons, tokensOf_inl, ih]

def fill (value : β → List α) (ps : List (α ⊕ β)) : List α :=
  ps.flatMap (Sum.elim (fun c => [c]) value)

@[simp] theorem fill_nil (value : β → List α) : fill value ([] : List (α ⊕ β)) = [] := rfl

@[simp] theorem fill_inl (value : β → List α) (c : α) (ps : List (α ⊕ β)) :
    fill value (.inl c :: ps) = c :: fill value ps := rfl

@[simp] theorem fill_inr (value : β → List α) (b : β) (ps : List (α ⊕ β)) :
    fill value (.inr b :: ps) = value b ++ fill value ps := rfl

@[simp] theorem fill_append (value : β → List α) (ps qs : List (α ⊕ β)) :
    fill value (ps ++ qs) = fill value ps ++ fill value qs := flatMap_append

@[simp] theorem fill_map_inl (value : β → List α) (s : List α) :
    fill value (s.map (Sum.inl : α → α ⊕ β)) = s := by
  induction s with
  | nil => rfl
  | cons c s ih => rw [map_cons, fill_inl, ih]

section

variable {value : β → List α} {ps : List (α ⊕ β)}

theorem fill_congr {value' : β → List α} (h : ∀ b ∈ tokensOf ps, value b = value' b) :
    fill value ps = fill value' ps := by
  induction ps with
  | nil => rfl
  | cons p ps ih =>
    cases p with
    | inl c => rw [fill_inl, fill_inl, ih h]
    | inr b =>
      rw [tokensOf_inr, forall_mem_cons] at h
      rw [fill_inr, fill_inr, h.1, ih h.2]

theorem length_fill_of_length (n : Nat) (h : ∀ b ∈ tokensOf ps, (value b).length = n) :
    (fill value ps).length =
      (fill (fun _ => []) ps).length + (tokensOf ps).length * n := by
  induction ps with
  | nil => simp
  | cons p ps ih =>
    cases p with
    | inl c =>
      rw [fill_inl, fill_inl, length_cons, length_cons, ih h, tokensOf_inl, Nat.add_right_comm]
    | inr b =>
      rw [tokensOf_inr, forall_mem_cons] at h
      rw [fill_inr, fill_inr, length_append, h.1, ih h.2, tokensOf_inr,
        length_cons, nil_append, Nat.succ_mul]
      omega

end

section

variable {tokenAt : List α → Option β} {spell : β → List α} {token : β → Prop}

theorem scanFrom_eq (tokenAt : List α → Option β) (spell : β → List α) (k : Nat) (s : List α) :
    scanFrom tokenAt spell k s = scan tokenAt spell (s.drop k) := by
  induction s generalizing k with
  | nil => cases k <;> rfl
  | cons c s ih =>
    cases k with
    | zero => rfl
    | succ k => rw [scanFrom, ih, drop_succ_cons]

@[simp] theorem scan_nil (tokenAt : List α → Option β) (spell : β → List α) :
    scan tokenAt spell [] = [] := rfl

theorem scan_of_none {c : α} {s : List α} (h : tokenAt (c :: s) = none) :
    scan tokenAt spell (c :: s) = .inl c :: scan tokenAt spell s := by
  rw [scan, scanFrom, h]
  rfl

namespace Reads

theorem scan_token (h : Reads tokenAt spell token) {b : β} (hb : token b) (s : List α) :
    scan tokenAt spell (spell b ++ s) = .inr b :: scan tokenAt spell s := by
  obtain ⟨c, w, hw⟩ := exists_cons_of_ne_nil (h.not_nil hb)
  have hread := h.complete hb s
  rw [hw, cons_append] at hread ⊢
  rw [scan, scanFrom, hread]
  dsimp only
  rw [scanFrom_eq, hw, length_cons, Nat.add_sub_cancel, drop_left]

theorem scan_induction (h : Reads tokenAt spell token) {motive : List α → Prop} (nil : motive [])
    (letter : ∀ c s, tokenAt (c :: s) = none → motive s → motive (c :: s))
    (token : ∀ b s, token b → motive s → motive (spell b ++ s)) (s : List α) : motive s := by
  induction hlength : s.length using Nat.strong_induction_on generalizing s with
  | _ n ih =>
    cases s with
    | nil => exact nil
    | cons c s =>
      cases hread : tokenAt (c :: s) with
      | none => exact letter c s hread (ih s.length (hlength ▸ Nat.lt_succ_self _) s rfl)
      | some b =>
        obtain ⟨hb, t, ht⟩ := h.sound hread
        have hpos := length_pos_iff.2 (h.not_nil hb)
        have hshort : t.length < n := by
          rw [← hlength, ← ht, length_append]
          omega
        rw [← ht]
        exact token b t hb (ih t.length hshort t rfl)

theorem none_of_append (h : Reads tokenAt spell token) {s t : List α} (hs : tokenAt (s ++ t) = none) :
    tokenAt s = none := by
  cases hread : tokenAt s with
  | none => rfl
  | some b =>
    obtain ⟨hb, r, rfl⟩ := h.sound hread
    rw [append_assoc, h.complete hb] at hs
    cases hs

theorem none_append (h : Reads tokenAt spell token) {c : α} {s t : List α}
    (hs : tokenAt (c :: s) = none) (ht : ∀ b, token b → ∀ d, spell b = c :: s ++ d → d ≠ [] → ¬ d <+: t) :
    tokenAt (c :: s ++ t) = none := by
  cases hread : tokenAt (c :: s ++ t) with
  | none => rfl
  | some b =>
    obtain ⟨hb, r, hr⟩ := h.sound hread
    rcases append_eq_append_iff.1 hr with ⟨d, hd, -⟩ | ⟨d, hd, htail⟩
    · rw [hd, h.complete hb] at hs
      cases hs
    · cases d with
      | nil =>
        rw [append_nil] at hd
        rw [← hd, ← append_nil (spell b), h.complete hb] at hs
        cases hs
      | cons e d => exact absurd ⟨r, htail.symm⟩ (ht b hb _ hd (cons_ne_nil e d))

theorem scan_append (h : Reads tokenAt spell token) {w : List α}
    (hw : ∀ b, token b → ¬ BeginsInside w (spell b)) (u v : List α) :
    scan tokenAt spell (u ++ (w ++ v)) =
      scan tokenAt spell u ++ scan tokenAt spell (w ++ v) := by
  induction u using h.scan_induction with
  | nil => rfl
  | letter c s hnone ih =>
    have hwhole : tokenAt (c :: s ++ (w ++ v)) = none := by
      refine h.none_append hnone fun b hb d hd hne hpre => hw b hb ?_
      exact ⟨c :: s, d, hd, cons_ne_nil c s, hne, comparable_of_begins hpre (prefix_append w v)⟩
    rw [scan_of_none hnone, cons_append, cons_append, ← ih]
    exact scan_of_none hwhole
  | token b s hb ih =>
    rw [h.scan_token hb, append_assoc, h.scan_token hb, ih, cons_append]

theorem scan_append_token (h : Reads tokenAt spell token) {b : β} (hb : token b)
    (hinside : ∀ b', token b' → ¬ BeginsInside (spell b) (spell b')) (u v : List α) :
    scan tokenAt spell (u ++ (spell b ++ v)) =
      scan tokenAt spell u ++ .inr b :: scan tokenAt spell v := by
  rw [h.scan_append hinside, h.scan_token hb]

theorem scan_word (h : Reads tokenAt spell token) {w : List α}
    (hbegins : ∀ b, token b → ¬ Comparable w (spell b))
    (hinside : ∀ b, token b → ¬ BeginsInside (spell b) w) (v : List α) :
    scan tokenAt spell (w ++ v) = w.map .inl ++ scan tokenAt spell v := by
  induction w with
  | nil => rfl
  | cons c w ih =>
    have hnone : tokenAt (c :: (w ++ v)) = none := by
      cases hread : tokenAt (c :: (w ++ v)) with
      | none => rfl
      | some b =>
        obtain ⟨hb, hpre⟩ := h.sound hread
        exact absurd (comparable_of_begins (prefix_append (c :: w) v) hpre) (hbegins b hb)
    rw [cons_append, scan_of_none hnone, map_cons, cons_append]
    refine congrArg _ ?_
    cases w with
    | nil => rfl
    | cons d w =>
      refine ih (fun b hb hcomparable => hinside b hb ?_) fun b hb hbegins => hinside b hb ?_
      · exact ⟨[c], d :: w, rfl, cons_ne_nil c [], cons_ne_nil d w, hcomparable⟩
      · obtain ⟨a, rest, heq, -, hrest, hcomparable⟩ := hbegins
        exact ⟨c :: a, rest, congrArg _ heq, cons_ne_nil c a, hrest, hcomparable⟩

theorem fill_spell (h : Reads tokenAt spell token) (s : List α) :
    fill spell (scan tokenAt spell s) = s := by
  induction s using h.scan_induction with
  | nil => rfl
  | letter c s hnone ih => rw [scan_of_none hnone, fill_inl, ih]
  | token b s hb ih => rw [h.scan_token hb, fill_inr, ih]

theorem of_mem_tokensOf (h : Reads tokenAt spell token) {s : List α} {b : β}
    (hb : b ∈ tokensOf (scan tokenAt spell s)) : token b ∧ spell b <:+: s := by
  induction s using h.scan_induction with
  | nil => exact absurd hb not_mem_nil
  | letter c s hnone ih =>
    rw [scan_of_none hnone, tokensOf_inl] at hb
    exact ⟨(ih hb).1, (ih hb).2.trans (suffix_cons c s).isInfix⟩
  | token b' s hb' ih =>
    rw [h.scan_token hb', tokensOf_inr] at hb
    rcases mem_cons.1 hb with rfl | hb
    · exact ⟨hb', (prefix_append _ s).isInfix⟩
    · exact ⟨(ih hb).1, (ih hb).2.trans (suffix_append _ s).isInfix⟩

theorem fill_of_free (h : Reads tokenAt spell token) {s : List α}
    (hs : tokensOf (scan tokenAt spell s) = []) (value : β → List α) :
    fill value (scan tokenAt spell s) = s := by
  refine Eq.trans (fill_congr fun b hb => ?_) (h.fill_spell s)
  rw [hs] at hb
  cases hb

theorem exists_first (h : Reads tokenAt spell token) (s : List α) :
    tokensOf (scan tokenAt spell s) = [] ∨
      ∃ u b v, s = u ++ (spell b ++ v) ∧ token b ∧ tokensOf (scan tokenAt spell u) = [] := by
  induction s using h.scan_induction with
  | nil => exact .inl rfl
  | letter c s hnone ih =>
    rcases ih with hs | ⟨u, b, v, rfl, hb, hu⟩
    · exact .inl (by rw [scan_of_none hnone, tokensOf_inl, hs])
    · refine .inr ⟨c :: u, b, v, rfl, hb, ?_⟩
      rw [scan_of_none (h.none_of_append hnone), tokensOf_inl, hu]
  | token b s hb ih => exact .inr ⟨[], b, s, rfl, hb, rfl⟩

/-- **The rule for the tokens of a text**: a text without tokens, or the part before the first one, the
token and the rest. -/
theorem token_induction (h : Reads tokenAt spell token) {motive : List α → Prop}
    (free : ∀ s, tokensOf (scan tokenAt spell s) = [] → motive s)
    (token : ∀ u b v, tokensOf (scan tokenAt spell u) = [] → token b → motive v →
      motive (u ++ (spell b ++ v))) (s : List α) : motive s := by
  induction hlength : s.length using Nat.strong_induction_on generalizing s with
  | _ n ih =>
    rcases h.exists_first s with hs | ⟨u, b, v, rfl, hb, hu⟩
    · exact free s hs
    · have hpos := length_pos_iff.2 (h.not_nil hb)
      rw [length_append, length_append] at hlength
      exact token u b v hu hb (ih v.length (by omega) v rfl)

end Reads

end

end RavBot.Lib
