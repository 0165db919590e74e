import Mathlib.Data.List.TakeWhile
import RavBot.Lib.Cutting

/-!
# Readers

A reader goes over the front of a text and gives what comes after it.  A regular expression whose parts
leave no choice is such a reader, put together from readers for its parts: a word, letters of a class as
many as there are, one after the other.

`Reader` has what a reader is to be like so that the words it goes over can be searched for
(`Reader.matched_mono`, `Reader.matched_trunc`), and the rules say how it is put together.
-/

open List

namespace RavBot.Lib

universe u

variable {α : Type u}

/-- A reader leaves an end of the text; it goes on to read when the text goes on; and it reads the same
when the text ends earlier, but not before what it reads. -/
structure Reader (read : List α → Option (List α)) : Prop where
  suffix : ∀ {s r}, read s = some r → r <:+ s
  mono : ∀ {s} t, (read s).isSome → (read (s ++ t)).isSome
  trunc : ∀ {w y z}, read (w ++ (y ++ z)) = some (y ++ z) → read (w ++ y) = some y

/-- A reader that stops before the end of the text stops there when the text goes on. -/
def Extends (read : List α → Option (List α)) : Prop :=
  ∀ s r t, read s = some r → r ≠ [] → read (s ++ t) = some (r ++ t)

/-- The length of what a reader goes over. -/
def matched (read : List α → Option (List α)) (s : List α) : Option Nat :=
  (read s).map fun rest => s.length - rest.length

/-- A reader of words of one kind, of which a text begins with one at most. -/
def WordReader (word : List α → Prop) (read : List α → Option (List α)) : Prop :=
  ∀ s r, read s = some r ↔ ∃ w, word w ∧ s = w ++ r

section

variable {read read' : List α → Option (List α)} {word : List α → Prop} {p : α → Bool}

/-! ## Words -/

theorem WordReader.append (h : WordReader word read) {s r : List α} (hr : read s = some r)
    (t : List α) : read (s ++ t) = some (r ++ t) := by
  obtain ⟨w, hw, rfl⟩ := (h s r).1 hr
  exact (h _ _).2 ⟨w, hw, append_assoc w r t⟩

theorem WordReader.reader (h : WordReader word read) : Reader read where
  suffix hr := by
    obtain ⟨w, -, rfl⟩ := (h _ _).1 hr
    exact suffix_append w _
  mono t hsome := by
    obtain ⟨r, hr⟩ := Option.isSome_iff_exists.1 hsome
    rw [h.append hr t]
    rfl
  trunc htrunc := by
    obtain ⟨w', hw', heq⟩ := (h _ _).1 htrunc
    rw [append_cancel_right_eq] at heq
    subst heq
    exact (h _ _).2 ⟨_, hw', rfl⟩

theorem WordReader.extends (h : WordReader word read) : Extends read :=
  fun _ _ t hr _ => h.append hr t

/-! ## Letters of a class -/

theorem dropWhile_eq_iff {s r : List α} :
    s.dropWhile p = r ↔ ∃ w, s = w ++ r ∧ (∀ a ∈ w, p a) ∧ ∀ a ∈ r.head?, p a = false := by
  constructor
  · rintro rfl
    refine ⟨s.takeWhile p, takeWhile_append_dropWhile.symm, fun a ha => mem_takeWhile_imp ha, ?_⟩
    intro a ha
    cases hdrop : s.dropWhile p with
    | nil =>
      rw [hdrop] at ha
      cases ha
    | cons b r =>
      rw [hdrop] at ha
      cases ha
      have hne : s.dropWhile p ≠ [] := by
        rw [hdrop]
        exact cons_ne_nil _ _
      have hhead := head_dropWhile_not p hne
      simp only [hdrop, head_cons] at hhead
      exact hhead
  · rintro ⟨w, rfl, hw, hr⟩
    rw [dropWhile_append_of_pos hw]
    cases r with
    | nil => rfl
    | cons a r => exact dropWhile_cons_of_neg (Bool.eq_false_iff.1 (hr a rfl))

theorem reader_dropWhile (p : α → Bool) : Reader fun s => some (s.dropWhile p) where
  suffix hr := by
    cases hr
    exact dropWhile_suffix p
  mono _ _ := rfl
  trunc {w y z} htrunc := by
    rw [Option.some.injEq, dropWhile_eq_iff] at htrunc ⊢
    obtain ⟨w', heq, hw', hhead⟩ := htrunc
    rw [append_cancel_right_eq] at heq
    subst heq
    refine ⟨w, rfl, hw', fun a ha => hhead a ?_⟩
    rw [head?_append, ha]
    rfl

theorem extends_dropWhile (p : α → Bool) : Extends fun s => some (s.dropWhile p) := by
  intro s r t hr hne
  rw [Option.some.injEq, dropWhile_eq_iff] at hr ⊢
  obtain ⟨w, rfl, hw, hhead⟩ := hr
  refine ⟨w, append_assoc w r t, hw, fun a ha => hhead a ?_⟩
  rwa [head?_append_of_ne_nil _ hne] at ha

/-! ## One after the other -/

theorem Reader.bind_trunc (h : Reader read) (h' : Reader read') {w y z : List α}
    (htrunc : read (w ++ (y ++ z)) >>= read' = some (y ++ z)) : read (w ++ y) >>= read' = some y := by
  obtain ⟨r, hr, hr'⟩ := Option.bind_eq_some_iff.1 htrunc
  obtain ⟨w', rfl⟩ := h'.suffix hr'
  obtain ⟨w'', heq⟩ := h.suffix hr
  rw [← append_assoc w'', append_cancel_right_eq] at heq
  subst heq
  rw [← append_assoc w' y z, append_assoc w'' w' (y ++ z), ← append_assoc w' y z] at hr
  rw [append_assoc, h.trunc hr]
  exact h'.trunc hr'

theorem Reader.bind (h : Reader read) (hextends : Extends read) (h' : Reader read')
    (hnil : read' [] = none) : Reader fun s => read s >>= read' where
  suffix hr := by
    obtain ⟨r, hr, hr'⟩ := Option.bind_eq_some_iff.1 hr
    exact (h'.suffix hr').trans (h.suffix hr)
  mono {s} t hsome := by
    obtain ⟨r', hr'⟩ := Option.isSome_iff_exists.1 hsome
    obtain ⟨r, hr, hr'⟩ := Option.bind_eq_some_iff.1 hr'
    have hne : r ≠ [] := by
      rintro rfl
      rw [hnil] at hr'
      cases hr'
    show (read (s ++ t) >>= read').isSome
    rw [hextends s r t hr hne]
    exact h'.mono t (by rw [hr']; rfl)
  trunc htrunc := h.bind_trunc h' htrunc

theorem Extends.bind (hextends : Extends read) (h' : Reader read') (hextends' : Extends read') :
    Extends fun s => read s >>= read' := by
  intro s r' t hr' hne
  obtain ⟨r, hr, hr'⟩ := Option.bind_eq_some_iff.1 hr'
  have hne' : r ≠ [] := by
    rintro rfl
    exact hne (suffix_nil.1 (h'.suffix hr'))
  show read (s ++ t) >>= read' = some (r' ++ t)
  rw [hextends s r t hr hne']
  exact hextends' r r' t hr' hne

theorem Reader.bind_total (h : Reader read) (h' : Reader read') (htotal : ∀ s, (read' s).isSome) :
    Reader fun s => read s >>= read' where
  suffix hr := by
    obtain ⟨r, hr, hr'⟩ := Option.bind_eq_some_iff.1 hr
    exact (h'.suffix hr').trans (h.suffix hr)
  mono {s} t hsome := by
    obtain ⟨r', hr'⟩ := Option.isSome_iff_exists.1 hsome
    obtain ⟨r, hr, -⟩ := Option.bind_eq_some_iff.1 hr'
    obtain ⟨r'', hr''⟩ := Option.isSome_iff_exists.1 (h.mono t (by rw [hr]; rfl))
    show (read (s ++ t) >>= read').isSome
    rw [hr'']
    exact htotal r''
  trunc htrunc := h.bind_trunc h' htrunc

theorem appends_bind
    (h : ∀ s r t, read s = some r → read (s ++ t) = some (r ++ t))
    (h' : ∀ s r t, read' s = some r → read' (s ++ t) = some (r ++ t)) (s r t : List α)
    (hr : read s >>= read' = some r) : read (s ++ t) >>= read' = some (r ++ t) := by
  obtain ⟨r', hr', hread⟩ := Option.bind_eq_some_iff.1 hr
  rw [h s r' t hr']
  exact h' r' r t hread

/-! ## Searching -/

theorem Reader.matched_eq_some (h : Reader read) {s : List α} {n : Nat} :
    matched read s = some n ↔ ∃ w r, s = w ++ r ∧ read s = some r ∧ w.length = n := by
  constructor
  · intro hn
    obtain ⟨r, hr, rfl⟩ := Option.map_eq_some_iff.1 hn
    obtain ⟨w, rfl⟩ := h.suffix hr
    refine ⟨w, r, rfl, hr, ?_⟩
    rw [length_append, Nat.add_sub_cancel]
  · rintro ⟨w, r, rfl, hr, rfl⟩
    rw [matched, hr, Option.map_some, length_append, Nat.add_sub_cancel]

@[simp] theorem isSome_matched (s : List α) : (matched read s).isSome = (read s).isSome :=
  Option.isSome_map

theorem Reader.matched_mono (h : Reader read) {s : List α} (t : List α) (hsome : (matched read s).isSome) :
    (matched read (s ++ t)).isSome := by
  rw [isSome_matched] at hsome ⊢
  exact h.mono t hsome

theorem Reader.matched_append (h : Reader read)
    (hread : ∀ s r t, read s = some r → read (s ++ t) = some (r ++ t)) {s : List α} {n : Nat}
    (hn : matched read s = some n) (t : List α) : matched read (s ++ t) = some n := by
  obtain ⟨w, r, rfl, hr, hlength⟩ := h.matched_eq_some.1 hn
  exact h.matched_eq_some.2 ⟨w, r ++ t, append_assoc w r t, hread _ r t hr, hlength⟩

theorem Reader.matched_trunc (h : Reader read) {w y z : List α}
    (htrunc : matched read (w ++ (y ++ z)) = some w.length) : matched read (w ++ y) = some w.length := by
  obtain ⟨w', r, heq, hr, hlength⟩ := h.matched_eq_some.1 htrunc
  obtain ⟨rfl, rfl⟩ := append_inj heq hlength.symm
  exact h.matched_eq_some.2 ⟨w, y, rfl, h.trunc hr, rfl⟩

end

end RavBot.Lib
