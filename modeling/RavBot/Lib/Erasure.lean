import Mathlib.Data.List.Infix
import Mathlib.Logic.Relation
import Mathlib.Tactic.Cases

/-!
# Erasing words from a text

A filter that takes dangerous words out of a text scans it once from left to right (`eraseAll`): where a
word starts it is skipped, and what comes after it is not looked at together with what came before.  So
the parts of a word that stand on two sides of another one come together, and are left.

`Deletes` says that a text can be turned into another one by deleting words, wherever they stand and in
any order.  What is left after a scan was got in this way (`deletes_eraseAll`); and a part of it, of which
the first and the last letter are looked at, comes from a part of the text with the same first and last
letter (`exists_factor_of_eraseAll`), which is no word itself.
-/

open List

namespace RavBot.Lib

universe u

variable {α : Type u}

/-! ## Deleting words -/

/-- A word is deleted somewhere in a text. -/
def Delete (word : List α → Prop) (s t : List α) : Prop :=
  ∃ x w y, s = x ++ (w ++ y) ∧ t = x ++ y ∧ word w

/-- Words are deleted, one after the other. -/
def Deletes (word : List α → Prop) : List α → List α → Prop := Relation.ReflTransGen (Delete word)

namespace Deletes

variable {word word' : List α → Prop} {s t u : List α}

@[refl] theorem refl (s : List α) : Deletes word s s := Relation.ReflTransGen.refl

theorem trans (h : Deletes word s t) (h' : Deletes word t u) : Deletes word s u :=
  Relation.ReflTransGen.trans h h'

theorem word_append {w : List α} (hw : word w) (s : List α) : Deletes word (w ++ s) s :=
  .single ⟨[], w, s, rfl, rfl, hw⟩

theorem mono (hword : ∀ w, word w → word' w) (h : Deletes word s t) : Deletes word' s t := by
  induction h with
  | refl => exact refl _
  | tail _ hstep ih =>
    obtain ⟨x, w, y, hs, ht, hw⟩ := hstep
    exact ih.trans (.single ⟨x, w, y, hs, ht, hword w hw⟩)

theorem append (h : Deletes word s t) (x y : List α) :
    Deletes word (x ++ (s ++ y)) (x ++ (t ++ y)) := by
  induction h with
  | refl => exact refl _
  | tail _ hstep ih =>
    obtain ⟨x', w, y', rfl, rfl, hw⟩ := hstep
    refine ih.trans (.single ⟨x ++ x', w, y' ++ y, ?_, ?_, hw⟩)
    · simp only [append_assoc]
    · simp only [append_assoc]

theorem cons (h : Deletes word s t) (a : α) : Deletes word (a :: s) (a :: t) := by
  have hcons := h.append [a] []
  rwa [append_nil, append_nil] at hcons

theorem sublist (h : Deletes word s t) : t.Sublist s := by
  induction h with
  | refl => exact List.Sublist.refl _
  | tail _ hstep ih =>
    obtain ⟨x, w, y, rfl, rfl, -⟩ := hstep
    exact ((sublist_append_right w y).append_left x).trans ih

theorem eq_or_exists_word (h : Deletes word s t) : s = t ∨ ∃ w, w <:+: s ∧ word w := by
  rcases Relation.ReflTransGen.cases_head h with rfl | ⟨_, ⟨x, w, y, rfl, -, hw⟩, -⟩
  · exact .inl rfl
  · refine .inr ⟨w, ⟨x, y, ?_⟩, hw⟩
    rw [append_assoc]

end Deletes

/-! ## Scanning -/

/-- Scan a text and skip the words.  `matchAt` gives the length of the word with which a text begins, and
`k` letters are still to be skipped. -/
def eraseFrom (matchAt : List α → Option Nat) : Nat → List α → List α
  | _, [] => []
  | k + 1, _ :: s => eraseFrom matchAt k s
  | 0, c :: s =>
    match matchAt (c :: s) with
    | some (n + 1) => eraseFrom matchAt n s
    | _ => c :: eraseFrom matchAt 0 s

def eraseAll (matchAt : List α → Option Nat) (s : List α) : List α := eraseFrom matchAt 0 s

/-- `matchAt` finds the words with which a text begins, and the empty word is none. -/
structure Finds (matchAt : List α → Option Nat) (word : List α → Prop) : Prop where
  sound : ∀ s n, matchAt s = some n → ∃ w t, s = w ++ t ∧ w.length = n ∧ word w
  complete : ∀ w s, word w → (matchAt (w ++ s)).isSome
  not_nil : ¬ word []

section

variable {matchAt : List α → Option Nat} {word : List α → Prop}

theorem Finds.scan_induction (h : Finds matchAt word) {motive : List α → Prop} (nil : motive [])
    (letter : ∀ c s, matchAt (c :: s) = none → motive s → motive (c :: s))
    (word : ∀ w s, word w → matchAt (w ++ s) = some w.length → motive s → motive (w ++ s))
    (s : List α) : motive s := by
  induction hlength : s.length using Nat.strong_induction_on generalizing s with
  | _ n ih =>
    cases s with
    | nil => exact nil
    | cons c s =>
      cases hmatch : matchAt (c :: s) with
      | none =>
        refine letter c s hmatch (ih s.length ?_ s rfl)
        rw [← hlength]
        exact Nat.lt_succ_self _
      | some n' =>
        obtain ⟨w, t, heq, rfl, hw⟩ := h.sound _ _ hmatch
        rw [heq] at hmatch hlength ⊢
        refine word w t hw hmatch (ih t.length ?_ t rfl)
        have hne : w ≠ [] := fun hnil => h.not_nil (hnil ▸ hw)
        rw [← hlength, length_append]
        have := length_pos_iff.2 hne
        omega

theorem eraseFrom_eq (matchAt : List α → Option Nat) (k : Nat) (s : List α) :
    eraseFrom matchAt k s = eraseAll matchAt (s.drop k) := by
  induction s generalizing k with
  | nil => cases k <;> rfl
  | cons c s ih =>
    cases k with
    | zero => rfl
    | succ k => rw [eraseFrom, ih, drop_succ_cons]

theorem eraseAll_of_word (h : Finds matchAt word) {s : List α} {n : Nat}
    (hs : matchAt s = some n) : ∃ w t, s = w ++ t ∧ w ≠ [] ∧ word w ∧ eraseAll matchAt s = eraseAll matchAt t := by
  obtain ⟨w, t, rfl, rfl, hw⟩ := h.sound s n hs
  cases w with
  | nil => exact absurd hw h.not_nil
  | cons c w =>
    refine ⟨c :: w, t, rfl, cons_ne_nil c w, hw, ?_⟩
    rw [cons_append, length_cons] at hs
    rw [eraseAll, cons_append, eraseFrom, hs]
    dsimp only
    rw [eraseFrom_eq, drop_left]

theorem eraseAll_of_none {c : α} {s : List α} (hs : matchAt (c :: s) = none) :
    eraseAll matchAt (c :: s) = c :: eraseAll matchAt s := by
  rw [eraseAll, eraseFrom, hs]
  rfl

theorem eraseAll_eq_self (h : Finds matchAt word) {s : List α} (hs : ∀ w, w <:+: s → ¬ word w) :
    eraseAll matchAt s = s := by
  induction s with
  | nil => rfl
  | cons c s ih =>
    cases hmatch : matchAt (c :: s) with
    | none =>
      rw [eraseAll_of_none hmatch, ih fun w hw => hs w (hw.trans (suffix_cons c s).isInfix)]
    | some n =>
      obtain ⟨w, t, heq, -, hw, -⟩ := eraseAll_of_word h hmatch
      exact absurd hw (hs w ⟨[], t, heq.symm⟩)

theorem exists_prefix_of_eraseAll (h : Finds matchAt word) {s m q : List α} {b : α}
    (hm : eraseAll matchAt s = m ++ b :: q) :
    ∃ v y, s = v ++ b :: y ∧ Deletes word v m := by
  induction hlength : s.length using Nat.strong_induction_on generalizing s m with
  | _ n ih =>
    cases s with
    | nil =>
      have hnil : m ++ b :: q = [] := hm.symm
      simp at hnil
    | cons c s =>
      cases hmatch : matchAt (c :: s) with
      | none =>
        rw [eraseAll_of_none hmatch] at hm
        cases m with
        | nil =>
          obtain ⟨rfl, -⟩ := List.cons.inj hm
          exact ⟨[], s, rfl, .refl []⟩
        | cons c' m =>
          obtain ⟨rfl, hrest⟩ := List.cons.inj hm
          have hshort : s.length < n := by
            rw [← hlength]
            exact Nat.lt_succ_self _
          obtain ⟨v, y, rfl, hdeletes⟩ := ih s.length hshort hrest rfl
          exact ⟨c :: v, y, rfl, hdeletes.cons c⟩
      | some n' =>
        obtain ⟨w, t, heq, hne, hw, herase⟩ := eraseAll_of_word h hmatch
        have hshort : t.length < n := by
          rw [← hlength, heq, length_append]
          have := length_pos_iff.2 hne
          omega
        rw [herase] at hm
        obtain ⟨v, y, rfl, hdeletes⟩ := ih t.length hshort hm rfl
        refine ⟨w ++ v, y, ?_, (Deletes.word_append hw v).trans hdeletes⟩
        rw [heq, append_assoc]

/-- A part of what is left, of which the first and the last letter are looked at, comes from a part of
the text with the same first and last letter, which is no word. -/
theorem exists_factor_of_eraseAll (h : Finds matchAt word) {s m : List α} {a b : α}
    (hm : a :: m ++ [b] <:+: eraseAll matchAt s) :
    ∃ v, a :: v ++ [b] <:+: s ∧ Deletes word v m ∧ ¬ word (a :: v ++ [b]) := by
  induction hlength : s.length using Nat.strong_induction_on generalizing s with
  | _ n ih =>
    obtain ⟨p, q, hpq⟩ := hm
    cases s with
    | nil =>
      have hnil : p ++ (a :: m ++ [b]) ++ q = [] := hpq
      simp at hnil
    | cons c s =>
      cases hmatch : matchAt (c :: s) with
      | none =>
        rw [eraseAll_of_none hmatch] at hpq
        cases p with
        | nil =>
          rw [nil_append, cons_append, cons_append, List.cons.injEq] at hpq
          obtain ⟨rfl, hrest⟩ := hpq
          rw [append_assoc] at hrest
          obtain ⟨v, y, rfl, hdeletes⟩ := exists_prefix_of_eraseAll h hrest.symm
          have heq : a :: (v ++ b :: y) = (a :: v ++ [b]) ++ y := by simp
          refine ⟨v, ⟨[], y, heq.symm⟩, hdeletes, fun hword => ?_⟩
          have hsome := h.complete _ y hword
          rw [← heq, hmatch] at hsome
          cases hsome
        | cons c' p =>
          rw [cons_append, cons_append, List.cons.injEq] at hpq
          have hshort : s.length < n := by
            rw [← hlength]
            exact Nat.lt_succ_self _
          obtain ⟨v, hv, hrest⟩ := ih s.length hshort ⟨p, q, hpq.2⟩ rfl
          exact ⟨v, hv.trans (suffix_cons c s).isInfix, hrest⟩
      | some n' =>
        obtain ⟨w, t, heq, hne, -, herase⟩ := eraseAll_of_word h hmatch
        have hshort : t.length < n := by
          rw [← hlength, heq, length_append]
          have := length_pos_iff.2 hne
          omega
        rw [herase] at hpq
        obtain ⟨v, hv, hrest⟩ := ih t.length hshort ⟨p, q, hpq⟩ rfl
        refine ⟨v, hv.trans ?_, hrest⟩
        rw [heq]
        exact (suffix_append w t).isInfix

end

end RavBot.Lib
