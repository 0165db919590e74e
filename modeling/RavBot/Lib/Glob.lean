import Mathlib.Data.List.Forall2
import Mathlib.Data.List.Infix

/-!
# Glob patterns

`Glob` is the meaning of a pattern: a star matches any part of the text, a question mark any one
character, and every other character itself.  `LiteralGlob` is the meaning that a matcher gives to
a pattern when it compares characters before it looks for stars: a star that stands before a star of
the text matches just that one.  The two agree on the texts without stars, and on no others
(`forall_literal_iff`).

`LiteralGlob.exists_suffix` is what a matcher needs that returns to the last star only: what it has
matched character by character since then is not matched in less of the text from any later start.
-/

namespace RavBot.Lib

/-- A pattern matches a text. -/
inductive Glob : List Char → List Char → Prop
  | nil : Glob [] []
  | star {p t : List Char} (s : List Char) (h : Glob p t) : Glob ('*' :: p) (s ++ t)
  | any {p t : List Char} (c : Char) (h : Glob p t) : Glob ('?' :: p) (c :: t)
  | char {p t : List Char} {c : Char} (hstar : c ≠ '*') (hany : c ≠ '?') (h : Glob p t) :
      Glob (c :: p) (c :: t)

/-- A pattern matches a text, and a star that stands before a star of the text matches just that
one. -/
inductive LiteralGlob : List Char → List Char → Prop
  | nil : LiteralGlob [] []
  | star {p t s : List Char} (hhead : (s ++ t).head? ≠ some '*') (h : LiteralGlob p t) :
      LiteralGlob ('*' :: p) (s ++ t)
  | literal {p t : List Char} (h : LiteralGlob p t) : LiteralGlob ('*' :: p) ('*' :: t)
  | any {p t : List Char} (c : Char) (h : LiteralGlob p t) : LiteralGlob ('?' :: p) (c :: t)
  | char {p t : List Char} {c : Char} (hstar : c ≠ '*') (hany : c ≠ '?') (h : LiteralGlob p t) :
      LiteralGlob (c :: p) (c :: t)

theorem LiteralGlob.glob {p t : List Char} (h : LiteralGlob p t) : Glob p t := by
  induction h with
  | nil => exact .nil
  | star _ _ ih => exact .star _ ih
  | literal _ ih => exact .star ['*'] ih
  | any c _ ih => exact .any c ih
  | char hstar hany _ ih => exact .char hstar hany ih

theorem Glob.literal {p t : List Char} (h : Glob p t) (ht : '*' ∉ t) : LiteralGlob p t := by
  induction h with
  | nil => exact .nil
  | star s _ ih =>
    refine .star (fun hhead => ht (List.mem_of_mem_head? hhead)) (ih fun hmem => ht ?_)
    exact List.mem_append_right _ hmem
  | any c _ ih => exact .any c (ih fun hmem => ht (List.mem_cons_of_mem _ hmem))
  | char hstar hany _ ih =>
    exact .char hstar hany (ih fun hmem => ht (List.mem_cons_of_mem _ hmem))

namespace LiteralGlob

variable {p t : List Char}

theorem nil_iff : LiteralGlob [] t ↔ t = [] := by
  constructor
  · rintro ⟨⟩
    rfl
  · rintro rfl
    exact .nil

theorem exists_of_star (h : LiteralGlob ('*' :: p) t) : ∃ v, v <:+ t ∧ LiteralGlob p v := by
  cases h with
  | @star _ v s _ h => exact ⟨v, ⟨s, rfl⟩, h⟩
  | literal h => exact ⟨_, List.suffix_cons _ _, h⟩
  | char hstar => exact absurd rfl hstar

theorem star_iff (hhead : t.head? ≠ some '*') :
    LiteralGlob ('*' :: p) t ↔ ∃ v, v <:+ t ∧ LiteralGlob p v := by
  constructor
  · exact exists_of_star
  · rintro ⟨v, ⟨s, rfl⟩, h⟩
    exact .star hhead h

theorem cons_iff {a c : Char} (h : a = c ∨ a = '?') :
    LiteralGlob (a :: p) (c :: t) ↔ LiteralGlob p t := by
  constructor
  · intro hmatch
    generalize htext : c :: t = text at hmatch
    cases hmatch with
    | @star _ v s hhead hrest =>
      rcases h with rfl | h
      · rw [← htext] at hhead
        exact absurd rfl hhead
      · exact absurd h (by decide)
    | literal hrest =>
      cases htext
      exact hrest
    | any c hrest =>
      cases htext
      exact hrest
    | char _ _ hrest =>
      cases htext
      exact hrest
  · intro hrest
    rcases h with rfl | rfl
    · by_cases hstar : a = '*'
      · rw [hstar]
        exact .literal hrest
      · by_cases hany : a = '?'
        · rw [hany]
          exact .any _ hrest
        · exact .char hstar hany hrest
    · exact .any c hrest

theorem not_cons {a c : Char} (h : ¬ (a = c ∨ a = '?')) (hstar : a ≠ '*') :
    ¬ LiteralGlob (a :: p) (c :: t) := by
  rw [not_or] at h
  intro hmatch
  generalize htext : c :: t = text at hmatch
  cases hmatch with
  | star => exact hstar rfl
  | literal => exact hstar rfl
  | any => exact h.2 rfl
  | char => exact h.1 (List.cons.inj htext).1.symm

theorem nil_right_iff : LiteralGlob p [] ↔ p.all (· == '*') := by
  induction p with
  | nil => exact iff_of_true .nil rfl
  | cons a p ih =>
    rw [List.all_cons, Bool.and_eq_true, beq_iff_eq, ← ih]
    constructor
    · intro h
      generalize htext : ([] : List Char) = text at h
      cases h with
      | star _ hrest =>
        obtain ⟨rfl, rfl⟩ := List.append_eq_nil_iff.1 htext.symm
        exact ⟨rfl, hrest⟩
      | literal => cases htext
      | any => cases htext
      | char => cases htext
    · rintro ⟨rfl, hrest⟩
      exact (star_iff (by simp)).2 ⟨[], List.suffix_refl _, hrest⟩

/-- What a pattern begins with is matched character by character. -/
def Pointwise (q w : List Char) : Prop := List.Forall₂ (fun a c => a = c ∨ a = '?') q w

theorem append_iff {q w r u : List Char} (hq : Pointwise q w) :
    LiteralGlob (q ++ r) (w ++ u) ↔ LiteralGlob r u := by
  induction hq with
  | nil => rfl
  | cons hab _ ih => exact (cons_iff hab).trans ih

/-- What matches a text character by character is not matched in less of it from a later start: the
rest of the pattern is matched by what comes behind the text, or by a part of that. -/
theorem exists_suffix {q w r u v : List Char} (hq : Pointwise q w) (hv : v <:+ w ++ u)
    (h : LiteralGlob (q ++ r) v) : ∃ v', v' <:+ u ∧ LiteralGlob r v' := by
  induction hq generalizing v with
  | nil => exact ⟨v, hv, h⟩
  | @cons a b q w hab hq ih =>
    rw [List.cons_append] at hv h
    rcases List.suffix_cons_iff.1 hv with rfl | hv
    · exact ih (List.suffix_refl _) ((cons_iff hab).1 h)
    · cases h with
      | @star _ t s _ h => exact ih ((List.suffix_append s t).trans hv) h
      | @literal _ t h => exact ih ((List.suffix_cons _ t).trans hv) h
      | @any _ t c h => exact ih ((List.suffix_cons c t).trans hv) h
      | @char _ t _ _ _ h => exact ih ((List.suffix_cons _ t).trans hv) h

end LiteralGlob

theorem Glob.append {a p t : List Char} (ha : '*' ∉ a) (h : Glob p t) : Glob (a ++ p) (a ++ t) := by
  induction a with
  | nil => exact h
  | cons c a ih =>
    rw [List.mem_cons, not_or] at ha
    by_cases hany : c = '?'
    · rw [hany]
      exact .any '?' (ih ha.2)
    · exact .char (Ne.symm ha.1) hany (ih ha.2)

theorem forall_literal_iff (t : List Char) : (∀ p, Glob p t → LiteralGlob p t) ↔ '*' ∉ t := by
  constructor
  · intro hall hmem
    obtain ⟨a, b, rfl, ha⟩ := List.eq_append_cons_of_mem hmem
    have hself : LiteralGlob.Pointwise a a := List.forall₂_same.2 fun _ _ => .inl rfl
    by_cases hb : b = []
    · -- the star of the pattern would have to leave the one of the text to the question mark
      have hglob : Glob (a ++ ['*', '?']) (a ++ ['*']) := Glob.append ha (.star [] (.any '*' .nil))
      have hliteral := (LiteralGlob.append_iff hself).1 (hall _ (hb ▸ hglob))
      rw [hb, LiteralGlob.cons_iff (.inl rfl), LiteralGlob.nil_right_iff] at hliteral
      exact absurd hliteral (by decide)
    · -- the star of the pattern would have to match more than the one of the text
      have hglob : Glob (a ++ ['*']) (a ++ '*' :: b) := by
        have hstar : Glob ['*'] (('*' :: b) ++ []) := .star _ .nil
        rw [List.append_nil] at hstar
        exact Glob.append ha hstar
      have hliteral := (LiteralGlob.append_iff hself).1 (hall _ hglob)
      rw [LiteralGlob.cons_iff (.inl rfl), LiteralGlob.nil_iff] at hliteral
      exact hb hliteral
  · exact fun ht p h => h.literal ht

end RavBot.Lib
