import Mathlib.Data.List.Infix

/-!
# Where words occur

Whether a word occurs in a text that a letter cuts into parts can be asked of the parts: a word without
that letter occurs in one of them, and one with it has to meet a cut.
-/

open List

namespace RavBot.Lib.Occurrence

universe u

variable {α : Type u} {sep : α} {p w x y rest : List α}

theorem cut_inj {x' y' : List α} (hx : sep ∉ x) (hx' : sep ∉ x') (h : x ++ sep :: y = x' ++ sep :: y') :
    x = x' ∧ y = y' := by
  induction x generalizing x' with
  | nil =>
    cases x' with
    | nil => exact ⟨rfl, (List.cons.inj h).2⟩
    | cons c x' =>
      obtain ⟨rfl, -⟩ := List.cons.inj h
      exact absurd mem_cons_self hx'
  | cons c x ih =>
    cases x' with
    | nil =>
      obtain ⟨rfl, -⟩ := List.cons.inj h
      exact absurd mem_cons_self hx
    | cons c' x' =>
      obtain ⟨rfl, htail⟩ := List.cons.inj h
      obtain ⟨rfl, rfl⟩ := ih (fun h => hx (mem_cons_of_mem _ h))
        (fun h => hx' (mem_cons_of_mem _ h)) htail
      exact ⟨rfl, rfl⟩

theorem isPrefix_cut_iff (hw : sep ∉ w) (hx : sep ∉ x) :
    w ++ sep :: rest <+: x ++ sep :: y ↔ w = x ∧ rest <+: y := by
  constructor
  · rintro ⟨t, ht⟩
    rw [append_assoc, cons_append] at ht
    obtain ⟨rfl, rfl⟩ := cut_inj hw hx ht
    exact ⟨rfl, prefix_append rest t⟩
  · rintro ⟨rfl, t, rfl⟩
    exact ⟨t, by rw [append_assoc, cons_append]⟩

theorem isPrefix_of_notMem (hp : sep ∉ p) (h : p <+: x ++ sep :: y) : p <+: x := by
  rcases Nat.le_total p.length x.length with hle | hle
  · exact prefix_of_prefix_length_le h (prefix_append x _) hle
  · obtain ⟨t, rfl⟩ := prefix_of_prefix_length_le (prefix_append x (sep :: y)) h hle
    cases t with
    | nil => exact ⟨[], by rw [append_nil, append_nil]⟩
    | cons c t =>
      obtain ⟨z, hz⟩ := h
      rw [append_assoc, append_cancel_left_eq] at hz
      obtain ⟨rfl, -⟩ := List.cons.inj hz
      exact absurd (mem_append_right x mem_cons_self) hp

theorem isInfix_of_notMem_iff (hp : sep ∉ p) : p <:+: x ++ sep :: y ↔ p <:+: x ∨ p <:+: y := by
  induction x with
  | nil =>
    rw [nil_append, infix_cons_iff]
    refine or_congr_left ⟨fun hpre => ?_, fun hnil => ?_⟩
    · exact (isPrefix_of_notMem (x := []) hp hpre).isInfix
    · rw [infix_nil.1 hnil]
      exact nil_prefix
  | cons c x ih =>
    rw [cons_append, infix_cons_iff, ih, infix_cons_iff, or_assoc]
    refine or_congr_left ⟨fun hpre => ?_, fun hpre => ?_⟩
    · exact isPrefix_of_notMem (x := c :: x) hp hpre
    · exact hpre.trans (prefix_append (c :: x) _)

theorem isInfix_cut_iff (hw : sep ∉ w) (hx : sep ∉ x) :
    w ++ sep :: rest <:+: x ++ sep :: y ↔ (w <:+ x ∧ rest <+: y) ∨ w ++ sep :: rest <:+: y := by
  induction x with
  | nil => rw [nil_append, infix_cons_iff, suffix_nil, ← isPrefix_cut_iff hw hx, nil_append]
  | cons c x ih =>
    rw [cons_append, infix_cons_iff, ← cons_append, isPrefix_cut_iff hw hx,
      ih (fun h => hx (mem_cons_of_mem c h)), suffix_cons_iff, or_and_right, or_assoc]

theorem not_isInfix_cut (hy : sep ∉ y) : ¬ w ++ sep :: rest <:+: y := fun h =>
  hy (h.subset (mem_append_right w mem_cons_self))

theorem isInfix_intercalate_iff (hne : p ≠ []) (hp : sep ∉ p) (l : List (List α)) :
    p <:+: [sep].intercalate l ↔ ∃ x ∈ l, p <:+: x := by
  induction l with
  | nil => simpa using hne
  | cons x l ih =>
    cases l with
    | nil => simp
    | cons y l =>
      rw [intercalate_cons_cons, append_assoc, singleton_append, isInfix_of_notMem_iff hp, ih]
      simp only [mem_cons, exists_eq_or_imp]

end RavBot.Lib.Occurrence
