import Mathlib.Data.List.Chain

/-!
# Merging neighbours

A pass over a list often keeps a list of results and joins the next element to the last result
where the two belong together.  `mergeStep` is one step of such a pass; `mergeInto` gives the
results from the last one on, so that what a pass does can be shown by induction on its input
(`foldl_mergeStep`).

The relations between neighbours in the results are those in the input when joining keeps them
(`isChain_mergeInto`).
-/

open List

namespace RavBot.Lib

variable {α : Type*} (join : α → α → Option α)

/-- Add an element to the results, or join it to the last one. -/
def mergeStep (results : List α) (a : α) : List α :=
  match results.getLast? with
  | some last =>
    match join last a with
    | some joined => results.dropLast ++ [joined]
    | none => results ++ [a]
  | none => results ++ [a]

/-- The results from `last` on, when the elements of a list are added. -/
def mergeInto (last : α) : List α → List α
  | [] => [last]
  | a :: l =>
    match join last a with
    | some joined => mergeInto joined l
    | none => last :: mergeInto a l

variable {join}

theorem mergeStep_some {last a joined : α} (before : List α) (hjoin : join last a = some joined) :
    mergeStep join (before ++ [last]) a = before ++ [joined] := by
  simp [mergeStep, hjoin]

theorem mergeStep_none {last a : α} (before : List α) (hjoin : join last a = none) :
    mergeStep join (before ++ [last]) a = before ++ [last] ++ [a] := by
  simp [mergeStep, hjoin]

theorem foldl_mergeStep (before : List α) (last : α) (l : List α) :
    l.foldl (mergeStep join) (before ++ [last]) = before ++ mergeInto join last l := by
  induction l generalizing before last with
  | nil => rfl
  | cons a l ih =>
    rw [foldl_cons, mergeInto]
    cases hjoin : join last a with
    | none => rw [mergeStep_none before hjoin, ih, append_assoc, singleton_append]
    | some joined => rw [mergeStep_some before hjoin, ih]

theorem foldl_mergeStep_cons (a : α) (l : List α) :
    (a :: l).foldl (mergeStep join) [] = mergeInto join a l := foldl_mergeStep [] a l

theorem mergeInto_eq_cons {last : α} {l : List α} (h : ∀ a ∈ l.head?, join last a = none) :
    mergeInto join last l = last :: l.foldl (mergeStep join) [] := by
  cases l with
  | nil => rfl
  | cons a l => rw [mergeInto, h a rfl, foldl_mergeStep_cons]

theorem length_mergeInto_le (last : α) (l : List α) :
    (mergeInto join last l).length ≤ l.length + 1 := by
  induction l generalizing last with
  | nil => exact le_rfl
  | cons a l ih =>
    rw [mergeInto]
    cases join last a with
    | none => simpa using ih a
    | some joined => exact (ih joined).trans (Nat.le_succ _)

theorem length_foldl_mergeStep_le (l : List α) :
    (l.foldl (mergeStep join) []).length ≤ l.length := by
  cases l with
  | nil => exact le_rfl
  | cons a l =>
    rw [foldl_mergeStep_cons]
    exact length_mergeInto_le a l

theorem forall_mem_mergeInto {p : α → Prop}
    (hjoin : ∀ {a b c}, join a b = some c → p a → p b → p c) {last : α} {l : List α}
    (hlast : p last) (hl : ∀ a ∈ l, p a) : ∀ a ∈ mergeInto join last l, p a := by
  induction l generalizing last with
  | nil =>
    rintro a ha
    rw [mergeInto, mem_singleton] at ha
    rwa [ha]
  | cons a l ih =>
    obtain ⟨ha, hl⟩ := forall_mem_cons.1 hl
    rw [mergeInto]
    cases hjoined : join last a with
    | none => exact forall_mem_cons.2 ⟨hlast, ih ha hl⟩
    | some joined => exact ih (hjoin hjoined hlast ha) hl

theorem foldl_mergeStep_map {β : Type*} {join' : β → β → Option β} {f : α → β}
    (hjoin : ∀ a b, join' (f a) (f b) = (join a b).map f) (l : List α) :
    (l.map f).foldl (mergeStep join') [] = (l.foldl (mergeStep join) []).map f := by
  have hinto (last : α) (l : List α) :
      mergeInto join' (f last) (l.map f) = (mergeInto join last l).map f := by
    induction l generalizing last with
    | nil => rfl
    | cons a l ih =>
      rw [map_cons, mergeInto, mergeInto, hjoin]
      cases join last a with
      | none => rw [Option.map_none, map_cons, ← ih]
      | some joined => exact ih joined
  cases l with
  | nil => rfl
  | cons a l => rw [map_cons, foldl_mergeStep_cons, foldl_mergeStep_cons, hinto]

theorem foldl_mergeStep_eq_self {l : List α} (h : l.IsChain fun a b => join a b = none) :
    l.foldl (mergeStep join) [] = l := by
  induction l with
  | nil => rfl
  | cons a l ih =>
    obtain ⟨ha, hl⟩ := isChain_cons.1 h
    rw [foldl_mergeStep_cons, mergeInto_eq_cons ha, ih hl]

/-- Nothing is joined in the results of a pass, when what joins no element joins none that it is
joined to. -/
theorem isChain_mergeInto_none
    (hjoin : ∀ {a b c x}, join a b = some c → join x a = none → join x c = none) (last : α)
    (l : List α) :
    (mergeInto join last l).IsChain (fun a b => join a b = none) ∧
      ∀ x, join x last = none → ∀ first ∈ (mergeInto join last l).head?, join x first = none := by
  induction l generalizing last with
  | nil =>
    refine ⟨isChain_singleton last, fun x hx first hfirst => ?_⟩
    cases hfirst
    exact hx
  | cons a l ih =>
    rw [mergeInto]
    cases hjoined : join last a with
    | none =>
      obtain ⟨hchain, hhead⟩ := ih a
      refine ⟨isChain_cons.2 ⟨hhead last hjoined, hchain⟩, fun x hx first hfirst => ?_⟩
      cases hfirst
      exact hx
    | some joined =>
      obtain ⟨hchain, hhead⟩ := ih joined
      exact ⟨hchain, fun x hx => hhead x (hjoin hjoined hx)⟩

theorem foldl_mergeStep_idem
    (hjoin : ∀ {a b c x}, join a b = some c → join x a = none → join x c = none) (l : List α) :
    (l.foldl (mergeStep join) []).foldl (mergeStep join) [] = l.foldl (mergeStep join) [] := by
  cases l with
  | nil => rfl
  | cons a l =>
    rw [foldl_mergeStep_cons]
    exact foldl_mergeStep_eq_self (isChain_mergeInto_none hjoin a l).1

/-- Joining keeps a relation between neighbours: it holds between two elements that are joined,
and the joined element has the neighbours before it that the first of them has and the
neighbours after it that the second has. -/
structure JoinKeeps (join : α → α → Option α) (ok r : α → α → Prop) : Prop where
  between : ∀ {a b c}, join a b = some c → ok a b → r a b
  before : ∀ {a b c x}, join a b = some c → ok a b → (r x c ↔ r x a)
  after : ∀ {a b c x}, join a b = some c → ok a b → (r c x ↔ r b x)
  next : ∀ {a b c x}, join a b = some c → (ok c x ↔ ok b x)

/-- When joining keeps a relation, it holds between the neighbours in the results of a pass if
and only if it holds between those in the input. -/
theorem isChain_mergeInto {ok r : α → α → Prop} (hkeeps : JoinKeeps join ok r) {last : α}
    {l : List α} (hok : (last :: l).IsChain ok) (x : α) :
    (x :: mergeInto join last l).IsChain r ↔ (x :: last :: l).IsChain r := by
  induction l generalizing x last with
  | nil => rfl
  | cons a l ih =>
    rw [isChain_cons_cons] at hok
    obtain ⟨hok, hrest⟩ := hok
    rw [mergeInto]
    cases hjoin : join last a with
    | none =>
      show (x :: last :: mergeInto join a l).IsChain r ↔ _
      rw [isChain_cons_cons, ih hrest last, ← isChain_cons_cons]
    | some joined =>
      show (x :: mergeInto join joined l).IsChain r ↔ _
      have hnext : (joined :: l).IsChain ok := by
        rw [isChain_cons] at hrest ⊢
        exact ⟨fun y hy => (hkeeps.next hjoin).2 (hrest.1 y hy), hrest.2⟩
      have hafter : (joined :: l).IsChain r ↔ (a :: l).IsChain r := by
        rw [isChain_cons, isChain_cons]
        exact and_congr_left' (forall₂_congr fun y _ => hkeeps.after hjoin hok)
      rw [ih hnext x, isChain_cons_cons, hafter, hkeeps.before hjoin hok,
        isChain_cons_cons, isChain_cons_cons]
      exact and_congr_right' (and_iff_right (hkeeps.between hjoin hok)).symm

/-! ## Lists of lists with joined neighbours -/

/-- Each list of `xs` is in one of `ys`, and the last one in the last one. -/
structure Covers (xs ys : List (List α)) : Prop where
  each : ∀ x ∈ xs, ∃ y ∈ ys, x ⊆ y
  last : ∀ x ∈ xs.getLast?, ∃ y ∈ ys.getLast?, x ⊆ y
  nil : xs = [] → ys = []

namespace Covers

variable {xs ys zs : List (List α)}

theorem refl (xs : List (List α)) : Covers xs xs :=
  ⟨fun x hx => ⟨x, hx, List.Subset.refl x⟩, fun x hx => ⟨x, hx, List.Subset.refl x⟩, id⟩

theorem trans (h : Covers xs ys) (h' : Covers ys zs) : Covers xs zs := by
  refine ⟨fun x hx => ?_, fun x hx => ?_, h'.nil ∘ h.nil⟩
  · obtain ⟨y, hy, hxy⟩ := h.each x hx
    obtain ⟨z, hz, hyz⟩ := h'.each y hy
    exact ⟨z, hz, List.Subset.trans hxy hyz⟩
  · obtain ⟨y, hy, hxy⟩ := h.last x hx
    obtain ⟨z, hz, hyz⟩ := h'.last y hy
    exact ⟨z, hz, List.Subset.trans hxy hyz⟩

theorem append_left (h : Covers xs ys) (before : List (List α)) :
    Covers (before ++ xs) (before ++ ys) := by
  refine ⟨fun x hx => ?_, fun x hx => ?_, fun hnil => ?_⟩
  · rcases mem_append.1 hx with hx | hx
    · exact ⟨x, mem_append_left _ hx, List.Subset.refl x⟩
    · obtain ⟨y, hy, hxy⟩ := h.each x hx
      exact ⟨y, mem_append_right _ hy, hxy⟩
  · cases xs with
    | nil =>
      rw [h.nil rfl]
      exact ⟨x, hx, List.Subset.refl x⟩
    | cons a xs =>
      rw [getLast?_append_of_ne_nil _ (cons_ne_nil a xs)] at hx
      obtain ⟨y, hy, hxy⟩ := h.last x hx
      refine ⟨y, ?_, hxy⟩
      rw [getLast?_append, Option.mem_def.1 hy]
      rfl
  · obtain ⟨hbefore, hxs⟩ := append_eq_nil_iff.1 hnil
    rw [hbefore, h.nil hxs]
    rfl

theorem append_right (h : Covers xs ys) (after : List (List α)) :
    Covers (xs ++ after) (ys ++ after) := by
  cases after with
  | nil =>
    rw [append_nil, append_nil]
    exact h
  | cons a after =>
    refine ⟨fun x hx => ?_, fun x hx => ⟨x, ?_, List.Subset.refl x⟩, fun hnil => ?_⟩
    · rcases mem_append.1 hx with hx | hx
      · obtain ⟨y, hy, hxy⟩ := h.each x hx
        exact ⟨y, mem_append_left _ hy, hxy⟩
      · exact ⟨x, mem_append_right _ hx, List.Subset.refl x⟩
    · rw [getLast?_append_of_ne_nil _ (cons_ne_nil a after)] at hx ⊢
      exact hx
    · exact absurd (append_eq_nil_iff.1 hnil).2 (cons_ne_nil a after)

end Covers

end RavBot.Lib
