import RavBot.Lib.Merge

/-!
# Alternating speakers

A list of remarks, each with its speaker and whether it is heard.  Neighbouring remarks of one speaker are
joined, the remarks that are not heard are left out, and each speaker that is left appears under a name.
The names alternate, beginning with a given one, if and only if the remarks are spaced (`Spaced`): two
remarks that are heard one after the other have different names, unless these two and all between are of the
speaker whose remarks are joined.
-/

namespace RavBot.Lib

/-- A remark: who makes it and whether it is heard. -/
structure Remark (κ : Type*) where
  speaker : κ
  heard : Bool
  deriving DecidableEq

variable {κ ρ : Type*}

/-- The names of the speakers that are heard. -/
def heardNames (name : κ → ρ) (remarks : List (Remark κ)) : List ρ :=
  (remarks.filter (·.heard)).map (name ·.speaker)

/-- Names that alternate, beginning with a given one. -/
def Alternates (first : ρ) (names : List ρ) : Prop :=
  (∀ r ∈ names.head?, r = first) ∧ names.IsChain (· ≠ ·)

/-- A remark that is heard fits behind the name heard last, if any.  `joined` says that all remarks since
then, that one included, are of the speaker `u`. -/
def Fits (u : κ) (name : κ → ρ) (first : ρ) (last : Option ρ) (joined : Prop) (k : κ) : Prop :=
  match last with
  | none => name k = first
  | some r => name k ≠ r ∨ joined ∧ k = u

/-- Remarks that are spaced. -/
def Spaced (u : κ) (name : κ → ρ) (first : ρ) : Option ρ → Prop → List (Remark κ) → Prop
  | _, _, [] => True
  | last, joined, a :: remarks =>
    if a.heard then
      Fits u name first last joined a.speaker ∧
        Spaced u name first (some (name a.speaker)) (a.speaker = u) remarks
    else Spaced u name first last (joined ∧ a.speaker = u) remarks

variable {u : κ} {name : κ → ρ} {first : ρ} {last : Option ρ} {joined : Prop}

theorem spaced_cons_congr {l l' : List (Remark κ)}
    (h : ∀ last joined, Spaced u name first last joined l ↔ Spaced u name first last joined l')
    (a : Remark κ) :
    Spaced u name first last joined (a :: l) ↔ Spaced u name first last joined (a :: l') := by
  rw [Spaced, Spaced]
  split_ifs
  · exact and_congr_right fun _ => h _ _
  · exact h _ _

theorem spaced_append {before l : List (Remark κ)} (hbefore : ∀ a ∈ before, ¬a.heard) :
    Spaced u name first none False (before ++ l) ↔ Spaced u name first none False l := by
  induction before with
  | nil => rfl
  | cons a before ih =>
    obtain ⟨ha, hbefore⟩ := List.forall_mem_cons.1 hbefore
    rw [List.cons_append, Spaced, if_neg ha, false_and]
    exact ih hbefore

/-! ## Joining -/

variable [DecidableEq κ]

/-- Two remarks of the speaker `u` as one. -/
def joinRemarks (u : κ) (a b : Remark κ) : Option (Remark κ) :=
  if a.speaker = u ∧ b.speaker = u then some ⟨u, a.heard || b.heard⟩ else none

theorem spaced_join {a b c : Remark κ} (h : joinRemarks u a b = some c) (l : List (Remark κ)) :
    Spaced u name first last joined (c :: l) ↔ Spaced u name first last joined (a :: b :: l) := by
  rw [joinRemarks, Option.ite_none_right_eq_some, Option.some.injEq] at h
  obtain ⟨⟨ha, hb⟩, rfl⟩ := h
  have hfits : Fits u name first (some (name u)) True u := .inr ⟨trivial, rfl⟩
  cases hheard : a.heard <;> cases hheard' : b.heard <;>
    simp only [Spaced, ha, hb, hheard, hheard', Bool.or_false, Bool.or_true, Bool.or_self,
      Bool.false_eq_true, if_true, if_false, true_and, and_true, hfits]

theorem spaced_mergeInto (a : Remark κ) (l : List (Remark κ)) :
    Spaced u name first last joined (mergeInto (joinRemarks u) a l) ↔
      Spaced u name first last joined (a :: l) := by
  induction l generalizing a last joined with
  | nil => rfl
  | cons b l ih =>
    rw [mergeInto]
    cases hjoin : joinRemarks u a b with
    | none => exact spaced_cons_congr (fun _ _ => ih b) a
    | some c => rw [← spaced_join hjoin, ← ih]

theorem spaced_iff_isChain {l : List (Remark κ)}
    (hl : l.IsChain fun a b => joinRemarks u a b = none) {r : ρ}
    (hjoined : joined → ∀ a ∈ l.head?, a.speaker ≠ u) :
    Spaced u name first (some r) joined l ↔ (r :: heardNames name l).IsChain (· ≠ ·) := by
  induction l generalizing r joined with
  | nil => exact iff_of_true trivial (List.isChain_singleton r)
  | cons a l ih =>
    obtain ⟨hnext, hl⟩ := List.isChain_cons.1 hl
    have hnext' : a.speaker = u → ∀ b ∈ l.head?, b.speaker ≠ u := by
      intro ha b hb hb'
      have hnone := hnext b hb
      rw [joinRemarks, if_pos ⟨ha, hb'⟩] at hnone
      cases hnone
    rw [Spaced, heardNames, List.filter_cons]
    split_ifs
    · rw [ih hl hnext', List.map_cons, List.isChain_cons_cons]
      refine and_congr_left' ⟨?_, fun h => .inl (Ne.symm h)⟩
      rintro (h | ⟨hj, ha⟩)
      · exact Ne.symm h
      · exact absurd ha (hjoined hj a rfl)
    · exact ih hl fun h => hnext' h.2

theorem spaced_iff_alternates {l : List (Remark κ)}
    (hl : l.IsChain fun a b => joinRemarks u a b = none) :
    Spaced u name first none joined l ↔ Alternates first (heardNames name l) := by
  induction l generalizing joined with
  | nil => exact iff_of_true trivial ⟨by simp [heardNames], by simp [heardNames]⟩
  | cons a l ih =>
    obtain ⟨hnext, hl⟩ := List.isChain_cons.1 hl
    rw [Spaced, heardNames, List.filter_cons]
    split_ifs
    · rw [spaced_iff_isChain hl]
      · simp [Alternates, Fits, heardNames]
      · intro ha b hb hb'
        have hnone := hnext b hb
        rw [joinRemarks, if_pos ⟨ha, hb'⟩] at hnone
        cases hnone
    · exact ih hl

theorem alternates_iff_spaced (l : List (Remark κ)) :
    Alternates first (heardNames name (l.foldl (mergeStep (joinRemarks u)) [])) ↔
      Spaced u name first none False l := by
  cases l with
  | nil => exact iff_of_true ⟨by simp [heardNames], by simp [heardNames]⟩ trivial
  | cons a l =>
    have hjoin {a b c x : Remark κ} (h : joinRemarks u a b = some c)
        (hx : joinRemarks u x a = none) : joinRemarks u x c = none := by
      rw [joinRemarks, Option.ite_none_right_eq_some, Option.some.injEq] at h
      obtain ⟨⟨ha, -⟩, rfl⟩ := h
      rw [joinRemarks, ha] at hx
      rw [joinRemarks]
      split_ifs at hx ⊢
      trivial
    rw [foldl_mergeStep_cons, ← spaced_mergeInto]
    exact (spaced_iff_alternates (isChain_mergeInto_none hjoin a l).1).symm

end RavBot.Lib
