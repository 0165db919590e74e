import Mathlib.Data.List.Sort

/-!
# Stable sorting

The stable sort of a list by a key, the greatest key first: items with the same key stay in their
order.  That and being sorted determine a list (`eq_of_sorted`), so that sorting again and again while
items are added is sorting once (`sortDesc_append_singleton`), sorting commutes with filters
(`filter_sortDesc`), and parts whose keys are apart can be sorted one by one (`sortDesc_append`).
-/

open List

namespace RavBot.Lib.StableSort

universe u v

variable {α : Type u} {κ : Type v} [LinearOrder κ] (key : α → κ)

def sortDesc (l : List α) : List α := l.insertionSort fun a b => key b ≤ key a

def Sorted (l : List α) : Prop := l.Pairwise fun a b => key b ≤ key a

theorem sorted_sortDesc (l : List α) : Sorted key (sortDesc key l) := by
  have htotal : Std.Total fun a b : α => key b ≤ key a := ⟨fun a b => le_total (key b) (key a)⟩
  have htrans : IsTrans α fun a b => key b ≤ key a := ⟨fun a b c hab hbc => hbc.trans hab⟩
  exact pairwise_insertionSort _ l

theorem mem_sortDesc {a : α} {l : List α} : a ∈ sortDesc key l ↔ a ∈ l :=
  mem_insertionSort _

theorem filter_orderedInsert (k : κ) (a : α) (l : List α) :
    (l.orderedInsert (fun a b => key b ≤ key a) a).filter (key · = k) =
      (a :: l).filter (key · = k) := by
  induction l with
  | nil => rfl
  | cons b l ih =>
    rw [List.orderedInsert]
    split_ifs with hle
    · rfl
    · have hlt : key a < key b := not_le.1 hle
      rw [filter_cons, ih, filter_cons, filter_cons, filter_cons]
      by_cases ha : key a = k
      · have hb : key b ≠ k := fun hb => absurd (ha.trans hb.symm) hlt.ne
        simp [ha, hb]
      · simp [ha]

theorem filter_key_sortDesc (k : κ) (l : List α) :
    (sortDesc key l).filter (key · = k) = l.filter (key · = k) := by
  induction l with
  | nil => rfl
  | cons a l ih =>
    have hstep : sortDesc key (a :: l) =
        (sortDesc key l).orderedInsert (fun a b => key b ≤ key a) a := rfl
    rw [hstep, filter_orderedInsert, filter_cons, filter_cons, ih]

theorem eq_of_sorted {l l' : List α} (h : Sorted key l) (h' : Sorted key l')
    (hfilter : ∀ k, l.filter (key · = k) = l'.filter (key · = k)) : l = l' := by
  have hmem {l l' : List α} (hfilter : ∀ k, l.filter (key · = k) = l'.filter (key · = k)) {a : α}
      (ha : a ∈ l) : a ∈ l' := by
    have hin : a ∈ l.filter (key · = key a) := mem_filter.2 ⟨ha, decide_eq_true rfl⟩
    rw [hfilter] at hin
    exact (mem_filter.1 hin).1
  induction l generalizing l' with
  | nil =>
    cases l' with
    | nil => rfl
    | cons b l' => cases hmem (fun k => (hfilter k).symm) mem_cons_self
  | cons a l ih =>
    cases l' with
    | nil => cases hmem hfilter mem_cons_self
    | cons b l' =>
      obtain ⟨hhead, htail⟩ := pairwise_cons.1 h
      obtain ⟨hhead', htail'⟩ := pairwise_cons.1 h'
      have hab : key a ≤ key b := by
        rcases mem_cons.1 (hmem hfilter mem_cons_self) with rfl | ha
        · exact le_rfl
        · exact hhead' a ha
      have hba : key b ≤ key a := by
        rcases mem_cons.1 (hmem (fun k => (hfilter k).symm) mem_cons_self) with rfl | hb
        · exact le_rfl
        · exact hhead b hb
      have hkey : key b = key a := le_antisymm hba hab
      have hfirst := hfilter (key a)
      rw [filter_cons_of_pos (by simp), filter_cons_of_pos (by simp [hkey])] at hfirst
      obtain ⟨rfl, hrest⟩ := List.cons.inj hfirst
      rw [ih htail htail' fun k => ?_]
      by_cases hk : key a = k
      · rw [← hk]
        exact hrest
      · have hfilter' := hfilter k
        rwa [filter_cons_of_neg (by simpa using hk),
          filter_cons_of_neg (by simpa using hk)] at hfilter'

theorem sortDesc_append_singleton (l : List α) (a : α) :
    sortDesc key (sortDesc key l ++ [a]) = sortDesc key (l ++ [a]) := by
  refine eq_of_sorted key (sorted_sortDesc key _) (sorted_sortDesc key _) fun k => ?_
  rw [filter_key_sortDesc, filter_key_sortDesc, filter_append, filter_append, filter_key_sortDesc]

theorem filter_sortDesc (p : α → Bool) (l : List α) :
    (sortDesc key l).filter p = sortDesc key (l.filter p) := by
  refine eq_of_sorted key ((sorted_sortDesc key l).sublist filter_sublist)
    (sorted_sortDesc key _) fun k => ?_
  rw [filter_key_sortDesc, filter_comm, filter_key_sortDesc, filter_comm]

theorem sortDesc_append (p : α → Bool) {l : List α}
    (h : ∀ a ∈ l, ∀ b ∈ l, p a → ¬ p b → key b < key a) :
    sortDesc key (l.filter p) ++ sortDesc key (l.filter (!p ·)) = sortDesc key l := by
  refine eq_of_sorted key ?_ (sorted_sortDesc key l) fun k => ?_
  · refine pairwise_append.2 ⟨sorted_sortDesc key _, sorted_sortDesc key _, fun a ha b hb => ?_⟩
    obtain ⟨ha, hpa⟩ := mem_filter.1 ((mem_sortDesc key).1 ha)
    obtain ⟨hb, hpb⟩ := mem_filter.1 ((mem_sortDesc key).1 hb)
    exact (h a ha b hb hpa (by simpa using hpb)).le
  · rw [filter_append, filter_key_sortDesc, filter_key_sortDesc, filter_key_sortDesc,
      filter_comm (key · = k) p, filter_comm (key · = k) (!p ·)]
    have hmem {a : α} (ha : a ∈ l.filter (key · = k)) : a ∈ l ∧ key a = k := by
      simpa using mem_filter.1 ha
    -- the items with one key are all on one side
    by_cases hside : ∃ a ∈ l, p a ∧ key a = k
    · obtain ⟨a, ha, hpa, hkey⟩ := hside
      have hall : ∀ b ∈ l.filter (key · = k), p b := by
        intro b hb
        obtain ⟨hb, hkey'⟩ := hmem hb
        by_contra hpb
        exact absurd (hkey'.trans hkey.symm) (h a ha b hb hpa hpb).ne
      have hnone : (l.filter (key · = k)).filter (!p ·) = [] :=
        filter_eq_nil_iff.2 fun b hb => by simp [hall b hb]
      rw [filter_eq_self.2 hall, hnone, append_nil]
    · have hall : ∀ b ∈ l.filter (key · = k), ¬ p b := by
        intro b hb hpb
        obtain ⟨hb, hkey⟩ := hmem hb
        exact hside ⟨b, hb, hpb, hkey⟩
      have hkept : (l.filter (key · = k)).filter (!p ·) = l.filter (key · = k) :=
        filter_eq_self.2 fun b hb => by simp [hall b hb]
      rw [filter_eq_nil_iff.2 hall, hkept, nil_append]

end RavBot.Lib.StableSort
