import Mathlib.Data.List.Pairwise
import Mathlib.Data.String.Basic
import RavBot.Lib.Json

/-!
# Ordered maps

A `std::map` as the list of its entries in the order of their keys.  `insert` sets an entry and keeps
the order (`Sorted.insert`), and setting the entries of an ordered map one after the other builds it again
(`foldl_insert_eq_self`).  The fields of a JSON object are such a map (`insertField_eq`).
-/

open List

namespace RavBot.Lib.OrderedMap

universe u v

variable {κ : Type u} {υ : Type v} [LinearOrder κ]

/-- `map[k] = v`. -/
def insert (k : κ) (v : υ) : List (κ × υ) → List (κ × υ)
  | [] => [(k, v)]
  | (k', v') :: l =>
    if k < k' then (k, v) :: (k', v') :: l
    else if k = k' then (k, v) :: l
    else (k', v') :: insert k v l

def insertAll (l : List (κ × υ)) (acc : List (κ × υ)) : List (κ × υ) :=
  l.foldl (fun acc e => insert e.1 e.2 acc) acc

/-- The keys are in order, and no key comes twice. -/
def Sorted (l : List (κ × υ)) : Prop := l.Pairwise fun e e' => e.1 < e'.1

theorem sorted_nil : Sorted ([] : List (κ × υ)) := List.Pairwise.nil

theorem mem_insert {k : κ} {v : υ} {l : List (κ × υ)} {e : κ × υ} (h : e ∈ insert k v l) :
    e = (k, v) ∨ e ∈ l := by
  induction l with
  | nil => exact .inl (mem_singleton.1 h)
  | cons hd l ih =>
    obtain ⟨k', v'⟩ := hd
    rw [insert] at h
    split_ifs at h
    · rcases mem_cons.1 h with rfl | h
      · exact .inl rfl
      · exact .inr h
    · rcases mem_cons.1 h with rfl | h
      · exact .inl rfl
      · exact .inr (mem_cons_of_mem _ h)
    · rcases mem_cons.1 h with rfl | h
      · exact .inr mem_cons_self
      · exact (ih h).imp_right (mem_cons_of_mem _)

theorem mem_insertAll {l acc : List (κ × υ)} {e : κ × υ} (h : e ∈ insertAll l acc) :
    e ∈ l ∨ e ∈ acc := by
  induction l generalizing acc with
  | nil => exact .inr h
  | cons e' l ih =>
    rcases ih h with he | he
    · exact .inl (mem_cons_of_mem _ he)
    · rcases mem_insert he with rfl | he
      · exact .inl mem_cons_self
      · exact .inr he

theorem Sorted.insert {l : List (κ × υ)} (h : Sorted l) (k : κ) (v : υ) :
    Sorted (OrderedMap.insert k v l) := by
  induction l with
  | nil => exact pairwise_singleton _ _
  | cons hd l ih =>
    obtain ⟨k', v'⟩ := hd
    obtain ⟨hhead, htail⟩ := pairwise_cons.1 h
    rw [OrderedMap.insert]
    split_ifs with hlt heq
    · refine pairwise_cons.2 ⟨fun e he => ?_, h⟩
      rcases mem_cons.1 he with rfl | he
      · exact hlt
      · exact hlt.trans (hhead e he)
    · subst heq
      exact pairwise_cons.2 ⟨hhead, htail⟩
    · refine pairwise_cons.2 ⟨fun e he => ?_, ih htail⟩
      rcases mem_insert he with rfl | he
      · exact lt_of_le_of_ne (not_lt.1 hlt) (Ne.symm heq)
      · exact hhead e he

theorem Sorted.insertAll {acc : List (κ × υ)} (h : Sorted acc) (l : List (κ × υ)) :
    Sorted (OrderedMap.insertAll l acc) := by
  induction l generalizing acc with
  | nil => exact h
  | cons e l ih => exact ih (h.insert e.1 e.2)

theorem insert_of_lt {k : κ} {l : List (κ × υ)} (h : ∀ e ∈ l, k < e.1) (v : υ) :
    insert k v l = (k, v) :: l := by
  cases l with
  | nil => rfl
  | cons hd l =>
    obtain ⟨k', v'⟩ := hd
    rw [insert, if_pos (h (k', v') mem_cons_self)]

theorem insert_of_gt {k : κ} {l : List (κ × υ)} (h : ∀ e ∈ l, e.1 < k) (v : υ) :
    insert k v l = l ++ [(k, v)] := by
  induction l with
  | nil => rfl
  | cons hd l ih =>
    obtain ⟨k', v'⟩ := hd
    rw [forall_mem_cons] at h
    rw [insert, if_neg h.1.not_gt, if_neg h.1.ne', ih h.2]
    rfl

theorem insertAll_of_sorted {acc l : List (κ × υ)} (h : Sorted (acc ++ l)) :
    insertAll l acc = acc ++ l := by
  induction l generalizing acc with
  | nil => exact (append_nil acc).symm
  | cons e l ih =>
    have hbefore : ∀ e' ∈ acc, e'.1 < e.1 := fun e' he' =>
      (pairwise_append.1 h).2.2 e' he' e mem_cons_self
    have hstep : insertAll (e :: l) acc = insertAll l (insert e.1 e.2 acc) := rfl
    rw [hstep, insert_of_gt hbefore, ih]
    · exact append_assoc _ _ _
    · rwa [append_assoc]

theorem insertAll_eq_self {l : List (κ × υ)} (h : Sorted l) : insertAll l [] = l :=
  insertAll_of_sorted h

theorem filter_insert (p : κ → Bool) {l : List (κ × υ)} (h : Sorted l) (k : κ) (v : υ) :
    (insert k v l).filter (fun e => p e.1) =
      if p k then insert k v (l.filter fun e => p e.1) else l.filter fun e => p e.1 := by
  induction l with
  | nil => by_cases hp : p k <;> simp [insert, hp]
  | cons hd l ih =>
    obtain ⟨k', v'⟩ := hd
    obtain ⟨hhead, htail⟩ := pairwise_cons.1 h
    rw [insert]
    by_cases hlt : k < k'
    · have hall : ∀ e ∈ ((k', v') :: l).filter (fun e => p e.1), k < e.1 := by
        intro e he
        rcases mem_cons.1 (mem_filter.1 he).1 with rfl | he
        · exact hlt
        · exact hlt.trans (hhead e he)
      rw [if_pos hlt, insert_of_lt hall, filter_cons]
    · rw [if_neg hlt]
      by_cases heq : k = k'
      · subst heq
        rw [if_pos rfl, filter_cons, filter_cons]
        by_cases hp : p k
        · rw [if_pos hp, if_pos hp, if_pos hp, insert, if_neg (lt_irrefl _), if_pos rfl]
        · rw [if_neg hp, if_neg hp, if_neg hp]
      · rw [if_neg heq, filter_cons, ih htail, filter_cons]
        by_cases hp : p k
        · rw [if_pos hp, if_pos hp]
          by_cases hp' : p k'
          · rw [if_pos hp', if_pos hp', insert, if_neg hlt, if_neg heq]
          · rw [if_neg hp', if_neg hp']
        · rw [if_neg hp, if_neg hp]

theorem filter_insertAll (p : κ → Bool) (l : List (κ × υ)) {acc : List (κ × υ)} (h : Sorted acc) :
    (insertAll l acc).filter (fun e => p e.1) =
      insertAll (l.filter fun e => p e.1) (acc.filter fun e => p e.1) := by
  induction l generalizing acc with
  | nil => rfl
  | cons e l ih =>
    have hstep : insertAll (e :: l) acc = insertAll l (insert e.1 e.2 acc) := rfl
    rw [hstep, ih (h.insert e.1 e.2), filter_insert p h]
    by_cases hp : p e.1
    · rw [if_pos hp, filter_cons, if_pos hp]
      rfl
    · rw [if_neg hp, filter_cons, if_neg hp]

theorem lookup_insert [BEq κ] [LawfulBEq κ] (k k' : κ) (v : υ) (l : List (κ × υ)) :
    (insert k v l).lookup k' = if k' = k then some v else l.lookup k' := by
  induction l with
  | nil =>
    by_cases h : k' = k
    · simp [insert, h]
    · simp [insert, lookup_cons, beq_eq_false_iff_ne.2 h, h]
  | cons hd l ih =>
    obtain ⟨key, value⟩ := hd
    rw [insert]
    by_cases h : k' = k
    · subst h
      rw [if_pos rfl] at ih ⊢
      split_ifs with hlt heq
      · simp
      · simp
      · simp [lookup_cons, beq_eq_false_iff_ne.2 heq, ih]
    · rw [if_neg h] at ih ⊢
      split_ifs with hlt heq
      · simp [lookup_cons, beq_eq_false_iff_ne.2 h]
      · subst heq
        simp [lookup_cons, beq_eq_false_iff_ne.2 h]
      · simp [lookup_cons, ih]

theorem insertField_eq (key : String) (value : Json) (fields : List (String × Json)) :
    Json.insertField key value fields = insert key value fields := by
  induction fields with
  | nil => rfl
  | cons hd fields ih =>
    obtain ⟨k, v⟩ := hd
    rw [Json.insertField, insert, ih]

theorem object_eq (fields : List (String × Json)) : Json.object fields = .obj (insertAll fields []) := by
  have hstep : (fun acc (f : String × Json) => Json.insertField f.1 f.2 acc) =
      fun acc f => insert f.1 f.2 acc := by
    funext acc f
    exact insertField_eq f.1 f.2 acc
  rw [Json.object, hstep, insertAll]

theorem Sorted.of_keys {υ' : Type*} {l : List (κ × υ)} {l' : List (κ × υ')} (h : Sorted l)
    (hkeys : l'.map Prod.fst = l.map Prod.fst) : Sorted l' := by
  have hl : (l.map Prod.fst).Pairwise (· < ·) := pairwise_map.2 h
  rw [← hkeys] at hl
  exact pairwise_map.1 hl

/-- A JSON value all of whose objects are ordered maps, as `nlohmann::json` keeps them. -/
inductive Ordered : Json → Prop
  | null : Ordered .null
  | bool (b : Bool) : Ordered (.bool b)
  | int (n : Int) : Ordered (.int n)
  | real (q : Rat) : Ordered (.real q)
  | str (s : String) : Ordered (.str s)
  | arr {items : List Json} (h : ∀ j ∈ items, Ordered j) : Ordered (.arr items)
  | obj {fields : List (String × Json)} (h : Sorted fields) (hfields : ∀ f ∈ fields, Ordered f.2) :
      Ordered (.obj fields)

theorem Ordered.find? {j v : Json} {key : String} (h : Ordered j) (hv : j.find? key = some v) :
    Ordered v := by
  cases h with
  | obj hsorted hfields =>
    rw [Json.find?, List.lookup_eq_some_iff] at hv
    obtain ⟨before, after, rfl, -⟩ := hv
    exact hfields (key, v) (by simp)
  | _ => cases hv

end RavBot.Lib.OrderedMap
