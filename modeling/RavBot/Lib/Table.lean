import Mathlib.Algebra.GroupWithZero.Nat
import Mathlib.Data.List.AList

/-!
# Tables

A `Table κ υ` is a finite map, Mathlib's `AList` at a constant family.  It models
`std::unordered_map`: what an operation does to the table is stated through `lookup`, and
the order of the entries is never relied on.
-/

namespace RavBot.Lib

universe u v

/-- A finite map from `κ` to `υ`. -/
abbrev Table (κ : Type u) (υ : Type v) := AList (fun _ : κ => υ)

namespace Table

open scoped List

variable {κ : Type u} {υ : Type v} [DecidableEq κ]

theorem lookup_insert_ite (t : Table κ υ) (k k' : κ) (v : υ) :
    (AList.insert k v t).lookup k' = if k' = k then some v else t.lookup k' := by
  by_cases h : k' = k
  · subst h
    simp
  · simp [h, AList.lookup_insert_ne]

theorem lookup_foldl_insert {α : Type*} (key : α → κ) (value : α → υ) {l : List α}
    (h : (l.map key).Nodup) (t : Table κ υ) (k : κ) (v : υ) :
    (l.foldl (fun t a => AList.insert (key a) (value a) t) t).lookup k = some v ↔
      (∃ a ∈ l, key a = k ∧ value a = v) ∨ k ∉ l.map key ∧ t.lookup k = some v := by
  induction l generalizing t with
  | nil => simp
  | cons a l ih =>
    rw [List.map_cons, List.nodup_cons] at h
    rw [List.foldl_cons, ih h.2, lookup_insert_ite, List.map_cons, List.mem_cons]
    by_cases hk : k = key a
    · subst hk
      simp [h.1, or_comm]
    · simp [hk, Ne.symm hk]

theorem lookup_foldl_insert_last {α : Type*} (key : α → κ) (value : α → υ) (l : List α)
    (t : Table κ υ) (k : κ) :
    (l.foldl (fun t a => AList.insert (key a) (value a) t) t).lookup k =
      ((l.reverse.find? (key · = k)).map value).or (t.lookup k) := by
  induction l generalizing t with
  | nil => rfl
  | cons a l ih =>
    rw [List.foldl_cons, ih, lookup_insert_ite, List.reverse_cons, List.find?_append]
    cases l.reverse.find? (key · = k) with
    | some b => rfl
    | none =>
      by_cases hk : key a = k
      · simp [hk]
      · simp [hk, Ne.symm hk]

theorem lookup_erase_ite (t : Table κ υ) (k k' : κ) :
    (t.erase k).lookup k' = if k' = k then none else t.lookup k' := by
  by_cases h : k' = k
  · subst h
    simp
  · simp [h, AList.lookup_erase_ne]

theorem forall_lookup_iff (t : Table κ υ) (p : υ → Prop) :
    (∀ k v, t.lookup k = some v → p v) ↔ ∀ e ∈ t.entries, p e.2 := by
  constructor
  · intro h e he
    exact h e.1 e.2 (AList.mem_lookup_iff.2 he)
  · intro h k v hk
    exact h ⟨k, v⟩ (AList.mem_lookup_iff.1 hk)

/-- Erase a list of keys, one after the other. -/
def eraseAll (t : Table κ υ) (ks : List κ) : Table κ υ :=
  ks.foldl (fun t k => t.erase k) t

theorem lookup_eraseAll (t : Table κ υ) (ks : List κ) (k : κ) :
    (t.eraseAll ks).lookup k = if k ∈ ks then none else t.lookup k := by
  induction ks generalizing t with
  | nil => simp [eraseAll]
  | cons hd tl ih =>
    have h : t.eraseAll (hd :: tl) = eraseAll (t.erase hd) tl := rfl
    rw [h, ih, lookup_erase_ite]
    by_cases h₁ : k ∈ tl <;> by_cases h₂ : k = hd <;> simp [h₁, h₂]

omit [DecidableEq κ] in
theorem nodupKeys_filter {l : List (Sigma fun _ : κ => υ)} (p : (Sigma fun _ : κ => υ) → Bool)
    (h : l.NodupKeys) : (l.filter p).NodupKeys :=
  h.sublist List.filter_sublist

/-- Keep the entries whose value satisfies `p`. -/
def filterValues (p : υ → Bool) (t : Table κ υ) : Table κ υ :=
  ⟨t.entries.filter fun e => p e.2, nodupKeys_filter _ t.nodupKeys⟩

theorem lookup_filterValues (p : υ → Bool) (t : Table κ υ) (k : κ) :
    (filterValues p t).lookup k = (t.lookup k).filter p := by
  apply Option.ext
  intro v
  rw [Option.filter_eq_some_iff, ← Option.mem_def, ← Option.mem_def, AList.mem_lookup_iff,
    AList.mem_lookup_iff]
  simp [filterValues]

/-- Change every value of a table. -/
def mapValues (f : υ → υ) (t : Table κ υ) : Table κ υ :=
  ⟨t.entries.map fun e => ⟨e.1, f e.2⟩, by
    have h := t.nodupKeys
    rw [List.NodupKeys] at h ⊢
    simpa [List.keys, Function.comp_def] using h⟩

/-- The table of what a function makes of the values. -/
def image {ω : Type*} (f : υ → ω) (t : Table κ υ) : Table κ ω :=
  ⟨t.entries.map fun e => ⟨e.1, f e.2⟩, by
    have h := t.nodupKeys
    rw [List.NodupKeys] at h ⊢
    simpa [List.keys, Function.comp_def] using h⟩

theorem lookup_image {ω : Type*} (f : υ → ω) (t : Table κ υ) (k : κ) :
    (image f t).lookup k = (t.lookup k).map f := by
  apply Option.ext
  intro v
  rw [Option.map_eq_some_iff, ← Option.mem_def, AList.mem_lookup_iff]
  simp only [← Option.mem_def, AList.mem_lookup_iff]
  simp [image]

@[simp] theorem lookup_mapValues (f : υ → υ) (t : Table κ υ) (k : κ) :
    (mapValues f t).lookup k = (t.lookup k).map f :=
  lookup_image f t k

theorem entries_of_lookup {t : Table κ υ} {k : κ} {v : υ} (h : t.lookup k = some v) :
    ∃ l₁ l₂, t.entries = l₁ ++ ⟨k, v⟩ :: l₂ ∧ (t.erase k).entries = l₁ ++ l₂ := by
  have hk : k ∈ t.entries.keys := AList.lookup_isSome.1 (Option.isSome_of_eq_some h)
  obtain ⟨w, l₁, l₂, -, hsplit, herase⟩ := List.exists_of_kerase hk
  have hw : w = v := by
    have hmem : (⟨k, w⟩ : Sigma fun _ : κ => υ) ∈ t.entries := by simp [hsplit]
    rw [← AList.mem_lookup_iff, h] at hmem
    exact (Option.some.inj hmem).symm
  exact ⟨l₁, l₂, hw ▸ hsplit, herase⟩

/-! ## Lists as values -/

/-- Put items behind those that are under a key. -/
def appendTo {α : Type v} (t : Table κ (List α)) (k : κ) (items : List α) : Table κ (List α) :=
  t.insert k ((t.lookup k).getD [] ++ items)

theorem perm_flatMap_appendTo {α : Type v} (t : Table κ (List α)) (k : κ) (items : List α) :
    ((t.appendTo k items).entries.flatMap Sigma.snd).Perm (items ++ t.entries.flatMap Sigma.snd) := by
  have hentries (l : List α) : (AList.insert k l t).entries = ⟨k, l⟩ :: (t.erase k).entries := rfl
  rw [appendTo, hentries, List.flatMap_cons]
  cases hlookup : t.lookup k with
  | none =>
    have hsame : (t.erase k).entries = t.entries := List.kerase_of_notMem_keys (AList.lookup_eq_none.1 hlookup)
    rw [hsame]
    exact List.Perm.refl _
  | some l =>
    obtain ⟨l₁, l₂, hsplit, hrest⟩ := entries_of_lookup hlookup
    rw [hrest, hsplit, Option.getD_some, List.flatMap_append, List.flatMap_append, List.flatMap_cons]
    calc (l ++ items) ++ (l₁.flatMap Sigma.snd ++ l₂.flatMap Sigma.snd)
      _ ~ (items ++ l) ++ (l₁.flatMap Sigma.snd ++ l₂.flatMap Sigma.snd) := List.perm_append_comm.append_right _
      _ = items ++ (l ++ (l₁.flatMap Sigma.snd ++ l₂.flatMap Sigma.snd)) := List.append_assoc _ _ _
      _ ~ items ++ (l₁.flatMap Sigma.snd ++ (l ++ l₂.flatMap Sigma.snd)) :=
        (List.perm_append_comm_assoc _ _ _).append_left _

/-! ## Sums over the values -/

/-- The sum of a number over the values of a table. -/
def total (f : υ → Nat) (t : Table κ υ) : Nat := (t.entries.map fun e => f e.2).sum

theorem total_erase (f : υ → Nat) {t : Table κ υ} {k : κ} {v : υ} (h : t.lookup k = some v) :
    total f (t.erase k) + f v = total f t ∧
      (t.erase k).entries.length + 1 = t.entries.length := by
  obtain ⟨l₁, l₂, hsplit, hentries⟩ := entries_of_lookup h
  rw [total, total, hentries, hsplit]
  simp only [List.map_append, List.map_cons, List.sum_append, List.sum_cons, List.length_append,
    List.length_cons]
  omega

theorem total_insert_eq (f : υ → Nat) (t : Table κ υ) (k : κ) (v : υ) :
    total f (AList.insert k v t) = f v + total f (t.erase k) := by
  have hentries : (AList.insert k v t).entries = ⟨k, v⟩ :: (t.erase k).entries := rfl
  rw [total, total, hentries, List.map_cons, List.sum_cons]

theorem total_erase_of_none (f : υ → Nat) {t : Table κ υ} {k : κ} (h : t.lookup k = none) :
    total f (t.erase k) = total f t := by
  have hk : k ∉ t.entries.keys := AList.lookup_eq_none.1 h
  have hentries : (t.erase k).entries = t.entries := List.kerase_of_notMem_keys hk
  rw [total, total, hentries]

theorem total_erase_le (f : υ → Nat) (t : Table κ υ) (k : κ) : total f (t.erase k) ≤ total f t := by
  cases h : t.lookup k with
  | none => exact Nat.le_of_eq (total_erase_of_none f h)
  | some v =>
    have := (total_erase f h).1
    omega

theorem total_insert (f : υ → Nat) {t : Table κ υ} {k : κ} {v : υ} (h : t.lookup k = some v)
    (w : υ) : total f (AList.insert k w t) + f v = total f t + f w ∧
      (AList.insert k w t).entries.length = t.entries.length := by
  obtain ⟨hsum, hlength⟩ := total_erase f h
  have hentries : (AList.insert k w t).entries = ⟨k, w⟩ :: (t.erase k).entries := rfl
  rw [total_insert_eq, hentries, List.length_cons]
  omega

end Table

end RavBot.Lib
