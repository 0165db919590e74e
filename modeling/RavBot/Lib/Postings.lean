import RavBot.Lib.Table
import Mathlib.Data.List.Induction
import Mathlib.Data.List.Nodup

/-!
# Postings

An inverted index keeps under each key the list of the items that carry it.  The items come and go
with all their keys at once: `post` appends an item to the list of each of its keys, and `unpost` takes
it out of them.  `Lists` says that the index is exact: under every key there are the items that carry
it, each once.  What `post` and `unpost` do is stated by how often an item is listed (`count_post`,
`count_unpost`), and when `post` keeps the index exact is `lists_post_iff`.
-/

open List

namespace RavBot.Lib

universe u v

/-- An inverted index: under each key a list of items. -/
abbrev Postings (κ : Type u) (ι : Type v) := Table κ (List ι)

namespace Postings

variable {κ : Type u} {ι : Type v} [DecidableEq κ]

/-- The items that are listed under a key. -/
def ids (p : Postings κ ι) (k : κ) : List ι := (p.lookup k).getD []

@[simp] theorem ids_empty (k : κ) : ids (∅ : Postings κ ι) k = [] := by
  rw [ids, AList.lookup_empty]
  rfl

/-- Append an item to the list of each key. -/
def post (p : Postings κ ι) (i : ι) (ks : List κ) : Postings κ ι :=
  ks.foldl (fun p k => AList.insert k (p.ids k ++ [i]) p) p

theorem ids_insert (p : Postings κ ι) (k k' : κ) (is : List ι) :
    ids (AList.insert k is p) k' = if k' = k then is else p.ids k' := by
  rw [ids, Table.lookup_insert_ite]
  split_ifs with h
  · rfl
  · rfl

variable [DecidableEq ι]

/-- Take an item out of the list of each key. -/
def unpost (p : Postings κ ι) (i : ι) (ks : List κ) : Postings κ ι :=
  ks.foldl (fun p k => AList.insert k ((p.ids k).filter (· ≠ i)) p) p

theorem count_post (p : Postings κ ι) (i j : ι) (ks : List κ) (k : κ) :
    ((p.post i ks).ids k).count j = (p.ids k).count j + if j = i then ks.count k else 0 := by
  induction ks generalizing p with
  | nil => simp [post]
  | cons hd tl ih =>
    have h : p.post i (hd :: tl) = post (AList.insert hd (p.ids hd ++ [i]) p) i tl := rfl
    rw [h, ih, ids_insert]
    by_cases hk : k = hd
    · subst hk
      by_cases hj : j = i
      · subst hj
        simp
        omega
      · simp [hj, Ne.symm hj]
    · simp [hk, Ne.symm hk]

theorem count_unpost (p : Postings κ ι) (i j : ι) (ks : List κ) (k : κ) :
    ((p.unpost i ks).ids k).count j = if j = i ∧ k ∈ ks then 0 else (p.ids k).count j := by
  induction ks generalizing p with
  | nil => simp [unpost]
  | cons hd tl ih =>
    have h : p.unpost i (hd :: tl) =
        unpost (AList.insert hd ((p.ids hd).filter (· ≠ i)) p) i tl := rfl
    rw [h, ih, ids_insert]
    by_cases hk : k = hd
    · subst hk
      by_cases hj : j = i
      · subst hj
        simp [count_eq_zero]
      · simp [hj, count_filter]
    · simp [hk]

/-- The index is exact: under every key there are the items that carry it, each once. -/
def Lists (p : Postings κ ι) (carries : ι → List κ) : Prop :=
  ∀ k, (p.ids k).Nodup ∧ ∀ i, i ∈ p.ids k ↔ k ∈ carries i

/-- Every item is listed under the keys that it carries, perhaps more than once, or beside others. -/
def Covers (p : Postings κ ι) (carries : ι → List κ) : Prop :=
  ∀ k i, k ∈ carries i → i ∈ p.ids k

omit [DecidableEq ι] in
theorem lists_empty : Lists (∅ : Postings κ ι) fun _ => [] := by
  intro k
  simp

omit [DecidableEq ι] in
theorem Lists.covers {p : Postings κ ι} {carries : ι → List κ} (h : p.Lists carries) :
    p.Covers carries := fun k i hk => ((h k).2 i).2 hk

/-- An index is exact when it lists each item once under the keys that it carries, and not at all
under others. -/
theorem lists_iff_count {p : Postings κ ι} {carries : ι → List κ} :
    p.Lists carries ↔ ∀ k i, (p.ids k).count i = if k ∈ carries i then 1 else 0 := by
  constructor
  · intro h k i
    split_ifs with hk
    · exact count_eq_one_of_mem (h k).1 (((h k).2 i).2 hk)
    · exact count_eq_zero.2 fun hi => hk (((h k).2 i).1 hi)
  · intro h k
    constructor
    · rw [nodup_iff_count_le_one]
      intro i
      rw [h]
      split_ifs <;> omega
    · intro i
      rw [← count_pos_iff, h]
      split_ifs with hk
      · simp [hk]
      · simp [hk]

theorem Covers.post {p : Postings κ ι} {carries : ι → List κ} (h : p.Covers carries) (i : ι)
    (ks : List κ) : (p.post i ks).Covers (Function.update carries i ks) := by
  intro k j hk
  rw [← count_pos_iff, count_post]
  by_cases hj : j = i
  · subst hj
    rw [Function.update_self] at hk
    rw [if_pos rfl]
    exact Nat.add_pos_right _ (count_pos_iff.2 hk)
  · rw [Function.update_of_ne hj] at hk
    exact Nat.add_pos_left (count_pos_iff.2 (h k j hk)) _

/-- `post` gives an exact index exactly when the index was exact before, the item carried nothing, and
the keys with which it comes are different. -/
theorem lists_post_iff {p : Postings κ ι} {carries : ι → List κ} (h : p.Covers carries) (i : ι)
    (ks : List κ) : (p.post i ks).Lists (Function.update carries i ks) ↔
      p.Lists carries ∧ carries i = [] ∧ ks.Nodup := by
  rw [lists_iff_count, lists_iff_count]
  constructor
  · intro hlists
    have hother (k : κ) (j : ι) (hj : j ≠ i) :
        (p.ids k).count j = if k ∈ carries j then 1 else 0 := by
      have hcount := hlists k j
      rwa [count_post, if_neg hj, Function.update_of_ne hj, Nat.add_zero] at hcount
    have hself (k : κ) : (p.ids k).count i + ks.count k = if k ∈ ks then 1 else 0 := by
      have hcount := hlists k i
      rwa [count_post, if_pos rfl, Function.update_self] at hcount
    have hzero (k : κ) : (p.ids k).count i = 0 := by
      have hcount := hself k
      split_ifs at hcount with hk
      · have := count_pos_iff.2 hk
        omega
      · omega
    have hnone : carries i = [] := by
      rw [eq_nil_iff_forall_not_mem]
      intro k hk
      exact count_eq_zero.1 (hzero k) (h k i hk)
    refine ⟨fun k j => ?_, hnone, ?_⟩
    · by_cases hj : j = i
      · subst hj
        rw [hzero, hnone]
        simp
      · exact hother k j hj
    · rw [nodup_iff_count_le_one]
      intro k
      have hcount := hself k
      split_ifs at hcount <;> omega
  · rintro ⟨hlists, hnone, hnodup⟩ k j
    rw [count_post, hlists]
    by_cases hj : j = i
    · subst hj
      rw [if_pos rfl, Function.update_self, hnone, hnodup.count]
      simp
    · rw [if_neg hj, Function.update_of_ne hj, Nat.add_zero]

theorem Lists.unpost {p : Postings κ ι} {carries : ι → List κ} (h : p.Lists carries) (i : ι) :
    (p.unpost i (carries i)).Lists (Function.update carries i []) := by
  rw [lists_iff_count] at h ⊢
  intro k j
  rw [count_unpost, h]
  by_cases hj : j = i
  · subst hj
    simp
  · simp [hj]

theorem lists_repost_iff {p : Postings κ ι} {carries : ι → List κ} (h : p.Lists carries) (i : ι)
    (ks : List κ) :
    ((p.unpost i (carries i)).post i ks).Lists (Function.update carries i ks) ↔ ks.Nodup := by
  have hpost := lists_post_iff (h.unpost i).covers i ks
  rw [Function.update_idem, Function.update_self] at hpost
  rw [hpost]
  exact ⟨fun ⟨_, _, hnodup⟩ => hnodup, fun hnodup => ⟨h.unpost i, rfl, hnodup⟩⟩

/-! ## An index built from a list -/

/-- The index that lists the items of a list one after the other, each with its keys. -/
def posted (l : List (ι × List κ)) : Postings κ ι := l.foldl (fun p e => p.post e.1 e.2) ∅

def latest (l : List (ι × List κ)) : ι → List κ :=
  l.foldl (fun carries e => Function.update carries e.1 e.2) fun _ => []

omit [DecidableEq ι] in
theorem posted_concat (l : List (ι × List κ)) (e : ι × List κ) :
    posted (l ++ [e]) = (posted l).post e.1 e.2 := by
  rw [posted, foldl_append]
  rfl

omit [DecidableEq κ] in
theorem latest_concat (l : List (ι × List κ)) (e : ι × List κ) :
    latest (l ++ [e]) = Function.update (latest l) e.1 e.2 := by
  rw [latest, foldl_append]
  rfl

theorem covers_posted (l : List (ι × List κ)) : (posted l).Covers (latest l) := by
  induction l using List.reverseRecOn with
  | nil => exact lists_empty.covers
  | append_singleton l e ih =>
    rw [posted_concat, latest_concat]
    exact Covers.post ih e.1 e.2

theorem mem_ids_posted {l : List (ι × List κ)} {e : ι × List κ} (he : e ∈ l) {k : κ} (hk : k ∈ e.2) :
    e.1 ∈ (posted l).ids k := by
  induction l using List.reverseRecOn with
  | nil => cases he
  | append_singleton l e' ih =>
    rw [posted_concat, ← count_pos_iff, count_post]
    rcases mem_append.1 he with he | he
    · exact Nat.add_pos_left (count_pos_iff.2 (ih he)) _
    · rw [mem_singleton.1 he] at hk ⊢
      rw [if_pos rfl]
      exact Nat.add_pos_right _ (count_pos_iff.2 hk)

omit [DecidableEq κ] in
theorem latest_eq_nil {l : List (ι × List κ)} {i : ι} (h : ∀ e ∈ l, e.1 = i → e.2 = []) :
    latest l i = [] := by
  induction l using List.reverseRecOn with
  | nil => rfl
  | append_singleton l e ih =>
    rw [latest_concat]
    by_cases hi : i = e.1
    · rw [hi, Function.update_self]
      exact h e (mem_append_right _ (mem_singleton_self e)) hi.symm
    · rw [Function.update_of_ne hi]
      exact ih fun e' he' => h e' (mem_append_left _ he')

theorem Lists.latest_eq_nil_iff {l : List (ι × List κ)} (h : (posted l).Lists (latest l)) {i : ι} :
    latest l i = [] ↔ ∀ e ∈ l, e.1 = i → e.2 = [] := by
  refine ⟨fun hnone e he hi => ?_, latest_eq_nil⟩
  subst hi
  rw [eq_nil_iff_forall_not_mem]
  intro k hk
  have hcarried := ((h k).2 e.1).1 (mem_ids_posted he hk)
  rw [hnone] at hcarried
  cases hcarried

/-- **An index built from a list is exact** exactly when each item comes with different keys, and with
nothing when it comes again later. -/
theorem lists_posted_iff (l : List (ι × List κ)) :
    (posted l).Lists (latest l) ↔
      (∀ e ∈ l, e.2.Nodup) ∧ l.Pairwise fun a b => a.1 = b.1 → a.2 = [] := by
  induction l using List.reverseRecOn with
  | nil => exact iff_of_true lists_empty ⟨forall_mem_nil _, .nil⟩
  | append_singleton l e ih =>
    have hkept : (posted l).Lists (latest l) ∧ latest l e.1 = [] ∧ e.2.Nodup ↔
        (posted l).Lists (latest l) ∧ (∀ a ∈ l, a.1 = e.1 → a.2 = []) ∧ e.2.Nodup :=
      and_congr_right fun h => and_congr_left' h.latest_eq_nil_iff
    rw [posted_concat, latest_concat, lists_post_iff (covers_posted l), hkept, ih, pairwise_append]
    simp only [mem_append, mem_singleton, or_imp, forall_and, forall_eq]
    constructor
    · rintro ⟨⟨hnodup, hpairs⟩, hlater, hlast⟩
      exact ⟨⟨hnodup, hlast⟩, hpairs, pairwise_singleton _ _, hlater⟩
    · rintro ⟨⟨hnodup, hlast⟩, hpairs, -, hlater⟩
      exact ⟨⟨hnodup, hpairs⟩, hlater, hlast⟩

/-! ## What is listed, and how often -/

omit [DecidableEq ι] in
theorem ids_post (p : Postings κ ι) (i : ι) (ks : List κ) (k : κ) :
    (p.post i ks).ids k = p.ids k ++ List.replicate (ks.count k) i := by
  induction ks generalizing p with
  | nil => exact (append_nil _).symm
  | cons hd tl ih =>
    have h : p.post i (hd :: tl) = post (AList.insert hd (p.ids hd ++ [i]) p) i tl := rfl
    rw [h, ih, ids_insert]
    by_cases hk : k = hd
    · subst hk
      rw [if_pos rfl, count_cons_self, append_assoc, singleton_append, replicate_succ]
    · rw [if_neg hk, count_cons_of_ne (Ne.symm hk)]

omit [DecidableEq ι] in
theorem ids_posted (l : List (ι × List κ)) (k : κ) :
    (posted l).ids k = l.flatMap fun e => List.replicate (e.2.count k) e.1 := by
  induction l using List.reverseRecOn with
  | nil => exact ids_empty k
  | append_singleton l e ih =>
    rw [posted_concat, ids_post, ih, flatMap_append, flatMap_singleton]

/-- Every item is listed under a key as often as it carries the key. -/
def Counts (p : Postings κ ι) (carries : ι → List κ) : Prop :=
  ∀ k i, (p.ids k).count i = (carries i).count k

theorem Counts.post {p : Postings κ ι} {carries : ι → List κ} (h : p.Counts carries) {i : ι} (hi : carries i = [])
    (ks : List κ) : (p.post i ks).Counts (Function.update carries i ks) := by
  intro k j
  rw [count_post, h]
  by_cases hj : j = i
  · subst hj
    rw [if_pos rfl, Function.update_self, hi, count_nil, Nat.zero_add]
  · rw [if_neg hj, Function.update_of_ne hj, Nat.add_zero]

theorem Counts.unpost {p : Postings κ ι} {carries : ι → List κ} (h : p.Counts carries) (i : ι) :
    (p.unpost i (carries i)).Counts (Function.update carries i []) := by
  intro k j
  rw [count_unpost, h]
  by_cases hj : j = i
  · subst hj
    rw [Function.update_self, count_nil]
    by_cases hk : k ∈ carries j
    · rw [if_pos ⟨rfl, hk⟩]
    · rw [if_neg fun h => hk h.2, count_eq_zero.2 hk]
  · rw [if_neg fun h => hj h.1, Function.update_of_ne hj]

theorem counts_posted {l : List (ι × List κ)} (h : (l.map Prod.fst).Nodup) : (posted l).Counts (latest l) := by
  induction l using List.reverseRecOn with
  | nil => exact fun k i => by rw [posted, foldl_nil, ids_empty]; rfl
  | append_singleton l e ih =>
    rw [map_append, nodup_append'] at h
    rw [posted_concat, latest_concat]
    refine (ih h.1).post (latest_eq_nil fun e' he' heq => ?_) e.2
    exact absurd (heq ▸ mem_map_of_mem he') fun hmem => h.2.2 hmem (mem_singleton_self _)

end Postings

end RavBot.Lib
