import Mathlib.Algebra.Order.Field.Rat
import Mathlib.Tactic.GCongr
import Mathlib.Tactic.Positivity
import RavBot.Lib.Json
import RavBot.Lib.StableSort
import RavBot.Lib.Table

/-!
# Hybrid search

`HybridSearch` asks for more candidates than it was asked for, by similarity and by text, and fuses the two
lists: an id scores `1 / (60 + rank)` for each list that has it, and the ids with the highest scores are
the results.  The number of candidates is three times the limit in `int`, and the room for the results is
reserved by the limit as it is; so a large limit overflows, and a negative one reserves more than there is.
-/

open List

namespace RavBot.Core

open RavBot.Lib
open StableSort (sortDesc sorted_sortDesc)

/-! ## The code -/

structure VectorSearchResult where
  id : String
  distance : ℚ
  metadata : Json
  text : String

/-- The searches of an open database.  Each of them gives at most as many results as it is asked for, and
no id twice. -/
structure VectorSearches where
  searchVectors : List ℚ → Int → ℚ → List VectorSearchResult
  searchFTS : String → Int → List VectorSearchResult
  length_searchVectors (query : List ℚ) (limit : Int) (threshold : ℚ) :
    (searchVectors query limit threshold).length ≤ limit.toNat
  length_searchFTS (query : String) (limit : Int) : (searchFTS query limit).length ≤ limit.toNat
  nodup_searchVectors (query : List ℚ) (limit : Int) (threshold : ℚ) :
    ((searchVectors query limit threshold).map (·.id)).Nodup
  nodup_searchFTS (query : String) (limit : Int) : ((searchFTS query limit).map (·.id)).Nodup

/-- How a search fails: a product that does not fit in an `int`, the `std::length_error` of `reserve`, and
a result that was moved out of its map before. -/
inductive SearchFailure where
  | overflow
  | lengthError
  | movedFrom

namespace HybridSearch

/-- A product of two numbers in `int`. -/
def mulInt (m n : Int) : Except SearchFailure Int :=
  if -2 ^ 31 ≤ m * n ∧ m * n < 2 ^ 31 then .ok (m * n) else .error .overflow

/-- `static_cast<int>` of a size. -/
def intOfSize (size : Nat) : Int := (size : Int).bmod (2 ^ 32)

/-- `reserve` of an `int`: a negative one is larger than any size as a `size_t`. -/
def reserve (n : Int) : Except SearchFailure Unit := if n < 0 then .error .lengthError else .ok ()

/-- `rrf_scores` and `result_map`. -/
structure Fusion where
  rrfScores : Table String ℚ
  resultMap : Table String VectorSearchResult

def weight (rank : Nat) : ℚ := 1 / (60 + (rank + 1))

/-- Take an item of a list into account. -/
def Fusion.add (f : Fusion) (rank : Nat) (item : VectorSearchResult) : Fusion where
  rrfScores := f.rrfScores.insert item.id ((f.rrfScores.lookup item.id).getD 0 + weight rank)
  resultMap :=
    if (f.resultMap.lookup item.id).isNone then f.resultMap.insert item.id item else f.resultMap

/-- The rounds of `apply_rrf` from a place on. -/
def applyFrom : Nat → List VectorSearchResult → Fusion → Fusion
  | _, [], f => f
  | rank, item :: list, f => applyFrom (rank + 1) list (f.add rank item)

def applyRrf (list : List VectorSearchResult) (f : Fusion) : Fusion :=
  applyFrom 0 (list.take (intOfSize list.length).toNat) f

/-- The loop that builds the results: each of them is moved out of the map. -/
def collect : List (ℚ × String) → Table String (Option VectorSearchResult) →
    Except SearchFailure (List VectorSearchResult)
  | [], _ => .ok []
  | (score, id) :: ranked, slots =>
    match (slots.lookup id).join with
    | none => .error .movedFrom
    | some item => do
        let results ← collect ranked (slots.insert id none)
        return { item with distance := -score } :: results

/-- The fusion of two lists of candidates.  `sort` is `std::sort` on what the walk over the hash map
gives. -/
def fuse (sort : List (ℚ × String) → List (ℚ × String)) (limit : Int)
    (vectorResults ftsResults : List VectorSearchResult) : Except SearchFailure (List VectorSearchResult) := do
  let fused := applyRrf ftsResults (applyRrf vectorResults ⟨∅, ∅⟩)
  let ranked := sort (fused.rrfScores.entries.map fun e => (e.2, e.1))
  let count := min limit (intOfSize ranked.length)
  reserve count
  collect (ranked.take count.toNat) (Table.image some fused.resultMap)

end HybridSearch

open HybridSearch

def hybridSearch (sort : List (ℚ × String) → List (ℚ × String)) (db : Option VectorSearches)
    (queryVector : List ℚ) (queryText : String) (limit : Int) (threshold : ℚ) :
    Except SearchFailure (List VectorSearchResult) :=
  match db with
  | none => .ok []
  | some db => do
      let candidateLimit := max (← mulInt limit 3) 30
      let vectorResults :=
        if queryVector = [] then [] else db.searchVectors queryVector candidateLimit threshold
      let ftsResults := if queryText = "" then [] else db.searchFTS queryText candidateLimit
      fuse sort limit vectorResults ftsResults

namespace HybridSearch

/-! ## Ranks -/

variable {ι : Type*} [DecidableEq ι]

def share (ids : List ι) (i : ι) : ℚ := ((ids.idxOf? i).map weight).getD 0

/-- An id has a place in a list that is at least as high as that of another one, if that has one. -/
def RankedAtLeast (ids : List ι) (i j : ι) : Prop :=
  ∀ rank, ids.idxOf? j = some rank → ∃ higher ≤ rank, ids.idxOf? i = some higher

theorem mem_of_idxOf? {ids : List ι} {i : ι} {rank : Nat} (h : ids.idxOf? i = some rank) : i ∈ ids := by
  apply isSome_idxOf?.1
  rw [h]
  rfl

theorem weight_pos (rank : Nat) : 0 < weight rank := by
  rw [weight]
  positivity

theorem weight_anti {m n : Nat} (h : m ≤ n) : weight n ≤ weight m := by
  have hcast : (m : ℚ) ≤ n := Nat.cast_le.2 h
  rw [weight, weight]
  gcongr

theorem RankedAtLeast.share_le {ids : List ι} {i j : ι} (h : RankedAtLeast ids i j) :
    share ids j ≤ share ids i := by
  rw [share, share]
  cases hj : ids.idxOf? j with
  | none =>
    cases ids.idxOf? i with
    | none => exact le_refl _
    | some rank => exact (weight_pos rank).le
  | some rank =>
    obtain ⟨higher, hle, hi⟩ := h rank hj
    rw [hi]
    exact weight_anti hle

/-! ## Fusions -/

def ids (list : List VectorSearchResult) : List String := list.map (·.id)

def score (vectors texts : List VectorSearchResult) (id : String) : ℚ :=
  share (ids vectors) id + share (ids texts) id

def distinct (vectors texts : List VectorSearchResult) : Nat :=
  (ids vectors ++ ids texts).toFinset.card

/-- Two lists are fused, with a limit, to the results. -/
structure IsFusion (vectors texts : List VectorSearchResult) (limit : Int)
    (results : List VectorSearchResult) : Prop where
  length_eq : (results.length : Int) = min (max limit 0) (distinct vectors texts)
  nodup : (ids results).Nodup
  content : ∀ r ∈ results, ∃ item, r = { item with distance := -score vectors texts r.id } ∧
    (item ∈ vectors ∨ item ∈ texts ∧ r.id ∉ ids vectors)
  ordered : results.Pairwise fun a b => score vectors texts b.id ≤ score vectors texts a.id
  complete : ∀ id ∈ ids vectors ++ ids texts, id ∉ ids results →
    ∀ r ∈ results, score vectors texts id ≤ score vectors texts r.id
  dominated : results.Pairwise fun a b => RankedAtLeast (ids vectors) b.id a.id →
    RankedAtLeast (ids texts) b.id a.id → score vectors texts b.id = score vectors texts a.id

/-! ## The maps -/

theorem lookup_rrfScores_add (f : Fusion) (rank : Nat) (item : VectorSearchResult) (id : String) :
    (f.add rank item).rrfScores.lookup id =
      if id = item.id then some ((f.rrfScores.lookup id).getD 0 + weight rank)
      else f.rrfScores.lookup id := by
  rw [Fusion.add, Table.lookup_insert_ite]
  split_ifs with h
  · rw [h]
  · rfl

theorem lookup_resultMap_add (f : Fusion) (rank : Nat) (item : VectorSearchResult) (id : String) :
    (f.add rank item).resultMap.lookup id =
      (f.resultMap.lookup id).or (if item.id = id then some item else none) := by
  rw [Fusion.add]
  cases hfound : f.resultMap.lookup item.id with
  | none =>
    rw [Option.isNone_none, if_pos rfl, Table.lookup_insert_ite]
    by_cases hid : id = item.id
    · rw [if_pos hid, hid, hfound, if_pos rfl, Option.none_or]
    · rw [if_neg hid, if_neg (Ne.symm hid), Option.or_none]
  | some held =>
    rw [Option.isNone_some, if_neg Bool.false_ne_true]
    by_cases hid : item.id = id
    · rw [← hid, hfound, Option.some_or]
    · rw [if_neg hid, Option.or_none]

theorem lookup_rrfScores_applyFrom {list : List VectorSearchResult} (h : (ids list).Nodup) (rank : Nat)
    (f : Fusion) (id : String) :
    (applyFrom rank list f).rrfScores.lookup id =
      match (ids list).idxOf? id with
      | some place => some ((f.rrfScores.lookup id).getD 0 + weight (rank + place))
      | none => f.rrfScores.lookup id := by
  induction list generalizing rank f with
  | nil => rfl
  | cons item list ih =>
    obtain ⟨hitem, hlist⟩ := nodup_cons.1 h
    rw [applyFrom, ih hlist, lookup_rrfScores_add]
    rw [show ids (item :: list) = item.id :: ids list from rfl, idxOf?_cons]
    by_cases hid : item.id = id
    · have hnone : (ids list).idxOf? id = none := idxOf?_eq_none_iff.2 (hid ▸ hitem)
      rw [hnone, if_pos hid.symm, beq_iff_eq.2 hid]
      rfl
    · rw [if_neg (Ne.symm hid), beq_eq_false_iff_ne.2 hid]
      cases (ids list).idxOf? id with
      | none => rfl
      | some place =>
        show some _ = some _
        rw [Nat.add_right_comm, Nat.add_assoc]

theorem lookup_resultMap_applyFrom (list : List VectorSearchResult) (rank : Nat) (f : Fusion)
    (id : String) :
    (applyFrom rank list f).resultMap.lookup id =
      (f.resultMap.lookup id).or (list.find? (·.id = id)) := by
  induction list generalizing rank f with
  | nil => rw [applyFrom, find?_nil, Option.or_none]
  | cons item list ih =>
    rw [applyFrom, ih, lookup_resultMap_add, Option.or_assoc, find?_cons]
    congr 1
    by_cases hid : item.id = id
    · rw [if_pos hid, decide_eq_true hid, Option.some_or]
    · rw [if_neg hid, decide_eq_false hid, Option.none_or]

theorem bmod_eq_self {n : Int} (hlow : 0 ≤ n) (hhigh : n < 2 ^ 31) : n.bmod (2 ^ 32) = n := by
  rw [Int.bmod_eq_of_le] <;> omega

theorem bmod_neg {n : Int} (hlow : 2 ^ 31 ≤ n) (hhigh : n < 2 ^ 32) : n.bmod (2 ^ 32) < 0 := by
  rw [Int.bmod_def]
  split_ifs <;> omega

theorem intOfSize_eq {n : Nat} (h : n < 2 ^ 31) : intOfSize n = n :=
  bmod_eq_self (Int.natCast_nonneg n) (by exact_mod_cast h)

theorem intOfSize_neg {n : Nat} (h : 2 ^ 31 ≤ n) (h' : n < 2 ^ 32) : intOfSize n < 0 :=
  bmod_neg (by exact_mod_cast h) (by exact_mod_cast h')

theorem applyRrf_eq {list : List VectorSearchResult} (h : list.length < 2 ^ 31) (f : Fusion) :
    applyRrf list f = applyFrom 0 list f := by
  rw [applyRrf, intOfSize_eq h, Int.toNat_natCast, take_length]

section Fused

variable {vectors texts : List VectorSearchResult}

def fused (vectors texts : List VectorSearchResult) : Fusion :=
  applyFrom 0 texts (applyFrom 0 vectors ⟨∅, ∅⟩)

theorem lookup_rrfScores_fused (hvectors : (ids vectors).Nodup) (htexts : (ids texts).Nodup)
    (id : String) :
    (fused vectors texts).rrfScores.lookup id =
      if id ∈ ids vectors ++ ids texts then some (score vectors texts id) else none := by
  rw [fused, lookup_rrfScores_applyFrom htexts, lookup_rrfScores_applyFrom hvectors, AList.lookup_empty,
    score, share, share]
  simp only [Nat.zero_add, mem_append]
  cases hv : (ids vectors).idxOf? id with
  | none =>
    have hv' : id ∉ ids vectors := idxOf?_eq_none_iff.1 hv
    cases ht : (ids texts).idxOf? id with
    | none =>
      have ht' : id ∉ ids texts := idxOf?_eq_none_iff.1 ht
      rw [if_neg (not_or.2 ⟨hv', ht'⟩)]
    | some place =>
      have ht' : id ∈ ids texts := mem_of_idxOf? ht
      rw [if_pos (Or.inr ht')]
      rfl
  | some place =>
    have hv' : id ∈ ids vectors := mem_of_idxOf? hv
    rw [if_pos (Or.inl hv')]
    cases (ids texts).idxOf? id with
    | none => simp
    | some place' => simp

theorem lookup_resultMap_fused (id : String) :
    (fused vectors texts).resultMap.lookup id = (vectors ++ texts).find? (·.id = id) := by
  rw [fused, lookup_resultMap_applyFrom, lookup_resultMap_applyFrom, AList.lookup_empty, Option.none_or,
    find?_append]

def scored (vectors texts : List VectorSearchResult) : List (ℚ × String) :=
  (fused vectors texts).rrfScores.entries.map fun e => (e.2, e.1)

theorem mem_scored (hvectors : (ids vectors).Nodup) (htexts : (ids texts).Nodup) {e : ℚ × String} :
    e ∈ scored vectors texts ↔ e.2 ∈ ids vectors ++ ids texts ∧ e.1 = score vectors texts e.2 := by
  have hlookup := lookup_rrfScores_fused hvectors htexts e.2
  have hmem : e ∈ scored vectors texts ↔ (fused vectors texts).rrfScores.lookup e.2 = some e.1 := by
    rw [scored, mem_map, ← Option.mem_def, AList.mem_lookup_iff]
    constructor
    · rintro ⟨⟨id, s⟩, hentry, rfl⟩
      exact hentry
    · intro hentry
      exact ⟨_, hentry, rfl⟩
  rw [hmem, hlookup]
  split_ifs with hid
  · rw [Option.some.injEq, eq_comm, and_iff_right hid]
  · exact iff_of_false (by rintro ⟨⟩) fun h => hid h.1

theorem nodup_scored (vectors texts : List VectorSearchResult) :
    ((scored vectors texts).map Prod.snd).Nodup := by
  have hkeys := (fused vectors texts).rrfScores.nodupKeys
  rw [scored, map_map]
  exact hkeys

theorem length_scored (hvectors : (ids vectors).Nodup) (htexts : (ids texts).Nodup) :
    (scored vectors texts).length = distinct vectors texts := by
  rw [distinct, ← length_map (f := Prod.snd), ← toFinset_card_of_nodup (nodup_scored vectors texts)]
  congr 1
  ext id
  rw [mem_toFinset, mem_toFinset, mem_map]
  constructor
  · rintro ⟨e, he, rfl⟩
    exact ((mem_scored hvectors htexts).1 he).1
  · intro hid
    exact ⟨(score vectors texts id, id), (mem_scored hvectors htexts).2 ⟨hid, rfl⟩, rfl⟩

end Fused

/-! ## The results -/

theorem collect_eq {ranked : List (ℚ × String)} {slots : Table String (Option VectorSearchResult)}
    (hnodup : (ranked.map Prod.snd).Nodup) {item : String → VectorSearchResult}
    (hslots : ∀ e ∈ ranked, slots.lookup e.2 = some (some (item e.2))) :
    collect ranked slots = .ok (ranked.map fun e => { item e.2 with distance := -e.1 }) := by
  induction ranked generalizing slots with
  | nil => rfl
  | cons e ranked ih =>
    obtain ⟨hid, hrest⟩ := nodup_cons.1 hnodup
    obtain ⟨hfirst, hslots⟩ := forall_mem_cons.1 hslots
    -- the moved result is that of another id than the ones that follow
    have hnext : ∀ e' ∈ ranked, (slots.insert e.2 none).lookup e'.2 = some (some (item e'.2)) := by
      intro e' he'
      have hne : e'.2 ≠ e.2 := fun heq => hid (heq ▸ mem_map_of_mem he')
      rw [Table.lookup_insert_ite, if_neg hne]
      exact hslots e' he'
    rw [collect, hfirst]
    show (collect ranked _ >>= _) = _
    rw [ih hrest hnext]
    rfl

/-- `std::sort` by score: the same pairs, the highest scores first. -/
def Sorts (sort : List (ℚ × String) → List (ℚ × String)) : Prop :=
  ∀ l, (sort l).Perm l ∧ (sort l).Pairwise fun a b => b.1 ≤ a.1

section Fused

variable {vectors texts : List VectorSearchResult}

def held (vectors texts : List VectorSearchResult) (id : String) : VectorSearchResult :=
  ((vectors ++ texts).find? (·.id = id)).getD ⟨id, 0, .null, ""⟩

theorem held_spec {id : String} (h : id ∈ ids vectors ++ ids texts) :
    (fused vectors texts).resultMap.lookup id = some (held vectors texts id) ∧
      (held vectors texts id).id = id ∧
        (held vectors texts id ∈ vectors ∨ held vectors texts id ∈ texts ∧ id ∉ ids vectors) := by
  have hmem (list : List VectorSearchResult) {r : VectorSearchResult}
      (hr : list.find? (·.id = id) = some r) : r ∈ list ∧ r.id = id :=
    ⟨mem_of_find?_eq_some hr, by simpa using find?_some hr⟩
  have hnone {list : List VectorSearchResult} (hr : list.find? (·.id = id) = none) : id ∉ ids list := by
    intro hid
    obtain ⟨r, hr', hid⟩ := mem_map.1 hid
    exact find?_eq_none.1 hr r hr' (decide_eq_true hid)
  rw [lookup_resultMap_fused, held, find?_append]
  cases hv : vectors.find? (·.id = id) with
  | some r => exact ⟨rfl, (hmem vectors hv).2, .inl (hmem vectors hv).1⟩
  | none =>
    cases ht : texts.find? (·.id = id) with
    | some r => exact ⟨rfl, (hmem texts ht).2, .inr ⟨(hmem texts ht).1, hnone hv⟩⟩
    | none =>
      rcases mem_append.1 h with hid | hid
      · exact absurd hid (hnone hv)
      · exact absurd hid (hnone ht)

theorem isFusion_take (hvectors : (ids vectors).Nodup) (htexts : (ids texts).Nodup)
    {ranked : List (ℚ × String)} (hperm : ranked.Perm (scored vectors texts))
    (hsorted : ranked.Pairwise fun a b => b.1 ≤ a.1) {limit : Int} (hlimit : 0 ≤ limit) :
    ∃ results, collect (ranked.take (min limit ranked.length).toNat)
        (Table.image some (fused vectors texts).resultMap) = .ok results ∧
      IsFusion vectors texts limit results := by
  have hranked {e : ℚ × String} (he : e ∈ ranked) :
      e.2 ∈ ids vectors ++ ids texts ∧ e.1 = score vectors texts e.2 :=
    (mem_scored hvectors htexts).1 (hperm.mem_iff.1 he)
  have hcount : ranked.length = distinct vectors texts :=
    hperm.length_eq.trans (length_scored hvectors htexts)
  have hnodup : (ranked.map Prod.snd).Nodup :=
    (hperm.map Prod.snd).nodup_iff.2 (nodup_scored vectors texts)
  generalize hkeep : (min limit ranked.length).toNat = count
  have hkept {e : ℚ × String} (he : e ∈ ranked.take count) :
      e.2 ∈ ids vectors ++ ids texts ∧ e.1 = score vectors texts e.2 :=
    hranked (mem_of_mem_take he)
  have hnodupKept : ((ranked.take count).map Prod.snd).Nodup :=
    hnodup.sublist ((take_sublist count ranked).map _)
  -- what is built for a score, and its id
  let result (e : ℚ × String) : VectorSearchResult := { held vectors texts e.2 with distance := -e.1 }
  have hid {e : ℚ × String} (he : e ∈ ranked.take count) : (result e).id = e.2 :=
    (held_spec (hkept he).1).2.1
  have hids : ids ((ranked.take count).map result) = (ranked.take count).map Prod.snd := by
    rw [ids, map_map]
    exact map_congr_left fun e he => hid he
  have hordered : (ranked.take count).Pairwise fun a b =>
      score vectors texts (result b).id ≤ score vectors texts (result a).id := by
    refine (hsorted.sublist (take_sublist count ranked)).imp_of_mem fun ha hb hle => ?_
    rw [hid ha, hid hb, ← (hkept ha).2, ← (hkept hb).2]
    exact hle
  refine ⟨(ranked.take count).map result, ?_, ?_, ?_, ?_, ?_, ?_, ?_⟩
  · refine collect_eq hnodupKept fun e he => ?_
    rw [Table.lookup_image, (held_spec (hkept he).1).1]
    rfl
  · rw [length_map, length_take, ← hcount]
    omega
  · rw [hids]
    exact hnodupKept
  · intro r hr
    obtain ⟨e, he, rfl⟩ := mem_map.1 hr
    refine ⟨held vectors texts e.2, ?_, ?_⟩
    · have hscore : score vectors texts (result e).id = e.1 := by rw [hid he, (hkept he).2]
      rw [hscore]
    · rw [hid he]
      exact (held_spec (hkept he).1).2.2
  · rw [pairwise_map]
    exact hordered
  · intro id hmem homitted r hr
    obtain ⟨e, he, rfl⟩ := mem_map.1 hr
    have hother : (score vectors texts id, id) ∈ ranked :=
      hperm.mem_iff.2 ((mem_scored hvectors htexts).2 ⟨hmem, rfl⟩)
    rw [← take_append_drop count ranked] at hother hsorted
    rcases mem_append.1 hother with htaken | hdropped
    · rw [hids] at homitted
      exact absurd (mem_map_of_mem htaken) homitted
    · have hle := (pairwise_append.1 hsorted).2.2 e he _ hdropped
      rw [hid he, ← (hkept he).2]
      exact hle
  · rw [pairwise_map]
    refine hordered.imp fun hle hvec htext => le_antisymm hle ?_
    exact add_le_add hvec.share_le htext.share_le

end Fused

/-! ## Every search -/

section Search

variable {sort : List (ℚ × String) → List (ℚ × String)} (db : Option VectorSearches)
  (queryVector : List ℚ) (queryText : String) (limit : Int) (threshold : ℚ)

def vectorResults : List VectorSearchResult :=
  match db with
  | none => []
  | some db => if queryVector = [] then [] else db.searchVectors queryVector (max (limit * 3) 30) threshold

def ftsResults : List VectorSearchResult :=
  match db with
  | none => []
  | some db => if queryText = "" then [] else db.searchFTS queryText (max (limit * 3) 30)

theorem vectorResults_spec : (ids (vectorResults db queryVector limit threshold)).Nodup ∧
    (vectorResults db queryVector limit threshold).length ≤ (max (limit * 3) 30).toNat := by
  cases db with
  | none => exact ⟨nodup_nil, Nat.zero_le _⟩
  | some db =>
    simp only [vectorResults]
    split_ifs
    · exact ⟨nodup_nil, Nat.zero_le _⟩
    · exact ⟨db.nodup_searchVectors _ _ _, db.length_searchVectors _ _ _⟩

theorem ftsResults_spec : (ids (ftsResults db queryText limit)).Nodup ∧
    (ftsResults db queryText limit).length ≤ (max (limit * 3) 30).toNat := by
  cases db with
  | none => exact ⟨nodup_nil, Nat.zero_le _⟩
  | some db =>
    simp only [ftsResults]
    split_ifs
    · exact ⟨nodup_nil, Nat.zero_le _⟩
    · exact ⟨db.nodup_searchFTS _ _, db.length_searchFTS _ _⟩

theorem distinct_le (vectors texts : List VectorSearchResult) :
    distinct vectors texts ≤ vectors.length + texts.length := by
  calc distinct vectors texts ≤ (ids vectors ++ ids texts).length := toFinset_card_le _
    _ = vectors.length + texts.length := by rw [ids, ids, length_append, length_map, length_map]

theorem length_lt {n : Nat} {limit : Int} (h : n ≤ (max (limit * 3) 30).toNat)
    (hlimit : limit * 3 < 2 ^ 31) : n < 2 ^ 31 := by
  omega

theorem fuse_eq {vectors texts : List VectorSearchResult} (hvectors : vectors.length < 2 ^ 31)
    (htexts : texts.length < 2 ^ 31) :
    fuse sort limit vectors texts =
      reserve (min limit (intOfSize (sort (scored vectors texts)).length)) >>= fun _ =>
        collect ((sort (scored vectors texts)).take
          (min limit (intOfSize (sort (scored vectors texts)).length)).toNat)
          (Table.image some (fused vectors texts).resultMap) := by
  rw [fuse, applyRrf_eq hvectors, applyRrf_eq htexts]
  rfl

/-- A fusion succeeds, and keeps what it should, when the limit is not negative and an `int` counts the
ids; else it throws. -/
theorem fuse_iff {vectors texts : List VectorSearchResult} (hsort : Sorts sort)
    (hvectors : (ids vectors).Nodup) (htexts : (ids texts).Nodup) (hlength : vectors.length < 2 ^ 31)
    (hlength' : texts.length < 2 ^ 31) :
    (∃ results, fuse sort limit vectors texts = .ok results ∧ IsFusion vectors texts limit results) ↔
      0 ≤ limit ∧ distinct vectors texts < 2 ^ 31 := by
  obtain ⟨hperm, hsorted⟩ := hsort (scored vectors texts)
  have hcount : (sort (scored vectors texts)).length = distinct vectors texts :=
    hperm.length_eq.trans (length_scored hvectors htexts)
  have hle := distinct_le vectors texts
  rw [fuse_eq limit hlength hlength', hcount]
  by_cases hroom : 0 ≤ limit ∧ distinct vectors texts < 2 ^ 31
  · obtain ⟨hlimit, hdistinct⟩ := hroom
    have hreserve : reserve (min limit (distinct vectors texts)) = .ok () :=
      if_neg (not_lt.2 (le_min hlimit (Int.natCast_nonneg _)))
    obtain ⟨results, hresults, hfusion⟩ := isFusion_take hvectors htexts hperm hsorted hlimit
    refine iff_of_true ⟨results, ?_, hfusion⟩ ⟨hlimit, hdistinct⟩
    rw [intOfSize_eq hdistinct, hreserve]
    rw [hcount] at hresults
    exact hresults
  · have hnegative : min limit (intOfSize (distinct vectors texts)) < 0 := by
      rcases not_and_or.1 hroom with hlimit | hdistinct
      · exact (min_le_left _ _).trans_lt (not_le.1 hlimit)
      · refine (min_le_right _ _).trans_lt (intOfSize_neg (not_lt.1 hdistinct) ?_)
        omega
    have hreserve : reserve (min limit (intOfSize (distinct vectors texts))) = .error .lengthError :=
      if_pos hnegative
    rw [hreserve]
    refine iff_of_false ?_ hroom
    rintro ⟨results, ⟨⟩, -⟩

/-- `HybridSearch` ends with a fusion of the two lists of candidates exactly when there is no database, or
when the limit is not negative, three times the limit is an `int`, and an `int` counts the ids. -/
theorem isFusion_hybridSearch_iff (hsort : Sorts sort) :
    (∃ results, hybridSearch sort db queryVector queryText limit threshold = .ok results ∧
      IsFusion (vectorResults db queryVector limit threshold) (ftsResults db queryText limit) limit
        results) ↔
      db = none ∨ 0 ≤ limit ∧ limit * 3 < 2 ^ 31 ∧
        distinct (vectorResults db queryVector limit threshold) (ftsResults db queryText limit) <
          2 ^ 31 := by
  cases db with
  | none =>
    refine iff_of_true ⟨[], rfl, ?_, ?_, ?_, ?_, ?_, ?_⟩ (.inl rfl)
    · exact (min_eq_right (le_max_right limit 0)).symm
    · exact nodup_nil
    · exact forall_mem_nil _
    · exact List.Pairwise.nil
    · exact forall_mem_nil _
    · exact List.Pairwise.nil
  | some db =>
    by_cases hfits : -2 ^ 31 ≤ limit * 3 ∧ limit * 3 < 2 ^ 31
    · obtain ⟨hvectors, hvectorsLength⟩ := vectorResults_spec (some db) queryVector limit threshold
      obtain ⟨htexts, htextsLength⟩ := ftsResults_spec (some db) queryText limit
      have hmul : mulInt limit 3 = .ok (limit * 3) := if_pos hfits
      have heq : hybridSearch sort (some db) queryVector queryText limit threshold =
          fuse sort limit (vectorResults (some db) queryVector limit threshold)
            (ftsResults (some db) queryText limit) := by
        simp only [hybridSearch, hmul, vectorResults, ftsResults, bind, Except.bind]
      rw [heq, fuse_iff limit hsort hvectors htexts (length_lt hvectorsLength hfits.2)
        (length_lt htextsLength hfits.2)]
      constructor
      · rintro ⟨hlimit, hdistinct⟩
        exact .inr ⟨hlimit, hfits.2, hdistinct⟩
      · rintro (⟨⟨⟩⟩ | ⟨hlimit, -, hdistinct⟩)
        exact ⟨hlimit, hdistinct⟩
    · have hoverflow : mulInt limit 3 = .error .overflow := if_neg hfits
      rw [hybridSearch, hoverflow]
      refine iff_of_false ?_ ?_
      · rintro ⟨results, ⟨⟩, -⟩
      · rintro (⟨⟨⟩⟩ | ⟨hlimit, hproduct, -⟩)
        exact hfits ⟨by omega, hproduct⟩

end Search

theorem sorts_sortDesc : Sorts (sortDesc Prod.fst) := fun l =>
  ⟨perm_insertionSort _ l, sorted_sortDesc Prod.fst l⟩

/-- A database with one document, which every search finds. -/
def oneDocument : VectorSearches where
  searchVectors _ limit _ := [⟨"doc1", 0, .null, "the quick brown fox"⟩].take limit.toNat
  searchFTS _ limit := [⟨"doc1", 1, .null, "the quick brown fox"⟩].take limit.toNat
  length_searchVectors _ limit _ := length_take_le limit.toNat _
  length_searchFTS _ limit := length_take_le limit.toNat _
  nodup_searchVectors _ limit _ :=
    (nodup_singleton _).sublist ((take_sublist limit.toNat _).map _)
  nodup_searchFTS _ limit := (nodup_singleton _).sublist ((take_sublist limit.toNat _).map _)

/-- A search for five results in that database ends with a fusion. -/
theorem isFusion_oneDocument : ∃ results,
    hybridSearch (sortDesc Prod.fst) (some oneDocument) [1] "fox" 5 0 = .ok results ∧
      IsFusion (vectorResults (some oneDocument) [1] 5 0) (ftsResults (some oneDocument) "fox" 5) 5
        results :=
  (isFusion_hybridSearch_iff (some oneDocument) [1] "fox" 5 0 sorts_sortDesc).2
    (.inr ⟨by decide, by norm_num, by
      have hone : distinct (vectorResults (some oneDocument) [1] 5 0)
        (ftsResults (some oneDocument) "fox" 5) = 1 := by decide +kernel
      rw [hone]
      norm_num⟩)

/-- A negative limit makes the search throw. -/
theorem not_isFusion_hybridSearch : ¬ ∀ (sort : List (ℚ × String) → List (ℚ × String)), Sorts sort →
    ∀ (db : Option VectorSearches) (queryVector : List ℚ) (queryText : String) (limit : Int)
      (threshold : ℚ), -2 ^ 31 ≤ limit → limit < 2 ^ 31 →
        ∃ results, hybridSearch sort db queryVector queryText limit threshold = .ok results ∧
          IsFusion (vectorResults db queryVector limit threshold) (ftsResults db queryText limit) limit
            results := by
  intro h
  obtain ⟨results, hresults, -⟩ := h (sortDesc Prod.fst) sorts_sortDesc (some oneDocument) [1] "fox" (-1) 0
    (by norm_num) (by norm_num)
  have hreserve (n : Int) : reserve (min (-1) n) = .error .lengthError :=
    if_pos ((min_le_left (-1) n).trans_lt (by decide))
  have hmul : mulInt (-1) 3 = .ok (-3) := by
    rw [mulInt, if_pos (by norm_num)]
    rfl
  simp only [hybridSearch, hmul, fuse, hreserve, bind, Except.bind] at hresults
  cases hresults

end HybridSearch

end RavBot.Core
