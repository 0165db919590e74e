import RavBot.Lib.OrderedMap

/-!
# Merging JSON objects

Two ways to put one object over another.  `mergePatch` goes into nested objects, and a null takes a
field away; `spread` takes the fields of the second object as they are.  Both are described by what
is found under a key (`lookup_mergeFields`, `lookup_spread`), and so are chains of them, in which the
last object with the key counts (`lookup_mergeAll`, `lookup_spreadAll`).

What a patch makes of a value does not depend on the value when it covers it: when it says something
of all of its fields, and covers what it merges into (`mergePatch_eq_iff`).  So merging some objects
and then the spread of the others is the same as spreading all exactly when the last values cover what
was merged (`merge_spreadAll_iff`).
-/

open List

namespace RavBot.Lib

open OrderedMap

namespace Json

/-- The fields of an object; other values have none. -/
def fields : Json → List (String × Json)
  | obj fields => fields
  | _ => []

/-- `erase`: the fields without one. -/
def eraseField (key : String) (fields : List (String × Json)) : List (String × Json) :=
  fields.filter (·.1 ≠ key)

mutual

def mergePatch (target : Json) : Json → Json
  | obj patch => obj (mergeFields target.fields patch)
  | patch => patch

/-- Merge the fields of a patch into those of an object. -/
def mergeFields (fields : List (String × Json)) : List (String × Json) → List (String × Json)
  | [] => fields
  | (key, value) :: patch =>
    mergeFields
      (if value.isNull then eraseField key fields
        else insertField key (mergePatch ((fields.lookup key).getD null) value) fields)
      patch

end

mutual

/-- A patch covers a value: it has all of its fields, and covers those that it merges into. -/
def covers (target : Json) : Json → Bool
  | obj patch =>
    target.fields.all (fun field => (patch.lookup field.1).isSome) &&
      coversFields target.fields patch
  | _ => true

/-- The values of a patch cover those of an object. -/
def coversFields (fields : List (String × Json)) : List (String × Json) → Bool
  | [] => true
  | (key, value) :: patch =>
    covers ((fields.lookup key).getD null) value && coversFields fields patch

end

/-- `{ ...fields, ...other }`. -/
def spread (fields other : List (String × Json)) : List (String × Json) := insertAll other fields

/-! ## What is found under a key -/

section Lookup

variable {key : String} {fields patch : List (String × Json)}

theorem lookup_eq_none (h : ∀ field ∈ fields, field.1 ≠ key) : fields.lookup key = none := by
  induction fields with
  | nil => rfl
  | cons field fields ih =>
    obtain ⟨hfield, hfields⟩ := forall_mem_cons.1 h
    rw [lookup_cons, beq_eq_false_iff_ne.2 (Ne.symm hfield), ih hfields]

theorem lookup_of_mem (h : Sorted fields) {value : Json} (hmem : (key, value) ∈ fields) :
    fields.lookup key = some value := by
  induction fields with
  | nil => cases hmem
  | cons field fields ih =>
    obtain ⟨key', value'⟩ := field
    obtain ⟨hhead, htail⟩ := pairwise_cons.1 h
    rcases mem_cons.1 hmem with heq | hmem
    · cases heq
      rw [lookup_cons, beq_self_eq_true]
    · have hlt := hhead (key, value) hmem
      rw [lookup_cons, beq_eq_false_iff_ne.2 hlt.ne', ih htail hmem]

theorem mem_of_lookup {value : Json} (h : fields.lookup key = some value) :
    (key, value) ∈ fields := by
  obtain ⟨before, after, rfl, -⟩ := List.lookup_eq_some_iff.1 h
  simp

theorem eq_of_lookup (h : Sorted fields) (h' : Sorted patch)
    (hlookup : ∀ key, fields.lookup key = patch.lookup key) : fields = patch := by
  have hperm : fields.Perm patch := by
    refine (perm_ext_iff_of_nodup ?_ ?_).2 fun ⟨key, value⟩ => ?_
    · exact h.imp fun hlt heq => absurd (congrArg Prod.fst heq) hlt.ne
    · exact h'.imp fun hlt heq => absurd (congrArg Prod.fst heq) hlt.ne
    · constructor
      · exact fun hmem => mem_of_lookup ((hlookup key).symm.trans (lookup_of_mem h hmem))
      · exact fun hmem => mem_of_lookup ((hlookup key).trans (lookup_of_mem h' hmem))
  exact hperm.eq_of_pairwise (fun a b _ _ hab hba => absurd hab hba.not_gt) h h'

theorem lookup_eraseField (key' : String) :
    (eraseField key fields).lookup key' = if key' = key then none else fields.lookup key' := by
  induction fields with
  | nil => simp [eraseField]
  | cons field fields ih =>
    obtain ⟨k, v⟩ := field
    rw [eraseField, filter_cons]
    rw [eraseField] at ih
    by_cases hk : k = key
    · subst hk
      rw [if_neg (by simp), ih]
      by_cases hkey : key' = k
      · simp [hkey]
      · simp [hkey, lookup_cons, beq_eq_false_iff_ne.2 hkey]
    · rw [if_pos (by simpa using hk), lookup_cons, lookup_cons, ih]
      by_cases hkey : key' = k
      · subst hkey
        simp [hk]
      · simp [beq_eq_false_iff_ne.2 hkey]

theorem lookup_mergeFields (h : Sorted patch) (key : String) :
    (mergeFields fields patch).lookup key = match patch.lookup key with
      | none => fields.lookup key
      | some value => if value.isNull then none
          else some (mergePatch ((fields.lookup key).getD null) value) := by
  induction patch generalizing fields with
  | nil => rfl
  | cons field patch ih =>
    obtain ⟨k, v⟩ := field
    obtain ⟨hhead, htail⟩ := pairwise_cons.1 h
    rw [mergeFields, ih htail, lookup_cons]
    by_cases hkey : key = k
    · subst hkey
      have hnone : patch.lookup key = none :=
        lookup_eq_none fun field hfield => (hhead field hfield).ne'
      rw [hnone, beq_self_eq_true]
      dsimp only
      split_ifs with hnull
      · rw [lookup_eraseField, if_pos rfl]
      · rw [lookup_insertField, if_pos rfl]
    · have hstep : (if v.isNull then eraseField k fields
          else insertField k (mergePatch ((fields.lookup k).getD null) v) fields).lookup key =
            fields.lookup key := by
        split_ifs
        · rw [lookup_eraseField, if_neg hkey]
        · rw [lookup_insertField, if_neg hkey]
      rw [hstep, beq_eq_false_iff_ne.2 hkey]

theorem lookup_spread (h : Sorted patch) (key : String) :
    (spread fields patch).lookup key = (patch.lookup key).or (fields.lookup key) := by
  induction patch generalizing fields with
  | nil => rfl
  | cons field patch ih =>
    obtain ⟨k, v⟩ := field
    obtain ⟨hhead, htail⟩ := pairwise_cons.1 h
    have hstep : spread fields ((k, v) :: patch) = spread (OrderedMap.insert k v fields) patch := rfl
    rw [hstep, ih htail, lookup_insert, lookup_cons]
    by_cases hkey : key = k
    · subst hkey
      have hnone : patch.lookup key = none :=
        lookup_eq_none fun field hfield => (hhead field hfield).ne'
      simp [hnone]
    · simp [hkey, beq_eq_false_iff_ne.2 hkey]

end Lookup

/-! ## Order -/

theorem ordered_fields {j : Json} (h : Ordered j) : Sorted j.fields ∧ ∀ f ∈ j.fields, Ordered f.2 := by
  cases h with
  | obj hsorted hfields => exact ⟨hsorted, hfields⟩
  | _ => exact ⟨sorted_nil, nofun⟩

theorem ordered_getD {j : Json} (h : Ordered j) (key : String) : Ordered ((j.fields.lookup key).getD null) := by
  cases hlookup : j.fields.lookup key with
  | none => exact .null
  | some v => exact (ordered_fields h).2 (key, v) (mem_of_lookup hlookup)

theorem sorted_mergeFields {fields : List (String × Json)} (h : Sorted fields) (patch : List (String × Json)) :
    Sorted (mergeFields fields patch) := by
  induction patch generalizing fields with
  | nil => exact h
  | cons field patch ih =>
    obtain ⟨key, value⟩ := field
    rw [mergeFields]
    apply ih
    split_ifs
    · exact List.Pairwise.filter _ h
    · rw [insertField_eq]
      exact h.insert key _

theorem mergePatch_of_not_object {patch : Json} (h : patch.isObject = false) (target : Json) :
    mergePatch target patch = patch := by
  cases patch with
  | obj patch => cases h
  | _ => rw [mergePatch]; nofun

theorem ordered_mergePatch {target patch : Json} (ht : Ordered target) (hp : Ordered patch) :
    Ordered (mergePatch target patch) := by
  induction hdepth : patch.depth using Nat.strong_induction_on generalizing target patch with
  | _ n ih =>
    cases hobj : patch.isObject with
    | false =>
      rw [mergePatch_of_not_object hobj]
      exact hp
    | true =>
      cases patch with
      | obj patch =>
        have hsorted : Sorted patch := (ordered_fields hp).1
        have hmerged := sorted_mergeFields (ordered_fields ht).1 patch
        rw [mergePatch]
        refine .obj hmerged fun f hf => ?_
        have hlookup := lookup_of_mem hmerged hf
        rw [lookup_mergeFields hsorted] at hlookup
        split at hlookup
        · exact (ordered_fields ht).2 f (mem_of_lookup hlookup)
        · next value hvalue =>
            split_ifs at hlookup
            rw [← Option.some.inj hlookup]
            refine ih _ ?_ (ordered_getD ht f.1) ((ordered_fields hp).2 (f.1, value) (mem_of_lookup hvalue)) rfl
            rw [← hdepth]
            exact depth_lt_of_find? hvalue
      | _ => cases hobj

/-! ## Covering -/

theorem coversFields_iff {fields patch : List (String × Json)} :
    coversFields fields patch = true ↔ ∀ f ∈ patch, covers ((fields.lookup f.1).getD null) f.2 = true := by
  induction patch with
  | nil => exact iff_of_true rfl nofun
  | cons field patch ih =>
    obtain ⟨key, value⟩ := field
    rw [coversFields, Bool.and_eq_true, ih, forall_mem_cons]

theorem covers_obj_iff {target : Json} {patch : List (String × Json)} (ht : Sorted target.fields)
    (hp : Sorted patch) :
    covers target (obj patch) = true ↔ ∀ key, match patch.lookup key with
      | none => target.fields.lookup key = none
      | some value => covers ((target.fields.lookup key).getD null) value = true := by
  rw [covers, Bool.and_eq_true, coversFields_iff, all_eq_true]
  constructor
  · rintro ⟨hall, hvalues⟩ key
    cases hlookup : patch.lookup key with
    | none =>
      refine lookup_eq_none fun field hfield heq => ?_
      have hsome := hall field hfield
      rw [heq, hlookup] at hsome
      cases hsome
    | some value => exact hvalues (key, value) (mem_of_lookup hlookup)
  · refine fun h => ⟨fun field hfield => ?_, fun field hfield => ?_⟩
    · by_contra hnone
      rw [Bool.not_eq_true, Option.isSome_eq_false_iff, Option.isNone_iff_eq_none] at hnone
      have hkey := h field.1
      rw [hnone] at hkey
      rw [lookup_of_mem ht hfield] at hkey
      cases hkey
    · have hkey := h field.1
      rw [lookup_of_mem hp hfield] at hkey
      exact hkey

theorem mergePatch_eq_iff {target patch : Json} (ht : Ordered target) (hp : Ordered patch) :
    mergePatch target patch = mergePatch null patch ↔ covers target patch = true := by
  induction hdepth : patch.depth using Nat.strong_induction_on generalizing target patch with
  | _ n ih =>
    cases hobj : patch.isObject with
    | false =>
      rw [mergePatch_of_not_object hobj, mergePatch_of_not_object hobj]
      refine iff_of_true rfl ?_
      cases patch with
      | obj patch => cases hobj
      | _ => rw [covers]; nofun
    | true =>
      cases patch with
      | obj patch =>
        have hsorted : Sorted patch := (ordered_fields hp).1
        have htarget := (ordered_fields ht).1
        have hext : mergeFields target.fields patch = mergeFields [] patch ↔
            ∀ key, (mergeFields target.fields patch).lookup key = (mergeFields [] patch).lookup key :=
          ⟨fun heq key => by rw [heq],
            eq_of_lookup (sorted_mergeFields htarget patch) (sorted_mergeFields sorted_nil patch)⟩
        rw [mergePatch, mergePatch, obj.injEq, show null.fields = [] from rfl, hext,
          covers_obj_iff htarget hsorted]
        refine forall_congr' fun key => ?_
        rw [lookup_mergeFields hsorted, lookup_mergeFields hsorted]
        cases hlookup : patch.lookup key with
        | none => exact Iff.rfl
        | some value =>
          dsimp only
          have hlt : value.depth < n := hdepth ▸ depth_lt_of_find? hlookup
          have hvalue := (ordered_fields hp).2 (key, value) (mem_of_lookup hlookup)
          rw [← ih _ hlt (ordered_getD ht key) hvalue rfl, lookup_nil, Option.getD_none]
          split_ifs with hnull
          · have hnot : value.isObject = false := by
              cases value with
              | obj fields => cases hnull
              | _ => rfl
            rw [mergePatch_of_not_object hnot, mergePatch_of_not_object hnot]
            exact iff_of_true rfl rfl
          · rw [Option.some.injEq]
      | _ => cases hobj

/-! ## Objects -/

/-- An object, with its fields in order. -/
structure Object where
  fields : List (String × Json)
  ordered : Ordered (obj fields)

namespace Object

variable {key : String}

theorem sorted (o : Object) : Sorted o.fields := (ordered_fields o.ordered).1

def lookup (o : Object) (key : String) : Option Json := o.fields.lookup key

variable {v : Json}

theorem ordered_lookup {o : Object} (h : o.lookup key = some v) : Ordered v :=
  (ordered_fields o.ordered).2 (key, v) (mem_of_lookup h)

def empty : Object := ⟨[], .obj sorted_nil nofun⟩

@[simp] theorem lookup_empty (key : String) : empty.lookup key = none := rfl

@[ext] theorem ext_lookup {o p : Object} (h : ∀ key, o.lookup key = p.lookup key) : o = p := by
  obtain ⟨fields, ho⟩ := o
  obtain ⟨fields', hp⟩ := p
  obtain rfl := eq_of_lookup (ordered_fields ho).1 (ordered_fields hp).1 h
  rfl

/-- `merge_patch` of an object with another. -/
def merge (o p : Object) : Object := ⟨mergeFields o.fields p.fields, by
  have h := ordered_mergePatch o.ordered p.ordered
  rwa [mergePatch] at h⟩

/-- `{ ...o, ...p }`. -/
def spread (o p : Object) : Object := ⟨Json.spread o.fields p.fields, by
  refine .obj (o.sorted.insertAll _) fun f hf => ?_
  rcases mem_insertAll hf with hf | hf
  · exact (ordered_fields p.ordered).2 f hf
  · exact (ordered_fields o.ordered).2 f hf⟩

def erase (o : Object) (key : String) : Object := ⟨eraseField key o.fields, by
  refine .obj (List.Pairwise.filter _ o.sorted) fun f hf => ?_
  exact (ordered_fields o.ordered).2 f (mem_of_mem_filter hf)⟩

theorem lookup_merge (o p : Object) (key : String) : (o.merge p).lookup key = match p.lookup key with
    | none => o.lookup key
    | some v => if v.isNull then none else some (mergePatch ((o.lookup key).getD null) v) :=
  lookup_mergeFields p.sorted key

theorem lookup_spread (o p : Object) (key : String) :
    (o.spread p).lookup key = (p.lookup key).or (o.lookup key) :=
  Json.lookup_spread p.sorted key

theorem spread_empty (o : Object) : empty.spread o = o := by
  ext key
  rw [lookup_spread, lookup_empty, Option.or_none]

/-- Objects are merged into one after the other. -/
def mergeAll (o : Object) (ps : List Object) : Object := ps.foldl merge o

/-- Objects are spread over one after the other. -/
def spreadAll (o : Object) (ps : List Object) : Object := ps.foldl spread o

/-- What the last object that has a key has under it. -/
def last (key : String) : List Object → Option Json
  | [] => none
  | o :: os => (last key os).or (o.lookup key)

theorem last_append (key : String) (os ps : List Object) :
    last key (os ++ ps) = (last key ps).or (last key os) := by
  induction os with
  | nil => rw [nil_append, last, Option.or_none]
  | cons o os ih => rw [cons_append, last, ih, last, Option.or_assoc]

theorem last_eq_none_iff {os : List Object} : last key os = none ↔ ∀ o ∈ os, o.lookup key = none := by
  induction os with
  | nil => exact iff_of_true rfl nofun
  | cons o os ih => rw [last, Option.or_eq_none_iff, ih, forall_mem_cons, and_comm]

theorem exists_last {os : List Object} (h : last key os = some v) :
    ∃ before o after, os = before ++ o :: after ∧ o.lookup key = some v ∧ ∀ o' ∈ after, o'.lookup key = none := by
  induction os with
  | nil => cases h
  | cons o os ih =>
    rw [last, Option.or_eq_some_iff] at h
    rcases h with h | ⟨hnone, ho⟩
    · obtain ⟨before, o', after, rfl, ho', hafter⟩ := ih h
      exact ⟨o :: before, o', after, rfl, ho', hafter⟩
    · exact ⟨[], o, os, rfl, ho, last_eq_none_iff.1 hnone⟩

theorem last_of_split {before after : List Object} {o : Object} (ho : o.lookup key = some v)
    (hafter : ∀ o' ∈ after, o'.lookup key = none) : last key (before ++ o :: after) = some v := by
  rw [last_append, last, last_eq_none_iff.2 hafter, ho]
  rfl

theorem split_unique {before before' after after' : List Object} {o o' : Object}
    (heq : before ++ o :: after = before' ++ o' :: after') (ho : o.lookup key ≠ none)
    (ho' : o'.lookup key ≠ none) (hafter : ∀ p ∈ after, p.lookup key = none)
    (hafter' : ∀ p ∈ after', p.lookup key = none) : before = before' ∧ o = o' ∧ after = after' := by
  rcases append_eq_append_iff.1 heq with ⟨more, rfl, hmore⟩ | ⟨more, rfl, hmore⟩
  · cases more with
    | nil =>
      obtain ⟨rfl, rfl⟩ := List.cons.inj hmore
      exact ⟨(append_nil _).symm, rfl, rfl⟩
    | cons p more =>
      obtain ⟨rfl, rfl⟩ := List.cons.inj hmore
      exact absurd (hafter o' (by simp)) ho'
  · cases more with
    | nil =>
      obtain ⟨rfl, rfl⟩ := List.cons.inj hmore
      exact ⟨append_nil _, rfl, rfl⟩
    | cons p more =>
      obtain ⟨rfl, rfl⟩ := List.cons.inj hmore
      exact absurd (hafter' o (by simp)) ho

theorem lookup_spreadAll (o : Object) (ps : List Object) (key : String) :
    (spreadAll o ps).lookup key = (last key ps).or (o.lookup key) := by
  induction ps generalizing o with
  | nil => rfl
  | cons p ps ih => rw [spreadAll, foldl_cons, ← spreadAll, ih, lookup_spread, last, Option.or_assoc]

theorem lookup_mergeAll_of_none (o : Object) {ps : List Object} (h : ∀ p ∈ ps, p.lookup key = none) :
    (mergeAll o ps).lookup key = o.lookup key := by
  induction ps generalizing o with
  | nil => rfl
  | cons p ps ih =>
    rw [forall_mem_cons] at h
    rw [mergeAll, foldl_cons, ← mergeAll, ih _ h.2, lookup_merge, h.1]

/-- **What is found in objects that were merged**: what the last one that has the key makes of what was
merged before it. -/
theorem lookup_mergeAll (o : Object) {before after : List Object} {p : Object}
    (hp : p.lookup key = some v) (hafter : ∀ p' ∈ after, p'.lookup key = none) :
    (mergeAll o (before ++ p :: after)).lookup key =
      if v.isNull then none else some (mergePatch (((mergeAll o before).lookup key).getD null) v) := by
  have hsplit : mergeAll o (before ++ p :: after) = mergeAll ((mergeAll o before).merge p) after := by
    rw [mergeAll, foldl_append, foldl_cons]
    rfl
  rw [hsplit, lookup_mergeAll_of_none _ hafter, lookup_merge, hp]

/-- The last value under each key covers what was merged under it before, as far as that was merged. -/
def Overrides (front back : List Object) : Prop :=
  ∀ key v before o after, front ++ back = before ++ o :: after → o.lookup key = some v →
    (∀ o' ∈ after, o'.lookup key = none) →
      covers (((mergeAll empty (before.take front.length)).lookup key).getD null) v = true

/-- **Merging some objects and then the spread of the others** gives the spread of all exactly when the
last values override what was merged. -/
theorem merge_spreadAll_iff (front back : List Object) :
    (mergeAll empty front).merge (spreadAll empty back) = empty.merge (spreadAll empty (front ++ back)) ↔
      Overrides front back := by
  rw [Overrides, Object.ext_lookup_iff]
  refine forall_congr' fun key => ?_
  rw [lookup_merge, lookup_merge, lookup_spreadAll, lookup_spreadAll, lookup_empty, Option.or_none, Option.or_none]
  cases hlast : last key (front ++ back) with
  | none =>
    have hnone := last_eq_none_iff.1 hlast
    have hfront : ∀ p ∈ front, p.lookup key = none := fun p hp => hnone p (mem_append_left _ hp)
    have hback : last key back = none :=
      last_eq_none_iff.2 fun p hp => hnone p (mem_append_right _ hp)
    rw [hback]
    refine iff_of_true (lookup_mergeAll_of_none _ hfront) fun v before o after heq ho _ => ?_
    rw [hnone o (by rw [heq]; simp)] at ho
    cases ho
  | some v =>
    obtain ⟨before, o, after, heq, ho, hafter⟩ := exists_last hlast
    have hpatch (target : Option Json) (ht : ∀ t ∈ target, Ordered t) :
        ((if v.isNull then none else some (mergePatch (target.getD null) v)) =
          if v.isNull then none else some (mergePatch null v)) ↔ covers (target.getD null) v = true := by
      have htarget : Ordered (target.getD null) := by
        cases target with
        | none => exact .null
        | some t => exact ht t rfl
      rw [← mergePatch_eq_iff htarget (ordered_lookup ho)]
      split_ifs with hnull
      · have hnot : v.isObject = false := by
          cases v with
          | obj fields => cases hnull
          | _ => rfl
        rw [mergePatch_of_not_object hnot, mergePatch_of_not_object hnot]
        exact iff_of_true rfl rfl
      · rw [Option.some.injEq]
    -- the last object that has the key is in one of the two lists
    have hboth : ((match last key back with
          | none => (mergeAll empty front).lookup key
          | some v => if v.isNull then none
              else some (mergePatch (((mergeAll empty front).lookup key).getD null) v)) =
          if v.isNull then none
            else some (mergePatch (((mergeAll empty (before.take front.length)).lookup key).getD null) v)) := by
      rcases append_eq_append_iff.1 heq with ⟨more, rfl, hmore⟩ | ⟨more, rfl, hmore⟩
      · rw [hmore, last_of_split ho hafter, take_left]
      · cases more with
        | nil =>
          rw [nil_append] at hmore
          rw [← hmore, ← nil_append (o :: after), last_of_split ho hafter, append_nil, take_length]
        | cons p more =>
          obtain ⟨rfl, rfl⟩ := List.cons.inj hmore
          have hmerged : ∀ p ∈ more, p.lookup key = none := fun p hp => hafter p (mem_append_left _ hp)
          have hback : last key back = none :=
            last_eq_none_iff.2 fun p hp => hafter p (mem_append_right _ hp)
          rw [hback, lookup_mergeAll empty ho hmerged, take_of_length_le (by simp)]
    rw [hboth, Option.getD_none, hpatch _ fun t ht => ordered_lookup ht]
    constructor
    · intro hcovers v' before' o' after' heq' ho' hafter'
      obtain ⟨rfl, rfl, rfl⟩ := split_unique (heq.symm.trans heq') (by rw [ho]; nofun) (by rw [ho']; nofun)
        hafter hafter'
      rw [ho, Option.some.injEq] at ho'
      rw [← ho']
      exact hcovers
    · exact fun hall => hall v before o after heq ho hafter

end Object

end Json

end RavBot.Lib
