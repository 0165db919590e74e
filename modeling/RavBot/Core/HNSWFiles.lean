import RavBot.Core.HNSWIndex
import RavBot.Lib.ByteStream
import RavBot.Lib.Run
import Mathlib.Data.Finset.Card

/-!
# The label maps of the HNSW index

`HNSWIndex` gives the ids of its vectors labels, and keeps two maps between them and a counter for the
next label.  Here its operations are taken as they are on the maps: labels have 64 bits, `addPoint` may
throw whenever it is called, and the file with the labels is read byte by byte, with whatever it holds.
`Right` says that the maps belong together and to the points of the index, and survive being saved and
loaded; `right_iff_clean` with which calls this is so.

`maxSize` is the length of the longest string that can be allocated.
-/

open List

namespace RavBot.Core

open RavBot.Lib

/-- A `std::string`: its bytes, which could be allocated. -/
abbrev StdString (maxSize : UInt64) := { bs : List UInt8 // bs.length ≤ maxSize.toNat }

def StdString.id {maxSize : UInt64} (s : StdString maxSize) : String := stringOfBytes s.1

/-- A vector that is to be added: its id, its length, and whether `addPoint` stores the point, or
throws. -/
structure Addition (maxSize : UInt64) where
  string : StdString maxSize
  length : Nat
  stored : Bool

def Addition.id {maxSize : UInt64} (v : Addition maxSize) : String := v.string.id

/-- A call.  `loadIndex` finds the index that hnswlib reads from its file, `none` when that throws, and
the bytes of the file with the labels, `none` when there is none. -/
inductive HNSWCall (maxSize : UInt64) where
  | initializeIndex
  | addVector (v : Addition maxSize)
  | addVectorsBatch (vs : List (Addition maxSize))
  | markDeleted (id : StdString maxSize)
  | saveIndex
  | clear
  | loadIndex (file : Option HierarchicalNSW) (mapping : Option (List UInt8))

namespace HNSWFiles

def getLabel (ix : HNSWIndex) (id : String) : HNSWIndex × Nat :=
  match ix.idToLabel.lookup id with
  | some label => (ix, label)
  | none =>
    ({ ix with
        idToLabel := ix.idToLabel.insert id ix.nextLabel
        labelToId := ix.labelToId.insert ix.nextLabel id
        nextLabel := (ix.nextLabel + 1) % 2 ^ 64 }, ix.nextLabel)

/-- `addPoint`, where it does not throw. -/
def storePoint (h : HierarchicalNSW) (label : Nat) : HierarchicalNSW :=
  { h with points := h.points.insert label false }

variable {maxSize : UInt64}

def addVector (ix : HNSWIndex) (v : Addition maxSize) : HNSWIndex :=
  match ix.index with
  | none => ix
  | some h =>
    if v.id = "" ∨ v.length ≠ ix.config.dimension then ix
    else
      let (ix, label) := getLabel ix v.id
      if v.stored then { ix with index := some (storePoint h label) } else ix

/-- `AddVectorsBatch`: what cannot be added is left out. -/
def addVectorsBatch (ix : HNSWIndex) (vs : List (Addition maxSize)) : HNSWIndex :=
  vs.foldl addVector ix

/-- What `SaveIndex` writes for each id. -/
def savedPair (id : String) (label : Nat) : List UInt8 :=
  leBytes 8 (bytesOfString id).length ++ (bytesOfString id ++ leBytes 8 label)

/-- The file with the labels that `SaveIndex` writes. -/
def savedMapping (ix : HNSWIndex) : List UInt8 :=
  leBytes 8 ix.idToLabel.entries.length ++
    (ix.idToLabel.entries.flatMap (fun e => savedPair e.1 e.2) ++ leBytes 8 ix.nextLabel)

/-- `SaveIndex`: the index that hnswlib saves, and the file with the labels. -/
def saveIndex (ix : HNSWIndex) : Option (HierarchicalNSW × List UInt8) :=
  ix.index.map fun h => (h, savedMapping ix)

/-- The string that is read into one of `n` zeros. -/
def readString (n : Nat) (s : ByteStream) : String × ByteStream :=
  let (bs, s) := s.read n
  (stringOfBytes (bs ++ List.replicate (n - bs.length) 0), s)

/-- The loop that reads the labels into the maps.  It throws when a string cannot be allocated: then
there is no stream to go on with. -/
def readLabels (maxSize : UInt64) : Nat → ByteStream → HNSWIndex → HNSWIndex × Option ByteStream
  | 0, s, ix => (ix, some s)
  | count + 1, s, ix =>
    let (idLen, s) := s.readNat 8 0
    if maxSize.toNat < idLen then (ix, none)
    else
      let (id, s) := readString idLen s
      let (label, s) := s.readNat 8 0
      readLabels maxSize count s
        { ix with
          idToLabel := ix.idToLabel.insert id label
          labelToId := ix.labelToId.insert label id }

/-- `LoadIndex`.  An index that is initialized is cleared first. -/
def loadIndex (maxSize : UInt64) (ix : HNSWIndex) (file : Option HierarchicalNSW)
    (mapping : Option (List UInt8)) : HNSWIndex × Bool :=
  let ix := if ix.index.isSome then ix.clear else ix
  if HNSWIndex.knownMetric ix.config.metric then
    match file, mapping with
    | some h, some bytes =>
      let (count, s) := ByteStream.readNat 8 0 (some bytes)
      match readLabels maxSize count s ix with
      | (ix, none) => (ix, false)
      | (ix, some s) =>
        ({ ix with
            index := some h.loadIndex
            nextLabel := (s.readNat 8 ix.nextLabel).1 }, true)
    | _, _ => (ix, false)
  else (ix, false)

/-- What a call does to the index. -/
def apply (ix : HNSWIndex) : HNSWCall maxSize → HNSWIndex
  | .initializeIndex => ix.initializeIndex.1
  | .addVector v => addVector ix v
  | .addVectorsBatch vs => addVectorsBatch ix vs
  | .markDeleted id => (ix.markDeleted id.id).1
  | .saveIndex => ix
  | .clear => ix.clear
  | .loadIndex file mapping => (loadIndex maxSize ix file mapping).1

def step (ix : HNSWIndex) (c : HNSWCall maxSize) : Option HNSWIndex := some (apply ix c)

/-! ## What is to hold -/

/-- The maps are inverse to each other, and their labels are below the next one. -/
structure Numbered (ix : HNSWIndex) : Prop where
  inverse : ∀ id label, ix.idToLabel.lookup id = some label ↔ ix.labelToId.lookup label = some id
  below : ∀ id label, ix.idToLabel.lookup id = some label → label < ix.nextLabel

/-- Besides, all labels have points in the index. -/
structure Labelled (ix : HNSWIndex) : Prop extends Numbered ix where
  pointed : ∀ id label, ix.idToLabel.lookup id = some label →
    ∃ h ∈ ix.index, (h.points.lookup label).isSome

/-- What is saved comes back when it is loaded. -/
def Restored (maxSize : UInt64) (ix : HNSWIndex) : Prop :=
  ∀ file mapping, saveIndex ix = some (file, mapping) →
    ∃ ix', loadIndex maxSize ix (some file) (some mapping) = (ix', true) ∧
      (∀ id, ix'.idToLabel.lookup id = ix.idToLabel.lookup id) ∧
      (∀ label, ix'.labelToId.lookup label = ix.labelToId.lookup label) ∧
      ix'.nextLabel = ix.nextLabel

/-- The label maps are what they should be. -/
structure Right (maxSize : UInt64) (ix : HNSWIndex) : Prop extends Labelled ix where
  restored : Restored maxSize ix

/-- Whether `AddVector` gives the id of a vector a label. -/
def Accepts (ix : HNSWIndex) (v : Addition maxSize) : Prop :=
  ix.index.isSome ∧ v.id ≠ "" ∧ v.length = ix.config.dimension

instance (ix : HNSWIndex) (v : Addition maxSize) : Decidable (Accepts ix v) :=
  inferInstanceAs (Decidable (_ ∧ _))

def accepted (ix : HNSWIndex) (vs : List (Addition maxSize)) : List (Addition maxSize) :=
  vs.filter fun v => Accepts ix v

/-- The ids among them that have no label yet, in the order in which they get one. -/
def newIds (ix : HNSWIndex) (vs : List (Addition maxSize)) : List String :=
  (((accepted ix vs).map (·.id)).filter fun id => ix.idToLabel.lookup id = none).eraseDups

/-- There are labels for the new ids, and each of these labels has a point, be it that a point of the
id is stored, or that there is one already. -/
def CleanBatch (ix : HNSWIndex) (vs : List (Addition maxSize)) : Prop :=
  ix.nextLabel + (newIds ix vs).length < 2 ^ 64 ∧
    ∀ i id, (newIds ix vs)[i]? = some id →
      (∃ v ∈ accepted ix vs, v.id = id ∧ v.stored) ∨
        ∃ h ∈ ix.index, (h.points.lookup (ix.nextLabel + i)).isSome

/-- The ids and labels that a file holds, as far as it can be read, and the rest of the file unless
reading it throws. -/
def filePairs (maxSize : UInt64) : Nat → ByteStream → List (String × Nat) × Option ByteStream
  | 0, s => ([], some s)
  | count + 1, s =>
    let (idLen, s) := s.readNat 8 0
    if maxSize.toNat < idLen then ([], none)
    else
      let (id, s) := readString idLen s
      let (label, s) := s.readNat 8 0
      let (pairs, rest) := filePairs maxSize count s
      ((id, label) :: pairs, rest)

def lastLabel (pairs : List (String × Nat)) (id : String) : Option Nat :=
  (pairs.reverse.find? (·.1 = id)).map (·.2)

def lastId (pairs : List (String × Nat)) (label : Nat) : Option String :=
  (pairs.reverse.find? (·.2 = label)).map (·.1)

/-- A file that reading throws at has no pair before, and one that is read holds ids and labels of
which the last are each other's, and the labels are below the number at its end and have points. -/
def CleanFile (maxSize : UInt64) (h : HierarchicalNSW) (bytes : List UInt8) (next : Nat) : Prop :=
  let (count, s) := ByteStream.readNat 8 0 (some bytes)
  match filePairs maxSize count s with
  | (pairs, none) => pairs = []
  | (pairs, some s) =>
    (∀ id label, lastLabel pairs id = some label ↔ lastId pairs label = some id) ∧
      ∀ id label, lastLabel pairs id = some label →
        label < (s.readNat 8 next).1 ∧ (h.points.lookup label).isSome

/-- The calls that keep the label maps right. -/
def Clean (ix : HNSWIndex) : HNSWCall maxSize → Prop
  | .addVector v => CleanBatch ix [v]
  | .addVectorsBatch vs => CleanBatch ix vs
  | .loadIndex (some h) (some bytes) => HNSWIndex.knownMetric ix.config.metric →
      CleanFile maxSize h bytes (if ix.index.isSome then 0 else ix.nextLabel)
  | _ => True

/-! ## Giving labels -/

variable {ix : HNSWIndex} {h : HierarchicalNSW} {id : String} {v : Addition maxSize}

variable {label : Nat}

theorem getLabel_of_some (hlabel : ix.idToLabel.lookup id = some label) :
    getLabel ix id = (ix, label) := by
  rw [getLabel, hlabel]

theorem getLabel_of_none (hlabel : ix.idToLabel.lookup id = none) :
    getLabel ix id =
      ({ ix with
          idToLabel := ix.idToLabel.insert id ix.nextLabel
          labelToId := ix.labelToId.insert ix.nextLabel id
          nextLabel := (ix.nextLabel + 1) % 2 ^ 64 }, ix.nextLabel) := by
  rw [getLabel, hlabel]

theorem lookup_getLabel (ix : HNSWIndex) (id x : String) :
    (getLabel ix id).1.idToLabel.lookup x =
      if x = id then some (getLabel ix id).2 else ix.idToLabel.lookup x := by
  cases hlabel : ix.idToLabel.lookup id with
  | none => rw [getLabel_of_none hlabel, Table.lookup_insert_ite]
  | some label =>
    rw [getLabel_of_some hlabel]
    split_ifs with hx
    · rw [hx, hlabel]
    · rfl

theorem addVector_of_not_accepts (hv : ¬ Accepts ix v) : addVector ix v = ix := by
  rw [addVector]
  split
  · rfl
  · next h hix =>
      refine if_pos (not_not.1 fun hnot => hv ?_)
      rw [not_or, not_not] at hnot
      exact ⟨by rw [hix]; rfl, hnot⟩

theorem addVector_of_accepts (hix : ix.index = some h) (hv : Accepts ix v) :
    addVector ix v = { (getLabel ix v.id).1 with
      index := some (if v.stored then storePoint h (getLabel ix v.id).2 else h) } := by
  have hsame : (getLabel ix v.id).1.index = some h := by
    rw [getLabel]
    split
    · exact hix
    · exact hix
  rw [addVector, hix]
  dsimp only
  rw [if_neg (not_or.2 ⟨hv.2.1, not_not.2 hv.2.2⟩)]
  split_ifs with hstored
  · rfl
  · rw [← hsame]

theorem isSome_lookup_store (h : HierarchicalNSW) (label l : Nat) (stored : Bool) :
    ((if stored then storePoint h label else h).points.lookup l).isSome ↔
      (h.points.lookup l).isSome ∨ stored = true ∧ l = label := by
  cases stored with
  | false => simp
  | true =>
    rw [if_pos rfl, storePoint, Table.lookup_insert_ite]
    by_cases hl : l = label
    · simp [hl]
    · simp [hl]

theorem numbered_getLabel (hix : Numbered ix)
    (hnext : ix.idToLabel.lookup id = none → ix.nextLabel + 1 < 2 ^ 64) :
    Numbered (getLabel ix id).1 := by
  cases hlabel : ix.idToLabel.lookup id with
  | some label =>
    rw [getLabel_of_some hlabel]
    exact hix
  | none =>
    have hunused (x : String) : ix.idToLabel.lookup x ≠ some ix.nextLabel :=
      fun hx => Nat.lt_irrefl _ (hix.below x _ hx)
    rw [getLabel_of_none hlabel]
    constructor
    · intro x l
      rw [Table.lookup_insert_ite, Table.lookup_insert_ite]
      split_ifs with hx hl hl
      · exact iff_of_true (by rw [hl]) (by rw [hx])
      · rw [Option.some_inj]
        refine iff_of_false (fun heq => hl heq.symm) fun heq => ?_
        rw [hx, ← hix.inverse, hlabel] at heq
        cases heq
      · rw [Option.some_inj, hl]
        exact iff_of_false (hunused x) fun heq => hx heq.symm
      · exact hix.inverse x l
    · intro x l hxl
      dsimp only at hxl ⊢
      rw [Nat.mod_eq_of_lt (hnext hlabel)]
      rw [Table.lookup_insert_ite] at hxl
      split_ifs at hxl with hx
      · rw [← Option.some.inj hxl]
        exact Nat.lt_succ_self _
      · exact Nat.lt_succ_of_lt (hix.below x l hxl)

/-! ## A batch -/

theorem newIds_cons_of_not_accepts (hv : ¬ Accepts ix v) (vs : List (Addition maxSize)) :
    newIds ix (v :: vs) = newIds ix vs := by
  rw [newIds, newIds, accepted, accepted, filter_cons_of_neg (by simpa using hv)]

theorem newIds_cons_of_known (hlabel : ix.idToLabel.lookup v.id = some label)
    (vs : List (Addition maxSize)) : newIds ix (v :: vs) = newIds ix vs := by
  by_cases hv : Accepts ix v
  · rw [newIds, newIds, accepted, accepted, filter_cons_of_pos (by simpa using hv),
      map_cons, filter_cons_of_neg (by simp [hlabel])]
  · exact newIds_cons_of_not_accepts hv vs

variable {ix' : HNSWIndex}

theorem accepted_congr (hconfig : ix'.config = ix.config)
    (hindex : ix'.index.isSome = ix.index.isSome) (vs : List (Addition maxSize)) :
    accepted ix' vs = accepted ix vs := by
  rw [accepted, accepted]
  refine filter_congr fun v _ => ?_
  rw [decide_eq_decide, Accepts, Accepts, hconfig, hindex]

theorem addVector_config (ix : HNSWIndex) (v : Addition maxSize) :
    (addVector ix v).config = ix.config ∧
      (addVector ix v).index.isSome = ix.index.isSome := by
  by_cases hv : Accepts ix v
  · obtain ⟨h, hix⟩ := Option.isSome_iff_exists.1 hv.1
    rw [addVector_of_accepts hix hv, hix]
    refine ⟨?_, rfl⟩
    dsimp only
    rw [getLabel]
    split
    · rfl
    · rfl
  · rw [addVector_of_not_accepts hv]
    exact ⟨rfl, rfl⟩

theorem newIds_cons_of_new (hv : Accepts ix v) (hlabel : ix.idToLabel.lookup v.id = none)
    (vs : List (Addition maxSize)) :
    newIds ix (v :: vs) = v.id :: newIds (addVector ix v) vs := by
  obtain ⟨h, hix⟩ := Option.isSome_iff_exists.1 hv.1
  obtain ⟨hconfig, hindex⟩ := addVector_config ix v
  rw [newIds, newIds, accepted_congr hconfig hindex, accepted, accepted,
    filter_cons_of_pos (by simpa using hv), map_cons,
    filter_cons_of_pos (by simp [hlabel]), eraseDups_cons, filter_filter]
  congr 2
  refine filter_congr fun x _ => ?_
  rw [addVector_of_accepts hix hv]
  dsimp only
  rw [lookup_getLabel]
  by_cases hx : x = v.id
  · simp [hx]
  · simp [hx]

/-- What a batch does to an index with enough labels: the new ids get the next labels in turn, and the
labels of the ids of which a point was stored have points. -/
structure Batched (ix : HNSWIndex) (vs : List (Addition maxSize)) (ix' : HNSWIndex) : Prop where
  numbered : Numbered ix'
  labels : ∀ id label, ix'.idToLabel.lookup id = some label ↔
    ix.idToLabel.lookup id = some label ∨
      ∃ i, (newIds ix vs)[i]? = some id ∧ label = ix.nextLabel + i
  points : ∀ h, ix.index = some h → ∃ h' ∈ ix'.index, ∀ label,
    (h'.points.lookup label).isSome ↔ (h.points.lookup label).isSome ∨
      ∃ v ∈ accepted ix vs, v.stored ∧ ix'.idToLabel.lookup v.id = some label
  noIndex : ix.index = none → ix'.index = none

theorem addVector_of_known (hix : ix.index = some h) (hv : Accepts ix v)
    (hlabel : ix.idToLabel.lookup v.id = some label) :
    addVector ix v = { ix with index := some (if v.stored then storePoint h label else h) } := by
  rw [addVector_of_accepts hix hv, getLabel_of_some hlabel]

theorem Batched.cons_of_known {vs : List (Addition maxSize)}
    (hix : ix.index = some h) (hv : Accepts ix v)
    (hlabel : ix.idToLabel.lookup v.id = some label) (hbatch : Batched (addVector ix v) vs ix') :
    Batched ix (v :: vs) ix' := by
  obtain ⟨hconfig, hindex⟩ := addVector_config ix v
  have heq := addVector_of_known hix hv hlabel
  have hids : newIds (addVector ix v) vs = newIds ix vs := by
    rw [newIds, newIds, accepted_congr hconfig hindex, heq]
  have hlabels := hbatch.labels
  rw [hids, heq] at hlabels
  refine ⟨hbatch.numbered, ?_, fun h₀ hix₀ => ?_, fun hnone => ?_⟩
  · rw [newIds_cons_of_known hlabel]
    exact hlabels
  · obtain rfl : h = h₀ := Option.some.inj (hix.symm.trans hix₀)
    obtain ⟨h', hix', hpoints⟩ := hbatch.points _ (by rw [heq])
    refine ⟨h', hix', fun l => ?_⟩
    have hknown : ix'.idToLabel.lookup v.id = some label := (hlabels _ _).2 (.inl hlabel)
    rw [hpoints, isSome_lookup_store, accepted_congr hconfig hindex, accepted, accepted,
      filter_cons_of_pos (by simpa using hv), or_assoc]
    refine or_congr_right ?_
    simp only [mem_cons, or_and_right, exists_or, exists_eq_left, hknown, Option.some.injEq,
      @eq_comm _ label]
  · rw [hix] at hnone
    cases hnone

theorem Batched.cons_of_new {vs : List (Addition maxSize)}
    (hnext : ix.nextLabel + 1 < 2 ^ 64) (hix : ix.index = some h) (hv : Accepts ix v)
    (hlabel : ix.idToLabel.lookup v.id = none) (hbatch : Batched (addVector ix v) vs ix') :
    Batched ix (v :: vs) ix' := by
  obtain ⟨hconfig, hindex⟩ := addVector_config ix v
  have heq := addVector_of_accepts hix hv
  rw [getLabel_of_none hlabel, Nat.mod_eq_of_lt hnext] at heq
  have hlookup (x : String) : (addVector ix v).idToLabel.lookup x =
      if x = v.id then some ix.nextLabel else ix.idToLabel.lookup x := by
    rw [heq, Table.lookup_insert_ite]
  have hnext' : (addVector ix v).nextLabel = ix.nextLabel + 1 := by rw [heq]
  have hindex' : (addVector ix v).index =
      some (if v.stored then storePoint h ix.nextLabel else h) := by rw [heq]
  have hlabels := hbatch.labels
  simp only [hlookup, hnext'] at hlabels
  refine ⟨hbatch.numbered, fun x l => ?_, fun h₀ hix₀ => ?_, fun hnone => ?_⟩
  · rw [hlabels, newIds_cons_of_new hv hlabel]
    constructor
    · rintro (hx | ⟨i, hi, rfl⟩)
      · split_ifs at hx with hid
        · exact .inr ⟨0, by rw [hid]; rfl, (Option.some.inj hx).symm⟩
        · exact .inl hx
      · exact .inr ⟨i + 1, hi, by omega⟩
    · rintro (hx | ⟨i, hi, rfl⟩)
      · refine .inl ?_
        rw [if_neg, hx]
        rintro rfl
        rw [hlabel] at hx
        cases hx
      · cases i with
        | zero =>
          rw [getElem?_cons_zero] at hi
          exact .inl (if_pos (Option.some.inj hi).symm)
        | succ i => exact .inr ⟨i, hi, by omega⟩
  · obtain rfl : h = h₀ := Option.some.inj (hix.symm.trans hix₀)
    obtain ⟨h', hix', hpoints⟩ := hbatch.points _ hindex'
    refine ⟨h', hix', fun l => ?_⟩
    have hknown : ix'.idToLabel.lookup v.id = some ix.nextLabel :=
      (hlabels _ _).2 (.inl (if_pos rfl))
    rw [hpoints, isSome_lookup_store, accepted_congr hconfig hindex, accepted, accepted,
      filter_cons_of_pos (by simpa using hv), or_assoc]
    refine or_congr_right ?_
    simp only [mem_cons, or_and_right, exists_or, exists_eq_left, hknown, Option.some.injEq,
      @eq_comm _ ix.nextLabel]
  · rw [hix] at hnone
    cases hnone

theorem batched_addVectorsBatch (hix : Numbered ix) {vs : List (Addition maxSize)}
    (hroom : ix.nextLabel + (newIds ix vs).length < 2 ^ 64) :
    Batched ix vs (addVectorsBatch ix vs) := by
  induction vs generalizing ix with
  | nil =>
    refine ⟨hix, fun id label => ?_, fun h hix' => ⟨h, hix', fun label => ?_⟩, id⟩
    · simp [addVectorsBatch, newIds, accepted]
    · simp [accepted]
  | cons v vs ih =>
    have hcons : addVectorsBatch ix (v :: vs) = addVectorsBatch (addVector ix v) vs := rfl
    rw [hcons]
    by_cases hv : Accepts ix v
    · obtain ⟨h, hindex⟩ := Option.isSome_iff_exists.1 hv.1
      have heq := addVector_of_accepts hindex hv
      cases hlabel : ix.idToLabel.lookup v.id with
      | some label =>
        have hkept := addVector_of_known hindex hv hlabel
        have hids : newIds (addVector ix v) vs = newIds ix vs := by
          obtain ⟨hconfig, hsome⟩ := addVector_config ix v
          rw [newIds, newIds, accepted_congr hconfig hsome, hkept]
        refine .cons_of_known hindex hv hlabel (ih ?_ ?_)
        · rw [hkept]
          exact ⟨hix.inverse, hix.below⟩
        · rw [hids, hkept]
          rwa [newIds_cons_of_known hlabel] at hroom
      | none =>
        rw [newIds_cons_of_new hv hlabel, length_cons] at hroom
        have hnext : ix.nextLabel + 1 < 2 ^ 64 := by omega
        refine .cons_of_new hnext hindex hv hlabel (ih ?_ ?_)
        · rw [heq]
          have hnumbered : Numbered (getLabel ix v.id).1 := numbered_getLabel hix fun _ => hnext
          exact ⟨hnumbered.inverse, hnumbered.below⟩
        · have hnext' : (addVector ix v).nextLabel = ix.nextLabel + 1 := by
            rw [heq, getLabel_of_none hlabel]
            exact Nat.mod_eq_of_lt hnext
          omega
    · have hbatch := ih hix (by rwa [newIds_cons_of_not_accepts hv] at hroom)
      have haccepted : accepted ix (v :: vs) = accepted ix vs := by
        rw [accepted, accepted, filter_cons_of_neg (by simpa using hv)]
      rw [addVector_of_not_accepts hv]
      refine ⟨hbatch.numbered, ?_, ?_, hbatch.noIndex⟩
      · rw [newIds_cons_of_not_accepts hv]
        exact hbatch.labels
      · rw [haccepted]
        exact hbatch.points

theorem lookup_addVectorsBatch (hlabel : ix.idToLabel.lookup id = some label)
    (vs : List (Addition maxSize)) :
    (addVectorsBatch ix vs).idToLabel.lookup id = some label := by
  induction vs generalizing ix with
  | nil => exact hlabel
  | cons v vs ih =>
    refine ih ?_
    by_cases hv : Accepts ix v
    · obtain ⟨h, hindex⟩ := Option.isSome_iff_exists.1 hv.1
      rw [addVector_of_accepts hindex hv]
      dsimp only
      rw [lookup_getLabel]
      split_ifs with hid
      · rw [← hid, getLabel_of_some hlabel]
      · exact hlabel
    · rw [addVector_of_not_accepts hv]
      exact hlabel

theorem exists_last_of_full (hnext : ix.nextLabel < 2 ^ 64) {vs : List (Addition maxSize)}
    (hfull : 2 ^ 64 ≤ ix.nextLabel + (newIds ix vs).length) :
    ∃ id, (addVectorsBatch ix vs).idToLabel.lookup id = some (2 ^ 64 - 1) := by
  induction vs generalizing ix with
  | nil =>
    have hnone : newIds ix ([] : List (Addition maxSize)) = [] := rfl
    rw [hnone, length_nil] at hfull
    omega
  | cons v vs ih =>
    have hcons : addVectorsBatch ix (v :: vs) = addVectorsBatch (addVector ix v) vs := rfl
    rw [hcons]
    by_cases hv : Accepts ix v
    · obtain ⟨h, hindex⟩ := Option.isSome_iff_exists.1 hv.1
      have heq := addVector_of_accepts hindex hv
      cases hlabel : ix.idToLabel.lookup v.id with
      | some label =>
        have hkept := addVector_of_known hindex hv hlabel
        have hids : newIds (addVector ix v) vs = newIds ix vs := by
          obtain ⟨hconfig, hsome⟩ := addVector_config ix v
          rw [newIds, newIds, accepted_congr hconfig hsome, hkept]
        rw [newIds_cons_of_known hlabel] at hfull
        exact ih (by rw [hkept]; exact hnext) (by rw [hids, hkept]; exact hfull)
      | none =>
        rw [newIds_cons_of_new hv hlabel, length_cons] at hfull
        by_cases hlast : ix.nextLabel + 1 = 2 ^ 64
        · refine ⟨v.id, lookup_addVectorsBatch ?_ vs⟩
          rw [heq]
          dsimp only
          rw [lookup_getLabel, if_pos rfl, getLabel_of_none hlabel, Option.some.injEq]
          omega
        · have hnext' : (addVector ix v).nextLabel = ix.nextLabel + 1 := by
            rw [heq, getLabel_of_none hlabel]
            exact Nat.mod_eq_of_lt (by omega)
          exact ih (by omega) (by omega)
    · rw [addVector_of_not_accepts hv]
      rw [newIds_cons_of_not_accepts hv] at hfull
      exact ih hnext hfull

/-! ## What always holds -/

/-- The ids are strings that could be allocated, the next label has 64 bits, and an index that is
initialized has a known metric. -/
structure Bounded (maxSize : UInt64) (ix : HNSWIndex) : Prop where
  strings : ∀ id label, ix.idToLabel.lookup id = some label →
    label < 2 ^ 64 ∧ ∃ s : StdString maxSize, s.id = id
  next : ix.nextLabel < 2 ^ 64
  metric : ix.index.isSome → HNSWIndex.knownMetric ix.config.metric

theorem bounded_create (config : HNSWConfig) : Bounded maxSize (HNSWIndex.create config) where
  strings _ _ h := by cases h
  next := Nat.two_pow_pos 64
  metric := nofun

theorem Bounded.addVector (hix : Bounded maxSize ix) (v : Addition maxSize) :
    Bounded maxSize (addVector ix v) := by
  by_cases hv : Accepts ix v
  · obtain ⟨h, hindex⟩ := Option.isSome_iff_exists.1 hv.1
    have hconfig := (addVector_config ix v).1
    have hlabel : (getLabel ix v.id).2 < 2 ^ 64 ∧ (getLabel ix v.id).1.nextLabel < 2 ^ 64 := by
      cases hknown : ix.idToLabel.lookup v.id with
      | some label =>
        rw [getLabel_of_some hknown]
        exact ⟨(hix.strings _ _ hknown).1, hix.next⟩
      | none =>
        rw [getLabel_of_none hknown]
        exact ⟨hix.next, Nat.mod_lt _ (by decide)⟩
    refine ⟨fun id label hid => ?_, ?_, fun _ => hconfig ▸ hix.metric hv.1⟩
    · rw [addVector_of_accepts hindex hv] at hid
      dsimp only at hid
      rw [lookup_getLabel] at hid
      split_ifs at hid with heq
      · rw [← Option.some.inj hid, heq]
        exact ⟨hlabel.1, v.string, rfl⟩
      · exact hix.strings id label hid
    · rw [addVector_of_accepts hindex hv]
      exact hlabel.2
  · rw [addVector_of_not_accepts hv]
    exact hix

theorem Bounded.addVectorsBatch (hix : Bounded maxSize ix) (vs : List (Addition maxSize)) :
    Bounded maxSize (addVectorsBatch ix vs) := by
  induction vs generalizing ix with
  | nil => exact hix
  | cons v vs ih => exact ih (hix.addVector v)

theorem labelled_addVectorsBatch_iff (hbounded : Bounded maxSize ix) (hix : Labelled ix)
    (vs : List (Addition maxSize)) : Labelled (addVectorsBatch ix vs) ↔ CleanBatch ix vs := by
  by_cases hroom : ix.nextLabel + (newIds ix vs).length < 2 ^ 64
  · rw [CleanBatch, and_iff_right hroom]
    have hbatch := batched_addVectorsBatch hix.toNumbered hroom
    have hnew (i : Nat) (id : String) (hi : (newIds ix vs)[i]? = some id) :
        (addVectorsBatch ix vs).idToLabel.lookup id = some (ix.nextLabel + i) :=
      (hbatch.labels id _).2 (.inr ⟨i, hi, rfl⟩)
    -- an accepted vector whose label is that of an id has this id
    have hsame (i : Nat) (id x : String) (hi : (newIds ix vs)[i]? = some id)
        (hx : (addVectorsBatch ix vs).idToLabel.lookup x = some (ix.nextLabel + i)) : x = id := by
      rw [hbatch.numbered.inverse, (hbatch.numbered.inverse _ _).1 (hnew i id hi)] at hx
      exact (Option.some.inj hx).symm
    cases hindex : ix.index with
    | none =>
      have hnone : newIds ix vs = [] := by
        have hrefused : accepted ix vs = [] := by
          rw [accepted, filter_eq_nil_iff]
          intro v _
          simp [Accepts, hindex]
        rw [newIds, hrefused]
        rfl
      refine iff_of_true ⟨hbatch.numbered, fun id label hid => ?_⟩ fun i id hi => ?_
      · rcases (hbatch.labels id label).1 hid with hold | ⟨i, hi, -⟩
        · obtain ⟨h, hh, -⟩ := hix.pointed id label hold
          rw [hindex] at hh
          cases hh
        · rw [hnone] at hi
          cases hi
      · rw [hnone] at hi
        cases hi
    | some h =>
      obtain ⟨h', hindex', hpoints⟩ := hbatch.points h hindex
      constructor
      · intro hlabelled i id hi
        obtain ⟨h'', hh, hpoint⟩ := hlabelled.pointed id _ (hnew i id hi)
        obtain rfl := Option.some.inj (hindex'.symm.trans hh)
        rcases (hpoints _).1 hpoint with hold | ⟨v, hv, hstored, hlabel⟩
        · exact .inr ⟨h, rfl, hold⟩
        · exact .inl ⟨v, hv, hsame i id v.id hi hlabel, hstored⟩
      · intro hclean
        refine ⟨hbatch.numbered, fun id label hid => ⟨h', hindex', (hpoints label).2 ?_⟩⟩
        rcases (hbatch.labels id label).1 hid with hold | ⟨i, hi, rfl⟩
        · obtain ⟨h₀, hh, hpoint⟩ := hix.pointed id label hold
          rw [hindex] at hh
          obtain rfl := Option.some.inj hh
          exact .inl hpoint
        · rcases hclean i id hi with ⟨v, hv, rfl, hstored⟩ | ⟨h₀, hh, hpoint⟩
          · exact .inr ⟨v, hv, hstored, hid⟩
          · obtain rfl := Option.some.inj hh
            exact .inl hpoint
  · -- the last label is not below the next one
    refine iff_of_false (fun hlabelled => ?_) fun hclean => hroom hclean.1
    obtain ⟨id, hid⟩ := exists_last_of_full hbounded.next (Nat.not_lt.1 hroom)
    have hbelow := hlabelled.below id _ hid
    have hnext := (hbounded.addVectorsBatch vs).next
    omega

/-! ## Loading -/

def insertPairs (ix : HNSWIndex) (pairs : List (String × Nat)) : HNSWIndex :=
  { ix with
    idToLabel := pairs.foldl (fun t p => AList.insert p.1 p.2 t) ix.idToLabel
    labelToId := pairs.foldl (fun t p => AList.insert p.2 p.1 t) ix.labelToId }

theorem readLabels_eq (maxSize : UInt64) (count : Nat) (s : ByteStream) (ix : HNSWIndex) :
    readLabels maxSize count s ix =
      (insertPairs ix (filePairs maxSize count s).1, (filePairs maxSize count s).2) := by
  induction count generalizing s ix with
  | zero => rfl
  | succ count ih =>
    rw [readLabels, filePairs]
    dsimp only
    split_ifs with hlong
    · rfl
    · rw [ih]
      rfl

theorem exists_readString {n : Nat} (hn : n ≤ maxSize.toNat) (s : ByteStream) :
    ∃ str : StdString maxSize, str.id = (readString n s).1 := by
  refine ⟨⟨(s.read n).1 ++ List.replicate (n - (s.read n).1.length) 0, ?_⟩, rfl⟩
  rw [length_append, length_replicate, Nat.add_sub_cancel' (ByteStream.length_read_le n s)]
  exact hn

theorem mem_filePairs {count : Nat} {s : ByteStream} {p : String × Nat}
    (hp : p ∈ (filePairs maxSize count s).1) :
    p.2 < 2 ^ 64 ∧ ∃ str : StdString maxSize, str.id = p.1 := by
  induction count generalizing s with
  | zero => cases hp
  | succ count ih =>
    rw [filePairs] at hp
    dsimp only at hp
    split_ifs at hp with hlong
    · cases hp
    · rcases mem_cons.1 hp with rfl | hp
      · exact ⟨ByteStream.readNat_lt (by decide) _, exists_readString (Nat.not_lt.1 hlong) _⟩
      · exact ih hp

theorem lookup_insertPairs {ix : HNSWIndex} (hids : ix.idToLabel = ∅) (hlabels : ix.labelToId = ∅)
    (pairs : List (String × Nat)) :
    (∀ id, (insertPairs ix pairs).idToLabel.lookup id = lastLabel pairs id) ∧
      ∀ label, (insertPairs ix pairs).labelToId.lookup label = lastId pairs label := by
  constructor
  · intro id
    rw [insertPairs]
    dsimp only
    rw [Table.lookup_foldl_insert_last, hids, AList.lookup_empty, Option.or_none, lastLabel]
  · intro label
    rw [insertPairs]
    dsimp only
    rw [Table.lookup_foldl_insert_last, hlabels, AList.lookup_empty, Option.or_none, lastId]

theorem mem_of_lastLabel {pairs : List (String × Nat)} {id : String}
    (h : lastLabel pairs id = some label) : (id, label) ∈ pairs := by
  rw [lastLabel, Option.map_eq_some_iff] at h
  obtain ⟨p, hp, rfl⟩ := h
  have hid := find?_some hp
  rw [decide_eq_true_eq] at hid
  rw [← hid]
  exact mem_reverse.1 (mem_of_find?_eq_some hp)

theorem exists_lastLabel {pairs : List (String × Nat)} {p : String × Nat} (hp : p ∈ pairs) :
    ∃ label, lastLabel pairs p.1 = some label := by
  have hsome : (pairs.reverse.find? (·.1 = p.1)).isSome := by
    rw [find?_isSome]
    exact ⟨p, mem_reverse.2 hp, by simp⟩
  obtain ⟨q, hq⟩ := Option.isSome_iff_exists.1 hsome
  exact ⟨q.2, by rw [lastLabel, hq]; rfl⟩

theorem loadIndex_of_missing {file : Option HierarchicalNSW} {mapping : Option (List UInt8)}
    (h : file = none ∨ mapping = none) : loadIndex maxSize ix file mapping =
      (if ix.index.isSome then ix.clear else ix, false) := by
  unfold loadIndex
  dsimp only
  rcases h with rfl | rfl
  · dsimp only
    rw [ite_self]
  · cases file with
    | none => rw [ite_self]
    | some file => rw [ite_self]

theorem empty_of_labelled (hix : Labelled ix) :
    (if ix.index.isSome then ix.clear else ix).idToLabel = ∅ ∧
      (if ix.index.isSome then ix.clear else ix).labelToId = ∅ := by
  split_ifs with hsome
  · exact ⟨rfl, rfl⟩
  · have hnone (id : String) (label : Nat) : ix.idToLabel.lookup id ≠ some label := by
      intro hid
      obtain ⟨h, hh, -⟩ := hix.pointed id label hid
      exact hsome (by rw [hh]; rfl)
    constructor
    · refine AList.ext (eq_nil_iff_forall_not_mem.2 fun e he => ?_)
      exact hnone e.1 e.2 (AList.mem_lookup_iff.2 he)
    · refine AList.ext (eq_nil_iff_forall_not_mem.2 fun e he => ?_)
      exact hnone e.2 e.1 ((hix.inverse e.2 e.1).2 (AList.mem_lookup_iff.2 he))

theorem labelled_of_not_loaded (hix : Labelled ix) :
    Labelled (if ix.index.isSome then ix.clear else ix) := by
  obtain ⟨hids, hlabels⟩ := empty_of_labelled hix
  refine ⟨⟨fun id label => ?_, fun id label hid => ?_⟩, fun id label hid => ?_⟩
  · rw [hids, hlabels, AList.lookup_empty, AList.lookup_empty]
    exact iff_of_false nofun nofun
  · rw [hids] at hid
    cases hid
  · rw [hids] at hid
    cases hid

theorem labelled_loadIndex_iff (hix : Labelled ix) (h : HierarchicalNSW) (bytes : List UInt8) :
    Labelled (loadIndex maxSize ix (some h) (some bytes)).1 ↔
      (HNSWIndex.knownMetric ix.config.metric →
        CleanFile maxSize h bytes (if ix.index.isSome then 0 else ix.nextLabel)) := by
  have hstart := labelled_of_not_loaded hix
  obtain ⟨hids, hlabels⟩ := empty_of_labelled hix
  have hconfig : (if ix.index.isSome then ix.clear else ix).config = ix.config := by
    split_ifs <;> rfl
  have hnext : (if ix.index.isSome then ix.clear else ix).nextLabel =
      if ix.index.isSome then 0 else ix.nextLabel := by
    split_ifs <;> rfl
  have hindex : (if ix.index.isSome then ix.clear else ix).index = none := by
    split_ifs with hsome
    · rfl
    · exact Option.not_isSome_iff_eq_none.1 hsome
  rw [loadIndex]
  dsimp only
  rw [← hnext, hconfig]
  generalize (if ix.index.isSome then ix.clear else ix) = start at *
  by_cases hmetric : HNSWIndex.knownMetric ix.config.metric = true
  · rw [if_pos hmetric, forall_prop_of_true hmetric, CleanFile, readLabels_eq]
    dsimp only
    rcases filePairs maxSize (ByteStream.readNat 8 0 (some bytes)).1
      (ByteStream.readNat 8 0 (some bytes)).2 with ⟨pairs, _ | s⟩
    · -- reading throws, and the pairs that were read stay without an index
      obtain ⟨hlastLabel, -⟩ := lookup_insertPairs hids hlabels pairs
      dsimp only
      constructor
      · intro hlabelled
        rw [eq_nil_iff_forall_not_mem]
        intro p hp
        obtain ⟨label, hlabel⟩ := exists_lastLabel hp
        obtain ⟨h', hh, -⟩ := hlabelled.pointed p.1 label ((hlastLabel p.1).trans hlabel)
        rw [insertPairs, hindex] at hh
        cases hh
      · rintro rfl
        exact hstart
    · obtain ⟨hlastLabel, hlastId⟩ := lookup_insertPairs hids hlabels pairs
      dsimp only
      constructor
      · intro hlabelled
        refine ⟨fun id label => ?_, fun id label hlabel => ?_⟩
        · rw [← hlastLabel, ← hlastId]
          exact hlabelled.inverse id label
        · rw [← hlastLabel] at hlabel
          obtain ⟨h', hh, hpoint⟩ := hlabelled.pointed id label hlabel
          rw [← Option.some.inj hh] at hpoint
          exact ⟨hlabelled.below id label hlabel, hpoint⟩
      · rintro ⟨hinverse, hpoints⟩
        refine ⟨⟨fun id label => ?_, fun id label hlabel => ?_⟩, fun id label hlabel => ?_⟩
        · rw [hlastLabel, hlastId]
          exact hinverse id label
        · rw [hlastLabel] at hlabel
          exact (hpoints id label hlabel).1
        · rw [hlastLabel] at hlabel
          exact ⟨h.loadIndex, rfl, (hpoints id label hlabel).2⟩
  · rw [if_neg hmetric]
    exact iff_of_true hstart fun hknown => absurd hknown hmetric

/-! ## Saving and loading again -/

theorem filePairs_saved (rest : List UInt8) {entries : List (Sigma fun _ : String => Nat)}
    (hentries : ∀ e ∈ entries, e.2 < 2 ^ 64 ∧ ∃ s : StdString maxSize, s.id = e.1) :
    filePairs maxSize entries.length
        (some (entries.flatMap (fun e => savedPair e.1 e.2) ++ rest)) =
      (entries.map fun e => (e.1, e.2), some (some rest)) := by
  induction entries with
  | nil => rfl
  | cons e entries ih =>
    obtain ⟨⟨hlabel, str, hstr⟩, hrest⟩ := forall_mem_cons.1 hentries
    have hbytes : bytesOfString e.1 = str.1 := by
      rw [← hstr, StdString.id, bytesOfString_stringOfBytes]
    have hlength : str.1.length < 256 ^ 8 := Nat.lt_of_le_of_lt str.2 maxSize.toNat_lt
    rw [flatMap_cons, savedPair, hbytes, append_assoc, append_assoc,
      append_assoc, length_cons, filePairs,
      ByteStream.readNat_leBytes hlength (by decide)]
    dsimp only
    rw [if_neg (Nat.not_lt.2 str.2), readString, ByteStream.read_append]
    dsimp only
    rw [ByteStream.readNat_leBytes hlabel (by decide), ih hrest, Nat.sub_self,
      replicate_zero, append_nil, ← StdString.id, hstr]
    rfl

theorem nodup_labels (hix : Numbered ix) : (ix.idToLabel.entries.map fun e => e.2).Nodup := by
  refine List.Nodup.map_on ?_ (List.NodupKeys.nodup ix.idToLabel.nodupKeys)
  rintro ⟨id, label⟩ he ⟨id', label'⟩ he' rfl
  have hid := (hix.inverse id label).1 (AList.mem_lookup_iff.2 he)
  rw [(hix.inverse id' label).1 (AList.mem_lookup_iff.2 he')] at hid
  obtain rfl := Option.some.inj hid
  rfl

theorem length_entries_le (hix : Numbered ix) : ix.idToLabel.entries.length ≤ ix.nextLabel := by
  have hsubset : (ix.idToLabel.entries.map fun e => e.2) ⊆ List.range ix.nextLabel := by
    intro label hlabel
    obtain ⟨e, he, rfl⟩ := mem_map.1 hlabel
    exact mem_range.2 (hix.below e.1 e.2 (AList.mem_lookup_iff.2 he))
  calc ix.idToLabel.entries.length
      = (ix.idToLabel.entries.map fun e => e.2).length := (length_map _).symm
    _ ≤ (List.range ix.nextLabel).length :=
        (subperm_of_subset (nodup_labels hix) hsubset).length_le
    _ = ix.nextLabel := length_range

theorem lookup_insertPairs_entries (hix : Numbered ix) (config : HNSWConfig) :
    let pairs := ix.idToLabel.entries.map fun e => (e.1, e.2)
    (∀ id, (insertPairs (.create config) pairs).idToLabel.lookup id = ix.idToLabel.lookup id) ∧
      ∀ label, (insertPairs (.create config) pairs).labelToId.lookup label =
        ix.labelToId.lookup label := by
  have hmem (id : String) (label : Nat) :
      (∃ p ∈ ix.idToLabel.entries.map fun e => (e.1, e.2), p.1 = id ∧ p.2 = label) ↔
        ix.idToLabel.lookup id = some label := by
    refine Iff.trans ?_ AList.mem_lookup_iff.symm
    constructor
    · rintro ⟨p, hp, rfl, rfl⟩
      obtain ⟨e, he, rfl⟩ := mem_map.1 hp
      exact he
    · intro he
      exact ⟨_, mem_map.2 ⟨_, he, rfl⟩, rfl, rfl⟩
  constructor
  · intro id
    apply Option.ext
    intro label
    have hkeys : ((ix.idToLabel.entries.map fun e => (e.1, e.2)).map Prod.fst).Nodup := by
      rw [map_map]
      exact ix.idToLabel.nodupKeys
    rw [insertPairs, HNSWIndex.create]
    dsimp only
    rw [Table.lookup_foldl_insert Prod.fst Prod.snd hkeys, hmem, AList.lookup_empty]
    exact or_iff_left fun h => Option.some_ne_none _ h.2.symm
  · intro label
    apply Option.ext
    intro id
    have hlabels : ((ix.idToLabel.entries.map fun e => (e.1, e.2)).map Prod.snd).Nodup := by
      rw [map_map]
      exact nodup_labels hix
    rw [insertPairs, HNSWIndex.create]
    dsimp only
    rw [Table.lookup_foldl_insert Prod.snd Prod.fst hlabels, AList.lookup_empty, ← hix.inverse,
      ← hmem]
    simp only [and_comm (a := _ = label)]
    exact or_iff_left fun h => Option.some_ne_none _ h.2.symm

theorem restored_of_labelled (hbounded : Bounded maxSize ix) (hix : Labelled ix) :
    Restored maxSize ix := by
  intro file mapping hsaved
  rw [saveIndex] at hsaved
  obtain ⟨h, hindex, heq⟩ := Option.map_eq_some_iff.1 hsaved
  cases heq
  have hsome : ix.index.isSome = true := by rw [hindex]; rfl
  have hcount : ix.idToLabel.entries.length < 256 ^ 8 :=
    Nat.lt_of_le_of_lt (length_entries_le hix.toNumbered) hbounded.next
  have hentries : ∀ e ∈ ix.idToLabel.entries, e.2 < 2 ^ 64 ∧ ∃ s : StdString maxSize, s.id = e.1 :=
    fun e he => hbounded.strings e.1 e.2 (AList.mem_lookup_iff.2 he)
  have hpairs := filePairs_saved (leBytes 8 ix.nextLabel) hentries
  have hnext : ByteStream.readNat 8 0 (some (leBytes 8 ix.nextLabel)) = (ix.nextLabel, some []) := by
    have hwidth : ix.nextLabel < 256 ^ 8 := hbounded.next
    have hread := ByteStream.readNat_leBytes hwidth (Nat.zero_lt_of_lt hwidth) []
    rwa [append_nil] at hread
  obtain ⟨hids, hlabels⟩ := lookup_insertPairs_entries hix.toNumbered ix.config
  have hload : loadIndex maxSize ix (some file) (some (savedMapping ix)) =
      ({ insertPairs (.create ix.config) (ix.idToLabel.entries.map fun e => (e.1, e.2)) with
          index := some file.loadIndex
          nextLabel := ix.nextLabel }, true) := by
    have hmetric : HNSWIndex.knownMetric ix.clear.config.metric = true := hbounded.metric hsome
    rw [loadIndex, if_pos hsome]
    dsimp only
    rw [if_pos hmetric, savedMapping, ByteStream.readNat_leBytes hcount (by decide)]
    dsimp only
    rw [readLabels_eq, hpairs]
    dsimp only
    rw [show (insertPairs ix.clear _).nextLabel = 0 from rfl, hnext]
    rfl
  exact ⟨_, hload, hids, hlabels, rfl⟩

/-! ## Runs -/

theorem Bounded.insertPairs (hix : Bounded maxSize ix) (count : Nat) (s : ByteStream) :
    Bounded maxSize (insertPairs ix (filePairs maxSize count s).1) := by
  refine ⟨fun id label hid => ?_, hix.next, hix.metric⟩
  rw [HNSWFiles.insertPairs] at hid
  dsimp only at hid
  rw [Table.lookup_foldl_insert_last, Option.or_eq_some_iff] at hid
  rcases hid with hlast | ⟨-, hold⟩
  · exact mem_filePairs (mem_of_lastLabel hlast)
  · exact hix.strings id label hold

theorem Bounded.loadIndex (hix : Bounded maxSize ix) (file : Option HierarchicalNSW)
    (mapping : Option (List UInt8)) : Bounded maxSize (loadIndex maxSize ix file mapping).1 := by
  have hstart : Bounded maxSize (if ix.index.isSome then ix.clear else ix) := by
    split_ifs
    · exact bounded_create ix.config
    · exact hix
  unfold HNSWFiles.loadIndex
  generalize (if ix.index.isSome then ix.clear else ix) = start at hstart ⊢
  dsimp only
  split_ifs with hmetric
  · split
    · next h bytes =>
        rw [readLabels_eq]
        have hread := hstart.insertPairs (ByteStream.readNat 8 0 (some bytes)).1
          (ByteStream.readNat 8 0 (some bytes)).2
        split
        · next heq =>
            obtain ⟨rfl, -⟩ := Prod.mk.inj heq
            exact hread
        · next s heq =>
            obtain ⟨rfl, -⟩ := Prod.mk.inj heq
            exact ⟨hread.strings, ByteStream.readNat_lt hread.next s, fun _ => hmetric⟩
    · exact hstart
  · exact hstart

theorem Bounded.apply (hix : Bounded maxSize ix) (c : HNSWCall maxSize) :
    Bounded maxSize (apply ix c) := by
  cases c with
  | initializeIndex =>
    rw [HNSWFiles.apply, HNSWIndex.initializeIndex]
    split_ifs with hsome hstart
    · exact hix
    · exact ⟨hix.strings, hix.next, fun _ => hstart.1⟩
    · exact hix
  | addVector v => exact hix.addVector v
  | addVectorsBatch vs => exact hix.addVectorsBatch vs
  | markDeleted id =>
    rw [HNSWFiles.apply, HNSWIndex.markDeleted]
    split
    · exact hix
    · next h hindex =>
        split
        · exact hix
        · exact ⟨hix.strings, hix.next, fun _ => hix.metric (by rw [hindex]; rfl)⟩
  | saveIndex => exact hix
  | clear => exact bounded_create ix.config
  | loadIndex file mapping => exact hix.loadIndex file mapping

theorem labelled_create (config : HNSWConfig) : Labelled (.create config) where
  inverse _ _ := iff_of_false nofun nofun
  below _ _ h := by cases h
  pointed _ _ h := by cases h

theorem labelled_initializeIndex (hix : Labelled ix) : Labelled ix.initializeIndex.1 := by
  rw [HNSWIndex.initializeIndex]
  split_ifs with hsome hstart
  · exact hix
  · refine ⟨⟨hix.inverse, hix.below⟩, fun id label hid => ?_⟩
    obtain ⟨h, hh, -⟩ := hix.pointed id label hid
    exact absurd (by rw [hh]; rfl) hsome
  · exact hix

theorem labelled_markDeleted (hix : Labelled ix) (id : String) : Labelled (ix.markDeleted id).1 := by
  rw [HNSWIndex.markDeleted]
  split
  · exact hix
  · next h hindex =>
      split
      · exact hix
      · next h' hmark =>
          refine ⟨⟨hix.inverse, hix.below⟩, fun x label hx => ⟨h', rfl, ?_⟩⟩
          obtain ⟨h₀, hh, hpoint⟩ := hix.pointed x label hx
          obtain rfl := Option.some.inj (hindex.symm.trans hh)
          obtain ⟨label', -, hmark⟩ := Option.bind_eq_some_iff.1 hmark
          rw [HierarchicalNSW.markDelete] at hmark
          split at hmark
          · cases hmark
            dsimp only
            rw [Table.lookup_insert_ite]
            split_ifs
            · rfl
            · exact hpoint
          · cases hmark

theorem labelled_apply_iff (hbounded : Bounded maxSize ix) (hix : Labelled ix)
    (c : HNSWCall maxSize) : Labelled (apply ix c) ↔ Clean ix c := by
  cases c with
  | initializeIndex => exact iff_of_true (labelled_initializeIndex hix) trivial
  | addVector v => exact labelled_addVectorsBatch_iff hbounded hix [v]
  | addVectorsBatch vs => exact labelled_addVectorsBatch_iff hbounded hix vs
  | markDeleted id => exact iff_of_true (labelled_markDeleted hix id.id) trivial
  | saveIndex => exact iff_of_true hix trivial
  | clear => exact iff_of_true (labelled_create ix.config) trivial
  | loadIndex file mapping =>
    cases file with
    | none =>
      refine iff_of_true ?_ trivial
      rw [apply, loadIndex_of_missing (.inl rfl)]
      exact labelled_of_not_loaded hix
    | some h =>
      cases mapping with
      | none =>
        refine iff_of_true ?_ trivial
        rw [apply, loadIndex_of_missing (.inr rfl)]
        exact labelled_of_not_loaded hix
      | some bytes => exact labelled_loadIndex_iff hix h bytes

theorem right_apply_iff (hbounded : Bounded maxSize ix) (hix : Labelled ix)
    (c : HNSWCall maxSize) : Right maxSize (apply ix c) ↔ Clean ix c := by
  rw [← labelled_apply_iff hbounded hix c]
  exact ⟨Right.toLabelled,
    fun hlabelled => ⟨hlabelled, restored_of_labelled (hbounded.apply c) hlabelled⟩⟩

/-- **When the label maps are right.**  In a run of calls on a new index the maps between ids and labels
are inverse, their labels are below the next one and have points in the index, and what is saved comes
back when it is loaded, after every call exactly when each call is clean. -/
theorem right_labels_iff (maxSize : UInt64) (config : HNSWConfig)
    (calls : List (HNSWCall maxSize)) :
    Along step (fun ix c => Right maxSize (apply ix c)) (.create config) calls ↔
      Along step Clean (.create config) calls := by
  refine along_congr (motive := fun ix => Bounded maxSize ix ∧ Labelled ix) ?_
    (fun ix c h => right_apply_iff h.1 h.2 c) ⟨bounded_create config, labelled_create config⟩
  rintro ix c ix' ⟨hbounded, hix⟩ hclean hstep
  rw [← Option.some.inj hstep]
  exact ⟨hbounded.apply c, (labelled_apply_iff hbounded hix c).2 hclean⟩

def letter (b : UInt8) : StdString 1000 := ⟨[b], show 1 ≤ 1000 by decide⟩

/-- A file of two ids of which the second is said to be as long as no string, after the first got the
label 0. -/
def brokenFile : List UInt8 :=
  [2, 0, 0, 0, 0, 0, 0, 0] ++ [1, 0, 0, 0, 0, 0, 0, 0, 97] ++ [0, 0, 0, 0, 0, 0, 0, 0] ++
    [255, 255, 255, 255, 255, 255, 255, 255]

/-- The label maps are not always right.  An index with room for one point gives a second id a label
whose point is not stored.  And after a load that throws the labels that were read stay: when the index
is initialized then, the next id gets the same label as one of them. -/
theorem not_right_labels :
    (¬ ∀ (maxSize : UInt64) (config : HNSWConfig) (calls : List (HNSWCall maxSize)),
      Along step (fun ix c => Right maxSize (apply ix c)) (.create config) calls) ∧
    ∃ ix, exec step (.create ⟨1, 1, "l2"⟩)
        [.loadIndex (some ⟨∅, 1⟩) (some brokenFile), .initializeIndex,
          .addVector ⟨letter 98, 1, true⟩] = some ix ∧
      ix.idToLabel.lookup "a" = some 0 ∧ ix.idToLabel.lookup "b" = some 0 := by
  constructor
  · intro h
    obtain ⟨-, hrest⟩ := h 1000 ⟨1, 1, "l2"⟩
      [.initializeIndex, .addVector ⟨letter 97, 1, true⟩, .addVector ⟨letter 98, 1, false⟩]
    obtain ⟨-, hrest⟩ := hrest _ rfl
    obtain ⟨hright, -⟩ := hrest _ rfl
    obtain ⟨h, hindex, hpoint⟩ := hright.pointed "b" 1 (by decide +kernel)
    rw [← Option.some.inj hindex] at hpoint
    revert hpoint
    decide +kernel
  · exact ⟨_, rfl, by decide +kernel, by decide +kernel⟩

end HNSWFiles

end RavBot.Core
