import RavBot.Lib.Table

/-!
# The HNSW index

`HNSWIndex` wraps an index of hnswlib: it gives the ids labels, and adds, marks, saves and loads
points by label.  Of hnswlib there is here what decides which points an index holds; vectors,
links and distances are left out, and memory does not run out.
-/

namespace RavBot.Core

open RavBot.Lib

/-! ## hnswlib -/

/-- `hnswlib::HierarchicalNSW`: the labels with a point, each with whether the point is marked
deleted, and for how many points there is room. -/
structure HierarchicalNSW where
  points : Table Nat Bool
  maxElements : Nat

namespace HierarchicalNSW

def curElementCount (h : HierarchicalNSW) : Nat := h.points.keys.length

/-- `addPoint`: a label with a point is updated and loses its mark, and for a new one there has to
be room. -/
def addPoint (h : HierarchicalNSW) (label : Nat) : Option HierarchicalNSW :=
  if (h.points.lookup label).isSome ∨ h.curElementCount < h.maxElements then
    some { h with points := h.points.insert label false }
  else none

/-- `markDelete`: the label has a point that is not marked yet. -/
def markDelete (h : HierarchicalNSW) (label : Nat) : Option HierarchicalNSW :=
  match h.points.lookup label with
  | some false => some { h with points := h.points.insert label true }
  | _ => none

/-- `loadIndex` with the default `max_elements_i` of 0: the room is that of the file, except that an
empty index gets none. -/
def loadIndex (file : HierarchicalNSW) : HierarchicalNSW :=
  { file with maxElements := if 0 < file.curElementCount then file.maxElements else 0 }

end HierarchicalNSW

/-! ## The wrapper -/

structure HNSWConfig where
  dimension : Nat
  maxElements : Int
  metric : String

/-- The file of an index with the labels of the ids. -/
structure Mapping where
  idToLabel : Table String Nat
  nextLabel : Nat

/-- The labels in a file belong to the points in the file of an index. -/
structure Mapping.Fits (m : Mapping) (file : HierarchicalNSW) : Prop where
  injective : ∀ id id' label, m.idToLabel.lookup id = some label →
    m.idToLabel.lookup id' = some label → id = id'
  fresh : ∀ id label, m.idToLabel.lookup id = some label → label < m.nextLabel
  named : ∀ label, (file.points.lookup label).isSome → ∃ id, m.idToLabel.lookup id = some label
  noEmptyId : m.idToLabel.lookup "" = none

/-- `HNSWIndex`.  `index_` is there exactly while `initialized_` is set. -/
structure HNSWIndex where
  config : HNSWConfig
  index : Option HierarchicalNSW
  idToLabel : Table String Nat
  labelToId : Table Nat String
  nextLabel : Nat

namespace HNSWIndex

def create (config : HNSWConfig) : HNSWIndex := ⟨config, none, ∅, ∅, 0⟩

def knownMetric (metric : String) : Bool :=
  metric == "cosine" || metric == "l2" || metric == "ip"

/-- `Initialize`.  A negative number of elements is a length that no vector has. -/
def initializeIndex (ix : HNSWIndex) : HNSWIndex × Bool :=
  if ix.index.isSome then (ix, true)
  else if knownMetric ix.config.metric ∧ 0 ≤ ix.config.maxElements then
    ({ ix with index := some ⟨∅, ix.config.maxElements.toNat⟩ }, true)
  else (ix, false)

def getLabel (ix : HNSWIndex) (id : String) : HNSWIndex × Nat :=
  match ix.idToLabel.lookup id with
  | some label => (ix, label)
  | none =>
    ({ ix with
        idToLabel := ix.idToLabel.insert id ix.nextLabel
        labelToId := ix.labelToId.insert ix.nextLabel id
        nextLabel := ix.nextLabel + 1 }, ix.nextLabel)

/-- `AddVector`, for a vector of some length. -/
def addVector (ix : HNSWIndex) (id : String) (dim : Nat) : HNSWIndex × Bool :=
  match ix.index with
  | none => (ix, false)
  | some h =>
    if id = "" ∨ dim ≠ ix.config.dimension then (ix, false)
    else
      let labelled := ix.getLabel id
      match h.addPoint labelled.2 with
      | none => (labelled.1, false)
      | some h' => ({ labelled.1 with index := some h' }, true)

/-- `AddVectorsBatch`: what cannot be added is left out. -/
def addVectorsBatch (ix : HNSWIndex) (vectors : List (String × Nat)) : HNSWIndex :=
  vectors.foldl (fun ix v => (ix.addVector v.1 v.2).1) ix

def markDeleted (ix : HNSWIndex) (id : String) : HNSWIndex × Bool :=
  match ix.index with
  | none => (ix, false)
  | some h =>
    match (ix.idToLabel.lookup id).bind h.markDelete with
    | none => (ix, false)
    | some h' => ({ ix with index := some h' }, true)

def clear (ix : HNSWIndex) : HNSWIndex := create ix.config

/-- `SaveIndex`: the file of the index and that of its labels. -/
def saveIndex (ix : HNSWIndex) : Option (HierarchicalNSW × Mapping) :=
  ix.index.map fun h => (h, ⟨ix.idToLabel, ix.nextLabel⟩)

/-- Read the file with the labels into the maps. -/
def readMapping (ix : HNSWIndex) (m : Mapping) : HNSWIndex :=
  { ix with
    idToLabel := m.idToLabel.entries.foldl (fun t e => t.insert e.1 e.2) ix.idToLabel
    labelToId := m.idToLabel.entries.foldl (fun t e => t.insert e.2 e.1) ix.labelToId
    nextLabel := m.nextLabel }

/-- `LoadIndex` from the file of an index and that of its labels, which may be missing.  An index
that is initialized is cleared first. -/
def loadIndex (ix : HNSWIndex) (file : HierarchicalNSW) (mapping : Option Mapping) :
    HNSWIndex × Bool :=
  let ix := if ix.index.isSome then ix.clear else ix
  if knownMetric ix.config.metric then
    match mapping with
    | none => (ix, false)
    | some m => ({ ix.readMapping m with index := some file.loadIndex }, true)
  else (ix, false)

/-- The ids that a search can come to: those of the points that are not marked deleted. -/
def Live (ix : HNSWIndex) (id : String) : Prop :=
  ∃ h label, ix.index = some h ∧ h.points.lookup label = some false ∧
    ix.labelToId.lookup label = some id

/-! ## Labels and ids -/

def mark (ix : HNSWIndex) (id : String) : Option Bool :=
  ix.index.bind fun h => (ix.idToLabel.lookup id).bind h.points.lookup

/-- Whether `AddVector` adds a vector. -/
def Accepts (ix : HNSWIndex) (id : String) (dim : Nat) : Prop :=
  ∃ h ∈ ix.index, id ≠ "" ∧ dim = ix.config.dimension ∧
    ((ix.mark id).isSome ∨ h.curElementCount < h.maxElements)

instance (ix : HNSWIndex) (id : String) (dim : Nat) : Decidable (ix.Accepts id dim) :=
  inferInstanceAs (Decidable (∃ h ∈ ix.index, _))

/-- The maps between ids and labels belong together, and every point has an id. -/
structure WF (ix : HNSWIndex) : Prop where
  inverse : ∀ id label, ix.idToLabel.lookup id = some label ↔ ix.labelToId.lookup label = some id
  fresh : ∀ id label, ix.idToLabel.lookup id = some label → label < ix.nextLabel
  named : ∀ h, ix.index = some h → ∀ label, (h.points.lookup label).isSome →
    ∃ id, ix.idToLabel.lookup id = some label
  noEmptyId : ix.idToLabel.lookup "" = none
  noIndex : ix.index = none → ix = create ix.config

variable {ix : HNSWIndex} {h : HierarchicalNSW} {id : String}

theorem wf_create (config : HNSWConfig) : (create config).WF where
  inverse _ _ := by simp [create]
  fresh _ _ := by simp [create]
  named _ h := by simp [create] at h
  noEmptyId := rfl
  noIndex _ := rfl

theorem mark_of_index (hix : ix.index = some h) (id : String) :
    ix.mark id = (ix.idToLabel.lookup id).bind h.points.lookup := by
  rw [mark, hix, Option.bind_some]

theorem live_iff (hwf : ix.WF) : ix.Live id ↔ ix.mark id = some false := by
  rw [mark, Option.bind_eq_some_iff]
  constructor
  · rintro ⟨h, label, hix, hpoint, hid⟩
    exact ⟨h, hix, Option.bind_eq_some_iff.2 ⟨label, (hwf.inverse id label).2 hid, hpoint⟩⟩
  · rintro ⟨h, hix, hmark⟩
    obtain ⟨label, hlabel, hpoint⟩ := Option.bind_eq_some_iff.1 hmark
    exact ⟨h, label, hix, hpoint, (hwf.inverse id label).1 hlabel⟩

theorem mark_empty (hwf : ix.WF) : ix.mark "" = none := by
  rw [mark]
  cases ix.index with
  | none => rfl
  | some h => rw [Option.bind_some, hwf.noEmptyId, Option.bind_none]

/-- What `GetLabel` does for an id: it has a label afterwards, and nothing else is different. -/
structure Labelled (ix : HNSWIndex) (id : String) (labelled : HNSWIndex × Nat) : Prop where
  wf : labelled.1.WF
  label : labelled.1.idToLabel.lookup id = some labelled.2
  index : labelled.1.index = ix.index
  config : labelled.1.config = ix.config
  mark : ∀ x, labelled.1.mark x = ix.mark x

theorem labelled_getLabel (hwf : ix.WF) (hix : ix.index = some h) (hid : id ≠ "") :
    Labelled ix id (ix.getLabel id) := by
  rw [getLabel]
  split
  · next label hlabel => exact ⟨hwf, hlabel, rfl, rfl, fun _ => rfl⟩
  · next hlabel =>
      have hnew (id' : String) (hid' : id' = id) (label : Nat) :
          ix.idToLabel.lookup id' ≠ some label := by
        rw [hid', hlabel]
        exact nofun
      have hunused (id' : String) : ix.labelToId.lookup ix.nextLabel ≠ some id' := by
        rintro hlabel'
        exact lt_irrefl _ (hwf.fresh id' _ ((hwf.inverse id' _).2 hlabel'))
      constructor
      · constructor
        · rintro id' label
          rw [Table.lookup_insert_ite, Table.lookup_insert_ite]
          split_ifs with hid' hlabel' hlabel'
          · exact iff_of_true (by rw [hlabel']) (by rw [hid'])
          · rw [Option.some_inj]
            exact iff_of_false (fun heq => hlabel' heq.symm)
              fun heq => hnew id' hid' label ((hwf.inverse id' label).2 heq)
          · rw [Option.some_inj]
            refine iff_of_false (fun heq => ?_) fun heq => hid' heq.symm
            exact hunused id' (hlabel' ▸ (hwf.inverse id' label).1 heq)
          · exact hwf.inverse id' label
        · rintro id' label hlabel'
          rw [Table.lookup_insert_ite] at hlabel'
          split_ifs at hlabel' with hid'
          · cases hlabel'
            exact Nat.lt_succ_self _
          · exact Nat.lt_succ_of_lt (hwf.fresh id' label hlabel')
        · rintro h' hix' label hpoint
          obtain ⟨id', hid'⟩ := hwf.named h' hix' label hpoint
          refine ⟨id', ?_⟩
          rw [Table.lookup_insert_ite, if_neg fun heq => hnew id' heq label hid', hid']
        · rw [Table.lookup_insert_ite, if_neg hid.symm, hwf.noEmptyId]
        · rintro hnone
          rw [hix] at hnone
          cases hnone
      · exact AList.lookup_insert _
      · rfl
      · rfl
      · rintro x
        rw [mark, mark]
        dsimp only
        rw [hix, Option.bind_some, Option.bind_some, Table.lookup_insert_ite]
        split_ifs with hx
        · rw [hx, hlabel, Option.bind_none, Option.bind_some]
          -- a label that was not given yet has no point
          rw [← Option.not_isSome_iff_eq_none]
          rintro hpoint
          obtain ⟨id', hid'⟩ := hwf.named h hix _ hpoint
          exact lt_irrefl _ (hwf.fresh id' _ hid')
        · rfl

theorem WF.insertPoint (hwf : ix.WF) (hix : ix.index = some h) {label : Nat}
    (hlabel : ix.idToLabel.lookup id = some label) (deleted : Bool) :
    ({ ix with index := some { h with points := h.points.insert label deleted } }).WF := by
  refine ⟨hwf.inverse, hwf.fresh, ?_, hwf.noEmptyId, nofun⟩
  rintro _ ⟨⟩ label' hpoint
  dsimp only at hpoint
  rw [Table.lookup_insert_ite] at hpoint
  split_ifs at hpoint with hlabel'
  · rw [hlabel']
    exact ⟨id, hlabel⟩
  · exact hwf.named h hix label' hpoint

theorem mark_insertPoint (hwf : ix.WF) (hix : ix.index = some h) {label : Nat}
    (hlabel : ix.idToLabel.lookup id = some label) (deleted : Bool) (x : String) :
    ({ ix with index := some { h with points := h.points.insert label deleted } }).mark x =
      if x = id then some deleted else ix.mark x := by
  rw [mark_of_index hix, mark, Option.bind_some]
  split_ifs with hx
  · rw [hx, hlabel, Option.bind_some]
    exact AList.lookup_insert _
  · cases hx' : ix.idToLabel.lookup x with
    | none => rfl
    | some label' =>
      rw [Option.bind_some, Option.bind_some]
      refine AList.lookup_insert_ne ?_
      rintro rfl
      -- two ids do not share a label
      have heq := ((hwf.inverse x _).1 hx').symm.trans ((hwf.inverse id _).1 hlabel)
      exact hx (Option.some_inj.1 heq)

/-! ## Adding and marking -/

theorem curElementCount_insert (h : HierarchicalNSW) (label : Nat) (deleted : Bool) :
    HierarchicalNSW.curElementCount { h with points := h.points.insert label deleted } =
      if (h.points.lookup label).isSome then h.curElementCount else h.curElementCount + 1 := by
  rw [HierarchicalNSW.curElementCount, HierarchicalNSW.curElementCount, AList.keys_insert,
    List.length_cons]
  split_ifs with hlabel
  · have hmem : label ∈ h.points.keys := AList.mem_keys.1 (AList.lookup_isSome.1 hlabel)
    rw [List.length_erase_of_mem hmem]
    have hpos := List.length_pos_of_mem hmem
    omega
  · rw [List.erase_of_not_mem fun hmem => hlabel (AList.lookup_isSome.2 (AList.mem_keys.2 hmem))]

/-- What an operation on one id leaves of an index: the maps belong together, the configuration and
the room are the same, there is at most one more point, and no more than there is room for. -/
structure Kept (ix ix' : HNSWIndex) : Prop where
  wf : ix'.WF
  config : ix'.config = ix.config
  room : ∀ h, ix.index = some h → ∃ h', ix'.index = some h' ∧ h'.maxElements = h.maxElements ∧
    h'.curElementCount ≤ h.curElementCount + 1 ∧
    (h.curElementCount ≤ h.maxElements → h'.curElementCount ≤ h.maxElements)
  noIndex : ix.index = none → ix'.index = none

theorem Kept.refl (hwf : ix.WF) : Kept ix ix :=
  ⟨hwf, rfl, fun h hix => ⟨h, hix, rfl, Nat.le_succ _, id⟩, id⟩

theorem WF.kept_insertPoint (hwf : ix.WF) (hix : ix.index = some h) {label : Nat}
    (hlabel : ix.idToLabel.lookup id = some label) (deleted : Bool)
    (hroom : (h.points.lookup label).isSome ∨ h.curElementCount < h.maxElements) :
    Kept ix { ix with index := some { h with points := h.points.insert label deleted } } := by
  refine ⟨hwf.insertPoint hix hlabel deleted, rfl, ?_, ?_⟩
  · rintro h' hh
    rw [hix] at hh
    cases hh
    refine ⟨_, rfl, rfl, ?_, ?_⟩
    · rw [curElementCount_insert]
      split_ifs
      · exact Nat.le_succ _
      · exact le_refl _
    · rintro hle
      rw [curElementCount_insert]
      split_ifs with hknown
      · exact hle
      · exact hroom.resolve_left hknown
  · rintro hnone
    rw [hix] at hnone
    cases hnone

theorem Kept.of_labelled {labelled : HNSWIndex × Nat} {ix' : HNSWIndex}
    (hlabelled : Labelled ix id labelled) (hkept : Kept labelled.1 ix') : Kept ix ix' :=
  ⟨hkept.wf, hkept.config.trans hlabelled.config,
    fun h hix => hkept.room h (hlabelled.index.trans hix),
    fun hix => hkept.noIndex (hlabelled.index.trans hix)⟩

theorem kept_addVector (hwf : ix.WF) (id : String) (dim : Nat) :
    Kept ix (ix.addVector id dim).1 := by
  rw [addVector]
  split
  · exact Kept.refl hwf
  · next h hix =>
      split_ifs with hrefused
      · exact Kept.refl hwf
      · have hlabelled := labelled_getLabel hwf hix fun hid => hrefused (.inl hid)
        refine Kept.of_labelled hlabelled ?_
        dsimp only
        split
        · exact Kept.refl hlabelled.wf
        · next h' hadd =>
            rw [HierarchicalNSW.addPoint] at hadd
            split_ifs at hadd with hroom
            cases hadd
            exact hlabelled.wf.kept_insertPoint (hlabelled.index.trans hix) hlabelled.label false
              hroom

theorem mark_addVector (hwf : ix.WF) (id : String) (dim : Nat) (x : String) :
    (ix.addVector id dim).1.mark x =
      if ix.Accepts id dim ∧ x = id then some false else ix.mark x := by
  rw [addVector]
  split
  · next hix =>
      rw [if_neg]
      rintro ⟨⟨h, hh, -⟩, -⟩
      rw [hix] at hh
      cases hh
  · next h hix =>
      split_ifs with hrefused haccepts haccepts
      · obtain ⟨⟨_, -, hid, hdim, -⟩, -⟩ := haccepts
        exact (hrefused.elim hid (absurd hdim)).elim
      · rfl
      · obtain ⟨⟨h', hh, -, -, hroom⟩, rfl⟩ := haccepts
        obtain rfl : h = h' := Option.some_inj.1 (hix.symm.trans hh)
        have hlabelled := labelled_getLabel hwf hix fun hid => hrefused (.inl hid)
        have hix' := hlabelled.index.trans hix
        rw [← hlabelled.mark, mark_of_index hix', hlabelled.label, Option.bind_some] at hroom
        dsimp only
        rw [HierarchicalNSW.addPoint, if_pos hroom]
        dsimp only
        rw [mark_insertPoint hlabelled.wf hix' hlabelled.label, if_pos rfl]
      · have hlabelled := labelled_getLabel hwf hix fun hid => hrefused (.inl hid)
        have hix' := hlabelled.index.trans hix
        dsimp only
        split
        · exact hlabelled.mark x
        · next h' hadd =>
            rw [HierarchicalNSW.addPoint] at hadd
            split_ifs at hadd with hroom
            cases hadd
            rw [mark_insertPoint hlabelled.wf hix' hlabelled.label, if_neg, hlabelled.mark]
            rintro hx
            refine haccepts ⟨⟨h, hix, fun hid => hrefused (.inl hid), ?_, ?_⟩, hx⟩
            · exact not_not.1 fun hdim => hrefused (.inr hdim)
            · rwa [← hlabelled.mark, mark_of_index hix', hlabelled.label, Option.bind_some]

theorem kept_markDeleted (hwf : ix.WF) (id : String) : Kept ix (ix.markDeleted id).1 := by
  rw [markDeleted]
  split
  · exact Kept.refl hwf
  · next h hix =>
      split
      · exact Kept.refl hwf
      · next h' hmark =>
          obtain ⟨label, hlabel, hmark⟩ := Option.bind_eq_some_iff.1 hmark
          rw [HierarchicalNSW.markDelete] at hmark
          split at hmark
          · next hpoint =>
              cases hmark
              exact hwf.kept_insertPoint hix hlabel true (.inl (by rw [hpoint]; rfl))
          · cases hmark

theorem mark_markDeleted (hwf : ix.WF) (id x : String) :
    (ix.markDeleted id).1.mark x =
      if ix.mark id = some false ∧ x = id then some true else ix.mark x := by
  rw [markDeleted]
  split
  · next hix =>
      rw [if_neg]
      rintro ⟨hmark, -⟩
      rw [mark, hix] at hmark
      cases hmark
  · next h hix =>
      split
      · next hnone =>
          rw [if_neg]
          rintro ⟨hmark, -⟩
          rw [mark_of_index hix] at hmark
          obtain ⟨label, hlabel, hpoint⟩ := Option.bind_eq_some_iff.1 hmark
          rw [hlabel, Option.bind_some, HierarchicalNSW.markDelete, hpoint] at hnone
          cases hnone
      · next h' hmark =>
          obtain ⟨label, hlabel, hmark⟩ := Option.bind_eq_some_iff.1 hmark
          rw [HierarchicalNSW.markDelete] at hmark
          split at hmark
          · next hpoint =>
              cases hmark
              have hlive : ix.mark id = some false := by
                rw [mark_of_index hix, hlabel, Option.bind_some, hpoint]
              rw [mark_insertPoint hwf hix hlabel]
              exact if_congr (and_iff_right hlive).symm rfl rfl
          · cases hmark

/-! ## Adding all rows of a table -/

theorem wf_addVectorsBatch (hwf : ix.WF) (vectors : List (String × Nat)) :
    (ix.addVectorsBatch vectors).WF ∧ (ix.addVectorsBatch vectors).config = ix.config ∧
      ∀ h, ix.index = some h → h.curElementCount ≤ h.maxElements →
        ∃ h', (ix.addVectorsBatch vectors).index = some h' ∧ h'.maxElements = h.maxElements ∧
          h'.curElementCount ≤ h.maxElements := by
  induction vectors generalizing ix with
  | nil => exact ⟨hwf, rfl, fun h hix hle => ⟨h, hix, rfl, hle⟩⟩
  | cons v vectors ih =>
    have hkept := kept_addVector hwf v.1 v.2
    obtain ⟨hwf', hconfig, hroom⟩ := ih hkept.wf
    refine ⟨hwf', hconfig.trans hkept.config, fun h hix hle => ?_⟩
    obtain ⟨h', hix', hmax, -, hle'⟩ := hkept.room h hix
    have hroom := hroom h' hix'
    rw [hmax] at hroom
    exact hroom (hle' hle)

theorem mark_addVectorsBatch (hwf : ix.WF) (hix : ix.index = some h) {vectors : List (String × Nat)}
    (hvectors : ∀ v ∈ vectors, v.1 ≠ "" ∧ v.2 = ix.config.dimension)
    (hroom : h.curElementCount + vectors.length ≤ h.maxElements) (x : String) :
    (ix.addVectorsBatch vectors).mark x =
      if x ∈ vectors.map Prod.fst then some false else ix.mark x := by
  induction vectors generalizing ix h with
  | nil => simp [addVectorsBatch]
  | cons v vectors ih =>
    rw [List.forall_mem_cons] at hvectors
    rw [List.length_cons] at hroom
    have hkept := kept_addVector hwf v.1 v.2
    obtain ⟨h', hix', hmax, hcount, -⟩ := hkept.room h hix
    have haccepts : ix.Accepts v.1 v.2 :=
      ⟨h, hix, hvectors.1.1, hvectors.1.2, .inr (by omega)⟩
    have hrest := ih hkept.wf hix' (fun w hw => hkept.config ▸ hvectors.2 w hw)
      (by rw [hmax]; omega)
    refine hrest.trans ?_
    rw [mark_addVector hwf]
    by_cases hmem : x ∈ vectors.map Prod.fst
    · rw [if_pos hmem, if_pos]
      exact List.mem_cons_of_mem _ hmem
    · rw [if_neg hmem]
      refine if_congr ?_ rfl rfl
      rw [List.map_cons, List.mem_cons, or_iff_left hmem, and_iff_right haccepts]

theorem length_le_of_mark (hwf : ix.WF) (hix : ix.index = some h) {ids : List String}
    (hids : ids.Nodup) (hmarks : ∀ id ∈ ids, (ix.mark id).isSome) :
    ids.length ≤ h.curElementCount := by
  have hlabels (id : String) (hid : id ∈ ids) : ∃ label ∈ h.points.keys,
      ix.labelToId.lookup label = some id := by
    have hmark := hmarks id hid
    rw [mark_of_index hix] at hmark
    obtain ⟨deleted, hmark⟩ := Option.isSome_iff_exists.1 hmark
    obtain ⟨label, hlabel, hpoint⟩ := Option.bind_eq_some_iff.1 hmark
    refine ⟨label, AList.mem_keys.1 (AList.lookup_isSome.1 ?_), (hwf.inverse id label).1 hlabel⟩
    rw [hpoint]
    rfl
  -- the ids are among those of the labels with a point
  have hsubset : ids ⊆ h.points.keys.filterMap ix.labelToId.lookup := by
    rintro id hid
    obtain ⟨label, hmem, hlabel⟩ := hlabels id hid
    exact List.mem_filterMap.2 ⟨label, hmem, hlabel⟩
  calc ids.length
      ≤ (h.points.keys.filterMap ix.labelToId.lookup).length :=
        (List.subperm_of_subset hids hsubset).length_le
    _ ≤ h.curElementCount := List.length_filterMap_le _ _

/-! ## Starting and loading -/

/-- Whether `Initialize` can make a new index. -/
def CanStart (config : HNSWConfig) : Prop :=
  knownMetric config.metric ∧ 0 ≤ config.maxElements

instance (config : HNSWConfig) : Decidable (CanStart config) := inferInstanceAs (Decidable (_ ∧ _))

def started (config : HNSWConfig) : HNSWIndex :=
  { create config with index := some ⟨∅, config.maxElements.toNat⟩ }

theorem initializeIndex_create (config : HNSWConfig) : (create config).initializeIndex =
    if CanStart config then (started config, true) else (create config, false) := rfl

theorem wf_started (config : HNSWConfig) : (started config).WF where
  inverse _ _ := by simp [started, create]
  fresh _ _ := by simp [started, create]
  named _ h := by
    cases h
    simp
  noEmptyId := rfl
  noIndex := nofun

theorem mark_started (config : HNSWConfig) (id : String) : (started config).mark id = none := rfl

def loaded (config : HNSWConfig) (file : HierarchicalNSW) (m : Mapping) : HNSWIndex :=
  { (create config).readMapping m with index := some file.loadIndex }

/-- What `LoadIndex` gets from the files. -/
def loadedIndex (config : HNSWConfig) (file : HierarchicalNSW) (mapping : Option Mapping) :
    Option HNSWIndex :=
  if knownMetric config.metric then mapping.map (loaded config file) else none

theorem loadIndex_eq (hwf : ix.WF) (file : HierarchicalNSW) (mapping : Option Mapping) :
    ix.loadIndex file mapping =
      match loadedIndex ix.config file mapping with
      | some ix' => (ix', true)
      | none => (ix.clear, false) := by
  have hclear : (if ix.index.isSome then ix.clear else ix) = create ix.config := by
    split_ifs with hix
    · rfl
    · exact hwf.noIndex (Option.not_isSome_iff_eq_none.1 hix)
  unfold loadIndex
  rw [hclear, loadedIndex]
  by_cases hmetric : knownMetric ix.config.metric = true
  · rw [if_pos hmetric]
    refine (if_pos hmetric).trans ?_
    cases mapping <;> rfl
  · rw [if_neg hmetric]
    exact if_neg hmetric

variable {file : HierarchicalNSW} {m : Mapping}

theorem lookup_loaded_idToLabel (config : HNSWConfig) (file : HierarchicalNSW) (m : Mapping)
    (id : String) : (loaded config file m).idToLabel.lookup id = m.idToLabel.lookup id := by
  apply Option.ext
  rintro label
  rw [loaded, readMapping,
    Table.lookup_foldl_insert Sigma.fst Sigma.snd m.idToLabel.nodupKeys, create, AList.lookup_empty]
  refine Iff.trans ?_ AList.mem_lookup_iff.symm
  constructor
  · rintro (⟨⟨_, _⟩, he, rfl, rfl⟩ | ⟨-, ⟨⟩⟩)
    exact he
  · rintro he
    exact .inl ⟨_, he, rfl, rfl⟩

theorem lookup_loaded_labelToId (config : HNSWConfig) (hfits : m.Fits file) (label : Nat)
    (id : String) : (loaded config file m).labelToId.lookup label = some id ↔
      m.idToLabel.lookup id = some label := by
  have hnodup : (m.idToLabel.entries.map fun e => e.2).Nodup := by
    refine List.Nodup.map_on ?_ (List.NodupKeys.nodup m.idToLabel.nodupKeys)
    rintro ⟨id, label⟩ he ⟨id', label'⟩ he' rfl
    obtain rfl := hfits.injective id id' label (AList.mem_lookup_iff.2 he)
      (AList.mem_lookup_iff.2 he')
    rfl
  have hlookup := Table.lookup_foldl_insert (fun e : (_ : String) × Nat => e.2) (fun e => e.1) hnodup
    ∅ label id
  refine hlookup.trans (Iff.trans ?_ AList.mem_lookup_iff.symm)
  constructor
  · rintro (⟨⟨_, _⟩, he, rfl, rfl⟩ | ⟨-, ⟨⟩⟩)
    exact he
  · rintro he
    exact .inl ⟨_, he, rfl, rfl⟩

theorem wf_loaded (config : HNSWConfig) (hfits : m.Fits file) : (loaded config file m).WF := by
  constructor
  · rintro id label
    rw [lookup_loaded_idToLabel, lookup_loaded_labelToId config hfits]
  · rintro id label hlabel
    rw [lookup_loaded_idToLabel] at hlabel
    exact hfits.fresh id label hlabel
  · rintro _ ⟨⟩ label hpoint
    obtain ⟨id, hid⟩ := hfits.named label hpoint
    exact ⟨id, (lookup_loaded_idToLabel config file m id).trans hid⟩
  · rw [lookup_loaded_idToLabel, hfits.noEmptyId]
  · exact nofun

theorem fits_saveIndex (hwf : ix.WF) (hsaved : ix.saveIndex = some (file, m)) : m.Fits file := by
  rw [saveIndex] at hsaved
  obtain ⟨h, hix, hpair⟩ := Option.map_eq_some_iff.1 hsaved
  cases hpair
  refine ⟨?_, hwf.fresh, hwf.named file hix, hwf.noEmptyId⟩
  rintro id id' label hlabel hlabel'
  have heq := ((hwf.inverse id label).1 hlabel).symm.trans ((hwf.inverse id' label).1 hlabel')
  exact Option.some_inj.1 heq

end HNSWIndex

end RavBot.Core
