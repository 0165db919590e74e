import Mathlib.Data.List.TakeWhile
import RavBot.Lib.Run
import RavBot.Core.VectorDatabase

/-!
# The table and the index

A search uses the index alone, so the index has to hold the ids of the table.  The operations lose
that in several ways: an index that was saved earlier is loaded as it is, a new one starts empty
whatever the table holds, an index keeps the dimension that it was made for, there may be no room
in it, and ids reach the table as C strings.  `inSync_iff` says for every run when none of this
happens.
-/

namespace RavBot.Core

open RavBot.Lib

namespace VectorDatabase

/-! ## Starting an index -/

def savedIndex (s : VectorDatabase) : Option HNSWIndex :=
  s.indexFile.bind fun file => HNSWIndex.loadedIndex s.hnswConfig file s.mappingFile

/-- The index that `InitializeHNSW` comes to: the one in the files, or an empty one. -/
def newIndex (s : VectorDatabase) : Option HNSWIndex :=
  match s.savedIndex with
  | some ix => some ix
  | none =>
    if HNSWIndex.CanStart s.hnswConfig then some (HNSWIndex.started s.hnswConfig) else none

variable {s : VectorDatabase}

theorem createIndex_eq (s : VectorDatabase) :
    s.createIndex = match s.savedIndex with
      | some ix => (ix, true)
      | none => (HNSWIndex.create s.hnswConfig, false) := by
  rw [createIndex, savedIndex]
  cases s.indexFile with
  | none => rfl
  | some file => exact HNSWIndex.loadIndex_eq (HNSWIndex.wf_create s.hnswConfig) file s.mappingFile

theorem startHNSW_eq (huse : s.useHnsw = true) (hdim : s.dimension ≠ 0) :
    s.startHNSW =
      match s.newIndex with
      | some ix => { s with hnswIndex := some ix, hnswInitialized := true }
      | none => { s with hnswIndex := some (HNSWIndex.create s.hnswConfig), useHnsw := false } := by
  have hinit : s.initializeHNSW = match s.newIndex with
      | some ix => ({ s with hnswIndex := some ix, hnswInitialized := true }, true)
      | none => ({ s with hnswIndex := some (HNSWIndex.create s.hnswConfig) }, false) := by
    rw [initializeHNSW, huse, Bool.not_true, if_neg Bool.false_ne_true, if_neg hdim,
      createIndex_eq, newIndex]
    cases s.savedIndex with
    | some ix => rfl
    | none =>
      dsimp only
      rw [HNSWIndex.initializeIndex_create]
      by_cases hstart : HNSWIndex.CanStart s.hnswConfig
      · rw [if_pos hstart, if_pos hstart]
        rfl
      · rw [if_neg hstart, if_neg hstart]
        rfl
  rw [startHNSW, hinit]
  cases s.newIndex <;> rfl

/-! ## What holds while the two are in sync -/

/-- The table: its ids are C strings, and its vectors have one length, which is the dimension of an
open database. -/
structure TableInv (s : VectorDatabase) : Prop where
  keys : ∀ id ∈ s.vectors, cString id = id
  length : ∀ id n, s.vectors.lookup id = some n → n ≠ 0
  same : ∀ id id' n n', s.vectors.lookup id = some n → s.vectors.lookup id' = some n' → n = n'
  dimension : s.opened = true → ∀ id n, s.vectors.lookup id = some n → s.dimension = n

/-- The index, in memory and in the files. -/
structure IndexInv (s : VectorDatabase) : Prop where
  closed : s.opened = false → s.hnswIndex = none
  hasIndex : s.hnswInitialized = true → ∃ ix, s.hnswIndex = some ix
  wf : ∀ ix, s.hnswIndex = some ix → ix.WF
  files : ∀ file m, s.indexFile = some file → s.mappingFile = some m → m.Fits file

/-- The table and the index together. -/
structure Good (s : VectorDatabase) : Prop extends TableInv s, IndexInv s where
  started : s.opened = true → s.useHnsw = true → s.hnswInitialized = false → s.dimension = 0
  indexDimension : ∀ ix, s.inUse = some ix → s.vectors ≠ ∅ → ix.config.dimension = s.dimension
  inSync : s.InSync

variable {ix : HNSWIndex}

theorem inUse_eq_some : s.inUse = some ix ↔
    s.useHnsw = true ∧ s.hnswInitialized = true ∧ s.hnswIndex = some ix := by
  rw [inUse, Option.ite_none_right_eq_some, Bool.and_eq_true, and_assoc]

theorem inUse_eq_none (h : s.hnswInitialized = false) : s.inUse = none := by
  rw [inUse, h, Bool.and_false]
  rfl

theorem vectors_eq_empty_iff : s.vectors = ∅ ↔ ∀ id, id ∉ s.vectors := by
  constructor
  · rintro h id
    rw [h]
    exact AList.notMem_empty id
  · rintro h
    refine AList.ext ?_
    refine List.eq_nil_iff_forall_not_mem.2 ?_
    rintro e he
    exact h e.1 (AList.mem_keys.2 (List.mem_map_of_mem he))

theorem exists_length {id : String} (h : id ∈ s.vectors) : ∃ n, s.vectors.lookup id = some n :=
  Option.isSome_iff_exists.1 (AList.lookup_isSome.2 h)

theorem TableInv.vectors_eq_empty (h : s.TableInv) (hopened : s.opened = true)
    (hdim : s.dimension = 0) : s.vectors = ∅ := by
  rw [vectors_eq_empty_iff]
  rintro id hid
  obtain ⟨n, hn⟩ := exists_length hid
  exact h.length id n hn (hdim ▸ (h.dimension hopened id n hn).symm)

theorem Good.initialized (h : s.Good) (hopened : s.opened = true) (huse : s.useHnsw = true)
    (hrows : s.vectors ≠ ∅) : s.hnswInitialized = true := by
  by_contra hfalse
  have hdim := h.started hopened huse (Bool.eq_false_iff.2 hfalse)
  exact hrows (h.toTableInv.vectors_eq_empty hopened hdim)

theorem good_create (config : VectorDatabaseConfig) : (create config).Good where
  keys _ h := absurd h (AList.notMem_empty _)
  length _ _ := nofun
  same _ _ _ _ := nofun
  dimension := nofun
  closed _ := rfl
  hasIndex := nofun
  wf _ := nofun
  files _ _ := nofun
  started := nofun
  indexDimension ix h := by
    rw [inUse_eq_none rfl] at h
    cases h
  inSync ix h := by
    rw [inUse_eq_none rfl] at h
    cases h

/-! ## Storing a vector -/

/-- An index takes a vector as the table does: if it adds the vector, the id is a C string and all
other ids in the index are in the table, and if not, the id is in the index already. -/
def TakesAlike (s : VectorDatabase) (ix : HNSWIndex) (id : String) (length : Nat) : Prop :=
  if ix.Accepts id length then cString id = id ∧ ∀ x, ix.Live x → x = id ∨ x ∈ s.vectors
  else ∀ x, ix.Live x ↔ x = cString id ∨ x ∈ s.vectors

/-- A database that is ready to store a vector of some length.  The index in use holds the ids of
the table, and has the right dimension unless it is empty. -/
structure Ready (s : VectorDatabase) (length : Nat) : Prop extends IndexInv s where
  opened : s.opened = true
  dimension : s.dimension = length
  pos : length ≠ 0
  keys : ∀ id ∈ s.vectors, cString id = id
  lengths : ∀ id n, s.vectors.lookup id = some n → n = length
  initialized : s.useHnsw = true → s.hnswInitialized = true
  covers : ∀ ix, s.inUse = some ix → ∀ id ∈ s.vectors, ix.Live id
  indexDimension : ∀ ix, s.inUse = some ix → ix.config.dimension = length ∨ ∀ id, ¬ ix.Live id

theorem cString_cString (id : String) : cString (cString id) = cString id := by
  rw [cString, cString, String.toList_ofList, List.takeWhile_idem]

theorem inUse_onIndex (f : HNSWIndex → HNSWIndex) (s : VectorDatabase) :
    (s.onIndex f).inUse = s.inUse.map f := by
  rw [inUse, inUse, onIndex]
  dsimp only
  split_ifs <;> rfl

theorem exists_of_hnswIndex_onIndex {f : HNSWIndex → HNSWIndex} {ix' : HNSWIndex}
    (h : (s.onIndex f).hnswIndex = some ix') :
    ∃ ix, s.hnswIndex = some ix ∧ (ix' = ix ∨ ix' = f ix) := by
  rw [onIndex] at h
  dsimp only at h
  split_ifs at h
  · obtain ⟨ix, hix, rfl⟩ := Option.map_eq_some_iff.1 h
    exact ⟨ix, hix, .inr rfl⟩
  · exact ⟨ix', h, .inl rfl⟩

theorem IndexInv.onIndex (h : s.IndexInv) {f : HNSWIndex → HNSWIndex}
    (hf : ∀ ix : HNSWIndex, ix.WF → (f ix).WF) : (s.onIndex f).IndexInv where
  closed hopened := by
    rw [VectorDatabase.onIndex]
    dsimp only
    rw [h.closed hopened]
    split_ifs <;> rfl
  hasIndex hinit := by
    obtain ⟨ix, hix⟩ := h.hasIndex hinit
    rw [VectorDatabase.onIndex, hix]
    dsimp only
    split_ifs
    · exact ⟨f ix, rfl⟩
    · exact ⟨ix, rfl⟩
  wf ix' hix' := by
    obtain ⟨ix, hix, rfl | rfl⟩ := exists_of_hnswIndex_onIndex hix'
    · exact h.wf _ hix
    · exact hf ix (h.wf ix hix)
  files := h.files

theorem live_addVector (hwf : ix.WF) (id : String) (length : Nat) (x : String) :
    (ix.addVector id length).1.Live x ↔ ix.Live x ∨ ix.Accepts id length ∧ x = id := by
  rw [HNSWIndex.live_iff hwf, HNSWIndex.live_iff (HNSWIndex.kept_addVector hwf id length).wf,
    HNSWIndex.mark_addVector hwf]
  split_ifs with h
  · exact iff_of_true rfl (.inr h)
  · rw [or_iff_left h]

variable {length : Nat}

theorem Ready.inSync_storeVector_iff (h : s.Ready length) (id : String) :
    (s.storeVector id length).InSync ↔
      ∀ ix, s.inUse = some ix → s.TakesAlike ix id length := by
  have hinUse : (s.storeVector id length).inUse =
      s.inUse.map fun ix => (ix.addVector id length).1 := inUse_onIndex _ _
  have hmem (x : String) : x ∈ (s.storeVector id length).vectors ↔
      x = cString id ∨ x ∈ s.vectors := AList.mem_insert _
  rw [InSync, hinUse]
  cases hix : s.inUse with
  | none => exact iff_of_true nofun nofun
  | some ix =>
    have hwf := h.wf ix (inUse_eq_some.1 hix).2.2
    simp only [Option.map_some, Option.some.injEq, forall_eq', hmem, live_addVector hwf]
    rw [TakesAlike]
    by_cases haccepts : ix.Accepts id length
    · rw [if_pos haccepts]
      simp only [haccepts, true_and]
      constructor
      · rintro hsync
        have hid : id = cString id ∨ id ∈ s.vectors := (hsync id).1 (.inr rfl)
        have hcString : cString id = id := hid.elim Eq.symm (h.keys id)
        refine ⟨hcString, fun x hx => ?_⟩
        exact hcString ▸ (hsync x).1 (.inl hx)
      · rintro ⟨hcString, hlive⟩ x
        rw [hcString]
        constructor
        · rintro (hx | hx)
          · exact hlive x hx
          · exact .inl hx
        · rintro (hx | hx)
          · exact .inr hx
          · exact .inl (h.covers ix hix x hx)
    · rw [if_neg haccepts]
      simp only [haccepts, false_and, or_false]

theorem Ready.good (h : s.Ready length) (hsync : s.InSync) : s.Good := by
  refine ⟨⟨h.keys, ?_, ?_, ?_⟩, h.toIndexInv, ?_, ?_, hsync⟩
  · rintro id n hn
    rw [h.lengths id n hn]
    exact h.pos
  · rintro id id' n n' hn hn'
    rw [h.lengths id n hn, h.lengths id' n' hn']
  · rintro - id n hn
    rw [h.lengths id n hn]
    exact h.dimension
  · exact fun _ huse hfalse => absurd ((h.initialized huse).symm.trans hfalse) nofun
  · rintro ix hix hrows
    refine (h.indexDimension ix hix).elim (·.trans h.dimension.symm) fun hempty => ?_
    obtain ⟨id, hid⟩ := not_forall_not.1 (mt vectors_eq_empty_iff.2 hrows)
    exact absurd ((hsync ix hix id).2 hid) (hempty id)

theorem Ready.good_storeVector (h : s.Ready length) (id : String)
    (hsync : (s.storeVector id length).InSync) : (s.storeVector id length).Good := by
  have hlookup (x : String) : (s.storeVector id length).vectors.lookup x =
      if x = cString id then some length else s.vectors.lookup x :=
    Table.lookup_insert_ite _ _ _ _
  have hlength (x : String) (n : Nat)
      (hx : (s.storeVector id length).vectors.lookup x = some n) : n = length := by
    rw [hlookup] at hx
    split_ifs at hx
    · cases hx
      rfl
    · exact h.lengths x n hx
  have hid : cString id ∈ (s.storeVector id length).vectors := (AList.mem_insert _).2 (.inl rfl)
  have hindex : IndexInv { s with vectors := s.vectors.insert (cString id) length } :=
    ⟨h.closed, h.hasIndex, h.wf, h.files⟩
  have hkept := hindex.onIndex fun ix hwf => (HNSWIndex.kept_addVector hwf id length).wf
  have htable : TableInv (s.storeVector id length) := by
    constructor
    · rintro x hx
      rcases (AList.mem_insert _).1 hx with rfl | hx
      · exact cString_cString id
      · exact h.keys x hx
    · rintro x n hx
      rw [hlength x n hx]
      exact h.pos
    · rintro x x' n n' hx hx'
      rw [hlength x n hx, hlength x' n' hx']
    · rintro - x n hx
      rw [hlength x n hx]
      exact h.dimension
  refine ⟨htable, hkept, ?_, ?_, hsync⟩
  · rintro - huse hinit
    exact absurd ((h.initialized huse).symm.trans hinit) nofun
  · rintro ix' hix' -
    have hinUse := hix'
    rw [storeVector, inUse_onIndex] at hinUse
    obtain ⟨ix, hix, rfl⟩ := Option.map_eq_some_iff.1 hinUse
    have hwf := h.wf ix (inUse_eq_some.1 hix).2.2
    rw [(HNSWIndex.kept_addVector hwf id length).config]
    refine Eq.trans ?_ h.dimension.symm
    rcases h.indexDimension ix hix with hdim | hempty
    · exact hdim
    · -- the id is in the index now, so it was added
      have hlive := (hsync _ hix' (cString id)).2 hid
      rcases (live_addVector hwf id length _).1 hlive with hlive | ⟨⟨_, -, -, hdim, -⟩, -⟩
      · exact absurd hlive (hempty _)
      · exact hdim.symm

/-! ## The operations -/

/-- The index that takes a vector: the one in use, or when there is none, the one that is started
for the vector. -/
def taking (s : VectorDatabase) (length : Nat) : Option HNSWIndex :=
  if s.hnswInitialized then s.inUse
  else if s.useHnsw then newIndex { s with dimension := length }
  else none

/-- Whether `IndexVector` takes a vector. -/
def Takes (s : VectorDatabase) (id : String) (length : Nat) : Prop :=
  s.opened = true ∧ id ≠ "" ∧ length ≠ 0 ∧ (s.dimension = 0 ∨ length = s.dimension)

/-- What keeps the table and the index in sync.  Opening a database with rows: the files hold an
index with the ids of the table, or no index can be started.  Storing a vector: the index takes it
as the table does, or when the metadata cannot be dumped, has the ids of the table.  Deleting a
vector: its id is a C string.  Rebuilding: there is room for the table.  Loading: the files hold an
index with the ids of the table, or none when the table is empty. -/
def StaysInSync (s : VectorDatabase) : VectorAction → Prop
  | .initializeDatabase =>
    s.opened = false → s.useHnsw = true → s.vectors ≠ ∅ →
      match savedIndex { s with dimension := s.loadDimension } with
      | some ix => ∀ id, ix.Live id ↔ id ∈ s.vectors
      | none => ¬ HNSWIndex.CanStart (hnswConfig { s with dimension := s.loadDimension })
  | .indexVector id length dumps =>
    s.Takes id length → ∀ ix, s.taking length = some ix →
      if dumps then s.TakesAlike ix id length else ∀ x, ix.Live x ↔ x ∈ s.vectors
  | .deleteVector id => s.inUse.isSome = true → cString id ∈ s.vectors → cString id = id
  | .rebuildIndex =>
    ∀ ix, s.inUse = some ix → s.vectors ≠ ∅ →
      HNSWIndex.CanStart ix.config ∧ (s.rows.length : Int) ≤ ix.config.maxElements
  | .loadIndex =>
    ∀ ix file, s.useHnsw = true → s.hnswIndex = some ix → s.indexFile = some file →
      match HNSWIndex.loadedIndex ix.config file s.mappingFile with
      | some ix' => ∀ id, ix'.Live id ↔ id ∈ s.vectors
      | none => s.vectors = ∅
  | .deleteAll | .saveIndex | .reopen _ _ _ => True

/-- What is proved of a step: when it leaves the two in sync, and that the state is good then. -/
structure StepSpec (s' : VectorDatabase) (P : Prop) : Prop where
  inSync : s'.InSync ↔ P
  good : s'.InSync → s'.Good

theorem Good.stepSpec (h : s.Good) {P : Prop} (hP : P) : StepSpec s P :=
  ⟨iff_of_true h.inSync hP, fun _ => h⟩

theorem inSync_of_inUse (h : s.inUse = none) : s.InSync := by
  rintro ix hix
  rw [h] at hix
  cases hix

theorem IndexInv.wf_loadedIndex (h : s.IndexInv) {config : HNSWConfig} {file : HierarchicalNSW} (hfile : s.indexFile = some file)
    (hloaded : HNSWIndex.loadedIndex config file s.mappingFile = some ix) :
    ix.WF ∧ ix.config = config := by
  rw [HNSWIndex.loadedIndex] at hloaded
  split_ifs at hloaded
  obtain ⟨m, hm, rfl⟩ := Option.map_eq_some_iff.1 hloaded
  exact ⟨HNSWIndex.wf_loaded config (h.files file m hfile hm), rfl⟩

theorem IndexInv.wf_newIndex (h : s.IndexInv) (hnew : s.newIndex = some ix) :
    ix.WF ∧ ix.config = s.hnswConfig := by
  rw [newIndex] at hnew
  split at hnew
  · next hsaved =>
      cases hnew
      obtain ⟨file, hfile, hloaded⟩ := Option.bind_eq_some_iff.1 hsaved
      exact h.wf_loadedIndex hfile hloaded
  · split_ifs at hnew
    cases hnew
    exact ⟨HNSWIndex.wf_started _, rfl⟩

theorem not_live_started (config : HNSWConfig) (id : String) :
    ¬ (HNSWIndex.started config).Live id := by
  rw [HNSWIndex.live_iff (HNSWIndex.wf_started config), HNSWIndex.mark_started]
  exact nofun

theorem IndexInv.startHNSW (h : s.IndexInv) (huse : s.useHnsw = true) (hdim : s.dimension ≠ 0)
    (hinit : s.hnswInitialized = false) (hopened : s.opened = true) :
    s.startHNSW.IndexInv ∧ s.startHNSW.inUse = s.newIndex ∧
      (s.startHNSW.useHnsw = true → s.startHNSW.hnswInitialized = true) ∧
      s.startHNSW.opened = true ∧ s.startHNSW.dimension = s.dimension ∧
      s.startHNSW.vectors = s.vectors := by
  rw [startHNSW_eq huse hdim]
  cases hnew : s.newIndex with
  | some ix =>
    refine ⟨⟨?_, fun _ => ⟨ix, rfl⟩, ?_, h.files⟩, ?_, fun _ => rfl, hopened, rfl, rfl⟩
    · rintro hclosed
      cases hopened.symm.trans hclosed
    · rintro _ ⟨⟩
      exact (h.wf_newIndex hnew).1
    · exact inUse_eq_some.2 ⟨huse, rfl, rfl⟩
  | none =>
    refine ⟨⟨?_, fun _ => ⟨_, rfl⟩, ?_, h.files⟩, inUse_eq_none hinit, nofun, hopened, rfl, rfl⟩
    · rintro hclosed
      cases hopened.symm.trans hclosed
    · rintro _ ⟨⟩
      exact HNSWIndex.wf_create _

theorem Good.ready (h : s.Good) (hopened : s.opened = true) (hdim : s.dimension ≠ 0) :
    s.Ready s.dimension ∧ s.inUse = s.taking s.dimension := by
  have hinit (huse : s.useHnsw = true) : s.hnswInitialized = true := by
    by_contra hinit
    exact hdim (h.started hopened huse (Bool.eq_false_iff.2 hinit))
  refine ⟨{ h.toIndexInv with
    opened := hopened
    dimension := rfl
    pos := hdim
    keys := h.keys
    lengths := fun id n hn => (h.dimension hopened id n hn).symm
    initialized := hinit
    covers := fun ix hix id hid => (h.inSync ix hix id).2 hid
    indexDimension := ?_ }, ?_⟩
  · rintro ix hix
    by_cases hrows : s.vectors = ∅
    · exact .inr fun id hlive => vectors_eq_empty_iff.1 hrows id ((h.inSync ix hix id).1 hlive)
    · exact .inl (h.indexDimension ix hix hrows)
  · rw [taking]
    split_ifs with hinit' huse
    · rfl
    · exact absurd (hinit huse) hinit'
    · exact inUse_eq_none (Bool.eq_false_iff.2 hinit')

theorem Good.ready_setDimension (h : s.Good) (hopened : s.opened = true) (hdim : s.dimension = 0)
    {length : Nat} (hlength : length ≠ 0) :
    (s.setDimension length).Ready length ∧ (s.setDimension length).inUse = s.taking length ∧
      (s.setDimension length).vectors = s.vectors := by
  have hrows := h.toTableInv.vectors_eq_empty hopened hdim
  have hnone (id : String) : id ∉ s.vectors := vectors_eq_empty_iff.1 hrows id
  have hlookup (id : String) (n : Nat) : s.vectors.lookup id ≠ some n := by
    rintro hn
    exact hnone id (AList.lookup_isSome.1 (by rw [hn]; rfl))
  have hindex : IndexInv { s with dimension := length } :=
    ⟨h.closed, h.hasIndex, h.wf, h.files⟩
  by_cases hinit : s.hnswInitialized = true
  · have hsame : s.setDimension length = { s with dimension := length } := by
      rw [setDimension]
      exact if_neg (by simp [hinit])
    rw [hsame, taking, if_pos hinit]
    refine ⟨{ hindex with
      opened := hopened
      dimension := rfl
      pos := hlength
      keys := h.keys
      lengths := fun id n hn => absurd hn (hlookup id n)
      initialized := fun _ => hinit
      covers := fun _ _ id hid => absurd hid (hnone id)
      indexDimension := ?_ }, rfl, rfl⟩
    rintro ix hix
    exact .inr fun id hlive => hnone id ((h.inSync ix hix id).1 hlive)
  · rw [taking, if_neg hinit]
    rw [Bool.not_eq_true] at hinit
    by_cases huse : s.useHnsw = true
    · have hstart : s.setDimension length = startHNSW { s with dimension := length } := by
        rw [setDimension]
        exact if_pos (by simp [hinit, huse])
      obtain ⟨hindex', hinUse, hinit', hopened', hdim', hvectors⟩ :=
        hindex.startHNSW huse hlength hinit hopened
      rw [hstart, if_pos huse]
      refine ⟨{ hindex' with
        opened := hopened'
        dimension := hdim'
        pos := hlength
        keys := fun id hid => h.keys id (hvectors ▸ hid)
        lengths := fun id n hn => absurd (hvectors ▸ hn) (hlookup id n)
        initialized := hinit'
        covers := fun _ _ id hid => absurd (hvectors ▸ hid) (hnone id)
        indexDimension := ?_ }, hinUse, hvectors⟩
      rintro ix hix
      rw [hinUse] at hix
      exact .inl (congrArg HNSWConfig.dimension (hindex.wf_newIndex hix).2)
    · have hsame : s.setDimension length = { s with dimension := length } := by
        rw [setDimension]
        exact if_neg (by simp [huse])
      have hinUse : inUse { s with dimension := length } = none := inUse_eq_none hinit
      rw [hsame, if_neg huse]
      refine ⟨{ hindex with
        opened := hopened
        dimension := rfl
        pos := hlength
        keys := h.keys
        lengths := fun id n hn => absurd hn (hlookup id n)
        initialized := fun huse' => absurd huse' huse
        covers := fun _ _ id hid => absurd hid (hnone id)
        indexDimension := ?_ }, hinUse, rfl⟩
      rintro ix hix
      rw [hinUse] at hix
      cases hix

theorem Ready.stepSpec (h : s.Ready length) (id : String) (dumps : Bool) :
    StepSpec (if dumps then s.storeVector id length else s)
      (∀ ix, s.inUse = some ix →
        if dumps then s.TakesAlike ix id length else ∀ x, ix.Live x ↔ x ∈ s.vectors) := by
  cases dumps with
  | true => exact ⟨h.inSync_storeVector_iff id, h.good_storeVector id⟩
  | false => exact ⟨Iff.rfl, h.good⟩

theorem Good.indexVector (h : s.Good) (id : String) (length : Nat) (dumps : Bool) :
    StepSpec (s.indexVector id length dumps).1 (s.StaysInSync (.indexVector id length dumps)) := by
  by_cases htakes : s.Takes id length
  · have htaken := htakes
    obtain ⟨hopened, hid, hlength, hdims⟩ := htaken
    have hrefused : ¬ (s.opened = false ∨ id = "" ∨ length = 0) := by
      rw [not_or, not_or, Bool.not_eq_false]
      exact ⟨hopened, hid, hlength⟩
    rw [StaysInSync, imp_iff_right htakes, VectorDatabase.indexVector, if_neg hrefused]
    by_cases hdim : s.dimension = 0
    · obtain ⟨hready, hinUse, hvectors⟩ := h.ready_setDimension hopened hdim hlength
      have hspec := hready.stepSpec id dumps
      rw [hinUse] at hspec
      simp only [TakesAlike, hvectors] at hspec
      rw [if_pos hdim]
      cases dumps <;> exact hspec
    · obtain rfl := hdims.resolve_left hdim
      obtain ⟨hready, hinUse⟩ := h.ready hopened hdim
      have hspec := hready.stepSpec id dumps
      rw [hinUse] at hspec
      rw [if_neg hdim, if_neg (not_not.2 rfl)]
      cases dumps <;> exact hspec
  · have hsame : (s.indexVector id length dumps).1 = s := by
      rw [VectorDatabase.indexVector]
      by_cases hrefused : s.opened = false ∨ id = "" ∨ length = 0
      · rw [if_pos hrefused]
      · rw [if_neg hrefused]
        rw [not_or, not_or, Bool.not_eq_false] at hrefused
        obtain ⟨hopened, hid, hlength⟩ := hrefused
        rw [if_neg fun hdim => htakes ⟨hopened, hid, hlength, .inl hdim⟩,
          if_pos fun hdim => htakes ⟨hopened, hid, hlength, .inr hdim⟩]
    rw [hsame]
    exact h.stepSpec fun htakes' => absurd htakes' htakes

theorem live_markDeleted (hwf : ix.WF) (id x : String) :
    (ix.markDeleted id).1.Live x ↔ x ≠ id ∧ ix.Live x := by
  rw [HNSWIndex.live_iff hwf, HNSWIndex.live_iff (HNSWIndex.kept_markDeleted hwf id).wf,
    HNSWIndex.mark_markDeleted hwf]
  split_ifs with hmark
  · exact iff_of_false (by simp) fun h => h.1 hmark.2
  · refine ⟨fun hlive => ⟨?_, hlive⟩, And.right⟩
    rintro rfl
    exact hmark ⟨hlive, rfl⟩

theorem Good.deleteVector (h : s.Good) (id : String) :
    StepSpec (s.deleteVector id).1 (s.StaysInSync (.deleteVector id)) := by
  by_cases hdelete : s.opened = true ∧ cString id ∈ s.vectors
  · obtain ⟨hopened, hmem⟩ := hdelete
    have hnext : (s.deleteVector id).1 =
        { onIndex (fun ix => (ix.markDeleted id).1)
            { s with vectors := s.vectors.erase (cString id) } with
          dimension :=
            if (s.vectors.erase (cString id)).entries.isEmpty then 0 else s.dimension } := by
      rw [VectorDatabase.deleteVector, hopened, AList.lookup_isSome.2 hmem]
      rfl
    have hvectors (x : String) :
        x ∈ (s.deleteVector id).1.vectors ↔ x ≠ cString id ∧ x ∈ s.vectors := by
      rw [hnext]
      exact AList.mem_erase
    have hlookup (x : String) (n : Nat) (hx : (s.deleteVector id).1.vectors.lookup x = some n) :
        s.vectors.lookup x = some n ∧ (s.deleteVector id).1.dimension = s.dimension := by
      rw [hnext] at hx ⊢
      dsimp only [onIndex] at hx
      constructor
      · rw [Table.lookup_erase_ite] at hx
        split_ifs at hx
        exact hx
      · refine if_neg ?_
        rintro hempty
        have hnil := List.isEmpty_iff.1 hempty
        have hmem := AList.mem_lookup_iff.1 (Option.mem_def.2 hx)
        rw [hnil] at hmem
        cases hmem
    have hinUse : (s.deleteVector id).1.inUse = s.inUse.map fun ix => (ix.markDeleted id).1 := by
      rw [hnext]
      exact inUse_onIndex _ { s with vectors := s.vectors.erase (cString id) }
    have hindex : (s.deleteVector id).1.IndexInv := by
      have herased : IndexInv { s with vectors := s.vectors.erase (cString id) } :=
        ⟨h.closed, h.hasIndex, h.wf, h.files⟩
      have hkept := herased.onIndex fun ix hwf => (HNSWIndex.kept_markDeleted hwf id).wf
      rw [hnext]
      exact ⟨hkept.closed, hkept.hasIndex, hkept.wf, hkept.files⟩
    refine ⟨?_, fun hsync => ⟨⟨?_, ?_, ?_, ?_⟩, hindex, ?_, ?_, hsync⟩⟩
    · rw [InSync, hinUse, StaysInSync]
      cases hix : s.inUse with
      | none => exact iff_of_true nofun nofun
      | some ix =>
        have hwf := h.wf ix (inUse_eq_some.1 hix).2.2
        simp only [Option.map_some, Option.some.injEq, forall_eq', Option.isSome_some,
          forall_true_left, hvectors, live_markDeleted hwf, h.inSync ix hix]
        constructor
        · rintro hsync -
          by_contra hne
          exact ((hsync (cString id)).1 ⟨hne, hmem⟩).1 rfl
        · rintro hcString x
          rw [hcString hmem]
    · exact fun x hx => h.keys x ((hvectors x).1 hx).2
    · exact fun x n hx => h.length x n (hlookup x n hx).1
    · exact fun x x' n n' hx hx' => h.same x x' n n' (hlookup x n hx).1 (hlookup x' n' hx').1
    · rintro - x n hx
      rw [(hlookup x n hx).2]
      exact h.dimension hopened x n (hlookup x n hx).1
    · rintro - huse hinit
      rw [hnext] at huse hinit
      have hrows := h.toTableInv.vectors_eq_empty hopened (h.started hopened huse hinit)
      rw [hrows] at hmem
      exact absurd hmem (AList.notMem_empty _)
    · rintro ix' hix' hrows
      rw [hinUse] at hix'
      obtain ⟨ix, hix, rfl⟩ := Option.map_eq_some_iff.1 hix'
      have hwf := h.wf ix (inUse_eq_some.1 hix).2.2
      obtain ⟨x, hx⟩ := not_forall_not.1 (mt vectors_eq_empty_iff.2 hrows)
      obtain ⟨n, hn⟩ := exists_length hx
      rw [(HNSWIndex.kept_markDeleted hwf id).config, (hlookup x n hn).2]
      refine h.indexDimension ix hix ?_
      rintro hempty
      rw [hempty] at hmem
      exact AList.notMem_empty _ hmem
  · have hsame : (s.deleteVector id).1 = s := by
      rw [VectorDatabase.deleteVector, if_neg]
      rwa [Bool.and_eq_true, AList.lookup_isSome]
    rw [hsame]
    refine h.stepSpec fun hinUse hmem => absurd ⟨?_, hmem⟩ hdelete
    obtain ⟨ix, hix⟩ := Option.isSome_iff_exists.1 hinUse
    by_contra hclosed
    have hnone := h.closed (Bool.eq_false_iff.2 hclosed)
    rw [(inUse_eq_some.1 hix).2.2] at hnone
    cases hnone

theorem Good.deleteAll (h : s.Good) : StepSpec s.deleteAll.1 (s.StaysInSync .deleteAll) := by
  by_cases hopened : s.opened = true
  · by_cases hclear : (s.useHnsw && s.hnswIndex.isSome && s.hnswInitialized) = true
    · have hnext : s.deleteAll.1 = { s with
          vectors := ∅
          dimension := 0
          hnswIndex := s.hnswIndex.map HNSWIndex.clear
          hnswInitialized := false } := by
        rw [VectorDatabase.deleteAll, if_pos hopened]
        exact congrArg Prod.fst (if_pos hclear)
      have hnone : s.deleteAll.1.inUse = none := inUse_eq_none (by rw [hnext])
      refine ⟨iff_of_true (inSync_of_inUse hnone) trivial, fun hsync =>
        ⟨?_, ?_, ?_, fun ix hix => absurd (hnone.symm.trans hix) nofun, hsync⟩⟩
      · rw [hnext]
        exact ⟨fun id hid => absurd hid (AList.notMem_empty _), nofun, nofun, nofun⟩
      · rw [hnext]
        refine ⟨fun hclosed => absurd (hopened.symm.trans hclosed) nofun, nofun, ?_, h.files⟩
        rintro _ hix
        obtain ⟨ix, -, rfl⟩ := Option.map_eq_some_iff.1 hix
        exact HNSWIndex.wf_create _
      · rintro - - -
        rw [hnext]
    · have hnext : s.deleteAll.1 = { s with vectors := ∅, dimension := 0 } := by
        rw [VectorDatabase.deleteAll, if_pos hopened]
        exact congrArg Prod.fst (if_neg hclear)
      have hnone : s.deleteAll.1.inUse = none := by
        rw [hnext, ← Option.not_isSome_iff_eq_none]
        rintro hsome
        obtain ⟨ix, hix⟩ := Option.isSome_iff_exists.1 hsome
        obtain ⟨huse, hinit, hindex⟩ := inUse_eq_some.1 hix
        exact hclear (by simp_all)
      refine ⟨iff_of_true (inSync_of_inUse hnone) trivial, fun hsync =>
        ⟨?_, ?_, ?_, fun ix hix => absurd (hnone.symm.trans hix) nofun, hsync⟩⟩
      · rw [hnext]
        exact ⟨fun id hid => absurd hid (AList.notMem_empty _), nofun, nofun, nofun⟩
      · rw [hnext]
        exact ⟨h.closed, h.hasIndex, h.wf, h.files⟩
      · rintro - - -
        rw [hnext]
  · rw [VectorDatabase.deleteAll, if_neg hopened]
    exact h.stepSpec trivial

theorem addRows_eq (ix : HNSWIndex) (batch rows : List (String × Nat)) :
    addRows ix batch rows = ix.addVectorsBatch (batch ++ rows) := by
  induction rows generalizing ix batch with
  | nil => rw [addRows, List.append_nil]
  | cons row rows ih =>
    rw [addRows]
    split_ifs
    · rw [ih, List.nil_append, HNSWIndex.addVectorsBatch, HNSWIndex.addVectorsBatch,
        HNSWIndex.addVectorsBatch, ← List.foldl_append, List.append_assoc, List.singleton_append]
    · rw [ih, List.append_assoc, List.singleton_append]

theorem mem_rows_iff (s : VectorDatabase) (id : String) :
    id ∈ s.rows.map Prod.fst ↔ id ∈ s.vectors := by
  rw [rows, List.map_map]
  exact AList.mem_keys

theorem nodup_rows (s : VectorDatabase) : (s.rows.map Prod.fst).Nodup := by
  rw [rows, List.map_map]
  exact s.vectors.keys_nodup

theorem lookup_of_mem_rows {v : String × Nat} (h : v ∈ s.rows) :
    s.vectors.lookup v.1 = some v.2 := by
  obtain ⟨e, he, rfl⟩ := List.mem_map.1 h
  exact AList.mem_lookup_iff.2 he

theorem rebuilt_iff {config : HNSWConfig} (hstart : HNSWIndex.CanStart config)
    (hrows : ∀ v ∈ s.rows, v.1 ≠ "" ∧ v.2 = config.dimension) :
    (∀ id, (addRows (HNSWIndex.started config) [] s.rows).Live id ↔ id ∈ s.vectors) ↔
      (s.rows.length : Int) ≤ config.maxElements := by
  have hwf := HNSWIndex.wf_started config
  obtain ⟨hwf', -, hroom⟩ := HNSWIndex.wf_addVectorsBatch hwf s.rows
  obtain ⟨h', hix', -, hcount⟩ := hroom _ rfl (Nat.zero_le _)
  have hmax : ((config.maxElements.toNat : Nat) : Int) = config.maxElements :=
    Int.toNat_of_nonneg hstart.2
  rw [addRows_eq, List.nil_append]
  constructor
  · rintro hlive
    have hle := HNSWIndex.length_le_of_mark hwf' hix' (nodup_rows s) fun id hid => by
      rw [(HNSWIndex.live_iff hwf').1 ((hlive id).2 ((mem_rows_iff s id).1 hid))]
      rfl
    rw [List.length_map] at hle
    have hle' : s.rows.length ≤ config.maxElements.toNat := le_trans hle hcount
    omega
  · rintro hfits id
    have hroom : 0 + s.rows.length ≤ config.maxElements.toNat := by omega
    rw [HNSWIndex.live_iff hwf', HNSWIndex.mark_addVectorsBatch hwf rfl hrows hroom,
      HNSWIndex.mark_started, ← mem_rows_iff]
    split_ifs with hid
    · exact iff_of_true rfl hid
    · exact iff_of_false nofun hid

theorem IndexInv.opened (h : s.IndexInv) (hix : s.hnswIndex = some ix) : s.opened = true := by
  by_contra hclosed
  have hnone := h.closed (Bool.eq_false_iff.2 hclosed)
  rw [hix] at hnone
  cases hnone

theorem rebuildIndex_eq (huse : s.useHnsw = true) (hopened : s.opened = true)
    (hix : s.hnswIndex = some ix) :
    s.rebuildIndex.1 =
      if HNSWIndex.CanStart ix.config then
        { s with
          hnswIndex := some (addRows (HNSWIndex.started ix.config) [] s.rows)
          hnswInitialized := true }
      else { s with hnswIndex := some (HNSWIndex.create ix.config) } := by
  have hready : (!s.useHnsw || !s.opened) = false := by rw [huse, hopened]; rfl
  have hindex : s.hnswIndex.isNone = false := by rw [hix]; rfl
  have hclear : ix.clear.initializeIndex = _ := HNSWIndex.initializeIndex_create ix.config
  rw [rebuildIndex, hready, hindex]
  by_cases hstart : HNSWIndex.CanStart ix.config
  · rw [if_pos hstart] at hclear ⊢
    simp only [Bool.false_and, Bool.false_eq_true, if_false, hix, Bool.not_true, hclear, if_true]
  · rw [if_neg hstart] at hclear ⊢
    simp only [Bool.false_and, Bool.false_eq_true, if_false, hix, Bool.not_true, hclear]

theorem Good.withIndex (h : s.Good) {ix' : HNSWIndex} (hix : s.hnswIndex = some ix)
    (hwf : ix'.WF) (hconfig : ix'.config = ix.config) (initialized : Bool)
    (hinit : s.hnswInitialized = true → initialized = true)
    (hsync : InSync { s with hnswIndex := some ix', hnswInitialized := initialized }) :
    Good { s with hnswIndex := some ix', hnswInitialized := initialized } := by
  refine ⟨⟨h.keys, h.length, h.same, h.dimension⟩,
    ⟨?_, fun _ => ⟨ix', rfl⟩, ?_, h.files⟩, ?_, ?_, hsync⟩
  · rintro hclosed
    cases (h.opened hix).symm.trans hclosed
  · rintro _ ⟨⟩
    exact hwf
  · rintro hopened huse hfalse
    refine h.started hopened huse (Bool.eq_false_iff.2 fun htrue => ?_)
    cases (hinit htrue).symm.trans hfalse
  · rintro _ hinUse hrows
    obtain ⟨huse, -, heq⟩ := inUse_eq_some.1 hinUse
    cases heq
    rw [hconfig]
    exact h.indexDimension ix
      (inUse_eq_some.2 ⟨huse, h.initialized (h.opened hix) huse hrows, hix⟩) hrows

theorem inSync_withIndex (huse : s.useHnsw = true) (ix' : HNSWIndex) (initialized : Bool) :
    InSync { s with hnswIndex := some ix', hnswInitialized := initialized } ↔
      (initialized = true → ∀ id, ix'.Live id ↔ id ∈ s.vectors) := by
  constructor
  · rintro hsync rfl
    exact hsync ix' (inUse_eq_some.2 ⟨huse, rfl, rfl⟩)
  · rintro hsync _ hinUse
    obtain ⟨-, hinit, heq⟩ := inUse_eq_some.1 hinUse
    cases heq
    exact hsync hinit

theorem live_create_iff (config : HNSWConfig) :
    (∀ id, (HNSWIndex.create config).Live id ↔ id ∈ s.vectors) ↔ s.vectors = ∅ := by
  have hnot (id : String) : ¬ (HNSWIndex.create config).Live id := by
    rintro ⟨_, _, ⟨⟩, -⟩
  simp only [hnot, false_iff]
  exact vectors_eq_empty_iff.symm

theorem Good.rebuildIndex (h : s.Good) :
    StepSpec s.rebuildIndex.1 (s.StaysInSync .rebuildIndex) := by
  by_cases hready : s.useHnsw = true ∧ s.opened = true
  · obtain ⟨huse, hopened⟩ := hready
    cases hix : s.hnswIndex with
    | none =>
      -- then there is no dimension yet
      have hinit : s.hnswInitialized = false := by
        refine Bool.eq_false_iff.2 fun hinit => ?_
        obtain ⟨ix, hsome⟩ := h.hasIndex hinit
        cases hix.symm.trans hsome
      have hdim := h.started hopened huse hinit
      have hsame : s.rebuildIndex.1 = s := by
        rw [VectorDatabase.rebuildIndex, huse, hopened, hix, hdim]
        rfl
      rw [hsame]
      refine h.stepSpec fun ix hinUse => ?_
      cases hix.symm.trans (inUse_eq_some.1 hinUse).2.2
    | some ix =>
      have hinit (hrows : s.vectors ≠ ∅) : s.inUse = some ix :=
        inUse_eq_some.2 ⟨huse, h.initialized hopened huse hrows, hix⟩
      have hcond : s.StaysInSync .rebuildIndex ↔ (s.vectors ≠ ∅ →
          HNSWIndex.CanStart ix.config ∧ (s.rows.length : Int) ≤ ix.config.maxElements) := by
        rw [StaysInSync]
        constructor
        · exact fun hstays hrows => hstays ix (hinit hrows) hrows
        · rintro hstays ix' hinUse hrows
          cases hix.symm.trans (inUse_eq_some.1 hinUse).2.2
          exact hstays hrows
      rw [rebuildIndex_eq huse hopened hix, hcond]
      split_ifs with hstart
      · refine ⟨?_, h.withIndex hix ?_ ?_ true fun _ => rfl⟩
        · rw [inSync_withIndex huse, imp_iff_right rfl, rebuilt_iff hstart, and_iff_right hstart]
          · refine ⟨fun hfits _ => hfits, fun hfits => ?_⟩
            by_cases hrows : s.vectors = ∅
            · rw [rows, hrows]
              exact hstart.2
            · exact hfits hrows
          · rintro v hv
            have hlookup := lookup_of_mem_rows hv
            have hmem : v.1 ∈ s.vectors := AList.lookup_isSome.1 (by rw [hlookup]; rfl)
            have hrows : s.vectors ≠ ∅ := by
              rintro hempty
              rw [hempty] at hmem
              exact AList.notMem_empty _ hmem
            refine ⟨?_, ?_⟩
            · rintro hempty
              have hlive := (h.inSync ix (hinit hrows) v.1).2 hmem
              rw [hempty, HNSWIndex.live_iff (h.wf ix hix),
                HNSWIndex.mark_empty (h.wf ix hix)] at hlive
              cases hlive
            · rw [h.indexDimension ix (hinit hrows) hrows]
              exact (h.dimension hopened v.1 v.2 hlookup).symm
        · rw [addRows_eq]
          exact (HNSWIndex.wf_addVectorsBatch (HNSWIndex.wf_started _) _).1
        · rw [addRows_eq]
          exact (HNSWIndex.wf_addVectorsBatch (HNSWIndex.wf_started _) _).2.1
      · refine ⟨?_, h.withIndex hix (HNSWIndex.wf_create _) rfl s.hnswInitialized id⟩
        refine (inSync_withIndex huse _ s.hnswInitialized).trans ?_
        rw [live_create_iff]
        constructor
        · rintro hempty hrows
          exact absurd (hempty (inUse_eq_some.1 (hinit hrows)).2.1) hrows
        · rintro hstays -
          by_contra hrows
          exact hstart (hstays hrows).1
  · have hsame : s.rebuildIndex.1 = s := by
      rw [VectorDatabase.rebuildIndex, if_pos]
      rw [Bool.or_eq_true, Bool.not_eq_true', Bool.not_eq_true']
      by_contra hboth
      rw [not_or, Bool.not_eq_false, Bool.not_eq_false] at hboth
      exact hready hboth
    rw [hsame]
    refine h.stepSpec fun ix hinUse => absurd ?_ hready
    obtain ⟨huse, -, hix⟩ := inUse_eq_some.1 hinUse
    exact ⟨huse, h.opened hix⟩

theorem Good.loadIndex (h : s.Good) : StepSpec s.loadIndex.1 (s.StaysInSync .loadIndex) := by
  have hsame (hnone : ∀ ix file, s.useHnsw = true → s.hnswIndex = some ix →
      s.indexFile ≠ some file) (hstep : s.loadIndex.1 = s) :
      StepSpec s.loadIndex.1 (s.StaysInSync .loadIndex) := by
    rw [hstep]
    exact h.stepSpec fun ix file huse hix hfile => absurd hfile (hnone ix file huse hix)
  by_cases huse : s.useHnsw = true
  · cases hix : s.hnswIndex with
    | none =>
      refine hsame (fun ix _ _ hsome => ?_) ?_
      · cases hix.symm.trans hsome
      · rw [VectorDatabase.loadIndex, if_pos huse, hix]
    | some ix =>
      cases hfile : s.indexFile with
      | none =>
        refine hsame (fun _ file _ _ hsome => ?_) ?_
        · cases hfile.symm.trans hsome
        · rw [VectorDatabase.loadIndex, if_pos huse, hix, hfile]
      | some file =>
        have hwf := h.wf ix hix
        have hload := HNSWIndex.loadIndex_eq hwf file s.mappingFile
        have hcond : s.StaysInSync .loadIndex ↔
            match HNSWIndex.loadedIndex ix.config file s.mappingFile with
            | some ix' => ∀ id, ix'.Live id ↔ id ∈ s.vectors
            | none => s.vectors = ∅ := by
          rw [StaysInSync]
          constructor
          · exact fun hstays => hstays ix file huse hix hfile
          · rintro hstays ix₁ file₁ - hix₁ hfile₁
            cases hix.symm.trans hix₁
            cases hfile.symm.trans hfile₁
            exact hstays
        rw [hcond]
        cases hloaded : HNSWIndex.loadedIndex ix.config file s.mappingFile with
        | some ix' =>
          rw [hloaded] at hload
          have hnext : s.loadIndex.1 =
              { s with hnswIndex := some ix', hnswInitialized := true } := by
            rw [VectorDatabase.loadIndex, if_pos huse]
            simp only [hix, hfile, hload, if_true]
          obtain ⟨hwf', hconfig⟩ := h.wf_loadedIndex hfile hloaded
          rw [hnext]
          refine ⟨?_, h.withIndex hix hwf' hconfig true fun _ => rfl⟩
          rw [inSync_withIndex huse, imp_iff_right rfl]
        | none =>
          rw [hloaded] at hload
          have hnext : s.loadIndex.1 = { s with hnswIndex := some ix.clear } := by
            rw [VectorDatabase.loadIndex, if_pos huse]
            simp only [hix, hfile, hload, Bool.false_eq_true, if_false]
          rw [hnext]
          refine ⟨?_, h.withIndex hix (HNSWIndex.wf_create _) rfl s.hnswInitialized id⟩
          refine (inSync_withIndex huse ix.clear s.hnswInitialized).trans ?_
          rw [HNSWIndex.clear, live_create_iff]
          refine ⟨fun hempty => ?_, fun hempty _ => hempty⟩
          by_contra hrows
          exact hrows (hempty (h.initialized (h.opened hix) huse hrows))
  · refine hsame (fun _ _ huse' => absurd huse' huse) ?_
    rw [VectorDatabase.loadIndex, if_neg huse]

theorem IndexInv.writeIndex (h : s.IndexInv) : ∀ file m,
    s.writeIndex.1.indexFile = some file → s.writeIndex.1.mappingFile = some m → m.Fits file := by
  rw [VectorDatabase.writeIndex]
  split
  · next saved hsaved =>
      obtain ⟨ix, hix, hsaved⟩ := Option.bind_eq_some_iff.1 hsaved
      rw [Option.ite_none_right_eq_some] at hix
      rintro _ _ ⟨⟩ ⟨⟩
      exact HNSWIndex.fits_saveIndex (h.wf ix hix.2) hsaved
  · exact h.files

theorem exists_writeIndex (s : VectorDatabase) : ∃ indexFile mappingFile,
    s.writeIndex.1 = { s with indexFile := indexFile, mappingFile := mappingFile } := by
  rw [writeIndex]
  split
  · exact ⟨_, _, rfl⟩
  · exact ⟨s.indexFile, s.mappingFile, rfl⟩

theorem Good.saveIndex (h : s.Good) : StepSpec s.saveIndex.1 (s.StaysInSync .saveIndex) := by
  rw [VectorDatabase.saveIndex]
  split_ifs
  · obtain ⟨indexFile, mappingFile, heq⟩ := exists_writeIndex s
    have hfiles := h.toIndexInv.writeIndex
    rw [heq] at hfiles ⊢
    exact ⟨iff_of_true h.inSync trivial, fun _ =>
      ⟨⟨h.keys, h.length, h.same, h.dimension⟩,
        ⟨h.closed, h.hasIndex, h.wf, hfiles⟩, h.started, h.indexDimension, h.inSync⟩⟩
  · exact h.stepSpec trivial

theorem Good.reopen (h : s.Good) (config : VectorDatabaseConfig) (keepIndex keepMapping : Bool) :
    StepSpec (s.reopen config keepIndex keepMapping)
      (s.StaysInSync (.reopen config keepIndex keepMapping)) := by
  have hnone : (s.reopen config keepIndex keepMapping).inUse = none := inUse_eq_none rfl
  have hvectors : (s.reopen config keepIndex keepMapping).vectors = s.vectors := by
    obtain ⟨indexFile, mappingFile, heq⟩ := exists_writeIndex s
    rw [VectorDatabase.reopen, heq]
  refine ⟨iff_of_true (inSync_of_inUse hnone) trivial, fun hsync =>
    ⟨⟨?_, ?_, ?_, nofun⟩, ⟨fun _ => rfl, nofun, nofun, ?_⟩, nofun,
      fun ix hix => absurd (hnone.symm.trans hix) nofun, hsync⟩⟩
  · rw [hvectors]
    exact h.keys
  · rw [hvectors]
    exact h.length
  · rw [hvectors]
    exact h.same
  · rintro file m hfile hm
    rw [VectorDatabase.reopen] at hfile hm
    dsimp only at hfile hm
    rw [Option.ite_none_right_eq_some] at hfile hm
    exact h.toIndexInv.writeIndex file m hfile.2 hm.2

theorem TableInv.loadDimension (h : s.TableInv) :
    (∀ id n, s.vectors.lookup id = some n → s.loadDimension = n) ∧
      (s.vectors = ∅ → s.loadDimension = 0) := by
  constructor
  · rintro id n hn
    rw [VectorDatabase.loadDimension]
    cases hhead : s.vectors.entries.head? with
    | none =>
      have hmem := AList.mem_lookup_iff.1 (Option.mem_def.2 hn)
      rw [List.head?_eq_none_iff.1 hhead] at hmem
      cases hmem
    | some row =>
      have hrow := AList.mem_lookup_iff.2 (List.mem_of_mem_head? (Option.mem_def.2 hhead))
      exact h.same row.1 id row.2 n hrow hn
  · rintro hempty
    rw [VectorDatabase.loadDimension, hempty]
    rfl

theorem Good.initializeDatabase (h : s.Good) :
    StepSpec s.initializeDatabase.1 (s.StaysInSync .initializeDatabase) := by
  by_cases hopened : s.opened = true
  · rw [VectorDatabase.initializeDatabase, if_pos hopened]
    exact h.stepSpec fun hclosed => absurd (hopened.symm.trans hclosed) nofun
  · have hclosed := Bool.eq_false_iff.2 hopened
    have hindex := h.closed hclosed
    have hinit : s.hnswInitialized = false := by
      refine Bool.eq_false_iff.2 fun hinit => ?_
      obtain ⟨ix, hix⟩ := h.hasIndex hinit
      cases hindex.symm.trans hix
    have hnext : s.initializeDatabase.1 =
        if s.useHnsw then startHNSW { s with opened := true, dimension := s.loadDimension }
        else { s with opened := true, dimension := s.loadDimension } := by
      rw [VectorDatabase.initializeDatabase, if_neg hopened]
    -- what holds of any open database with this table
    have htable {s' : VectorDatabase} (hvectors : s'.vectors = s.vectors)
        (hdim : s'.dimension = s.loadDimension) : s'.TableInv := by
      constructor
      · rw [hvectors]
        exact h.keys
      · rw [hvectors]
        exact h.length
      · rw [hvectors]
        exact h.same
      · rw [hvectors, hdim]
        exact fun _ => h.toTableInv.loadDimension.1
    have hopen : IndexInv { s with opened := true, dimension := s.loadDimension } :=
      ⟨nofun, h.hasIndex, h.wf, h.files⟩
    -- without an index there is nothing to be in sync with
    have hidle (hstep : s.initializeDatabase.1 =
        { s with opened := true, dimension := s.loadDimension })
        (hrows : s.useHnsw = true → s.vectors = ∅) :
        StepSpec s.initializeDatabase.1 (s.StaysInSync .initializeDatabase) := by
      have hnone : s.initializeDatabase.1.inUse = none := by
        rw [hstep]
        exact inUse_eq_none hinit
      refine ⟨iff_of_true (inSync_of_inUse hnone) ?_, fun hsync => ⟨?_, ?_, ?_, ?_, hsync⟩⟩
      · exact fun _ huse hne => absurd (hrows huse) hne
      · rw [hstep]
        exact htable rfl rfl
      · rw [hstep]
        exact hopen
      · rw [hstep]
        exact fun _ huse _ => h.toTableInv.loadDimension.2 (hrows huse)
      · exact fun ix hix => absurd (hnone.symm.trans hix) nofun
    by_cases huse : s.useHnsw = true
    · rw [if_pos huse] at hnext
      by_cases hrows : s.vectors = ∅
      · refine hidle (hnext.trans ?_) fun _ => hrows
        have hdim := h.toTableInv.loadDimension.2 hrows
        rw [startHNSW, initializeHNSW, hdim]
        simp only [huse, Bool.not_true, Bool.false_eq_true, if_false, if_true]
      · have hdim : s.loadDimension ≠ 0 := by
          obtain ⟨id, hid⟩ := not_forall_not.1 (mt vectors_eq_empty_iff.2 hrows)
          obtain ⟨n, hn⟩ := exists_length hid
          rw [h.toTableInv.loadDimension.1 id n hn]
          exact h.length id n hn
        obtain ⟨hindex', hinUse, hinit', hopened', hdim', hvectors⟩ :=
          hopen.startHNSW huse hdim hinit rfl
        rw [hnext]
        refine ⟨?_, fun hsync => ⟨htable hvectors hdim', hindex', ?_, ?_, hsync⟩⟩
        · rw [InSync, hinUse, hvectors, newIndex, StaysInSync, imp_iff_right hclosed,
            imp_iff_right huse, imp_iff_right hrows]
          have hsame : savedIndex { s with opened := true, dimension := s.loadDimension } =
              savedIndex { s with dimension := s.loadDimension } := rfl
          rw [hsame]
          cases savedIndex { s with dimension := s.loadDimension } with
          | some ix =>
            simp only [Option.some.injEq, forall_eq']
          | none =>
            dsimp only
            constructor
            · -- a new index is empty, and the table is not
              rintro hsync hstart
              refine hrows (vectors_eq_empty_iff.2 fun id hid => ?_)
              exact not_live_started _ id ((hsync _ (if_pos hstart) id).2 hid)
            · rintro hstart ix hix
              rw [Option.ite_none_right_eq_some] at hix
              exact absurd hix.1 hstart
        · exact fun _ huse' hfalse => absurd ((hinit' huse').symm.trans hfalse) nofun
        · rintro ix hix -
          rw [hinUse] at hix
          rw [hdim']
          exact congrArg HNSWConfig.dimension (hopen.wf_newIndex hix).2
    · rw [if_neg huse] at hnext
      exact hidle hnext fun huse' => absurd huse' huse

/-! ## Runs -/

theorem Good.step (h : s.Good) {a : VectorAction} {s' : VectorDatabase}
    (hstep : s.step a = some s') : StepSpec s' (s.StaysInSync a) := by
  cases a with
  | initializeDatabase =>
    cases hstep
    exact h.initializeDatabase
  | indexVector id length dumps =>
    cases hstep
    exact h.indexVector id length dumps
  | deleteVector id =>
    cases hstep
    exact h.deleteVector id
  | deleteAll =>
    cases hstep
    exact h.deleteAll
  | rebuildIndex =>
    cases hstep
    exact h.rebuildIndex
  | saveIndex =>
    cases hstep
    exact h.saveIndex
  | loadIndex =>
    cases hstep
    exact h.loadIndex
  | reopen config keepIndex keepMapping =>
    cases hstep
    exact h.reopen config keepIndex keepMapping

def LeavesInSync (s : VectorDatabase) (a : VectorAction) : Prop :=
  ∀ s' ∈ s.step a, s'.InSync

theorem exists_step (s : VectorDatabase) (a : VectorAction) : ∃ s', s.step a = some s' := by
  cases a <;> exact ⟨_, rfl⟩

theorem Good.leavesInSync_iff (h : s.Good) (a : VectorAction) :
    s.LeavesInSync a ↔ s.StaysInSync a := by
  obtain ⟨s', hs'⟩ := exists_step s a
  rw [← (h.step hs').inSync, LeavesInSync, hs']
  simp only [Option.mem_some_iff, forall_eq']

/-- **The table and the index.**  In a run from a new database the index in use holds exactly the
ids of the table after every step, exactly when every step keeps the two in sync. -/
theorem inSync_iff (config : VectorDatabaseConfig) (as : List VectorAction) :
    Along step LeavesInSync (create config) as ↔ Along step StaysInSync (create config) as := by
  refine along_congr ?_ (fun s a h => h.leavesInSync_iff a) (good_create config)
  rintro s a s' h hstays hs'
  have hspec := h.step hs'
  exact hspec.good (hspec.inSync.2 hstays)

def smallConfig : VectorDatabaseConfig := ⟨true, 2, "cosine"⟩

/-- The last vector is deleted and the next one has another length: the table takes it, and the
index does not. -/
theorem not_inSync :
    ¬ ∀ (config : VectorDatabaseConfig) (as : List VectorAction) (s : VectorDatabase),
      exec step (create config) as = some s → s.InSync := by
  rintro h
  obtain ⟨s, ix, hrun, hinUse, hmem, hlabels⟩ : ∃ s ix, exec step (create smallConfig)
      [.initializeDatabase, .indexVector "a" 2 true, .deleteVector "a",
        .indexVector "b" 3 true] = some s ∧
      s.inUse = some ix ∧ "b" ∈ s.vectors ∧ ∀ e ∈ ix.labelToId.entries, e.2 ≠ "b" :=
    ⟨_, _, (Option.some_get (by decide +kernel)).symm, (Option.some_get (by decide +kernel)).symm,
      by decide +kernel, by decide +kernel⟩
  obtain ⟨_, label, -, -, hid⟩ := (h smallConfig _ s hrun ix hinUse "b").2 hmem
  exact hlabels _ (AList.mem_lookup_iff.1 (Option.mem_def.2 hid)) rfl

end VectorDatabase

end RavBot.Core
