import RavBot.Core.StructuredMemory
import RavBot.Lib.JsonTable

/-!
# Export and import of the structured memory

What is exported is imported again (`roundTrips_iff`): a hash map is exported in the order in which it is iterated, so
the indices list the same entries in another order.  `ImportFromJson` clears the memory before it looks at the data, and
an item that cannot be read leaves the entries of the items in front of it; the constructor goes on with these, and the
next call of `AddMemory` writes them over the file.  `memory_import_iff` says when the entries survive.
-/

namespace RavBot.Core

open RavBot.Lib
open scoped List

/-! ## Export -/

def dimensionToString : MemoryDimension → String
  | .topic => "topic"
  | .knowledge => "knowledge"
  | .layer => "layer"
  | .general => "general"

/-- The item of an entry. -/
def StructuredMemoryEntry.toJson (entry : StructuredMemoryEntry) : Json :=
  Json.object
    [("id", .str entry.metadata.id), ("title", .str entry.metadata.title), ("content", .str entry.content),
      ("tags", .arr (entry.metadata.tags.map .str)), ("timestamp", .str entry.metadata.timestamp),
      ("importance", .int entry.metadata.importance), ("related_ids", .arr (entry.metadata.relatedIds.map .str)),
      ("dimensions", JsonTable.ofTable dimensionToString Json.str entry.metadata.dimensions)]

/-- The entries of a memory in the order in which the hash map is iterated. -/
structure MemoryListing (m : StructuredMemory) where
  entries : List (Sigma fun _ : String => StructuredMemoryEntry)
  perm : entries.Perm m.entries.entries

def MemoryListing.exportToJson {m : StructuredMemory} (listing : MemoryListing m) : Json :=
  Json.object [("entries", .arr (listing.entries.map fun e => e.2.toJson))]

/-- The file after `Save`: none when `dump` throws, which leaves the file that was opened empty. -/
def MemoryListing.saved {m : StructuredMemory} (listing : MemoryListing m) : Option Json := listing.exportToJson.dump

/-! ## Queries -/

structure StructuredSearchResult where
  id : String
  title : String
  content : String
  score : Rat
  metadata : MemoryMetadata

namespace StructuredMemory

/-- The results for some ids with their scores: those of which there are entries, up to a limit. -/
def results (m : StructuredMemory) (scored : List (String × Rat)) (maxResults : Int) : List StructuredSearchResult :=
  let found := scored.filterMap fun (id, score) =>
    (m.entries.lookup id).map fun entry => ⟨id, entry.metadata.title, entry.content, score, entry.metadata⟩
  if 0 < maxResults then found.take maxResults.toNat else found

def searchByDimension (m : StructuredMemory) (dimension : MemoryDimension) (value : String) (maxResults : Int) :
    List StructuredSearchResult :=
  m.results ((m.dimensionIndex.ids (dimension, value)).map fun id => (id, 1)) maxResults

def tagScore (m : StructuredMemory) (tags : List String) (id : String) : Nat :=
  (tags.map fun tag => (m.tagIndex.ids tag).count id).sum

/-- The ids that are listed under some tags, in an order in which `std::sort` may leave them. -/
structure TagOrder (m : StructuredMemory) (tags ids : List String) : Prop where
  nodup : ids.Nodup
  mem : ∀ id, id ∈ ids ↔ 0 < m.tagScore tags id
  sorted : ids.Pairwise fun a b => m.tagScore tags b ≤ m.tagScore tags a

/-- `SearchByTags`, for an order of the ids. -/
def searchByTags (m : StructuredMemory) (tags ids : List String) (maxResults : Int) : List StructuredSearchResult :=
  m.results (ids.map fun id => (id, (m.tagScore tags id : Rat) / tags.length)) maxResults

end StructuredMemory

/-! ## What is to hold -/

/-- What is to be kept of an entry: all but its tokens. -/
structure SameMetadata (a b : MemoryMetadata) : Prop where
  id : a.id = b.id
  title : a.title = b.title
  tags : a.tags = b.tags
  dimensions : ∀ d, a.dimensions.lookup d = b.dimensions.lookup d
  timestamp : a.timestamp = b.timestamp
  importance : a.importance = b.importance
  relatedIds : a.relatedIds = b.relatedIds

/-- The entries are the same but for their tokens. -/
structure SameEntry (a b : StructuredMemoryEntry) : Prop where
  metadata : SameMetadata a.metadata b.metadata
  content : a.content = b.content

structure SameResult (a b : StructuredSearchResult) : Prop where
  id : a.id = b.id
  title : a.title = b.title
  content : a.content = b.content
  score : a.score = b.score
  metadata : SameMetadata a.metadata b.metadata

namespace StructuredMemory

def imported {m : StructuredMemory} (listing : MemoryListing m) : StructuredMemory :=
  empty.importFromJson listing.exportToJson

/-- Two memories have the same entries, and find the same by tags. -/
structure SameMemory (m m' : StructuredMemory) : Prop where
  entries : ∀ id, Option.Rel SameEntry (m.entries.lookup id) (m'.entries.lookup id)
  tagOrder : ∀ tags ids, m.TagOrder tags ids ↔ m'.TagOrder tags ids
  tags : ∀ tags ids maxResults,
    List.Forall₂ SameResult (m.searchByTags tags ids maxResults) (m'.searchByTags tags ids maxResults)
  listed : ∀ d value, (m.dimensionIndex.ids (d, value)).Perm (m'.dimensionIndex.ids (d, value))

/-- What is exported is imported again: the entries, and the results of queries, in their order. -/
structure RoundTrips {m : StructuredMemory} (listing : MemoryListing m) : Prop where
  same : SameMemory m (imported listing)
  dimensions : ∀ d value maxResults, List.Forall₂ SameResult (m.searchByDimension d value maxResults)
    ((imported listing).searchByDimension d value maxResults)

/-- The entries with a value of a dimension are iterated in the order in which they are listed. -/
def OrderKept {m : StructuredMemory} (listing : MemoryListing m) : Prop :=
  ∀ d value, m.dimensionIndex.ids (d, value) =
    (listing.entries.filter fun e => e.2.metadata.dimensions.lookup d = some value).map Sigma.fst

def Survive (before : Table String StructuredMemoryEntry) (m : StructuredMemory) : Prop :=
  ∀ id entry, before.lookup id = some entry → ∃ entry', m.entries.lookup id = some entry' ∧ SameEntry entry entry'

end StructuredMemory

/-- A call of `AddMemory`. -/
structure MemoryAdd where
  id : String
  title : String
  content : String
  tags : List String
  dimensions : Table MemoryDimension String
  timestamp : String
  importance : Int

namespace StructuredMemory

/-- The memory after a call of `AddMemory`. -/
def after (m : StructuredMemory) (add : MemoryAdd) : StructuredMemory :=
  m.addMemory add.id add.title add.content add.tags add.dimensions add.timestamp add.importance

/-- The entries from before are still in the memory, and after the next call of `AddMemory` in the memory and in the
file. -/
structure Keeps (before : Table String StructuredMemoryEntry) (m : StructuredMemory) (add : MemoryAdd)
    (listing : MemoryListing (m.after add)) : Prop where
  memory : Survive before m
  after : Survive before (m.after add)
  disk : ∀ id entry, before.lookup id = some entry →
    ∃ data ∈ listing.saved, ∃ entry', SameEntry entry entry' ∧ entry'.toJson ∈ importedItems data

/-- The text of a file does not parse, or `ImportFromJson` throws on it or rejects it. -/
def Malformed (file : Option Json) : Prop := ∀ data ∈ file, complete data = false

/-- The entries of the items of a file in front of the first that cannot be read. -/
def frontEntries (file : Option Json) : Table String StructuredMemoryEntry :=
  match file with
  | none => ∅
  | some data => storedEntries (readEntries (importedItems data))

/-- Entries are among those of the items in front of the first that cannot be read, and there are none, or all entries
after the next call are UTF-8. -/
def KeptInFront (before : Table String StructuredMemoryEntry) (file : Option Json) {m : StructuredMemory}
    {add : MemoryAdd} (listing : MemoryListing (m.after add)) : Prop :=
  (∀ id entry, before.lookup id = some entry →
      ∃ entry', (frontEntries file).lookup id = some entry' ∧ SameEntry entry entry') ∧
    (before = ∅ ∨ listing.exportToJson.isUtf8 = true)

/-! ## Tidy calls -/

/-- The value of an `int`. -/
def IsInt (n : Int) : Prop := -2 ^ 31 ≤ n ∧ n < 2 ^ 31

/-- A call that gives an entry an id of its own: an entry is added under a new id, one that is updated keeps its id, and
the items that are imported have different ids. -/
def Tidy (m : StructuredMemory) : MemoryCall → Prop
  | .addMemory id _ _ _ _ _ importance => m.entries.lookup id = none ∧ IsInt importance
  | .updateMemory id _ metadata => ∀ md ∈ metadata, md.id = id ∧ IsInt md.importance
  | .deleteMemory _ => True
  | .importFromJson data => ((readEntries (importedItems data)).map fun e => e.metadata.id).Nodup
  | .load file => ∀ data ∈ file, ((readEntries (importedItems data)).map fun e => e.metadata.id).Nodup

/-- The entries are stored under their ids, and the indices list them as often as they carry a tag or a value. -/
structure Consistent (m : StructuredMemory) : Prop where
  entries : ∀ id entry, m.entries.lookup id = some entry → entry.metadata.id = id ∧ IsInt entry.metadata.importance
  tags : m.tagIndex.Counts (carried (·.tags) m.entries)
  dimensions : m.dimensionIndex.Counts (carried (·.dimensionPairs) m.entries)

/-! ## Tidy calls keep a memory consistent -/

theorem consistent_empty : Consistent empty where
  entries := by
    intro id entry h
    cases h
  tags := by
    intro tag id
    rw [empty, Postings.ids_empty]
    rfl
  dimensions := by
    intro pair id
    rw [empty, Postings.ids_empty]
    rfl

theorem Consistent.insertEntry {m : StructuredMemory} (h : Consistent m) (entry : StructuredMemoryEntry)
    (hnew : m.entries.lookup entry.metadata.id = none) (hint : IsInt entry.metadata.importance) :
    Consistent (m.insertEntry entry) := by
  have hnothing {κ : Type} (keys : MemoryMetadata → List κ) : carried keys m.entries entry.metadata.id = [] := by
    rw [carried, hnew]
    rfl
  refine ⟨fun id entry' hlookup => ?_, ?_, ?_⟩
  · rw [StructuredMemory.insertEntry] at hlookup
    dsimp only at hlookup
    rw [Table.lookup_insert_ite] at hlookup
    split_ifs at hlookup with hid
    · cases hlookup
      exact ⟨hid.symm, hint⟩
    · exact h.entries id entry' hlookup
  · rw [StructuredMemory.insertEntry]
    dsimp only
    rw [carried_insert]
    exact h.tags.post (hnothing (·.tags)) entry.metadata.tags
  · rw [StructuredMemory.insertEntry]
    dsimp only
    rw [carried_insert]
    exact h.dimensions.post (hnothing (·.dimensionPairs)) entry.metadata.dimensionPairs

variable {entry : StructuredMemoryEntry}

theorem isInt_of_entryFromJson {item : Json} (h : entryFromJson item = some entry) :
    IsInt entry.metadata.importance := by
  have hint (n : Int) : IsInt (Json.toInt32 n) := by
    rw [IsInt, Json.toInt32, Int.bmod_def]
    split_ifs <;> omega
  have hget {j : Json} {n : Int} (h : j.getInt = some n) : IsInt n := by
    cases j with
    | int k =>
      cases h
      exact hint k
    | real q =>
      cases h
      exact hint _
    | bool b =>
      cases h
      cases b <;> exact ⟨by decide, by decide⟩
    | null => cases h
    | str s => cases h
    | arr items => cases h
    | obj fields => cases h
  rw [entryFromJson] at h
  simp only [Option.bind_eq_bind, Option.bind_eq_some_iff, Option.pure_def, Option.some.injEq] at h
  obtain ⟨_, _, _, _, _, _, _, _, _, _, importance, himportance, _, _, _, _, rfl⟩ := h
  dsimp only
  cases item with
  | obj fields =>
    rw [Json.value] at himportance
    cases hfind : (Json.obj fields).find? "importance" with
    | none =>
      rw [hfind] at himportance
      cases himportance
      exact ⟨by decide, by decide⟩
    | some j =>
      rw [hfind] at himportance
      exact hget himportance
  | null => cases himportance
  | bool b => cases himportance
  | int n => cases himportance
  | real q => cases himportance
  | str s => cases himportance
  | arr items => cases himportance

theorem isInt_of_mem_readEntries {items : List Json} (h : entry ∈ readEntries items) :
    IsInt entry.metadata.importance := by
  induction items with
  | nil => cases h
  | cons item items ih =>
    rw [readEntries] at h
    cases hitem : entryFromJson item with
    | none =>
      rw [hitem] at h
      cases h
    | some first =>
      rw [hitem] at h
      rcases List.mem_cons.1 h with rfl | h
      · exact isInt_of_entryFromJson hitem
      · exact ih h

theorem consistent_importFromJson (m : StructuredMemory) {data : Json}
    (hnodup : ((readEntries (importedItems data)).map fun e => e.metadata.id).Nodup) :
    Consistent (m.importFromJson data) := by
  rw [importFromJson_eq]
  have hcounts {κ : Type} [DecidableEq κ] (keys : MemoryMetadata → List κ) :
      (Postings.posted ((readEntries (importedItems data)).map fun e => (e.metadata.id, keys e.metadata))).Counts
        (carried keys (storedEntries (readEntries (importedItems data)))) := by
    rw [carried_storedEntries]
    refine Postings.counts_posted ?_
    rw [List.map_map]
    exact hnodup
  refine ⟨fun id entry hlookup => ?_, hcounts (·.tags), hcounts (·.dimensionPairs)⟩
  obtain ⟨hmem, hid⟩ := mem_of_mem_storedEntries hlookup
  exact ⟨hid, isInt_of_mem_readEntries hmem⟩

theorem consistent_apply {m : StructuredMemory} (h : Consistent m) {c : MemoryCall} (hc : m.Tidy c) :
    Consistent (m.apply c) := by
  cases c with
  | addMemory id title content tags dimensions timestamp importance =>
    rw [apply, addMemory, updateAverage_eq]
    obtain ⟨hentries, htags, hdims⟩ := h.insertEntry
      ⟨{ id, title, tags, dimensions, timestamp, importance }, content, tokenize (content ++ " " ++ title)⟩ hc.1 hc.2
    exact ⟨hentries, htags, hdims⟩
  | updateMemory id content metadata =>
    rw [apply, updateMemory]
    cases hlookup : m.entries.lookup id with
    | none => exact h
    | some entry =>
      obtain ⟨hid, hint⟩ := h.entries id entry hlookup
      have hmetadata : (metadata.getD entry.metadata).id = id ∧
          IsInt (metadata.getD entry.metadata).importance := by
        cases metadata with
        | none => exact ⟨hid, hint⟩
        | some md => exact hc md rfl
      have hcounts {κ : Type} [DecidableEq κ] (keys : MemoryMetadata → List κ) {p : Postings κ String}
          (hp : p.Counts (carried keys m.entries)) (updated : StructuredMemoryEntry) :
          ((p.unpost id (keys entry.metadata)).post id (keys updated.metadata)).Counts
            (carried keys (AList.insert id updated m.entries)) := by
        have hcarried : carried keys m.entries id = keys entry.metadata := by
          rw [carried, hlookup]
          rfl
        have hnothing : Function.update (carried keys m.entries) id [] id = [] := Function.update_self _ _ _
        have hposted := (hp.unpost id).post hnothing (keys updated.metadata)
        rw [Function.update_idem, hcarried] at hposted
        rw [carried_insert]
        exact hposted
      let updated : StructuredMemoryEntry :=
        ⟨metadata.getD entry.metadata, content, tokenize (content ++ " " ++ entry.metadata.title)⟩
      refine ⟨fun id' entry' hentry' => ?_, hcounts (·.tags) h.tags updated,
        hcounts (·.dimensionPairs) h.dimensions updated⟩
      dsimp only at hentry'
      rw [Table.lookup_insert_ite] at hentry'
      split_ifs at hentry' with hsame
      · cases hentry'
        exact ⟨hmetadata.1.trans hsame.symm, hmetadata.2⟩
      · exact h.entries id' entry' hentry'
  | deleteMemory id =>
    rw [apply, deleteMemory]
    cases hlookup : m.entries.lookup id with
    | none => exact h
    | some entry =>
      have hcounts {κ : Type} [DecidableEq κ] (keys : MemoryMetadata → List κ) {p : Postings κ String}
          (hp : p.Counts (carried keys m.entries)) :
          (p.unpost id (keys entry.metadata)).Counts (carried keys (m.entries.erase id)) := by
        have hcarried : carried keys m.entries id = keys entry.metadata := by
          rw [carried, hlookup]
          rfl
        rw [carried_erase, ← hcarried]
        exact hp.unpost id
      dsimp only
      refine ⟨fun id' entry' hentry' => ?_, hcounts (·.tags) h.tags, hcounts (·.dimensionPairs) h.dimensions⟩
      dsimp only at hentry'
      rw [Table.lookup_erase_ite] at hentry'
      split_ifs at hentry'
      exact h.entries id' entry' hentry'
  | importFromJson data => exact consistent_importFromJson m hc
  | load file =>
    cases file with
    | none => exact h
    | some data => exact consistent_importFromJson m (hc data rfl)

theorem consistent_run {calls : List MemoryCall} (hcalls : Along step Tidy empty calls) {m : StructuredMemory}
    (hrun : exec step empty calls = some m) : Consistent m := by
  refine exec_invariant (motive := Consistent) ?_ consistent_empty hcalls hrun
  intro m c m' h hc hstep
  cases hstep
  exact consistent_apply h hc

/-! ## An entry is read back -/

theorem stringToDimension_toString (d : MemoryDimension) : stringToDimension (dimensionToString d) = d := by
  cases d <;> rfl

theorem dimensionToString_injective : Function.Injective dimensionToString :=
  Function.LeftInverse.injective stringToDimension_toString

def dimensionItem (item : String × Json) : Option (MemoryDimension × String) := do
  let value ← item.2.getString
  some (stringToDimension item.1, value)

theorem dimensions_foldlM (fields : List (String × Json)) (t : Table MemoryDimension String) :
    fields.foldlM (fun dims (key, value) => do
        let value ← value.getString
        return AList.insert (stringToDimension key) value dims) t =
      if (JsonTable.fill dimensionItem fields t).2 then some (JsonTable.fill dimensionItem fields t).1 else none := by
  induction fields generalizing t with
  | nil => rfl
  | cons field fields ih =>
    obtain ⟨key, value⟩ := field
    rw [List.foldlM_cons, JsonTable.fill, dimensionItem]
    dsimp only
    cases value.getString with
    | none => rfl
    | some value => exact ih _

theorem dimensions_ofTable (dims : Table MemoryDimension String) :
    ∃ dims', dimensionsFromJson (Json.obj [("dimensions", JsonTable.ofTable dimensionToString Json.str dims)]) =
      some dims' ∧ ∀ d, dims'.lookup d = dims.lookup d := by
  have hread (d : MemoryDimension) (value : String) :
      dimensionItem (dimensionToString d, Json.str value) = some (d, id value) := by
    rw [dimensionItem, Json.getString, stringToDimension_toString]
    rfl
  have hall : (JsonTable.fill dimensionItem (JsonTable.ofTable dimensionToString Json.str dims).items ∅).2 = true :=
    (JsonTable.fill_snd_iff _ _ _).2 (JsonTable.readable_ofTable dimensionToString_injective hread)
  refine ⟨(JsonTable.fill dimensionItem (JsonTable.ofTable dimensionToString Json.str dims).items ∅).1, ?_, fun d => ?_⟩
  · refine (dimensions_foldlM (JsonTable.ofTable dimensionToString Json.str dims).items ∅).trans ?_
    rw [hall, if_pos rfl]
  · rw [JsonTable.lookup_fill, JsonTable.latest_ofTable dimensionToString_injective hread, Option.map_id]
    exact Option.or_none

theorem entryFromJson_toJson (hint : IsInt entry.metadata.importance) :
    ∃ entry', entryFromJson entry.toJson = some entry' ∧ SameEntry entry entry' := by
  obtain ⟨dims, hdims, hlookup⟩ := dimensions_ofTable entry.metadata.dimensions
  have hdimensions : dimensionsFromJson entry.toJson = some dims := by
    rw [← hdims, dimensionsFromJson, dimensionsFromJson, StructuredMemoryEntry.toJson, Json.find?_object]
    rfl
  have hstrings (l : List String) : (Json.arr (l.map Json.str)).getStrings = some l := by
    rw [Json.getStrings, mapM_eq_some_iff]
    induction l with
    | nil => exact .nil
    | cons s l ih => exact .cons rfl ih
  have himportance : Json.toInt32 entry.metadata.importance = entry.metadata.importance := by
    rw [IsInt] at hint
    rw [Json.toInt32, Int.bmod_def]
    split_ifs <;> omega
  refine ⟨⟨{ entry.metadata with dimensions := dims }, entry.content,
    tokenize (entry.content ++ " " ++ entry.metadata.title)⟩, ?_, ?_⟩
  · rw [entryFromJson, hdimensions, StructuredMemoryEntry.toJson]
    simp [List.lookup_cons, Json.getString, Json.getInt, hstrings, himportance]
  · exact ⟨⟨rfl, rfl, rfl, fun d => (hlookup d).symm, rfl, rfl, rfl⟩, rfl⟩

def reread (entry : StructuredMemoryEntry) : StructuredMemoryEntry := (entryFromJson entry.toJson).getD entry

theorem reread_spec (hint : IsInt entry.metadata.importance) :
    entryFromJson entry.toJson = some (reread entry) ∧ SameEntry entry (reread entry) := by
  obtain ⟨entry', hread, hsame⟩ := entryFromJson_toJson hint
  rw [reread, hread]
  exact ⟨rfl, hsame⟩

/-! ## An import of what was exported -/

section Imported

variable {m : StructuredMemory} (hm : Consistent m) (listing : MemoryListing m)

include hm

theorem entries_of_mem {e : Sigma fun _ : String => StructuredMemoryEntry} (he : e ∈ listing.entries) :
    e.2.metadata.id = e.1 ∧ IsInt e.2.metadata.importance :=
  hm.entries e.1 e.2 (AList.mem_lookup_iff.2 (listing.perm.mem_iff.1 he))

theorem readEntries_exported : readEntries (importedItems listing.exportToJson) =
    listing.entries.map fun e => reread e.2 := by
  have hitems : importedItems listing.exportToJson = listing.entries.map fun e => e.2.toJson := by
    rw [importedItems, MemoryListing.exportToJson, Json.find?_object]
    rfl
  rw [hitems]
  have hint (e : Sigma fun _ : String => StructuredMemoryEntry) (he : e ∈ listing.entries) :
      IsInt e.2.metadata.importance := (entries_of_mem hm listing he).2
  generalize listing.entries = entries at hint
  induction entries with
  | nil => rfl
  | cons e entries ih =>
    rw [List.map_cons, readEntries, (reread_spec (hint e List.mem_cons_self)).1, List.map_cons]
    dsimp only
    rw [ih fun e he => hint e (List.mem_cons_of_mem _ he)]

theorem ids_reread : ((listing.entries.map fun e => reread e.2).map fun e => e.metadata.id) =
    listing.entries.map Sigma.fst := by
  rw [List.map_map]
  refine List.map_congr_left fun e he => ?_
  obtain ⟨hid, hint⟩ := entries_of_mem hm listing he
  exact (reread_spec hint).2.metadata.id.symm.trans hid

omit hm in
theorem nodup_listed : (listing.entries.map Sigma.fst).Nodup :=
  (listing.perm.map Sigma.fst).nodup_iff.2 m.entries.nodupKeys

theorem consistent_imported : Consistent (imported listing) := by
  refine consistent_importFromJson empty ?_
  rw [readEntries_exported hm listing, ids_reread hm listing]
  exact nodup_listed listing

theorem lookup_imported (id : String) : (imported listing).entries.lookup id = (m.entries.lookup id).map reread := by
  have hnodup : ((listing.entries.map fun e => reread e.2).map fun e => e.metadata.id).Nodup := by
    rw [ids_reread hm listing]
    exact nodup_listed listing
  rw [imported, importFromJson_eq, readEntries_exported hm listing]
  dsimp only
  refine Option.ext fun entry' => ?_
  have hstored := Table.lookup_foldl_insert (fun e : StructuredMemoryEntry => e.metadata.id) (fun e => e) hnodup ∅ id
    entry'
  rw [AList.lookup_empty] at hstored
  refine hstored.trans ?_
  rw [Option.map_eq_some_iff]
  constructor
  · rintro (⟨a, ha, hid, rfl⟩ | ⟨-, hnone⟩)
    · obtain ⟨e, he, rfl⟩ := List.mem_map.1 ha
      obtain ⟨hkey, hint⟩ := entries_of_mem hm listing he
      have hsame := (reread_spec hint).2.metadata.id
      rw [hid, hkey] at hsame
      exact ⟨e.2, hsame ▸ AList.mem_lookup_iff.2 (listing.perm.mem_iff.1 he), rfl⟩
    · cases hnone
  · rintro ⟨entry, hlookup, rfl⟩
    obtain ⟨hkey, hint⟩ := hm.entries id entry hlookup
    refine .inl ⟨reread entry, ?_, (reread_spec hint).2.metadata.id.symm.trans hkey, rfl⟩
    exact List.mem_map.2 ⟨⟨id, entry⟩, listing.perm.mem_iff.2 (AList.mem_lookup_iff.1 hlookup), rfl⟩

theorem rel_imported (id : String) :
    Option.Rel SameEntry (m.entries.lookup id) ((imported listing).entries.lookup id) := by
  rw [lookup_imported hm listing]
  cases hlookup : m.entries.lookup id with
  | none => exact .none
  | some entry => exact .some (reread_spec (hm.entries id entry hlookup).2).2

theorem tags_imported (id : String) :
    carried (·.tags) (imported listing).entries id = carried (·.tags) m.entries id := by
  have hrel := rel_imported hm listing id
  rw [carried, carried]
  generalize (imported listing).entries.lookup id = imported at hrel
  generalize m.entries.lookup id = exported at hrel
  cases hrel with
  | none => rfl
  | some hsame => exact hsame.metadata.tags.symm

omit hm in
theorem mem_dimensionPairs {md : MemoryMetadata} {d : MemoryDimension} {value : String} :
    (d, value) ∈ md.dimensionPairs ↔ md.dimensions.lookup d = some value := by
  rw [MemoryMetadata.dimensionPairs, List.mem_map]
  constructor
  · rintro ⟨e, he, heq⟩
    cases heq
    exact AList.mem_lookup_iff.2 he
  · intro hlookup
    exact ⟨⟨d, value⟩, AList.mem_lookup_iff.1 hlookup, rfl⟩

omit hm in
theorem count_dimensionPairs (md : MemoryMetadata) (d : MemoryDimension) (value : String) :
    @List.count _ instBEqOfDecidableEq (d, value) md.dimensionPairs =
      if md.dimensions.lookup d = some value then 1 else 0 := by
  split_ifs with h
  · exact @List.count_eq_one_of_mem _ instBEqOfDecidableEq _ _ _ (nodup_dimensionPairs md) (mem_dimensionPairs.2 h)
  · exact (@List.count_eq_zero _ instBEqOfDecidableEq _ _ _).2 fun hmem => h (mem_dimensionPairs.1 hmem)

theorem ids_imported (d : MemoryDimension) (value : String) : (imported listing).dimensionIndex.ids (d, value) =
    (listing.entries.filter fun e => e.2.metadata.dimensions.lookup d = some value).map Sigma.fst := by
  have hentries (e : Sigma fun _ : String => StructuredMemoryEntry) (he : e ∈ listing.entries) :
      (reread e.2).metadata.id = e.1 ∧
        (reread e.2).metadata.dimensions.lookup d = e.2.metadata.dimensions.lookup d := by
    obtain ⟨hid, hint⟩ := entries_of_mem hm listing he
    have hsame := (reread_spec hint).2.metadata
    exact ⟨hsame.id.symm.trans hid, (hsame.dimensions d).symm⟩
  rw [imported, importFromJson_eq, readEntries_exported hm listing]
  dsimp only
  rw [Postings.ids_posted, List.map_map, List.flatMap_map]
  generalize listing.entries = entries at hentries
  induction entries with
  | nil => rfl
  | cons e entries ih =>
    obtain ⟨hid, hdimension⟩ := hentries e List.mem_cons_self
    rw [List.flatMap_cons, ih fun e he => hentries e (List.mem_cons_of_mem _ he), List.filter_cons]
    dsimp only [Function.comp_apply]
    rw [count_dimensionPairs, hid, hdimension]
    by_cases hvalue : e.2.metadata.dimensions.lookup d = some value
    · rw [if_pos hvalue, if_pos (decide_eq_true hvalue), List.map_cons]
      rfl
    · rw [if_neg hvalue, if_neg (by simpa using hvalue)]
      rfl

theorem listed_imported (d : MemoryDimension) (value : String) :
    (m.dimensionIndex.ids (d, value)).Perm ((imported listing).dimensionIndex.ids (d, value)) := by
  rw [List.perm_iff_count]
  intro id
  rw [hm.dimensions, (consistent_imported hm listing).dimensions]
  have hrel := rel_imported hm listing id
  rw [carried, carried]
  generalize (imported listing).entries.lookup id = imported at hrel
  generalize m.entries.lookup id = exported at hrel
  cases hrel with
  | none => rfl
  | some hsame =>
    rw [Option.elim_some, Option.elim_some, count_dimensionPairs, count_dimensionPairs, hsame.metadata.dimensions d]

/-! ## The results of queries -/

theorem results_imported (scored : List (String × Rat)) (maxResults : Int) :
    List.Forall₂ SameResult (m.results scored maxResults) ((imported listing).results scored maxResults) := by
  have hfound : List.Forall₂ SameResult
      (scored.filterMap fun (id, score) => (m.entries.lookup id).map fun entry =>
        ⟨id, entry.metadata.title, entry.content, score, entry.metadata⟩)
      (scored.filterMap fun (id, score) => ((imported listing).entries.lookup id).map fun entry =>
        ⟨id, entry.metadata.title, entry.content, score, entry.metadata⟩) := by
    induction scored with
    | nil => exact .nil
    | cons scored rest ih =>
      obtain ⟨id, score⟩ := scored
      have hrel := rel_imported hm listing id
      rw [List.filterMap_cons, List.filterMap_cons]
      dsimp only
      generalize (imported listing).entries.lookup id = imported at hrel
      generalize m.entries.lookup id = exported at hrel
      cases hrel with
      | none => exact ih
      | some hsame => exact .cons ⟨rfl, hsame.metadata.title, hsame.content, rfl, hsame.metadata⟩ ih
  rw [results, results]
  split_ifs
  · exact List.forall₂_take _ hfound
  · exact hfound

theorem sameMemory_imported : SameMemory m (imported listing) := by
  have hscore (tags : List String) (id : String) : (imported listing).tagScore tags id = m.tagScore tags id := by
    rw [tagScore, tagScore]
    refine congrArg List.sum (List.map_congr_left fun tag _ => ?_)
    rw [hm.tags, (consistent_imported hm listing).tags, tags_imported hm listing]
  refine ⟨rel_imported hm listing, fun tags ids => ?_, fun tags ids maxResults => ?_, listed_imported hm listing⟩
  · constructor
    · rintro ⟨hnodup, hmem, hsorted⟩
      exact ⟨hnodup, by simpa only [hscore] using hmem, by simpa only [hscore] using hsorted⟩
    · rintro ⟨hnodup, hmem, hsorted⟩
      exact ⟨hnodup, by simpa only [hscore] using hmem, by simpa only [hscore] using hsorted⟩
  · rw [searchByTags, searchByTags]
    simp only [hscore]
    exact results_imported hm listing _ _

omit hm in
theorem ids_searchByDimension {m : StructuredMemory} (hm : Consistent m) (d : MemoryDimension) (value : String) :
    (m.searchByDimension d value 0).map StructuredSearchResult.id = m.dimensionIndex.ids (d, value) := by
  have hfound : ∀ id ∈ m.dimensionIndex.ids (d, value), ∃ entry, m.entries.lookup id = some entry := by
    intro id hid
    have hcount := hm.dimensions (d, value) id
    have hcarried : (d, value) ∈ carried (·.dimensionPairs) m.entries id := by
      refine (@List.count_pos_iff _ instBEqOfDecidableEq _ _ _).1 ?_
      rw [← hcount]
      exact List.count_pos_iff.2 hid
    cases hlookup : m.entries.lookup id with
    | none =>
      rw [carried, hlookup] at hcarried
      cases hcarried
    | some entry => exact ⟨entry, rfl⟩
  rw [searchByDimension, results, if_neg (lt_irrefl 0)]
  generalize m.dimensionIndex.ids (d, value) = ids at hfound
  induction ids with
  | nil => rfl
  | cons id ids ih =>
    obtain ⟨entry, hlookup⟩ := hfound id List.mem_cons_self
    rw [List.map_cons, List.filterMap_cons]
    dsimp only
    rw [hlookup, Option.map_some]
    dsimp only
    rw [List.map_cons, ih fun id hid => hfound id (List.mem_cons_of_mem _ hid)]

theorem roundTrips_iff : RoundTrips listing ↔ OrderKept listing := by
  constructor
  · intro h d value
    have hresults := h.dimensions d value 0
    have hids : (m.searchByDimension d value 0).map StructuredSearchResult.id =
        ((imported listing).searchByDimension d value 0).map StructuredSearchResult.id := by
      rw [← List.forall₂_eq_eq_eq, List.forall₂_map_left_iff, List.forall₂_map_right_iff]
      exact hresults.imp fun _ _ hsame => hsame.id
    rw [ids_searchByDimension hm, ids_searchByDimension (consistent_imported hm listing)] at hids
    rw [hids, ids_imported hm listing]
  · intro h
    refine ⟨sameMemory_imported hm listing, fun d value maxResults => ?_⟩
    rw [searchByDimension, searchByDimension, ids_imported hm listing, h d value]
    exact results_imported hm listing _ _

end Imported

/-! ## Entries from before -/

/-- The entries that are left are those in front of the first that cannot be read, and they are kept by the next call of
`AddMemory`. -/
theorem keeps_iff {before : Table String StructuredMemoryEntry} {file : Option Json} {m : StructuredMemory}
    (hentries : m.entries = frontEntries file) {add : MemoryAdd} (hnew : m.entries.lookup add.id = none)
    (listing : MemoryListing (m.after add)) : Keeps before m add listing ↔ KeptInFront before file listing := by
  rw [KeptInFront, ← hentries]
  constructor
  · rintro ⟨hmemory, -, hdisk⟩
    refine ⟨hmemory, ?_⟩
    rw [or_iff_not_imp_left]
    intro hsome
    have hne : before.entries ≠ [] := fun hnil => hsome (AList.ext hnil)
    obtain ⟨⟨id, entry⟩, rest, hcons⟩ := List.exists_cons_of_ne_nil hne
    have hlookup : before.lookup id = some entry := AList.mem_lookup_iff.2 (hcons ▸ List.mem_cons_self)
    obtain ⟨data, hdata, -⟩ := hdisk id entry hlookup
    rw [MemoryListing.saved, Json.dump] at hdata
    by_contra hutf8
    rw [if_neg hutf8] at hdata
    cases hdata
  · rintro ⟨hmemory, hutf8⟩
    have hafter : Survive before (m.after add) := by
      intro id entry hlookup
      obtain ⟨entry', hentry', hsame⟩ := hmemory id entry hlookup
      refine ⟨entry', ?_, hsame⟩
      have hne : id ≠ add.id := by
        rintro rfl
        cases hnew.symm.trans hentry'
      rw [after, addMemory, updateAverage_eq]
      exact (AList.lookup_insert_ne hne).trans hentry'
    refine ⟨hmemory, hafter, fun id entry hlookup => ?_⟩
    rcases hutf8 with rfl | hutf8
    · cases hlookup
    · obtain ⟨entry', hentry', hsame⟩ := hafter id entry hlookup
      refine ⟨listing.exportToJson, if_pos hutf8, entry', hsame, ?_⟩
      have hitems : importedItems listing.exportToJson = listing.entries.map fun e => e.2.toJson := by
        rw [importedItems, MemoryListing.exportToJson, Json.find?_object]
        rfl
      rw [hitems]
      exact List.mem_map.2 ⟨⟨id, entry'⟩, listing.perm.mem_iff.2 (AList.mem_lookup_iff.1 hentry'), rfl⟩

theorem entries_importFromJson (m : StructuredMemory) (data : Json) :
    (m.importFromJson data).entries = frontEntries (some data) := by
  rw [importFromJson_eq]
  rfl

theorem entries_load (file : Option Json) : (empty.load file).entries = frontEntries file := by
  cases file with
  | none => rfl
  | some data => exact entries_importFromJson empty data

/-- **Import and export.**  After tidy calls, a fresh memory that imports what was exported has the same entries and
finds the same, by dimensions in the same order exactly when the listing keeps the order of the index.  The entries from
before an import that fails, or from before a constructor that meets a malformed file, are kept exactly when they are in
front of the first that cannot be read, and can be written. -/
theorem memory_import_iff {calls : List MemoryCall} (hcalls : Along step Tidy empty calls) {m : StructuredMemory}
    (hrun : exec step empty calls = some m) :
    (∀ listing : MemoryListing m, SameMemory m (imported listing) ∧ (RoundTrips listing ↔ OrderKept listing)) ∧
      (∀ data, complete data = false → ∀ (add : MemoryAdd)
        (listing : MemoryListing ((m.importFromJson data).after add)), (m.importFromJson data).entries.lookup add.id = none →
          (Keeps m.entries (m.importFromJson data) add listing ↔ KeptInFront m.entries (some data) listing)) ∧
      ∀ before file, Malformed file → ∀ (add : MemoryAdd) (listing : MemoryListing ((empty.load file).after add)),
        (empty.load file).entries.lookup add.id = none →
          (Keeps before (empty.load file) add listing ↔ KeptInFront before file listing) := by
  have hm := consistent_run hcalls hrun
  refine ⟨fun listing => ⟨sameMemory_imported hm listing, roundTrips_iff hm listing⟩, ?_, ?_⟩
  · intro data _ add listing hnew
    exact keeps_iff (entries_importFromJson m data) hnew listing
  · intro before file _ add listing hnew
    exact keeps_iff (entries_load file) hnew listing

/-- A call of `AddMemory`. -/
def rustNote : MemoryAdd where
  id := "0a"
  title := "Rust"
  content := "ownership"
  tags := ["lang"]
  dimensions := AList.insert .topic "rust" ∅
  timestamp := "1"
  importance := 5

def oneNote : StructuredMemory := empty.after rustNote

def tableListing (m : StructuredMemory) : MemoryListing m := ⟨m.entries.entries, List.Perm.refl _⟩

def oneNoteCalls : List MemoryCall :=
  [.addMemory rustNote.id rustNote.title rustNote.content rustNote.tags rustNote.dimensions rustNote.timestamp
    rustNote.importance]

theorem tidy_oneNoteCalls : Along step Tidy empty oneNoteCalls :=
  ⟨⟨rfl, by decide, by decide⟩, fun _ _ => trivial⟩

/-- The entry is exported and imported again. -/
theorem memory_import_oneNote : RoundTrips (tableListing oneNote) := by
  refine (((memory_import_iff tidy_oneNoteCalls (m := oneNote) rfl).1 (tableListing oneNote)).2).2 ?_
  intro d value
  let md : MemoryMetadata :=
    { id := "0a", title := "Rust", tags := ["lang"], dimensions := AList.insert .topic "rust" ∅, timestamp := "1"
      importance := 5 }
  have hlisted : oneNote.dimensionIndex.ids (d, value) = (Postings.post ∅ "0a" md.dimensionPairs).ids (d, value) := rfl
  have hlisting : (tableListing oneNote).entries = [⟨"0a", ⟨md, "ownership", tokenize "ownership Rust"⟩⟩] := rfl
  rw [hlisted, hlisting, Postings.ids_post, Postings.ids_empty, count_dimensionPairs, List.filter_singleton]
  by_cases hvalue : md.dimensions.lookup d = some value
  · rw [if_pos hvalue, decide_eq_true hvalue]
    rfl
  · rw [if_neg hvalue, decide_eq_false hvalue]
    rfl

/-- An item without a text for its id costs the entries from before. -/
theorem not_memory_import :
    ¬ ∀ (calls : List MemoryCall) (m : StructuredMemory), Along step Tidy empty calls →
      exec step empty calls = some m → (∀ listing : MemoryListing m, RoundTrips listing) ∧
        ∀ data, complete data = false → ∀ (add : MemoryAdd)
          (listing : MemoryListing ((m.importFromJson data).after add)),
            (m.importFromJson data).entries.lookup add.id = none →
              Keeps m.entries (m.importFromJson data) add listing := by
  intro h
  have hkeeps := (h oneNoteCalls oneNote tidy_oneNoteCalls rfl).2
    (.obj [("entries", .arr [.obj [("id", .int 5)]])]) rfl { rustNote with id := "0b" } (tableListing _) rfl
  obtain ⟨entry', hlookup, -⟩ := hkeeps.memory "0a" _ rfl
  cases hlookup

end StructuredMemory

end RavBot.Core
