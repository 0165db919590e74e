import RavBot.Lib.Json
import RavBot.Lib.Postings
import RavBot.Lib.Run
import Mathlib.Algebra.Order.Field.Rat
import Mathlib.Tactic.FieldSimp
import Mathlib.Tactic.Ring
import Mathlib.Tactic.LinearCombination

/-!
# The structured memory

`StructuredMemory` keeps entries with tags and dimensions, and beside them three things that it derives
from them and maintains by hand: an index of the tags, one of the dimensions, and the average length of
a document, with which the search weighs its scores.  `Right` says that they agree with the entries,
and `right_after_iff` with which calls they do so.

The time of an entry and the id that `GenerateId` gives it are arguments of `addMemory`.  The average
is exact here, where the code rounds it to a `double`.
-/

open List

namespace RavBot.Core

open RavBot.Lib

inductive MemoryDimension where
  | topic
  | knowledge
  | layer
  | general
  deriving DecidableEq, Repr

def stringToDimension (str : String) : MemoryDimension :=
  if str = "topic" then .topic
  else if str = "knowledge" then .knowledge
  else if str = "layer" then .layer
  else if str = "general" then .general
  else .general

structure MemoryMetadata where
  id : String
  title : String
  tags : List String
  dimensions : Table MemoryDimension String
  timestamp : String
  importance : Int := 0
  relatedIds : List String := []

def MemoryMetadata.dimensionPairs (md : MemoryMetadata) : List (MemoryDimension × String) :=
  md.dimensions.entries.map fun e => (e.1, e.2)

structure StructuredMemoryEntry where
  metadata : MemoryMetadata
  content : String
  tokens : List String

/-- What the regular expression of `Tokenize` takes for a character of a word. -/
def isWordChar (c : Char) : Bool := c.isAlphanum || c == '_'

/-- `Tokenize`: the words of a text, in lower case. -/
def tokenize (text : String) : List String :=
  ((text.toList.splitOnP (!isWordChar ·)).filter (!·.isEmpty)).map
    fun word => String.ofList (Text.toLower word)

theorem tokenize_append (s t : String) : tokenize (s ++ " " ++ t) = tokenize s ++ tokenize t := by
  have hsplit : (s ++ " " ++ t).toList = s.toList ++ ' ' :: t.toList := by
    simp
  rw [tokenize, hsplit, splitOnP_append_cons _ _ (by decide), filter_append, map_append]
  rfl

/-- `StructuredMemory`: the entries under their ids, and what is derived from them.  The values of
`dimension_index_` are listed under pairs of a dimension and a value. -/
structure StructuredMemory where
  entries : Table String StructuredMemoryEntry
  dimensionIndex : Postings (MemoryDimension × String) String
  tagIndex : Postings String String
  avgDocLength : Rat

inductive MemoryCall where
  | addMemory (id title content : String) (tags : List String)
      (dimensions : Table MemoryDimension String) (timestamp : String) (importance : Int)
  | updateMemory (id content : String) (metadata : Option MemoryMetadata)
  | deleteMemory (id : String)
  | importFromJson (data : Json)
  /-- The file of the memory, `none` when there is none, or it is no JSON. -/
  | load (file : Option Json)

namespace StructuredMemory

def empty : StructuredMemory := ⟨∅, ∅, ∅, 0⟩

/-- Store an entry under its id, and list it in the indices. -/
def insertEntry (m : StructuredMemory) (entry : StructuredMemoryEntry) : StructuredMemory :=
  let id := entry.metadata.id
  { m with
    entries := AList.insert id entry m.entries
    dimensionIndex := m.dimensionIndex.post id entry.metadata.dimensionPairs
    tagIndex := m.tagIndex.post id entry.metadata.tags }

def updateAverage (m : StructuredMemory) : StructuredMemory :=
  let sum := m.entries.entries.foldl (fun (sum : Rat) e => sum + e.2.tokens.length) 0
  { m with
    avgDocLength := if m.entries.entries.isEmpty then sum else sum / m.entries.entries.length }

def addMemory (m : StructuredMemory) (id title content : String) (tags : List String)
    (dimensions : Table MemoryDimension String) (timestamp : String) (importance : Int) :
    StructuredMemory :=
  (m.insertEntry
    { metadata := { id, title, tags, dimensions, timestamp, importance }
      content
      tokens := tokenize (content ++ " " ++ title) }).updateAverage

/-- `UpdateMemory`.  The tokens are those of the content and of the title before the update. -/
def updateMemory (m : StructuredMemory) (id content : String) (metadata : Option MemoryMetadata) :
    StructuredMemory :=
  match m.entries.lookup id with
  | none => m
  | some entry =>
    let updated : StructuredMemoryEntry :=
      { metadata := metadata.getD entry.metadata
        content
        tokens := tokenize (content ++ " " ++ entry.metadata.title) }
    { m with
      entries := AList.insert id updated m.entries
      dimensionIndex := (m.dimensionIndex.unpost id entry.metadata.dimensionPairs).post id
        updated.metadata.dimensionPairs
      tagIndex := (m.tagIndex.unpost id entry.metadata.tags).post id updated.metadata.tags }

def deleteMemory (m : StructuredMemory) (id : String) : StructuredMemory :=
  match m.entries.lookup id with
  | none => m
  | some entry =>
    { m with
      entries := m.entries.erase id
      dimensionIndex := m.dimensionIndex.unpost id entry.metadata.dimensionPairs
      tagIndex := m.tagIndex.unpost id entry.metadata.tags }

/-- The dimensions of an item that is imported; a value that is no text throws. -/
def dimensionsFromJson (item : Json) : Option (Table MemoryDimension String) :=
  match item.find? "dimensions" with
  | some (.obj fields) =>
    fields.foldlM (fun dims (key, value) => do
      let value ← value.getString
      return AList.insert (stringToDimension key) value dims) ∅
  | _ => some ∅

/-- An item that is imported: `none` when reading it throws. -/
def entryFromJson (item : Json) : Option StructuredMemoryEntry := do
  let id ← item.value Json.getString "id" ""
  let title ← item.value Json.getString "title" ""
  let content ← item.value Json.getString "content" ""
  let tags ← item.value Json.getStrings "tags" []
  let timestamp ← item.value Json.getString "timestamp" ""
  let importance ← item.value Json.getInt "importance" 5
  let relatedIds ← item.value Json.getStrings "related_ids" []
  let dimensions ← dimensionsFromJson item
  return { metadata := { id, title, tags, dimensions, timestamp, importance, relatedIds }
           content
           tokens := tokenize (content ++ " " ++ title) }

/-- The loop of `ImportFromJson`, which tells whether it came to its end or an item threw. -/
def importItems (m : StructuredMemory) : List Json → StructuredMemory × Bool
  | [] => (m, true)
  | item :: items =>
    match entryFromJson item with
    | none => (m, false)
    | some entry => importItems (m.insertEntry entry) items

/-- `ImportFromJson`.  When an item throws, the entries before it stay, and the average is not computed
again; nor is it when there are no items to import. -/
def importFromJson (m : StructuredMemory) (data : Json) : StructuredMemory :=
  let cleared := { m with entries := ∅, dimensionIndex := ∅, tagIndex := ∅ }
  match data.find? "entries" with
  | some (.arr items) =>
    match importItems cleared items with
    | (m, true) => m.updateAverage
    | (m, false) => m
  | _ => cleared

/-- `Load`: an exception is caught. -/
def load (m : StructuredMemory) (file : Option Json) : StructuredMemory :=
  match file with
  | none => m
  | some data => m.importFromJson data

/-- What a call does to the memory. -/
def apply (m : StructuredMemory) : MemoryCall → StructuredMemory
  | .addMemory id title content tags dimensions timestamp importance =>
    m.addMemory id title content tags dimensions timestamp importance
  | .updateMemory id content metadata => m.updateMemory id content metadata
  | .deleteMemory id => m.deleteMemory id
  | .importFromJson data => m.importFromJson data
  | .load file => m.load file

def step (m : StructuredMemory) (c : MemoryCall) : Option StructuredMemory := some (m.apply c)

/-! ## The invariant -/

/-- The mean number of tokens of the entries of a table, 0 when there are none. -/
def meanTokens (t : Table String StructuredMemoryEntry) : Rat :=
  (t.total (·.tokens.length) : Rat) / t.entries.length

/-- What the entry that is stored under an id carries: its tags, or its dimensions with their values. -/
def carried {κ : Type} (keys : MemoryMetadata → List κ) (t : Table String StructuredMemoryEntry)
    (id : String) : List κ :=
  (t.lookup id).elim [] fun entry => keys entry.metadata

/-- An entry is stored under its id with the tokens of its content and title. -/
def SoundEntry (id : String) (entry : StructuredMemoryEntry) : Prop :=
  entry.metadata.id = id ∧
    entry.tokens = tokenize (entry.content ++ " " ++ entry.metadata.title)

/-- The memory agrees with its entries: under each tag, and under each dimension and value, the index
lists the ids of the entries that carry it, each once; every entry is sound; and the average is the
mean number of their tokens. -/
structure Right (m : StructuredMemory) : Prop where
  tags : m.tagIndex.Lists (carried (·.tags) m.entries)
  dimensions : m.dimensionIndex.Lists (carried (·.dimensionPairs) m.entries)
  entries : ∀ id, ∀ entry ∈ m.entries.lookup id, SoundEntry id entry
  average : m.avgDocLength = meanTokens m.entries

theorem right_empty : empty.Right where
  tags := Postings.lists_empty
  dimensions := Postings.lists_empty
  entries := nofun
  average := by
    rw [meanTokens]
    norm_num [empty, Table.total]

/-! ## When a call keeps it -/

/-- An update gives the entry different tags, its own id and a title with the same words, and content
of as many words as before. -/
def CleanUpdate (id content : String) (metadata : MemoryMetadata) (entry : StructuredMemoryEntry) :
    Prop :=
  metadata.tags.Nodup ∧ metadata.id = id ∧ tokenize metadata.title = tokenize entry.metadata.title ∧
    (tokenize content).length = (tokenize entry.content).length

def importedItems (data : Json) : List Json :=
  match data.find? "entries" with
  | some (.arr items) => items
  | _ => []

/-- The entries among the items that are read before one throws. -/
def readEntries : List Json → List StructuredMemoryEntry
  | [] => []
  | item :: items =>
    match entryFromJson item with
    | none => []
    | some entry => entry :: readEntries items

/-- Whether there is an array of items, and all of them can be read. -/
def complete (data : Json) : Bool :=
  match data.find? "entries" with
  | some (.arr items) => items.all fun item => (entryFromJson item).isSome
  | _ => false

def storedEntries (read : List StructuredMemoryEntry) : Table String StructuredMemoryEntry :=
  read.foldl (fun t entry => AList.insert entry.metadata.id entry t) ∅

/-- The entries that are read have different tags each, one that comes again with the same id had
neither tags nor dimensions before, and either all items are read, or the average is that of the
entries that are. -/
def CleanImport (m : StructuredMemory) (data : Json) : Prop :=
  let read := readEntries (importedItems data)
  (∀ entry ∈ read, entry.metadata.tags.Nodup) ∧
    (read.Pairwise fun a b => a.metadata.id = b.metadata.id →
      a.metadata.tags = [] ∧ a.metadata.dimensions = ∅) ∧
    (complete data ∨ m.avgDocLength = meanTokens (storedEntries read))

/-- The calls that keep the memory in agreement with its entries.  An entry that is added has different
tags, and where its id is in use there is an entry without tags and dimensions; an entry that is
deleted has as many tokens as the entries have on average, and none when it is the last. -/
def Clean (m : StructuredMemory) : MemoryCall → Prop
  | .addMemory id _ _ tags _ _ _ => tags.Nodup ∧ ∀ entry ∈ m.entries.lookup id,
      entry.metadata.tags = [] ∧ entry.metadata.dimensions = ∅
  | .updateMemory id content metadata => ∀ entry ∈ m.entries.lookup id,
      CleanUpdate id content (metadata.getD entry.metadata) entry
  | .deleteMemory id => ∀ entry ∈ m.entries.lookup id,
      (entry.tokens.length : Rat) = m.avgDocLength ∧
        (m.entries.entries.length = 1 → entry.tokens = [])
  | .importFromJson data => m.CleanImport data
  | .load file => ∀ data ∈ file, m.CleanImport data

/-! ## The indices -/

theorem nodup_dimensionPairs (md : MemoryMetadata) : md.dimensionPairs.Nodup := by
  have hkeys : (md.dimensions.entries.map Sigma.fst).Nodup := md.dimensions.nodupKeys
  refine List.Nodup.of_map Prod.fst ?_
  rw [MemoryMetadata.dimensionPairs, map_map]
  exact hkeys

theorem dimensionPairs_eq_nil {md : MemoryMetadata} :
    md.dimensionPairs = [] ↔ md.dimensions = ∅ := by
  rw [MemoryMetadata.dimensionPairs, map_eq_nil_iff, AList.ext_iff]
  rfl

section

variable {κ : Type} (keys : MemoryMetadata → List κ) (t : Table String StructuredMemoryEntry)

theorem carried_insert (id : String) (entry : StructuredMemoryEntry) :
    carried keys (AList.insert id entry t) =
      Function.update (carried keys t) id (keys entry.metadata) := by
  funext id'
  rw [carried, Table.lookup_insert_ite, Function.update_apply]
  split_ifs with h
  · rfl
  · rfl

theorem carried_erase (id : String) :
    carried keys (t.erase id) = Function.update (carried keys t) id [] := by
  funext id'
  rw [carried, Table.lookup_erase_ite, Function.update_apply]
  split_ifs with h
  · rfl
  · rfl

theorem carried_eq_nil (id : String) :
    carried keys t id = [] ↔ ∀ entry ∈ t.lookup id, keys entry.metadata = [] := by
  rw [carried]
  cases t.lookup id with
  | none => exact iff_of_true rfl nofun
  | some entry => simp

end

/-! ## The average -/

theorem updateAverage_eq (m : StructuredMemory) :
    m.updateAverage = { m with avgDocLength := meanTokens m.entries } := by
  have hsum (l : List (Sigma fun _ : String => StructuredMemoryEntry)) (start : Rat) :
      l.foldl (fun (sum : Rat) e => sum + e.2.tokens.length) start =
        start + ((l.map fun e => e.2.tokens.length).sum : Nat) := by
    induction l generalizing start with
    | nil => simp
    | cons e l ih =>
      rw [foldl_cons, ih, map_cons, sum_cons, Nat.cast_add, add_assoc]
  rw [updateAverage, meanTokens, Table.total]
  rw [hsum, zero_add]
  split_ifs with hempty
  · rw [List.isEmpty_iff.1 hempty]
    simp
  · rfl

variable {entry : StructuredMemoryEntry}

theorem meanTokens_insert_iff {t : Table String StructuredMemoryEntry} {id : String} (h : t.lookup id = some entry) (updated : StructuredMemoryEntry) :
    meanTokens t = meanTokens (AList.insert id updated t) ↔
      updated.tokens.length = entry.tokens.length := by
  obtain ⟨htotal, hlength⟩ := Table.total_insert (·.tokens.length) h updated
  have hpos : 0 < t.entries.length := by
    have := (Table.total_erase (·.tokens.length) h).2
    omega
  have hne : (t.entries.length : Rat) ≠ 0 := by
    exact_mod_cast hpos.ne'
  rw [meanTokens, meanTokens, hlength, div_left_inj' hne, Nat.cast_inj]
  omega

/-- When an entry is erased, the mean stays exactly if the entry has as many tokens as the mean, and
none when it is the last. -/
theorem meanTokens_erase_iff {t : Table String StructuredMemoryEntry} {id : String} (h : t.lookup id = some entry) :
    meanTokens t = meanTokens (t.erase id) ↔
      (entry.tokens.length : Rat) = meanTokens t ∧
        (t.entries.length = 1 → entry.tokens = []) := by
  obtain ⟨htotal, hlength⟩ := Table.total_erase (·.tokens.length) h
  have hrest : (t.erase id).entries.length = 0 → Table.total (·.tokens.length) (t.erase id) = 0 := by
    intro hzero
    rw [Table.total, length_eq_zero_iff.1 hzero]
    rfl
  rw [meanTokens, meanTokens, ← htotal, ← hlength, ← length_eq_zero_iff]
  generalize Table.total (·.tokens.length) (t.erase id) = rest at hrest ⊢
  generalize (t.erase id).entries.length = n at hrest ⊢
  generalize entry.tokens.length = count
  cases n with
  | zero =>
    rw [hrest rfl]
    simp
  | succ n =>
    have hn : ((n + 1 : Nat) : Rat) ≠ 0 := Nat.cast_ne_zero.2 n.succ_ne_zero
    have hn' : ((n + 1 + 1 : Nat) : Rat) ≠ 0 := Nat.cast_ne_zero.2 (n + 1).succ_ne_zero
    have hmany : n + 1 + 1 ≠ 1 := by omega
    rw [div_eq_div_iff hn' hn, eq_div_iff hn']
    constructor
    · intro heq
      refine ⟨?_, fun hone => absurd hone hmany⟩
      push_cast at heq ⊢
      linear_combination heq
    · rintro ⟨heq, -⟩
      push_cast at heq ⊢
      linear_combination heq

/-! ## The calls -/

theorem sound_insert_iff {t : Table String StructuredMemoryEntry}
    (h : ∀ id, ∀ entry ∈ t.lookup id, SoundEntry id entry) (id : String)
    (entry : StructuredMemoryEntry) :
    (∀ id', ∀ entry' ∈ (AList.insert id entry t).lookup id', SoundEntry id' entry') ↔
      SoundEntry id entry := by
  constructor
  · intro hsound
    exact hsound id entry (by rw [Table.lookup_insert_ite, if_pos rfl]; rfl)
  · intro hentry id' entry' hlookup
    rw [Table.lookup_insert_ite] at hlookup
    split_ifs at hlookup with hid
    · rw [Option.mem_some_iff] at hlookup
      rw [hid, ← hlookup]
      exact hentry
    · exact h id' entry' hlookup

variable {m : StructuredMemory}

/-- `AddMemory` keeps the memory right exactly when the tags are different and the id is that of no
entry with tags or dimensions. -/
theorem right_addMemory_iff (h : m.Right) (id title content : String)
    (tags : List String) (dimensions : Table MemoryDimension String) (timestamp : String)
    (importance : Int) :
    (m.addMemory id title content tags dimensions timestamp importance).Right ↔
      tags.Nodup ∧ ∀ entry ∈ m.entries.lookup id,
        entry.metadata.tags = [] ∧ entry.metadata.dimensions = ∅ := by
  rw [addMemory]
  generalize hentry : StructuredMemoryEntry.mk _ _ _ = entry
  have hid : entry.metadata.id = id := by rw [← hentry]
  have htags : entry.metadata.tags = tags := by rw [← hentry]
  have hsound : SoundEntry id entry := by
    rw [← hentry]
    exact ⟨rfl, rfl⟩
  have hlistsTags := Postings.lists_post_iff h.tags.covers id entry.metadata.tags
  have hlistsDims := Postings.lists_post_iff h.dimensions.covers id entry.metadata.dimensionPairs
  rw [← carried_insert, carried_eq_nil] at hlistsTags hlistsDims
  subst hid
  constructor
  · rintro ⟨hright, hright', -, -⟩
    obtain ⟨-, hnoTags, hnodup⟩ := hlistsTags.1 hright
    obtain ⟨-, hnoDims, -⟩ := hlistsDims.1 hright'
    exact ⟨htags ▸ hnodup, fun old hold =>
      ⟨hnoTags old hold, dimensionPairs_eq_nil.1 (hnoDims old hold)⟩⟩
  · rintro ⟨hnodup, hnone⟩
    exact {
      tags := hlistsTags.2 ⟨h.tags, fun old hold => (hnone old hold).1, htags ▸ hnodup⟩
      dimensions := hlistsDims.2 ⟨h.dimensions,
        fun old hold => dimensionPairs_eq_nil.2 (hnone old hold).2, nodup_dimensionPairs _⟩
      entries := (sound_insert_iff h.entries _ entry).2 hsound
      average := congrArg avgDocLength (updateAverage_eq _) }

theorem right_updateMemory_iff (h : m.Right) (id content : String)
    (metadata : Option MemoryMetadata) :
    (m.updateMemory id content metadata).Right ↔ ∀ entry ∈ m.entries.lookup id,
      CleanUpdate id content (metadata.getD entry.metadata) entry := by
  rw [updateMemory]
  cases hlookup : m.entries.lookup id with
  | none => exact iff_of_true h nofun
  | some entry =>
    dsimp only
    simp only [Option.mem_some_iff, forall_eq']
    generalize metadata.getD entry.metadata = new
    have hcarried {κ : Type} (keys : MemoryMetadata → List κ) :
        carried keys m.entries id = keys entry.metadata := by rw [carried, hlookup]; rfl
    obtain ⟨-, htokens⟩ := h.entries id entry hlookup
    generalize hupdated : StructuredMemoryEntry.mk new content
      (tokenize (content ++ " " ++ entry.metadata.title)) = updated
    have hnew : updated.metadata = new := by rw [← hupdated]
    have hlists {κ : Type} [DecidableEq κ] (keys : MemoryMetadata → List κ)
        {p : Postings κ String} (hp : p.Lists (carried keys m.entries)) :
        ((p.unpost id (keys entry.metadata)).post id (keys new)).Lists
          (carried keys (AList.insert id updated m.entries)) ↔ (keys new).Nodup := by
      rw [carried_insert, hnew, ← hcarried keys]
      exact Postings.lists_repost_iff hp id (keys new)
    have hsound : SoundEntry id updated ↔
        new.id = id ∧ tokenize new.title = tokenize entry.metadata.title := by
      rw [SoundEntry, ← hupdated]
      dsimp only
      rw [tokenize_append, tokenize_append, append_cancel_left_eq,
        @eq_comm _ (tokenize entry.metadata.title)]
    have hlength : updated.tokens.length = entry.tokens.length ↔
        (tokenize content).length = (tokenize entry.content).length := by
      rw [← hupdated, htokens, tokenize_append, tokenize_append, length_append,
        length_append, Nat.add_right_cancel_iff]
    have haverage := meanTokens_insert_iff hlookup updated
    rw [← h.average, hlength] at haverage
    rw [CleanUpdate]
    constructor
    · rintro ⟨hright, -, hentries, hright'⟩
      obtain ⟨hid, htitle⟩ := hsound.1 ((sound_insert_iff h.entries id updated).1 hentries)
      exact ⟨(hlists (·.tags) h.tags).1 hright, hid, htitle, haverage.1 hright'⟩
    · rintro ⟨hnodup, hid, htitle, hcontent⟩
      exact {
        tags := (hlists (·.tags) h.tags).2 hnodup
        dimensions := (hlists (·.dimensionPairs) h.dimensions).2 (nodup_dimensionPairs new)
        entries := (sound_insert_iff h.entries id updated).2 (hsound.2 ⟨hid, htitle⟩)
        average := haverage.2 hcontent }

/-- `DeleteMemory` keeps the memory right exactly when the entry has as many tokens as the entries have
on average, and none when it is the last. -/
theorem right_deleteMemory_iff (h : m.Right) (id : String) :
    (m.deleteMemory id).Right ↔ ∀ entry ∈ m.entries.lookup id,
      (entry.tokens.length : Rat) = m.avgDocLength ∧
        (m.entries.entries.length = 1 → entry.tokens = []) := by
  rw [deleteMemory]
  cases hlookup : m.entries.lookup id with
  | none => exact iff_of_true h nofun
  | some entry =>
    simp only [Option.mem_some_iff, forall_eq']
    have hcarried {κ : Type} (keys : MemoryMetadata → List κ) :
        carried keys m.entries id = keys entry.metadata := by rw [carried, hlookup]; rfl
    have htags := h.tags.unpost id
    have hdims := h.dimensions.unpost id
    rw [← carried_erase, hcarried] at htags hdims
    have haverage := meanTokens_erase_iff hlookup
    rw [← h.average] at haverage
    rw [← haverage]
    refine ⟨fun hright => hright.average, fun hmean => ⟨htags, hdims, fun id' entry' hentry => ?_, hmean⟩⟩
    dsimp only at hentry
    rw [Table.lookup_erase_ite] at hentry
    split_ifs at hentry
    · cases hentry
    · exact h.entries id' entry' hentry

/-! ## Importing -/

theorem importItems_eq (m : StructuredMemory) (items : List Json) :
    m.importItems items = ((readEntries items).foldl insertEntry m,
      items.all fun item => (entryFromJson item).isSome) := by
  induction items generalizing m with
  | nil => rfl
  | cons item items ih =>
    rw [importItems, readEntries, all_cons]
    cases entryFromJson item with
    | none => rfl
    | some entry =>
      dsimp only
      rw [ih]
      rfl

theorem tokens_of_mem_readEntries {items : List Json}
    (h : entry ∈ readEntries items) :
    entry.tokens = tokenize (entry.content ++ " " ++ entry.metadata.title) := by
  induction items with
  | nil => cases h
  | cons item items ih =>
    rw [readEntries] at h
    cases hitem : entryFromJson item with
    | none =>
      rw [hitem] at h
      cases h
    | some first =>
      rw [hitem] at h
      rcases mem_cons.1 h with rfl | h
      · rw [entryFromJson] at hitem
        simp only [Option.bind_eq_bind, Option.bind_eq_some_iff, Option.pure_def,
          Option.some.injEq] at hitem
        obtain ⟨_, _, _, _, _, _, _, _, _, _, _, _, _, _, _, _, rfl⟩ := hitem
        rfl
      · exact ih h

theorem storedEntries_concat (read : List StructuredMemoryEntry) (entry : StructuredMemoryEntry) :
    storedEntries (read ++ [entry]) =
      AList.insert entry.metadata.id entry (storedEntries read) := by
  rw [storedEntries, foldl_append]
  rfl

theorem foldl_insertEntry (m : StructuredMemory) (read : List StructuredMemoryEntry) :
    read.foldl insertEntry { m with entries := ∅, dimensionIndex := ∅, tagIndex := ∅ } =
      { m with
        entries := storedEntries read
        dimensionIndex := .posted (read.map fun e => (e.metadata.id, e.metadata.dimensionPairs))
        tagIndex := .posted (read.map fun e => (e.metadata.id, e.metadata.tags)) } := by
  induction read using List.reverseRecOn with
  | nil => rfl
  | append_singleton read entry ih =>
    rw [foldl_append, ih, map_append, map_append, map_singleton,
      map_singleton, Postings.posted_concat, Postings.posted_concat, storedEntries_concat]
    rfl

theorem carried_storedEntries {κ : Type} (keys : MemoryMetadata → List κ)
    (read : List StructuredMemoryEntry) : carried keys (storedEntries read) =
      Postings.latest (read.map fun e => (e.metadata.id, keys e.metadata)) := by
  induction read using List.reverseRecOn with
  | nil => rfl
  | append_singleton read entry ih =>
    rw [storedEntries_concat, carried_insert, map_append, map_singleton, Postings.latest_concat, ih]

theorem mem_of_mem_storedEntries {read : List StructuredMemoryEntry} {id : String} (h : entry ∈ (storedEntries read).lookup id) :
    entry ∈ read ∧ entry.metadata.id = id := by
  induction read using List.reverseRecOn with
  | nil => cases h
  | append_singleton read last ih =>
    rw [storedEntries_concat, Table.lookup_insert_ite] at h
    split_ifs at h with hid
    · rw [Option.mem_some_iff] at h
      subst h
      exact ⟨mem_append_right _ (mem_singleton_self last), hid.symm⟩
    · exact ⟨mem_append_left _ (ih h).1, (ih h).2⟩

/-- `ImportFromJson` stores the entries that are read, and computes the average when it comes to the
end. -/
theorem importFromJson_eq (m : StructuredMemory) (data : Json) :
    m.importFromJson data =
      let read := readEntries (importedItems data)
      { entries := storedEntries read
        dimensionIndex := .posted (read.map fun e => (e.metadata.id, e.metadata.dimensionPairs))
        tagIndex := .posted (read.map fun e => (e.metadata.id, e.metadata.tags))
        avgDocLength := if complete data then meanTokens (storedEntries read) else m.avgDocLength } := by
  rw [importFromJson, importedItems, complete]
  split
  · next items hitems =>
      rw [importItems_eq, foldl_insertEntry]
      split
      · next m' heq =>
          obtain ⟨rfl, hall⟩ := Prod.mk.inj heq
          rw [updateAverage_eq]
          dsimp only
          rw [if_pos hall]
      · next m' heq =>
          obtain ⟨rfl, hall⟩ := Prod.mk.inj heq
          dsimp only
          rw [if_neg (Bool.eq_false_iff.1 hall)]
  · rfl

theorem right_importFromJson_iff (m : StructuredMemory) (data : Json) :
    (m.importFromJson data).Right ↔ m.CleanImport data := by
  rw [importFromJson_eq, CleanImport]
  dsimp only
  generalize hread : readEntries (importedItems data) = read
  have hlists {κ : Type} [DecidableEq κ] (keys : MemoryMetadata → List κ) :
      (Postings.posted (read.map fun e => (e.metadata.id, keys e.metadata))).Lists
          (carried keys (storedEntries read)) ↔
        (∀ e ∈ read, (keys e.metadata).Nodup) ∧
          read.Pairwise fun a b => a.metadata.id = b.metadata.id → keys a.metadata = [] := by
    rw [carried_storedEntries, Postings.lists_posted_iff, pairwise_map, forall_mem_map]
  have haverage : (if complete data then meanTokens (storedEntries read) else m.avgDocLength) =
      meanTokens (storedEntries read) ↔
        complete data ∨ m.avgDocLength = meanTokens (storedEntries read) := by
    split_ifs with hcomplete
    · exact iff_of_true rfl (.inl hcomplete)
    · rw [or_iff_right hcomplete]
  constructor
  · rintro ⟨htags, hdims, -, hmean⟩
    obtain ⟨hnodup, hnoTags⟩ := (hlists (·.tags)).1 htags
    obtain ⟨-, hnoDims⟩ := (hlists (·.dimensionPairs)).1 hdims
    refine ⟨hnodup, (hnoTags.and hnoDims).imp fun h hid => ?_, haverage.1 hmean⟩
    exact ⟨h.1 hid, dimensionPairs_eq_nil.1 (h.2 hid)⟩
  · rintro ⟨hnodup, hnone, hmean⟩
    have hnoTags := hnone.imp fun h hid => (h hid).1
    have hnoDims := hnone.imp fun h hid => dimensionPairs_eq_nil.2 (h hid).2
    refine ⟨(hlists (·.tags)).2 ⟨hnodup, hnoTags⟩,
      (hlists (·.dimensionPairs)).2 ⟨fun e _ => nodup_dimensionPairs e.metadata, hnoDims⟩,
      fun id entry hentry => ?_, haverage.2 hmean⟩
    obtain ⟨hmem, hid⟩ := mem_of_mem_storedEntries hentry
    subst hread
    exact ⟨hid, tokens_of_mem_readEntries hmem⟩

/-! ## Runs -/

theorem right_apply_iff (h : m.Right) (c : MemoryCall) : (m.apply c).Right ↔ m.Clean c := by
  cases c with
  | addMemory id title content tags dimensions timestamp importance =>
    exact right_addMemory_iff h id title content tags dimensions timestamp importance
  | updateMemory id content metadata => exact right_updateMemory_iff h id content metadata
  | deleteMemory id => exact right_deleteMemory_iff h id
  | importFromJson data => exact right_importFromJson_iff m data
  | load file =>
    cases file with
    | none => exact iff_of_true h nofun
    | some data =>
      rw [Clean]
      simp only [Option.mem_some_iff, forall_eq']
      exact right_importFromJson_iff m data

/-- **When the memory agrees with its entries.**  In a run of calls on an empty memory, the indices list
exactly what the entries carry, the entries are sound and the average is their mean after every call
exactly when each call is clean. -/
theorem right_after_iff (calls : List MemoryCall) :
    Along step (fun m c => (m.apply c).Right) empty calls ↔ Along step Clean empty calls := by
  refine along_congr (motive := Right) ?_ (fun m c h => right_apply_iff h c) right_empty
  intro m c m' h hclean hstep
  rw [← Option.some.inj hstep]
  exact (right_apply_iff h c).2 hclean

def addedAndDeleted : List MemoryCall :=
  [.addMemory "0a" "title" "content" [] ∅ "0" 5, .deleteMemory "0a"]

/-- The memory does not always agree with its entries: after the last entry was deleted the average is
still that entry's. -/
theorem not_right_after :
    ¬ ∀ calls : List MemoryCall, Along step (fun m c => (m.apply c).Right) empty calls := by
  intro h
  obtain ⟨-, hrest⟩ := h addedAndDeleted
  obtain ⟨hright, -⟩ := hrest _ rfl
  have haverage := hright.average
  revert haverage
  decide +kernel

end StructuredMemory

end RavBot.Core
