import RavBot.Core.HNSWIndex

/-!
# The vector database

`VectorDatabase` keeps vectors in a table of SQLite and, when HNSW is enabled, in an `HNSWIndex`
as well, which it saves to two files and loads from them.  The table is a map from ids to vectors,
of which only the lengths are here; texts, metadata and the index for full-text search are left
out, and so are failures of SQLite and of writing files.
-/

namespace RavBot.Core

open RavBot.Lib

structure VectorDatabaseConfig where
  useHnsw : Bool
  maxElements : Int
  metric : String

/-- `VectorDatabase`, and what it has on disk: the table, the file of the index and that of the
labels.  `opened` is whether `db_` is there. -/
structure VectorDatabase where
  config : VectorDatabaseConfig
  opened : Bool
  dimension : Nat
  hnswIndex : Option HNSWIndex
  useHnsw : Bool
  hnswInitialized : Bool
  vectors : Table String Nat
  indexFile : Option HierarchicalNSW
  mappingFile : Option Mapping

/-- What SQLite gets of a string that is bound as a C string: what comes before the first null
character. -/
def cString (s : String) : String := String.ofList (s.toList.takeWhile (· ≠ Char.ofNat 0))

namespace VectorDatabase

/-- The constructor. -/
def create (config : VectorDatabaseConfig) : VectorDatabase where
  config := config
  opened := false
  dimension := 0
  hnswIndex := none
  useHnsw := config.useHnsw
  hnswInitialized := false
  vectors := ∅
  indexFile := none
  mappingFile := none

def hnswConfig (s : VectorDatabase) : HNSWConfig :=
  ⟨s.dimension, s.config.maxElements, s.config.metric⟩

def createIndex (s : VectorDatabase) : HNSWIndex × Bool :=
  match s.indexFile with
  | none => (HNSWIndex.create s.hnswConfig, false)
  | some file => (HNSWIndex.create s.hnswConfig).loadIndex file s.mappingFile

/-- `InitializeHNSW`: load the index if there is a file, or start a new one.  Without a dimension
that waits for the first vector. -/
def initializeHNSW (s : VectorDatabase) : VectorDatabase × Bool :=
  if !s.useHnsw then (s, false)
  else if s.dimension = 0 then (s, true)
  else
    let created := s.createIndex
    if created.2 then ({ s with hnswIndex := some created.1, hnswInitialized := true }, true)
    else
      let started := created.1.initializeIndex
      if started.2 then ({ s with hnswIndex := some started.1, hnswInitialized := true }, true)
      else ({ s with hnswIndex := some started.1 }, false)

/-- `InitializeHNSW`, after whose failure HNSW is not used any more. -/
def startHNSW (s : VectorDatabase) : VectorDatabase :=
  let started := s.initializeHNSW
  if started.2 then started.1 else { started.1 with useHnsw := false }

/-- `LoadDimension`: the length of some vector of the table. -/
def loadDimension (s : VectorDatabase) : Nat :=
  match s.vectors.entries.head? with
  | some row => row.2
  | none => 0

/-- `Initialize`. -/
def initializeDatabase (s : VectorDatabase) : VectorDatabase × Bool :=
  if s.opened then (s, true)
  else
    let s := { s with opened := true, dimension := s.loadDimension }
    (if s.useHnsw then s.startHNSW else s, true)

def onIndex (f : HNSWIndex → HNSWIndex) (s : VectorDatabase) : VectorDatabase :=
  { s with hnswIndex := if s.useHnsw && s.hnswInitialized then s.hnswIndex.map f else s.hnswIndex }

/-- What `IndexVector` does with a vector that it takes: store it in the table and add it to the
index, whatever comes of that. -/
def storeVector (s : VectorDatabase) (id : String) (length : Nat) : VectorDatabase :=
  onIndex (fun ix => (ix.addVector id length).1)
    { s with vectors := s.vectors.insert (cString id) length }

/-- What `IndexVector` does when there is no dimension yet: take that of the vector. -/
def setDimension (s : VectorDatabase) (length : Nat) : VectorDatabase :=
  let s := { s with dimension := length }
  if s.useHnsw && !s.hnswInitialized then s.startHNSW else s

/-- `IndexVector`, for a vector of some length, and metadata that can be dumped or not.  In that
case `none` is the exception that is thrown. -/
def indexVector (s : VectorDatabase) (id : String) (length : Nat) (dumps : Bool) :
    VectorDatabase × Option Bool :=
  if s.opened = false ∨ id = "" ∨ length = 0 then (s, some false)
  else if s.dimension = 0 then
    if dumps then ((s.setDimension length).storeVector id length, some true)
    else (s.setDimension length, none)
  else if length ≠ s.dimension then (s, some false)
  else if dumps then (s.storeVector id length, some true)
  else (s, none)

/-- `DeleteVector`.  When the table is empty afterwards there is no dimension any more. -/
def deleteVector (s : VectorDatabase) (id : String) : VectorDatabase × Bool :=
  if s.opened && (s.vectors.lookup (cString id)).isSome then
    let s := { s with vectors := s.vectors.erase (cString id) }
    let s := s.onIndex fun ix => (ix.markDeleted id).1
    ({ s with dimension := if s.vectors.entries.isEmpty then 0 else s.dimension }, true)
  else (s, false)

def deleteAll (s : VectorDatabase) : VectorDatabase × Bool :=
  if s.opened then
    let s := { s with vectors := ∅, dimension := 0 }
    if s.useHnsw && s.hnswIndex.isSome && s.hnswInitialized then
      ({ s with hnswIndex := s.hnswIndex.map HNSWIndex.clear, hnswInitialized := false }, true)
    else (s, true)
  else (s, false)

def rows (s : VectorDatabase) : List (String × Nat) := s.vectors.entries.map fun e => (e.1, e.2)

/-- Add rows to an index, in batches of 1000. -/
def addRows (ix : HNSWIndex) (batch : List (String × Nat)) : List (String × Nat) → HNSWIndex
  | [] => ix.addVectorsBatch batch
  | row :: rows =>
    if 1000 ≤ (batch ++ [row]).length then addRows (ix.addVectorsBatch (batch ++ [row])) [] rows
    else addRows ix (batch ++ [row]) rows

def rebuildIndex (s : VectorDatabase) : VectorDatabase × Bool :=
  if !s.useHnsw || !s.opened then (s, false)
  else if s.hnswIndex.isNone && s.dimension == 0 then (s, false)
  else
    let r := if s.hnswIndex.isNone then s.initializeHNSW else (s, true)
    match r.1.hnswIndex with
    | none => (r.1, false)
    | some ix =>
      if !r.2 then (r.1, false)
      else
        let started := ix.clear.initializeIndex
        if started.2 then
          ({ r.1 with
              hnswIndex := some (addRows started.1 [] r.1.rows)
              hnswInitialized := true }, true)
        else ({ r.1 with hnswIndex := some started.1 }, false)

def writeIndex (s : VectorDatabase) : VectorDatabase × Bool :=
  match (if s.hnswInitialized then s.hnswIndex else none).bind HNSWIndex.saveIndex with
  | some saved => ({ s with indexFile := some saved.1, mappingFile := some saved.2 }, true)
  | none => (s, false)

def saveIndex (s : VectorDatabase) : VectorDatabase × Bool :=
  if s.useHnsw then s.writeIndex else (s, false)

def loadIndex (s : VectorDatabase) : VectorDatabase × Bool :=
  match (if s.useHnsw then s.hnswIndex else none), s.indexFile with
  | some ix, some file =>
    let loaded := ix.loadIndex file s.mappingFile
    if loaded.2 then ({ s with hnswIndex := some loaded.1, hnswInitialized := true }, true)
    else ({ s with hnswIndex := some loaded.1 }, false)
  | _, _ => (s, false)

/-- The destructor, which saves the index, and the constructor again.  In between, the files of the
index may be removed. -/
def reopen (s : VectorDatabase) (config : VectorDatabaseConfig) (keepIndex keepMapping : Bool) :
    VectorDatabase :=
  let s := s.writeIndex.1
  { create config with
    vectors := s.vectors
    indexFile := if keepIndex then s.indexFile else none
    mappingFile := if keepMapping then s.mappingFile else none }

/-! ## Runs -/

/-- The operations on a vector database. -/
inductive VectorAction where
  | initializeDatabase
  | indexVector (id : String) (length : Nat) (dumps : Bool)
  | deleteVector (id : String)
  | deleteAll
  | rebuildIndex
  | saveIndex
  | loadIndex
  | reopen (config : VectorDatabaseConfig) (keepIndex keepMapping : Bool)

/-- A step of a vector database. -/
def step (s : VectorDatabase) : VectorAction → Option VectorDatabase
  | .initializeDatabase => some s.initializeDatabase.1
  | .indexVector id length dumps => some (s.indexVector id length dumps).1
  | .deleteVector id => some (s.deleteVector id).1
  | .deleteAll => some s.deleteAll.1
  | .rebuildIndex => some s.rebuildIndex.1
  | .saveIndex => some s.saveIndex.1
  | .loadIndex => some s.loadIndex.1
  | .reopen config keepIndex keepMapping => some (s.reopen config keepIndex keepMapping)

def inUse (s : VectorDatabase) : Option HNSWIndex :=
  if s.useHnsw && s.hnswInitialized then s.hnswIndex else none

/-- A search can come to the ids of the table, and to no others. -/
def InSync (s : VectorDatabase) : Prop :=
  ∀ ix, s.inUse = some ix → ∀ id, ix.Live id ↔ id ∈ s.vectors

end VectorDatabase

end RavBot.Core
