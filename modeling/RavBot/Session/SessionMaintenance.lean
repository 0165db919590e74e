import Mathlib.Data.List.Sort
import RavBot.Lib.Json
import RavBot.Lib.Table

/-!
# Session maintenance

`Sweep` prunes old session files, keeps their number under a limit, rotates large transcripts and
keeps the size of the sessions directory under a limit.  Three of these passes list the session
files, oldest first, and remove some of them; the fourth walks over the directory and archives
transcripts.

What a sweep gets from the outside is `SweepOutside`: the clocks, the modification times that a
listing sees, the order of files with equal times, the order of the walk, and which removals and
renames succeed.
-/

namespace RavBot.Session

open RavBot.Lib

inductive MaintenanceMode where
  | enforce
  | warn
  deriving DecidableEq, Repr

structure SessionMaintenanceConfig where
  mode : MaintenanceMode
  pruneAfterSeconds : Int
  maxEntries : Int
  rotateBytes : Int
  maxDiskBytes : Int
  sweepIntervalSeconds : Int

structure MaintenanceResult where
  swept : Bool
  prunedCount : Int
  rotatedCount : Int
  bytesFreed : Int
  warnings : List String

/-- What an entry of the sessions directory is: whether it is a regular file, and its bytes. -/
structure DirEntry where
  regular : Bool
  content : List Char
  deriving DecidableEq, Repr

/-- A directory by the names of its entries. -/
abbrev Directory := Table String DirEntry

/-! ## File names -/

def upToDot (name : List Char) : List Char := name.rdropWhile (· ≠ '.')

/-- `extension`: the last dot and what follows it.  A dot that starts the name does not count. -/
def extension (name : String) : List Char :=
  if (upToDot name.toList).length ≤ 1 then [] else '.' :: name.toList.rtakeWhile (· ≠ '.')

/-- `stem`: the name without its extension. -/
def stem (name : String) : List Char :=
  if (upToDot name.toList).length ≤ 1 then name.toList else (upToDot name.toList).dropLast

def isTranscript (name : String) : Bool := extension name == ".jsonl".toList

/-! ## Listing the session files -/

/-- `SessionFileInfo`.  The modification time is the one that the listing computes from two
clocks. -/
structure FileInfo where
  name : String
  mtime : Int
  size : Int

/-- The session files of a directory with their sizes. -/
def sessionFiles (dir : Directory) : List (String × Int) :=
  dir.entries.filterMap fun e =>
    if e.2.regular && (isTranscript e.1 || extension e.1 == ".json".toList) then
      some (e.1, (e.2.content.length : Int))
    else none

/-- What `get_session_files` may return: the session files, oldest first.  Files with equal times
come in any order. -/
structure Listing (dir : Directory) where
  files : List FileInfo
  perm : (files.map fun info => (info.name, info.size)).Perm (sessionFiles dir)
  sorted : files.Pairwise fun a b => a.mtime ≤ b.mtime

def totalSessionSize (dir : Directory) : Int :=
  (dir.entries.map fun e => if e.2.regular then (e.2.content.length : Int) else 0).sum

/-! ## What comes from the outside -/

/-- The passes that remove session files. -/
inductive SweepPass where
  | prune
  | entries
  | disk
  deriving DecidableEq, Repr

/-- A file at which the walk of `rotate_large_files` comes by, with the time in the name of its
archive, and whether the rename succeeds. -/
structure Visit where
  name : String
  stamp : String
  renamed : Bool
  deriving DecidableEq, Repr

/-- What a sweep gets from the outside.  Times are in nanoseconds. -/
structure SweepOutside where
  steadyNow : Int
  systemNow : Int
  listing : SweepPass → (dir : Directory) → Listing dir
  removable : SweepPass → String → Bool
  visits : List Visit

/-! ## The passes -/

structure Sweeping where
  directory : Directory
  result : MaintenanceResult

namespace Sweeping

/-- Remove a file, or warn about it. -/
def remove (mode : MaintenanceMode) (warning : String) (removable : String → Bool) (s : Sweeping)
    (info : FileInfo) : Sweeping :=
  match mode with
  | .warn =>
    { s with result := { s.result with warnings := s.result.warnings ++ [warning ++ info.name] } }
  | .enforce =>
    let freed := s.result.bytesFreed + info.size
    if removable info.name then
      { directory := s.directory.erase info.name
        result := { s.result with bytesFreed := freed, prunedCount := s.result.prunedCount + 1 } }
    else { s with result := { s.result with bytesFreed := freed } }

def tooOld (cfg : SessionMaintenanceConfig) (now : Int) (files : List FileInfo) :
    List FileInfo :=
  files.filter fun info => info.mtime < now - cfg.pruneAfterSeconds * 10 ^ 9

def tooMany (cfg : SessionMaintenanceConfig) (files : List FileInfo) : List FileInfo :=
  let total := Json.toInt32 files.length
  if total ≤ cfg.maxEntries then [] else files.take (total - cfg.maxEntries).toNat

/-- The oldest files, as many as it takes for the total size to come under the limit. -/
def tooLarge (cfg : SessionMaintenanceConfig) : Int → List FileInfo → List FileInfo
  | _, [] => []
  | total, info :: files =>
    if total ≤ cfg.maxDiskBytes then [] else info :: tooLarge cfg (total - info.size) files

/-- The files that a pass removes or warns about. -/
def doomed (cfg : SessionMaintenanceConfig) (o : SweepOutside) (pass : SweepPass)
    (dir : Directory) : List FileInfo :=
  let files := (o.listing pass dir).files
  match pass with
  | .prune => tooOld cfg o.systemNow files
  | .entries => tooMany cfg files
  | .disk => tooLarge cfg (totalSessionSize dir) files

def removePass (cfg : SessionMaintenanceConfig) (o : SweepOutside) (warning : String)
    (pass : SweepPass) (s : Sweeping) : Sweeping :=
  (doomed cfg o pass s.directory).foldl (remove cfg.mode warning (o.removable pass)) s

def pruneOldSessions (cfg : SessionMaintenanceConfig) (o : SweepOutside) : Sweeping → Sweeping :=
  removePass cfg o "Would prune: " .prune

def enforceMaxEntries (cfg : SessionMaintenanceConfig) (o : SweepOutside) : Sweeping → Sweeping :=
  removePass cfg o "Would prune (max entries): " .entries

def enforceDiskLimit (cfg : SessionMaintenanceConfig) (o : SweepOutside) : Sweeping → Sweeping :=
  removePass cfg o "Would prune (disk limit): " .disk

/-- The name that `archive_file` gives a transcript. -/
def archiveName (name stamp : String) : String :=
  String.ofList (stem name) ++ "." ++ stamp ++ ".archived.jsonl"

/-- `archive_file`.  A rename that fails leaves the file where it is. -/
def archiveFile (dir : Directory) (name : String) (entry : DirEntry) (v : Visit) : Directory :=
  if v.renamed then (dir.erase name).insert (archiveName name v.stamp) entry else dir

/-- Whether the walk rotates a file: it is a regular file, a transcript, and larger than the
limit. -/
def isLarge (cfg : SessionMaintenanceConfig) (name : String) (entry : DirEntry) : Bool :=
  entry.regular && isTranscript name && decide (cfg.rotateBytes < entry.content.length)

/-- What `rotate_large_files` does with a file: it archives it and truncates what is there under
its name, which creates the file again. -/
def rotate (cfg : SessionMaintenanceConfig) (s : Sweeping) (v : Visit) : Sweeping :=
  match s.directory.lookup v.name with
  | none => s
  | some entry =>
    if isLarge cfg v.name entry then
      match cfg.mode with
      | .warn =>
        let warning := "Would rotate: " ++ v.name ++ " (" ++ toString entry.content.length ++
          " bytes)"
        { s with result := { s.result with warnings := s.result.warnings ++ [warning] } }
      | .enforce =>
        { directory := (archiveFile s.directory v.name entry v).insert v.name ⟨true, []⟩
          result :=
            { s.result with
              bytesFreed := s.result.bytesFreed + entry.content.length
              rotatedCount := s.result.rotatedCount + 1 } }
    else s

def rotateLargeFiles (cfg : SessionMaintenanceConfig) (o : SweepOutside) (s : Sweeping) :
    Sweeping :=
  o.visits.foldl (rotate cfg) s

end Sweeping

/-! ## Sweep -/

/-- `SessionMaintenance` and its directory, which may be missing.  `lastSweep` is a time of the
steady clock in nanoseconds. -/
structure SessionMaintenance where
  config : SessionMaintenanceConfig
  lastSweep : Int
  directory : Option Directory

namespace SessionMaintenance

open Sweeping

def noResult : MaintenanceResult := ⟨false, 0, 0, 0, []⟩

def TooSoon (m : SessionMaintenance) (force : Bool) (o : SweepOutside) : Prop :=
  force = false ∧ (o.steadyNow - m.lastSweep).tdiv (10 ^ 9) < m.config.sweepIntervalSeconds

instance (m : SessionMaintenance) (force : Bool) (o : SweepOutside) :
    Decidable (m.TooSoon force o) := inferInstanceAs (Decidable (_ ∧ _))

def configured (limit : Int) (pass : Sweeping → Sweeping) (s : Sweeping) : Sweeping :=
  if 0 < limit then pass s else s

/-- The four passes over a directory. -/
def passes (cfg : SessionMaintenanceConfig) (o : SweepOutside) (dir : Directory) : Sweeping :=
  let s := ⟨dir, { noResult with swept := true }⟩
  let s := configured cfg.pruneAfterSeconds (pruneOldSessions cfg o) s
  let s := configured cfg.maxEntries (enforceMaxEntries cfg o) s
  let s := configured cfg.rotateBytes (rotateLargeFiles cfg o) s
  configured cfg.maxDiskBytes (enforceDiskLimit cfg o) s

def sweep (m : SessionMaintenance) (force : Bool) (o : SweepOutside) :
    SessionMaintenance × MaintenanceResult :=
  if m.TooSoon force o then (m, noResult)
  else match m.directory with
    | none => ({ m with lastSweep := o.steadyNow }, noResult)
    | some dir =>
      let s := passes m.config o dir
      ({ m with lastSweep := o.steadyNow, directory := some s.directory }, s.result)

end SessionMaintenance

end RavBot.Session
