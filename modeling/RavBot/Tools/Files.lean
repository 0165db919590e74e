import RavBot.Lib.Effect
import RavBot.Lib.Path
import RavBot.Lib.Table

/-!
# Files

The operations on files that the tools use.  Whether the system lets a path be opened, or its directories be
created, is from outside.  The regular files that were opened or removed are recorded.
-/

namespace RavBot.Tools

open RavBot.Lib

/-- The names of a file or directory, from the root on. -/
abbrev Location := List (List Char)

instance : LawfulBEq Location := inferInstanceAs (LawfulBEq (List (List Char)))

/-- What the tools take from the system. -/
structure System where
  /-- The current directory. -/
  cwd : Location
  /-- `HOME`. -/
  home : Option (List Char)
  opensForReading : Path → Bool
  opensForWriting : Path → Bool
  createsDirectories : Path → Bool

structure FileSystem where
  files : Table Location (List Char)
  directories : List Location

/-- A file system, and the regular files that were read, created, changed or deleted. -/
structure Disk where
  fs : FileSystem
  touched : List Location

namespace System

def exists? (sys : System) (fs : FileSystem) (path : Path) : Bool :=
  (fs.files.lookup (path.resolve sys.cwd)).isSome || decide (path.resolve sys.cwd ∈ fs.directories)

/-- The directories that must be there for a path to be one, but for those that end in a dot. -/
def directoriesOf (sys : System) (path : Path) : List Location :=
  (path.names.inits.filter fun names =>
    names.getLast?.any fun name => name ≠ [] ∧ name ≠ ['.'] ∧ name ≠ ['.', '.']).map
      fun names => Path.resolve sys.cwd { path with names := names }

/-- `create_directories`.  It throws when the path is empty or the system does not let it. -/
def createDirectories (sys : System) (path : Path) : Effect Disk Unit := fun disk =>
  if path.isEmpty ∨ ¬ sys.createsDirectories path then (.error "filesystem error: cannot create directories", disk)
  else
    let missing := (sys.directoriesOf path).filter fun location => location ∉ disk.fs.directories
    (.ok (), { disk with fs.directories := disk.fs.directories ++ missing })

/-- Open a file with an `ifstream` and read it, `none` when it cannot be opened. -/
def readFile (sys : System) (path : Path) : Effect Disk (Option (List Char)) := fun disk =>
  match disk.fs.files.lookup (path.resolve sys.cwd) with
  | some content =>
    if sys.opensForReading path then
      (.ok (some content), { disk with touched := disk.touched ++ [path.resolve sys.cwd] })
    else (.ok none, disk)
  | none => (.ok none, disk)

/-- Open a file with an `ofstream` and write to it.  `change` makes the new content of the old one, which is
empty where there was no file. -/
def writeFile (sys : System) (path : Path) (change : List Char → List Char) : Effect Disk Bool := fun disk =>
  if sys.opensForWriting path ∧ path.resolve sys.cwd ∉ disk.fs.directories then
    let content := (disk.fs.files.lookup (path.resolve sys.cwd)).getD []
    (.ok true,
      { fs.files := AList.insert (path.resolve sys.cwd) (change content) disk.fs.files
        fs.directories := disk.fs.directories
        touched := disk.touched ++ [path.resolve sys.cwd] })
  else (.ok false, disk)

/-- `exists` and `remove`. -/
def removeFile (sys : System) (path : Path) : Effect Disk Unit := fun disk =>
  match disk.fs.files.lookup (path.resolve sys.cwd) with
  | some _ =>
    (.ok (),
      { fs.files := disk.fs.files.erase (path.resolve sys.cwd)
        fs.directories := disk.fs.directories
        touched := disk.touched ++ [path.resolve sys.cwd] })
  | none => (.ok (), disk)

end System

end RavBot.Tools
