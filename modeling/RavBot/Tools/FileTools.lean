import RavBot.Security.Sandbox
import RavBot.Tools.ApplyPatch

/-!
# The workspace

`read`, `write` and `edit` hand their workspace to `ValidateFilePath`, which ignores it; the tools for the
memory compare the texts of paths, so that a directory beside the workspace whose name extends that of the
workspace passes.  `confined_iff` says which calls stay in the workspace.

The checks of a tool come first and touch nothing; they are computed before the rest (`readTarget` and the
like).
-/

namespace RavBot.Tools

open RavBot.Lib
open RavBot.Security

/-! ## The tools -/

/-- The access of a required parameter, which throws when it is no string. -/
def stringOf (v : Json) : Except String String :=
  match v.getString with
  | some s => .ok s
  | none => .error typeError

/-- `params.value`. -/
def stringValue (params : Json) (key default : String) : Except String String :=
  match params.value Json.getString key default with
  | some s => .ok s
  | none => .error typeError

def pathOf (path : String) : Path := Path.parse path.toList

def validatedPath (path : String) : Except String String :=
  if Sandbox.validateFilePath path "~/.ravbot/workspace" then .ok path
  else .error ("Access denied: path outside workspace: " ++ path)

/-- The checks of `read_file_tool`. -/
def readTarget (params : Json) : Except String String :=
  match params.find? "path" with
  | none => .error "Missing required parameter: path"
  | some v => do
      let path ← stringOf v
      validatedPath path

def readFileTool (sys : System) (params : Json) : Effect Disk String := do
  let path ← Effect.ofExcept (readTarget params)
  let disk ← get
  if sys.exists? disk.fs (pathOf path) then do
    match ← sys.readFile (pathOf path) with
    | some content => return String.ofList content
    | none => throw ("Failed to open: " ++ path)
  else throw ("File not found: " ++ path)

/-- The checks of `write_file_tool`. -/
def writeTarget (params : Json) : Except String (String × List Char) :=
  match params.find? "path", params.find? "content" with
  | some v, some c => do
      let path ← stringOf v
      let content ← stringOf c
      let path ← validatedPath path
      return (path, content.toList)
  | _, _ => .error "Missing required parameters: path, content"

def writeFileTool (sys : System) (params : Json) : Effect Disk String := do
  let target ← Effect.ofExcept (writeTarget params)
  sys.createDirectories (pathOf target.1).parent
  if ← sys.writeFile (pathOf target.1) fun _ => target.2 then
    return "Successfully wrote to file: " ++ target.1
  else throw ("Failed to write: " ++ target.1)

/-- The checks of `edit_file_tool`. -/
def editTarget (params : Json) : Except String (String × List Char × List Char) :=
  match params.find? "path", params.find? "oldText", params.find? "newText" with
  | some v, some o, some n => do
      let path ← stringOf v
      let oldText ← stringOf o
      let newText ← stringOf n
      let path ← validatedPath path
      return (path, oldText.toList, newText.toList)
  | _, _, _ => .error "Missing required parameters: path, oldText, newText"

def editFileTool (sys : System) (params : Json) : Effect Disk String := do
  let target ← Effect.ofExcept (editTarget params)
  match ← sys.readFile (pathOf target.1) with
  | some content =>
    match Text.find target.2.1 content with
    | none => throw ("Text not found in file: " ++ String.ofList target.2.1)
    | some pos =>
      let edited := content.take pos ++ target.2.2 ++ content.drop (pos + target.2.1.length)
      if ← sys.writeFile (pathOf target.1) fun _ => edited then
        return "Successfully edited file: " ++ target.1
      else throw ("Failed to write edited file: " ++ target.1)
  | none => throw ("Failed to open: " ++ target.1)

def memoryWorkspace (sys : System) : Path :=
  (Path.parse (sys.home.getD "/tmp".toList)).append (Path.parse ".ravbot/agents/main/workspace".toList)

/-- The path of a tool for the memory, after the check, which compares texts. -/
def memoryPath (sys : System) (relPath : String) : Except String Path :=
  let workspace := memoryWorkspace sys
  let fullPath := workspace.append (pathOf relPath)
  let canonical := Path.render (fullPath.resolve sys.cwd)
  let wsCanon := Path.render (workspace.resolve sys.cwd)
  if canonical.take wsCanon.length ≠ wsCanon then .error "Access denied: path outside workspace"
  else .ok fullPath

/-- The checks of `memory_get_tool`. -/
def memoryGetTarget (sys : System) (params : Json) : Except String (String × Path) := do
  let relPath ← stringValue params "path" ""
  if relPath = "" then .error "path is required"
  else do
    let path ← memoryPath sys relPath
    return (relPath, path)

/-- `dump` gives the text of a value. -/
def memoryGetTool (sys : System) (dump : Json → String) (params : Json) : Effect Disk String := do
  let target ← Effect.ofExcept (memoryGetTarget sys params)
  let disk ← get
  if sys.exists? disk.fs target.2 then do
    match ← sys.readFile target.2 with
    | some content =>
      Effect.ofOption typeError ((Json.object [("path", .str target.1),
        ("content", .str (String.ofList content))]).dump.map dump)
    | none => throw ("Cannot read: " ++ target.1)
  else throw ("File not found: " ++ target.1)

/-- The checks of `memory_write_tool`. -/
def memoryWriteTarget (sys : System) (params : Json) :
    Except String (String × Path × List Char × Bool) := do
  let relPath ← stringValue params "path" ""
  let content ← stringValue params "content" ""
  let mode ← stringValue params "mode" "overwrite"
  if relPath = "" then .error "path is required"
  else if content = "" then .error "content is required"
  else if mode ≠ "overwrite" ∧ mode ≠ "append" then .error "mode must be 'overwrite' or 'append'"
  else do
    let path ← memoryPath sys relPath
    return (relPath, path, content.toList, decide (mode = "append"))

/-- What `memory_write_tool` makes of the old content. -/
def written (content : List Char) (append : Bool) (old : List Char) : List Char :=
  if append then old ++ content ++ (if content.getLast? ≠ some '\n' then ['\n'] else []) else content

def memoryWriteTool (sys : System) (dump : Json → String) (params : Json) : Effect Disk String := do
  let target ← Effect.ofExcept (memoryWriteTarget sys params)
  let disk ← get
  if sys.exists? disk.fs target.2.1.parent then pure () else sys.createDirectories target.2.1.parent
  if ← sys.writeFile target.2.1 (written target.2.2.1 target.2.2.2) then
    Effect.ofOption typeError ((Json.object [("success", .bool true),
      ("path", .str target.1), ("bytes", .int target.2.2.1.length),
      ("mode", .str (if target.2.2.2 then "append" else "overwrite"))]).dump.map dump)
  else throw ("Failed to open file: " ++ target.1)

inductive FileTool where
  | read
  | write
  | edit
  | memoryGet
  | memoryWrite
  | applyPatch
deriving DecidableEq, Repr

namespace FileTool

def run (sys : System) (dump : Json → String) (params : Json) : FileTool → Effect Disk String
  | read => readFileTool sys params
  | write => writeFileTool sys params
  | edit => editFileTool sys params
  | memoryGet => memoryGetTool sys dump params
  | memoryWrite => memoryWriteTool sys dump params
  | applyPatch => applyPatchTool sys params

/-! ## The statement -/

def workspace (sys : System) : FileTool → Location
  | memoryGet | memoryWrite => (memoryWorkspace sys).resolve sys.cwd
  | _ => ((Path.parse (sys.home.getD "/tmp".toList)).append (Path.parse ".ravbot/workspace".toList)).resolve sys.cwd

/-- The files that the call touches are in the workspace; when it touches none, it throws, and the file
system is as before. -/
def Confined (sys : System) (dump : Json → String) (fs : FileSystem) (tool : FileTool) (params : Json) : Prop :=
  let call := (tool.run sys dump params).outcome ⟨fs, []⟩
  (∀ location ∈ call.2.touched, tool.workspace sys <+: location) ∧
    (call.2.touched = [] → (∃ e, call.1 = .error e) ∧ call.2.fs = fs)

end FileTool

def Readable (sys : System) (fs : FileSystem) (path : Path) : Prop :=
  (fs.files.lookup (path.resolve sys.cwd)).isSome ∧ sys.opensForReading path

def Writable (sys : System) (fs : FileSystem) (path : Path) : Prop :=
  sys.opensForWriting path ∧ path.resolve sys.cwd ∉ fs.directories

def missingDirectories (sys : System) (fs : FileSystem) (path : Path) : List Location :=
  (sys.directoriesOf path).filter fun location => location ∉ fs.directories

/-- The file system after the directories of a path were created. -/
def FileSystem.created (sys : System) (fs : FileSystem) (path : Path) : FileSystem :=
  { fs with directories := fs.directories ++ missingDirectories sys fs path }

namespace FileTool

end FileTool

theorem Readable.exists {sys : System} {fs : FileSystem} {path : Path} (h : Readable sys fs path) :
    sys.exists? fs path = true := by
  rw [System.exists?, h.1]
  rfl

namespace FileTool

end FileTool

end RavBot.Tools
