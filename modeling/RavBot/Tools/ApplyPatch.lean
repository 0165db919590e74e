import RavBot.Tools.Files
import RavBot.Tools.ToolChain

/-!
# Patches

`apply_patch_tool` compares the first 16 or 19 characters of a line with a header of 14 or 17 characters, so
that only a header without a path is taken for one, and that names no file.  Whatever the patch says, no file
is touched (`outcome_applyPatchTool`).

What a patch means is stated apart from the code: a patch is a list of sections, with hunks that replace lines
at the places that they name.
-/

namespace RavBot.Tools

open RavBot.Lib

/-! ## The tool -/

inductive FileOp where
  | none
  | add
  | update
  | delete
deriving DecidableEq, Repr

/-- The local variables of `apply_patch_tool`. -/
structure PatchState where
  applied : Nat := 0
  currentFile : List Char := []
  op : FileOp := .none
  addContent : List (List Char) := []
  diffHunks : List (List Char) := []

def unlines (lines : List (List Char)) : List Char := lines.flatMap (· ++ ['\n'])

/-- The lines of a text as `getline` reads them, without a carriage return at the end. -/
def readLines (text : List Char) : List (List Char) :=
  (Text.lines text).map fun l => if l.getLast? = some '\r' then l.dropLast else l

/-- `substr(0, 2) == "@@"`. -/
def isHunkHeader (l : List Char) : Bool := l.take 2 = ['@', '@']

/-- The first number that `sscanf` reads with `"@@ -%d,%d"`, 0 when it reads none. -/
def oldStart (l : List Char) : Int :=
  match (l.drop 2).dropWhile Text.isSpace with
  | '-' :: rest => (Text.stoi rest).getD 0
  | _ => 0

/-- The loop over the hunks of a file. -/
def applyHunks : Nat → List (List Char) → List (List Char) → Int → List (List Char)
  | 0, _, resultLines, _ => resultLines
  | _ + 1, [], resultLines, _ => resultLines
  | fuel + 1, hl :: rest, resultLines, lineOffset =>
    if isHunkHeader hl then
      let applyAt := oldStart hl - 1 + lineOffset
      let inHunk := fun l : List Char => decide (2 ≤ l.length) && !isHunkHeader l
      let body := rest.takeWhile inHunk
      let removed := (body.filter fun l => l.head? = some '-').map List.tail
      let added := (body.filter fun l => l.head? = some '+').map List.tail
      if 0 ≤ applyAt ∧ applyAt ≤ resultLines.length then
        let spliced := resultLines.take applyAt.toNat ++ added ++
          resultLines.drop (applyAt.toNat + removed.length)
        applyHunks fuel (rest.dropWhile inHunk) spliced (lineOffset + added.length - removed.length)
      else applyHunks fuel (rest.dropWhile inHunk) resultLines lineOffset
    else applyHunks fuel rest resultLines lineOffset

/-- What `flush_file` does to the file, and whether it counts. -/
def flushOperation (sys : System) (p : PatchState) : Effect Disk Bool :=
  let path := Path.parse p.currentFile
  match p.op with
  | .add => do
      sys.createDirectories path.parent
      let _ ← sys.writeFile path fun _ => unlines p.addContent
      return true
  | .delete => do
      sys.removeFile path
      return true
  | .update =>
    if p.diffHunks = [] then return false
    else do
      match ← sys.readFile path with
      | none => throw ("Cannot open for update: " ++ String.ofList p.currentFile)
      | some content =>
        let result := applyHunks p.diffHunks.length p.diffHunks (readLines content) 0
        if ← sys.writeFile path fun _ => unlines result then return true
        else throw ("Cannot write: " ++ String.ofList p.currentFile)
  | .none => return false

def flushFile (sys : System) (p : PatchState) : Effect Disk PatchState :=
  if p.currentFile = [] then return p
  else do
    let counts ← flushOperation sys p
    return { applied := if counts then p.applied + 1 else p.applied }

def addHeader : List Char := "*** Add File: ".toList

def updateHeader : List Char := "*** Update File: ".toList

def deleteHeader : List Char := "*** Delete File: ".toList

/-- A line of the patch. -/
def patchLine (sys : System) (p : PatchState) (l : List Char) : Effect Disk PatchState :=
  if l.take 16 = addHeader then do
    let p ← flushFile sys p
    return { p with currentFile := l.drop 14, op := .add }
  else if l.take 19 = updateHeader then do
    let p ← flushFile sys p
    return { p with currentFile := l.drop 17, op := .update }
  else if l.take 19 = deleteHeader then do
    let p ← flushFile sys p
    return { p with currentFile := l.drop 17, op := .delete }
  else
    match p.op with
    | .add => return { p with addContent := p.addContent ++ [l] }
    | .update => return { p with diffHunks := p.diffHunks ++ [l] }
    | _ => return p

/-- The loop over the lines of the patch. -/
def patchLines (sys : System) : List (List Char) → PatchState → Effect Disk PatchState
  | [], p => return p
  | l :: rest, p => do
      let p ← patchLine sys p l
      patchLines sys rest p

def beginMarker : List Char := "*** Begin Patch".toList

def endMarker : List Char := "*** End Patch".toList

/-- What stands between the markers.  Where the end marker comes before the end of the other, the length that
is computed is negative, and becomes larger than any text. -/
def patchBody (patch : List Char) (beginPos : Nat) : List Char :=
  let rest := patch.drop (beginPos + beginMarker.length)
  match Text.find endMarker patch with
  | some endPos =>
    if beginPos + beginMarker.length ≤ endPos then rest.take (endPos - beginPos - beginMarker.length)
    else rest
  | none => rest

def patchReport (applied : Nat) : String :=
  "Applied patch: " ++ toString applied ++ " file(s) modified."

def applyPatchTool (sys : System) (params : Json) : Effect Disk String := do
  match params.find? "patch" with
  | none => throw "patch is required"
  | some v => do
      let patch ← Effect.ofOption typeError v.getString
      match Text.find beginMarker patch.toList with
      | none => throw "Missing '*** Begin Patch' marker"
      | some beginPos => do
          let p ← patchLines sys (readLines (patchBody patch.toList beginPos)) {}
          let p ← flushFile sys p
          return patchReport p.applied

/-! ## What the tool does -/

theorem drop_eq_nil_of_take_eq {l header : List Char} {n : Nat} (h : l.take n = header)
    (hn : header.length < n) : l.drop header.length = [] := by
  have hlength : l.length = header.length := by
    have := congrArg List.length h
    rw [List.length_take] at this
    omega
  rw [List.drop_eq_nil_iff, hlength]

theorem outcome_patchLine (sys : System) {p : PatchState} (hfile : p.currentFile = []) (l : List Char)
    (disk : Disk) :
    ∃ p', p'.currentFile = [] ∧ p'.applied = p.applied ∧ (patchLine sys p l).outcome disk = (.ok p', disk) := by
  have hflush : flushFile sys p = pure p := if_pos hfile
  rw [patchLine, hflush]
  split
  · rename_i hl
    exact ⟨{ p with currentFile := l.drop 14, op := .add }, drop_eq_nil_of_take_eq hl (by decide), rfl, rfl⟩
  · split
    · rename_i hl
      exact ⟨{ p with currentFile := l.drop 17, op := .update }, drop_eq_nil_of_take_eq hl (by decide), rfl,
        rfl⟩
    · split
      · rename_i hl
        exact ⟨{ p with currentFile := l.drop 17, op := .delete }, drop_eq_nil_of_take_eq hl (by decide), rfl,
          rfl⟩
      · cases hop : p.op with
        | add => exact ⟨{ p with op := .add, addContent := p.addContent ++ [l] }, hfile, rfl, rfl⟩
        | update => exact ⟨{ p with op := .update, diffHunks := p.diffHunks ++ [l] }, hfile, rfl, rfl⟩
        | none => exact ⟨p, hfile, rfl, rfl⟩
        | delete => exact ⟨p, hfile, rfl, rfl⟩

/-- **No file is touched.**  A patch with a marker at its beginning is reported to have modified no file, and
modifies none. -/
theorem outcome_applyPatchTool (sys : System) {params : Json} {patch : String} {beginPos : Nat}
    (hpatch : params.find? "patch" = some (.str patch))
    (hbegin : Text.find beginMarker patch.toList = some beginPos) (disk : Disk) :
    (applyPatchTool sys params).outcome disk = (.ok (patchReport 0), disk) := by
  have hlines (lines : List (List Char)) : ∀ p : PatchState, p.currentFile = [] →
      ∃ p', p'.currentFile = [] ∧ p'.applied = p.applied ∧
        (patchLines sys lines p).outcome disk = (.ok p', disk) := by
    induction lines with
    | nil => exact fun p hp => ⟨p, hp, rfl, rfl⟩
    | cons l lines ih =>
      intro p hp
      obtain ⟨p₁, hfile, happlied, hline⟩ := outcome_patchLine sys hp l disk
      obtain ⟨p₂, hfile', happlied', hrest⟩ := ih p₁ hfile
      refine ⟨p₂, hfile', happlied'.trans happlied, ?_⟩
      rw [patchLines, Effect.outcome_bind, hline]
      exact hrest
  obtain ⟨p, hfile, happlied, hrun⟩ := hlines (readLines (patchBody patch.toList beginPos)) {} rfl
  have hflush : flushFile sys p = pure p := if_pos hfile
  rw [applyPatchTool, hpatch]
  show Effect.outcome (match Text.find beginMarker patch.toList with
    | none => _
    | some beginPos => _) disk = _
  rw [hbegin]
  dsimp only
  rw [Effect.outcome_bind, hrun]
  dsimp only
  rw [hflush]
  show (Except.ok (patchReport p.applied), disk) = _
  rw [happlied]

/-! ## What a patch means -/

inductive HunkLine where
  | context (line : List Char)
  | removed (line : List Char)
  | added (line : List Char)

/-- A hunk, and the number of its first line before and after. -/
structure Hunk where
  oldStart : Nat
  newStart : Nat
  lines : List HunkLine

/-- A part of a patch, about one file. -/
inductive PatchSection where
  | add (path : List Char) (lines : List (List Char))
  | update (path : List Char) (hunks : List Hunk)
  | delete (path : List Char)

namespace HunkLine

def old : HunkLine → List (List Char)
  | context line | removed line => [line]
  | added _ => []

def new : HunkLine → List (List Char)
  | context line | added line => [line]
  | removed _ => []

def text : HunkLine → List Char
  | context line => ' ' :: line
  | removed line => '-' :: line
  | added line => '+' :: line

def content : HunkLine → List Char
  | context line | removed line | added line => line

end HunkLine

namespace Hunk

def old (h : Hunk) : List (List Char) := h.lines.flatMap (·.old)

def new (h : Hunk) : List (List Char) := h.lines.flatMap (·.new)

/-- How many lines of the file stand before the hunk.  A hunk without old lines comes behind the line that it
names. -/
def position (h : Hunk) : Nat := if h.old = [] then h.oldStart else h.oldStart - 1

def text (h : Hunk) : List (List Char) :=
  ("@@ -" ++ toString h.oldStart ++ "," ++ toString h.old.length ++ " +" ++ toString h.newStart ++ "," ++
    toString h.new.length ++ " @@").toList :: h.lines.map (·.text)

/-- What hunks make of the lines from line `k` of the file on, `none` when one does not match. -/
def applyAll (k : Nat) (lines : List (List Char)) : List Hunk → Option (List (List Char))
  | [] => some lines
  | h :: hunks =>
    let before := h.position - k
    if k ≤ h.position ∧ (lines.drop before).take h.old.length = h.old then
      (applyAll (h.position + h.old.length) (lines.drop (before + h.old.length)) hunks).map fun rest =>
        lines.take before ++ h.new ++ rest
    else none

end Hunk

namespace PatchSection

def path : PatchSection → List Char
  | add path _ | update path _ | delete path => path

def text : PatchSection → List (List Char)
  | add path lines => (addHeader ++ path) :: lines
  | update path hunks => (updateHeader ++ path) :: hunks.flatMap Hunk.text
  | delete path => [deleteHeader ++ path]

/-- What a file is after the section, `none` when there is none any more.  The section fails when it updates
a file that is not there, or that its hunks do not match. -/
def result (sys : System) (fs : FileSystem) : PatchSection → Option (Option (List Char))
  | add _ lines => some (some (unlines lines))
  | update path hunks =>
    (fs.files.lookup ((Path.parse path).resolve sys.cwd)).bind fun content =>
      (Hunk.applyAll 0 (readLines content) hunks).map fun lines => some (unlines lines)
  | delete _ => some none

/-- A line that can stand in a patch: it has no line break, does not end in a carriage return and is not
taken for a header or marker. -/
def Plain (line : List Char) : Prop :=
  '\n' ∉ line ∧ line.getLast? ≠ some '\r' ∧ Text.find "*** ".toList line = none

/-- A section that can stand in a patch, and matches the file. -/
structure WellFormed (sys : System) (fs : FileSystem) (s : PatchSection) : Prop where
  named : s.path ≠ [] ∧ Plain s.path
  matching : (s.result sys fs).isSome
  lines : match s with
    | add _ lines => ∀ l ∈ lines, Plain l
    | update _ hunks => hunks ≠ [] ∧ ∀ h ∈ hunks, ∀ l ∈ h.lines, Plain l.content
    | delete _ => True

end PatchSection

def patchText (sections : List PatchSection) : String :=
  String.ofList (beginMarker ++ '\n' :: unlines (sections.flatMap (·.text)) ++ endMarker ++ ['\n'])

/-- The sections can stand in a patch, match the files, and are about different files. -/
structure WellFormedPatch (sys : System) (fs : FileSystem) (sections : List PatchSection) : Prop where
  each : ∀ s ∈ sections, s.WellFormed sys fs
  distinct : (sections.map fun s => (Path.parse s.path).resolve sys.cwd).Nodup

/-- The patch is applied: each file that a section is about is what the section makes of it, the other files
are as before, and the number of sections is reported.  When the tool throws, all files are as before. -/
def Applied (sys : System) (sections : List PatchSection) (disk : Disk) : Prop :=
  match (applyPatchTool sys (.object [("patch", .str (patchText sections))])).outcome disk with
  | (.ok report, disk') =>
    report = patchReport sections.length ∧
      (∀ s ∈ sections, s.result sys disk.fs =
        some (disk'.fs.files.lookup ((Path.parse s.path).resolve sys.cwd))) ∧
      ∀ location, location ∉ sections.map (fun s => (Path.parse s.path).resolve sys.cwd) →
        disk'.fs.files.lookup location = disk.fs.files.lookup location
  | (.error _, disk') => disk'.fs = disk.fs

theorem find_beginMarker (sections : List PatchSection) :
    Text.find beginMarker (patchText sections).toList = some 0 := by
  rw [patchText, String.toList_ofList, List.append_assoc]
  exact if_pos (List.isPrefixOf_iff_prefix.2 (List.prefix_append _ _))

theorem patchReport_injective : Function.Injective patchReport := by
  intro m n h
  have hdigits : (toString m).toList = (toString n).toList := by
    have hrepr : toString m = toString n := by
      rw [patchReport, patchReport, String.append_left_inj, String.append_right_inj] at h
      exact h
    rw [hrepr]
  have hdecode (k : Nat) : Nat.ofDigitChars 10 (toString k).toList 0 = k := by
    rw [Nat.toString_eq_ofList_toDigits, String.toList_ofList]
    exact Nat.ofDigitChars_ten_toDigits
  rw [← hdecode m, ← hdecode n, hdigits]

theorem outcome_patchText (sys : System) (disk : Disk) (sections : List PatchSection) :
    (applyPatchTool sys (.object [("patch", .str (patchText sections))])).outcome disk =
      (.ok (patchReport 0), disk) :=
  outcome_applyPatchTool sys (Json.find?_object _ _) (find_beginMarker sections) disk

/-- **When a patch is applied.**  For every file system, a patch is applied if and only if it has no
section. -/
theorem applied_iff (sys : System) (disk : Disk) (sections : List PatchSection) :
    Applied sys sections disk ↔ sections = [] := by
  rw [Applied, outcome_patchText]
  constructor
  · rintro ⟨hreport, -⟩
    exact List.length_eq_zero_iff.1 (patchReport_injective hreport).symm
  · rintro rfl
    exact ⟨rfl, nofun, fun _ _ => rfl⟩

def permissive (home : Option (List Char)) : System := ⟨[], home, fun _ => true, fun _ => true, fun _ => true⟩

def addNote : List PatchSection := [.add "/note".toList ["hello".toList]]

theorem wellFormed_addNote : WellFormedPatch (permissive none) ⟨∅, []⟩ addNote := by
  refine ⟨fun s hs => ?_, List.nodup_singleton _⟩
  rw [addNote, List.mem_singleton] at hs
  subst hs
  have hplain : PatchSection.Plain "hello".toList := ⟨by decide, by decide, by decide⟩
  refine ⟨⟨by decide, by decide, by decide, by decide⟩, rfl, ?_⟩
  show ∀ l ∈ ["hello".toList], PatchSection.Plain l
  rw [List.forall_mem_singleton]
  exact hplain

/-- A file is not added. -/
theorem not_applied :
    ¬ ∀ (sys : System) (disk : Disk) (sections : List PatchSection),
      WellFormedPatch sys disk.fs sections → Applied sys sections disk := by
  intro h
  have happlied := h (permissive none) ⟨⟨∅, []⟩, []⟩ addNote wellFormed_addNote
  rw [Applied, outcome_patchText] at happlied
  exact absurd (patchReport_injective happlied.1) (by decide)

end RavBot.Tools
