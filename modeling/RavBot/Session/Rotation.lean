import RavBot.Lib.Run
import RavBot.Session.IndexSweep

/-!
# Rotating transcripts

`rotate_large_files` archives a large transcript and truncates what is there under its name, also
when the rename has failed; the name of an archive has a resolution of one second, and an archive
is a transcript itself.  So the content of a transcript is kept exactly when each rename succeeds
and the name of the archive is free, or what gets lost is the content of another file; and
another sweep rotates the archives again (`rotation_iff`).
-/

namespace RavBot.Session

open RavBot.Lib Sweeping

def HasContent (dir : Directory) (content : List Char) : Prop :=
  ∃ name entry, dir.lookup name = some entry ∧ entry.regular = true ∧ entry.content = content

/-- The content of every transcript is the content of some file afterwards. -/
def KeepsTranscripts (dir dir' : Directory) : Prop :=
  ∀ name entry, dir.lookup name = some entry → entry.regular = true → isTranscript name = true →
    HasContent dir' entry.content

/-- The content of every file is the content of some file afterwards. -/
def KeepsContents (dir dir' : Directory) : Prop :=
  ∀ content, HasContent dir content → HasContent dir' content

def LargeAt (cfg : SessionMaintenanceConfig) (dir : Directory) (name : String) : Prop :=
  ∃ entry, dir.lookup name = some entry ∧ isLarge cfg name entry = true

def HasContentElsewhere (dir : Directory) (names : List String) (content : List Char) : Prop :=
  ∃ name entry, name ∉ names ∧ dir.lookup name = some entry ∧ entry.regular = true ∧
    entry.content = content

/-- Rotating a file costs no content.  When the rename succeeds, the archive overwrites nothing, or
what it overwrites is empty, is the content of the archive, or that of another file; when it fails,
what is truncated is the content of another file. -/
def SparesContents (cfg : SessionMaintenanceConfig) (s : Sweeping) (v : Visit) : Prop :=
  ∀ entry, s.directory.lookup v.name = some entry → isLarge cfg v.name entry = true →
    if v.renamed then
      ∀ old, s.directory.lookup (archiveName v.name v.stamp) = some old → old.regular = true →
        old.content = [] ∨ old.content = entry.content ∨
          HasContentElsewhere s.directory [v.name, archiveName v.name v.stamp] old.content
    else HasContentElsewhere s.directory [v.name] entry.content

/-- Every archive that a walk makes is visited again later in the walk. -/
def ArchivesRevisited (cfg : SessionMaintenanceConfig) : Sweeping → List Visit → Prop
  | _, [] => True
  | s, v :: visits =>
    (LargeAt cfg s.directory v.name → v.renamed = true →
      archiveName v.name v.stamp ∈ visits.map Visit.name) ∧
      ArchivesRevisited cfg (rotate cfg s v) visits

structure RotateOnly (cfg : SessionMaintenanceConfig) : Prop where
  mode : cfg.mode = .enforce
  prune : cfg.pruneAfterSeconds ≤ 0
  entries : cfg.maxEntries ≤ 0
  disk : cfg.maxDiskBytes ≤ 0
  rotate : 0 < cfg.rotateBytes

/-! ## Names of archives -/

theorem length_stem_extension (name : String) :
    name.toList.length = (stem name).length + (extension name).length := by
  have hsplit : upToDot name.toList ++ name.toList.rtakeWhile (· ≠ '.') = name.toList :=
    List.rdropWhile_append_rtakeWhile
  have hlen := congrArg List.length hsplit
  rw [List.length_append] at hlen
  rw [stem, extension]
  split_ifs with hdot
  · rfl
  · rw [List.length_dropLast, List.length_cons]
    omega

theorem archiveName_ne {name : String} (h : isTranscript name = true) (stamp : String) :
    archiveName name stamp ≠ name := by
  rintro heq
  have hext : extension name = ".jsonl".toList := beq_iff_eq.1 h
  have hlen := length_stem_extension name
  have harchive : (archiveName name stamp).toList.length =
      (stem name).length + 1 + stamp.toList.length + 15 := by
    simp [archiveName]
    omega
  have hsix : (".jsonl".toList).length = 6 := rfl
  rw [heq] at harchive
  rw [hext, hsix] at hlen
  omega

/-! ## One rotation -/

section Rotate

variable {cfg : SessionMaintenanceConfig} {s : Sweeping} {v : Visit} {entry : DirEntry}

theorem isLarge_iff {name : String} : isLarge cfg name entry = true ↔
    entry.regular = true ∧ isTranscript name = true ∧ cfg.rotateBytes < entry.content.length := by
  rw [isLarge, Bool.and_eq_true, Bool.and_eq_true, decide_eq_true_eq, and_assoc]

theorem rotate_of_not_largeAt (h : ¬ LargeAt cfg s.directory v.name) : rotate cfg s v = s := by
  rw [rotate]
  cases hentry : s.directory.lookup v.name with
  | none => rfl
  | some entry => exact if_neg fun hlarge => h ⟨entry, hentry, hlarge⟩

theorem lookup_rotate_of_large (hmode : cfg.mode = .enforce)
    (hentry : s.directory.lookup v.name = some entry) (hlarge : isLarge cfg v.name entry = true)
    (name : String) :
    (rotate cfg s v).directory.lookup name =
      if name = v.name then some ⟨true, []⟩
      else if v.renamed = true ∧ name = archiveName v.name v.stamp then some entry
      else s.directory.lookup name := by
  rw [rotate, hentry]
  dsimp only
  rw [if_pos hlarge, hmode]
  dsimp only
  rw [Table.lookup_insert_ite, archiveFile]
  by_cases hname : name = v.name
  · rw [if_pos hname, if_pos hname]
  · rw [if_neg hname, if_neg hname]
    by_cases hrenamed : v.renamed = true
    · rw [if_pos hrenamed, Table.lookup_insert_ite, Table.lookup_erase_ite, if_neg hname]
      simp only [hrenamed, true_and]
    · rw [if_neg hrenamed, if_neg fun h => hrenamed h.1]

theorem rotatedCount_of_large (hmode : cfg.mode = .enforce)
    (hentry : s.directory.lookup v.name = some entry) (hlarge : isLarge cfg v.name entry = true) :
    (rotate cfg s v).result.rotatedCount = s.result.rotatedCount + 1 := by
  rw [rotate, hentry]
  dsimp only
  rw [if_pos hlarge, hmode]

theorem hasContent_of_rotate (hmode : cfg.mode = .enforce) {content : List Char}
    (h : HasContent (rotate cfg s v).directory content) :
    HasContent s.directory content ∨ content = [] := by
  by_cases hlarge : LargeAt cfg s.directory v.name
  · obtain ⟨entry, hentry, hlarge⟩ := hlarge
    obtain ⟨name, e, he, hregular, rfl⟩ := h
    rw [lookup_rotate_of_large hmode hentry hlarge] at he
    split_ifs at he with hname harchive
    · cases he
      exact .inr rfl
    · cases he
      exact .inl ⟨v.name, entry, hentry, hregular, rfl⟩
    · exact .inl ⟨name, e, he, hregular, rfl⟩
  · rw [rotate_of_not_largeAt hlarge] at h
    exact .inl h

theorem hasContent_nil_rotate (hmode : cfg.mode = .enforce) (h : HasContent s.directory []) :
    HasContent (rotate cfg s v).directory [] := by
  by_cases hlarge : LargeAt cfg s.directory v.name
  · obtain ⟨entry, hentry, hlarge⟩ := hlarge
    refine ⟨v.name, ⟨true, []⟩, ?_, rfl, rfl⟩
    rw [lookup_rotate_of_large hmode hentry hlarge, if_pos rfl]
  · rw [rotate_of_not_largeAt hlarge]
    exact h

theorem keepsContents_rotate_iff (hcfg : RotateOnly cfg) :
    KeepsContents s.directory (rotate cfg s v).directory ↔ SparesContents cfg s v := by
  by_cases hlarge : LargeAt cfg s.directory v.name
  · obtain ⟨entry, hentry, hlarge⟩ := hlarge
    obtain ⟨hregular, htranscript, hsize⟩ := isLarge_iff.1 hlarge
    have hlookup := lookup_rotate_of_large hcfg.mode hentry hlarge
    have hne := archiveName_ne htranscript v.stamp
    have hnonempty : entry.content ≠ [] := by
      rintro hnil
      rw [hnil] at hsize
      have := hcfg.rotate
      simp at hsize
      omega
    constructor
    · rintro hkeeps e he -
      rw [hentry] at he
      cases he
      by_cases hrenamed : v.renamed = true
      · rw [if_pos hrenamed]
        rintro old hold holdRegular
        obtain ⟨name, e, he, heRegular, hcontent⟩ :=
          hkeeps old.content ⟨_, old, hold, holdRegular, rfl⟩
        rw [hlookup] at he
        split_ifs at he with hname harchive
        · cases he
          exact .inl hcontent.symm
        · cases he
          exact .inr (.inl hcontent.symm)
        · refine .inr (.inr ⟨name, e, ?_, he, heRegular, hcontent⟩)
          simp only [List.mem_cons, List.not_mem_nil, or_false, not_or]
          exact ⟨hname, fun h => harchive ⟨hrenamed, h⟩⟩
      · rw [if_neg hrenamed]
        obtain ⟨name, e, he, heRegular, hcontent⟩ :=
          hkeeps entry.content ⟨_, entry, hentry, hregular, rfl⟩
        rw [hlookup] at he
        split_ifs at he with hname harchive
        · cases he
          exact absurd hcontent.symm hnonempty
        · exact absurd harchive.1 hrenamed
        · exact ⟨name, e, by simpa using hname, he, heRegular, hcontent⟩
    · rintro hspares content ⟨name, e, he, heRegular, rfl⟩
      have hspares := hspares entry hentry hlarge
      -- files other than the rotated one and its archive are as they were
      have hother (names : List String) (hnames : v.name ∈ names)
          (harchive : v.renamed = true → archiveName v.name v.stamp ∈ names) {content : List Char}
          (h : HasContentElsewhere s.directory names content) :
          HasContent (rotate cfg s v).directory content := by
        obtain ⟨name, e, hnot, he, heRegular, hcontent⟩ := h
        refine ⟨name, e, ?_, heRegular, hcontent⟩
        rw [hlookup, if_neg, if_neg, he]
        · rintro ⟨hrenamed, rfl⟩
          exact hnot (harchive hrenamed)
        · rintro rfl
          exact hnot hnames
      by_cases hrenamed : v.renamed = true
      · rw [if_pos hrenamed] at hspares
        have harchived : HasContent (rotate cfg s v).directory entry.content := by
          refine ⟨archiveName v.name v.stamp, entry, ?_, hregular, rfl⟩
          rw [hlookup, if_neg hne, if_pos ⟨hrenamed, rfl⟩]
        by_cases hname : name = v.name
        · rw [hname, hentry] at he
          cases he
          exact harchived
        · by_cases harchive : name = archiveName v.name v.stamp
          · rw [harchive] at he
            rcases hspares e he heRegular with hnil | hsame | helse
            · rw [hnil]
              refine ⟨v.name, ⟨true, []⟩, ?_, rfl, rfl⟩
              rw [hlookup, if_pos rfl]
            · rw [hsame]
              exact harchived
            · exact hother _ List.mem_cons_self (fun _ => by simp) helse
          · exact hother [v.name, archiveName v.name v.stamp] List.mem_cons_self
              (fun _ => by simp) ⟨name, e, by simp [hname, harchive], he, heRegular, rfl⟩
      · rw [if_neg hrenamed] at hspares
        have hnames (h : v.renamed = true) : archiveName v.name v.stamp ∈ [v.name] :=
          absurd h hrenamed
        by_cases hname : name = v.name
        · rw [hname, hentry] at he
          cases he
          exact hother _ List.mem_cons_self hnames hspares
        · exact hother [v.name] List.mem_cons_self hnames
            ⟨name, e, by simpa using hname, he, heRegular, rfl⟩
  · rw [rotate_of_not_largeAt hlarge]
    exact iff_of_true (fun _ h => h) fun entry hentry h => absurd ⟨entry, hentry, h⟩ hlarge

end Rotate

/-! ## The walk -/

section Walk

variable {cfg : SessionMaintenanceConfig}

def visit (cfg : SessionMaintenanceConfig) (s : Sweeping) (v : Visit) : Option Sweeping :=
  some (rotate cfg s v)

theorem hasContent_of_walk (hmode : cfg.mode = .enforce) {s : Sweeping} {visits : List Visit}
    {content : List Char} (h : HasContent (visits.foldl (rotate cfg) s).directory content) :
    HasContent s.directory content ∨ content = [] := by
  induction visits generalizing s with
  | nil => exact .inl h
  | cons v visits ih =>
    rcases ih h with hafter | hnil
    · exact hasContent_of_rotate hmode hafter
    · exact .inr hnil

theorem hasContent_nil_walk (hmode : cfg.mode = .enforce) {s : Sweeping} {visits : List Visit}
    (h : HasContent s.directory []) : HasContent (visits.foldl (rotate cfg) s).directory [] := by
  induction visits generalizing s with
  | nil => exact h
  | cons v visits ih => exact ih (hasContent_nil_rotate hmode h)

/-- A walk keeps all contents exactly when each of its rotations spares them: what a rotation
loses does not come back. -/
theorem keepsContents_walk_iff (hcfg : RotateOnly cfg) (s : Sweeping) (visits : List Visit) :
    KeepsContents s.directory (visits.foldl (rotate cfg) s).directory ↔
      Along (visit cfg) (SparesContents cfg) s visits := by
  induction visits generalizing s with
  | nil => exact iff_of_true (fun _ h => h) trivial
  | cons v visits ih =>
    have hfirst := keepsContents_rotate_iff (s := s) (v := v) hcfg
    have hrest := ih (rotate cfg s v)
    rw [List.foldl_cons]
    constructor
    · rintro hkeeps
      constructor
      · apply hfirst.1
        rintro content hcontent
        rcases hasContent_of_walk hcfg.mode (hkeeps content hcontent) with hafter | rfl
        · exact hafter
        · exact hasContent_nil_rotate hcfg.mode hcontent
      · rintro _ ⟨⟩
        apply hrest.1
        rintro content hcontent
        rcases hasContent_of_rotate hcfg.mode hcontent with hbefore | rfl
        · exact hkeeps content hbefore
        · exact hasContent_nil_walk hcfg.mode hcontent
    · rintro ⟨hspares, halong⟩ content hcontent
      exact hrest.2 (halong _ rfl) content (hfirst.2 hspares content hcontent)

theorem keepsTranscripts_walk_iff (o : SweepOutside) (s : Sweeping) :
    KeepsTranscripts s.directory (rotateLargeFiles cfg o s).directory ↔
      KeepsContents s.directory (rotateLargeFiles cfg o s).directory := by
  constructor
  · rintro h content ⟨name, entry, hentry, hregular, rfl⟩
    cases htranscript : isTranscript name with
    | true => exact h name entry hentry hregular htranscript
    | false =>
      refine ⟨name, entry, ?_, hregular, rfl⟩
      rw [lookup_rotateLargeFiles_of_not_transcript cfg o s htranscript, hentry]
  · rintro h name entry hentry hregular -
    exact h entry.content ⟨name, entry, hentry, hregular, rfl⟩

theorem largeAt_rotate_iff (hcfg : RotateOnly cfg) (s : Sweeping) (v : Visit) (name : String) :
    LargeAt cfg (rotate cfg s v).directory name ↔
      name ≠ v.name ∧ LargeAt cfg s.directory name ∨
        LargeAt cfg s.directory v.name ∧ v.renamed = true ∧
          name = archiveName v.name v.stamp := by
  by_cases hlarge : LargeAt cfg s.directory v.name
  · have hlarge' := hlarge
    obtain ⟨entry, hentry, hisLarge⟩ := hlarge'
    obtain ⟨hregular, htranscript, hsize⟩ := isLarge_iff.1 hisLarge
    have hne := archiveName_ne htranscript v.stamp
    have hempty : ¬ isLarge cfg v.name ⟨true, []⟩ = true := by
      rintro h
      have hsize := (isLarge_iff.1 h).2.2
      have hpos := hcfg.rotate
      rw [List.length_nil] at hsize
      omega
    rw [LargeAt, lookup_rotate_of_large hcfg.mode hentry hisLarge]
    split_ifs with hname harchive
    · subst hname
      constructor
      · rintro ⟨_, ⟨⟩, h⟩
        exact absurd h hempty
      · rintro (⟨h, -⟩ | ⟨-, -, h⟩)
        · exact absurd rfl h
        · exact absurd h.symm hne
    · obtain ⟨hrenamed, rfl⟩ := harchive
      refine iff_of_true ⟨entry, rfl, ?_⟩ (.inr ⟨hlarge, hrenamed, rfl⟩)
      exact isLarge_iff.2 ⟨hregular, isTranscript_archiveName _ _, hsize⟩
    · rw [or_iff_left fun h => harchive h.2, and_iff_right hname]
      exact Iff.rfl
  · rw [rotate_of_not_largeAt hlarge, or_iff_left fun h => hlarge h.1, iff_and_self]
    rintro h rfl
    exact hlarge h

/-- A walk leaves no large file exactly when it comes by every large file and revisits the
archives that it makes. -/
theorem not_largeAt_walk_iff (hcfg : RotateOnly cfg) (s : Sweeping) (visits : List Visit) :
    (∀ name, ¬ LargeAt cfg (visits.foldl (rotate cfg) s).directory name) ↔
      (∀ name, LargeAt cfg s.directory name → name ∈ visits.map Visit.name) ∧
        ArchivesRevisited cfg s visits := by
  induction visits generalizing s with
  | nil =>
    rw [ArchivesRevisited, and_true]
    exact forall_congr' fun name => by rw [List.map_nil, imp_iff_not List.not_mem_nil]; rfl
  | cons v visits ih =>
    rw [List.foldl_cons, ih, ArchivesRevisited, ← and_assoc]
    refine and_congr_left fun _ => ?_
    simp only [largeAt_rotate_iff hcfg, List.map_cons, List.mem_cons]
    constructor
    · rintro h
      refine ⟨fun name hlarge => ?_, fun hlarge hrenamed => h _ (.inr ⟨hlarge, hrenamed, rfl⟩)⟩
      by_cases hname : name = v.name
      · exact .inl hname
      · exact .inr (h name (.inl ⟨hname, hlarge⟩))
    · rintro ⟨hall, harchive⟩ name (⟨hname, hlarge⟩ | ⟨hlarge, hrenamed, rfl⟩)
      · exact (hall name hlarge).resolve_left hname
      · exact harchive hlarge hrenamed

theorem rotatedCount_walk_le (hmode : cfg.mode = .enforce) (s : Sweeping) (visits : List Visit) :
    s.result.rotatedCount ≤ (visits.foldl (rotate cfg) s).result.rotatedCount := by
  induction visits generalizing s with
  | nil => exact le_refl _
  | cons v visits ih =>
    refine le_trans ?_ (ih (rotate cfg s v))
    by_cases hlarge : LargeAt cfg s.directory v.name
    · obtain ⟨entry, hentry, hlarge⟩ := hlarge
      rw [rotatedCount_of_large hmode hentry hlarge]
      omega
    · rw [rotate_of_not_largeAt hlarge]

theorem rotatedCount_walk_iff (hmode : cfg.mode = .enforce) (s : Sweeping) (visits : List Visit) :
    (visits.foldl (rotate cfg) s).result.rotatedCount = s.result.rotatedCount ↔
      ∀ v ∈ visits, ¬ LargeAt cfg s.directory v.name := by
  induction visits with
  | nil => exact iff_of_true rfl fun _ h => absurd h List.not_mem_nil
  | cons v visits ih =>
    rw [List.foldl_cons, List.forall_mem_cons]
    by_cases hlarge : LargeAt cfg s.directory v.name
    · refine iff_of_false ?_ fun h => h.1 hlarge
      obtain ⟨entry, hentry, hlarge⟩ := hlarge
      have hle := rotatedCount_walk_le hmode (rotate cfg s v) visits
      rw [rotatedCount_of_large hmode hentry hlarge] at hle
      omega
    · rw [rotate_of_not_largeAt hlarge, ih, and_iff_right hlarge]

end Walk

/-! ## Runs of sweeps and appends -/

/-- What happens to the sessions directory. -/
inductive SessionAction where
  | append (name : String) (bytes : List Char)
  | sweep (force : Bool) (o : SweepOutside)

def Covers (dir : Directory) (o : SweepOutside) : Prop :=
  ∀ name ∈ dir.keys, name ∈ o.visits.map Visit.name

instance (dir : Directory) (o : SweepOutside) : Decidable (Covers dir o) :=
  inferInstanceAs (Decidable (∀ name ∈ dir.keys, _))

theorem mem_keys_of_lookup {dir : Directory} {name : String} {entry : DirEntry}
    (h : dir.lookup name = some entry) : name ∈ dir.keys := by
  refine AList.mem_keys.2 (AList.lookup_isSome.1 ?_)
  rw [h]
  rfl

namespace SessionMaintenance

/-- Append bytes to a file, which creates it when it is missing. -/
def append (m : SessionMaintenance) (name : String) (bytes : List Char) : SessionMaintenance :=
  match m.directory with
  | none => m
  | some dir =>
    match dir.lookup name with
    | none => { m with directory := some (dir.insert name ⟨true, bytes⟩) }
    | some entry =>
      if entry.regular then
        { m with directory := some (dir.insert name ⟨true, entry.content ++ bytes⟩) }
      else m

def step (m : SessionMaintenance) : SessionAction → Option SessionMaintenance
  | .append name bytes => some (m.append name bytes)
  | .sweep force o => some (m.sweep force o).1

def started (dir : Directory) : Sweeping := ⟨dir, { noResult with swept := true }⟩

/-- A sweep loses no content of a transcript. -/
def LosesNothing (m : SessionMaintenance) : SessionAction → Prop
  | .append _ _ => True
  | .sweep force o =>
    ∀ dir, m.directory = some dir →
      ∃ dir', (m.sweep force o).1.directory = some dir' ∧ KeepsTranscripts dir dir'

/-- After a sweep, another one that is forced rotates nothing. -/
def RotatesOnce (m : SessionMaintenance) : SessionAction → Prop
  | .append _ _ => True
  | .sweep force o =>
    ¬ m.TooSoon force o → ∀ dir, m.directory = some dir → Covers dir o →
      ∃ dir', (m.sweep force o).1.directory = some dir' ∧
        ∀ o', Covers dir' o' → ((m.sweep force o).1.sweep true o').2.rotatedCount = 0

/-- Each rotation of a sweep spares the contents, in the directory that it comes to. -/
def RotationsSpare (m : SessionMaintenance) : SessionAction → Prop
  | .append _ _ => True
  | .sweep force o =>
    ¬ m.TooSoon force o → ∀ dir, m.directory = some dir →
      Along (visit m.config) (SparesContents m.config) (started dir) o.visits

/-- The archives that a sweep makes are revisited by its walk. -/
def RevisitsArchives (m : SessionMaintenance) : SessionAction → Prop
  | .append _ _ => True
  | .sweep force o =>
    ¬ m.TooSoon force o → ∀ dir, m.directory = some dir → Covers dir o →
      ArchivesRevisited m.config (started dir) o.visits

theorem passes_of_rotateOnly {cfg : SessionMaintenanceConfig} (hcfg : RotateOnly cfg)
    (o : SweepOutside) (dir : Directory) :
    passes cfg o dir = rotateLargeFiles cfg o (started dir) := by
  have hoff {limit : Int} (hlimit : limit ≤ 0) (pass : Sweeping → Sweeping) (s : Sweeping) :
      configured limit pass s = s := if_neg (not_lt.2 hlimit)
  rw [passes]
  dsimp only
  rw [hoff hcfg.prune, hoff hcfg.entries, hoff hcfg.disk, configured, if_pos hcfg.rotate]
  rfl

variable {m : SessionMaintenance}

theorem sweep_of_rotateOnly (hcfg : RotateOnly m.config) {force : Bool}
    {o : SweepOutside} (hsoon : ¬ m.TooSoon force o) {dir : Directory}
    (hdir : m.directory = some dir) :
    m.sweep force o =
      ({ m with
          lastSweep := o.steadyNow
          directory := some (rotateLargeFiles m.config o (started dir)).directory },
        (rotateLargeFiles m.config o (started dir)).result) := by
  rw [sweep, if_neg hsoon, hdir]
  dsimp only
  rw [passes_of_rotateOnly hcfg]

theorem config_of_step {m' : SessionMaintenance} {a : SessionAction} (h : m.step a = some m') :
    m'.config = m.config := by
  cases a with
  | append name bytes =>
    cases h
    rw [append]
    split
    · rfl
    · split
      · rfl
      · split_ifs <;> rfl
  | sweep force o =>
    cases h
    rw [sweep]
    split_ifs
    · rfl
    · split <;> rfl

theorem losesNothing_iff (hcfg : RotateOnly m.config)
    (a : SessionAction) : m.LosesNothing a ↔ m.RotationsSpare a := by
  cases a with
  | append name bytes => exact Iff.rfl
  | sweep force o =>
    rw [LosesNothing, RotationsSpare]
    by_cases hsoon : m.TooSoon force o
    · refine iff_of_true (fun dir hdir => ⟨dir, ?_, ?_⟩) fun h => absurd hsoon h
      · rw [sweep, if_pos hsoon, hdir]
      · rintro name entry hentry hregular -
        exact ⟨name, entry, hentry, hregular, rfl⟩
    · rw [imp_iff_right hsoon]
      refine forall₂_congr fun dir hdir => ?_
      rw [sweep_of_rotateOnly hcfg hsoon hdir]
      simp only [Option.some.injEq, exists_eq_left']
      exact (keepsTranscripts_walk_iff o (started dir)).trans
        (keepsContents_walk_iff hcfg (started dir) o.visits)

theorem rotatedCount_forced_iff (hcfg : RotateOnly m.config)
    (o : SweepOutside) {dir : Directory} (hdir : m.directory = some dir) :
    (∀ o', Covers dir o' → (m.sweep true o').2.rotatedCount = 0) ↔
      ∀ name, ¬ LargeAt m.config dir name := by
  have hcount (o' : SweepOutside) : (m.sweep true o').2.rotatedCount = 0 ↔
      ∀ v ∈ o'.visits, ¬ LargeAt m.config dir v.name := by
    have hforced : ¬ m.TooSoon true o' := fun h => absurd h.1 (by decide)
    rw [sweep_of_rotateOnly hcfg hforced hdir]
    exact rotatedCount_walk_iff hcfg.mode (started dir) o'.visits
  constructor
  · rintro h name hlarge
    -- a walk that comes by the entries as they are
    let o' := { o with visits := dir.keys.map fun name => ⟨name, "", true⟩ }
    have hcovers : Covers dir o' := by
      rintro name hname
      rw [List.map_map]
      exact List.mem_map.2 ⟨name, hname, rfl⟩
    obtain ⟨v, hv, rfl⟩ : ∃ v ∈ o'.visits, v.name = name := by
      obtain ⟨entry, hentry, -⟩ := hlarge
      exact List.mem_map.1 (hcovers name (mem_keys_of_lookup hentry))
    exact (hcount o').1 (h o' hcovers) v hv hlarge
  · rintro h o' -
    exact (hcount o').2 fun v _ => h v.name

theorem rotatesOnce_iff (hcfg : RotateOnly m.config)
    (a : SessionAction) : m.RotatesOnce a ↔ m.RevisitsArchives a := by
  cases a with
  | append name bytes => exact Iff.rfl
  | sweep force o =>
    rw [RotatesOnce, RevisitsArchives]
    refine forall_congr' fun hsoon => forall₂_congr fun dir hdir => forall_congr' fun hcovers => ?_
    rw [sweep_of_rotateOnly hcfg hsoon hdir]
    simp only [Option.some.injEq, exists_eq_left']
    refine (rotatedCount_forced_iff (m := ⟨m.config, o.steadyNow, some _⟩) hcfg o rfl).trans ?_
    refine (not_largeAt_walk_iff hcfg (started dir) o.visits).trans (and_iff_right ?_)
    rintro name ⟨entry, hentry, -⟩
    exact hcovers name (mem_keys_of_lookup hentry)

/-- **Rotation.**  In a run of sweeps and appends with only rotation configured, each sweep keeps
the contents of the transcripts exactly when its rotations spare them, and leaves nothing for a
second sweep exactly when its walk revisits the archives that it makes. -/
theorem rotation_iff {m : SessionMaintenance} (hcfg : RotateOnly m.config)
    (as : List SessionAction) :
    (Along step LosesNothing m as ↔ Along step RotationsSpare m as) ∧
      (Along step RotatesOnce m as ↔ Along step RevisitsArchives m as) := by
  have hstep (m m' : SessionMaintenance) (a : SessionAction) (hm : RotateOnly m.config)
      (h : m.step a = some m') : RotateOnly m'.config := by
    rw [config_of_step h]
    exact hm
  exact ⟨along_congr (fun m a m' hm _ => hstep m m' a hm) (fun _ a hm => losesNothing_iff hm a) hcfg,
    along_congr (fun m a m' hm _ => hstep m m' a hm) (fun _ a hm => rotatesOnce_iff hm a) hcfg⟩

/-- A directory with one transcript, where files of more than two bytes are to be rotated. -/
def limitTwo (content : List Char) : SessionMaintenance where
  config := ⟨.enforce, 0, 0, 2, 0, 300⟩
  lastSweep := 0
  directory := some (AList.insert "a.jsonl" ⟨true, content⟩ ∅)

theorem rotateOnly_limitTwo (content : List Char) : RotateOnly (limitTwo content).config :=
  ⟨rfl, le_refl _, le_refl _, le_refl _, show (0 : Int) < 2 by decide⟩

def visitA (renamed : Bool) : SweepOutside := calm [⟨"a.jsonl", "20250101_000000", renamed⟩]

/-- A run on a transcript that stays small. -/
theorem rotation_small :
    Along step LosesNothing (limitTwo ['x']) [.append "a.jsonl" ['y'], .sweep true (visitA true)] ∧
      Along step RotatesOnce (limitTwo ['x'])
        [.append "a.jsonl" ['y'], .sweep true (visitA true)] := by
  have hrun := rotation_iff (rotateOnly_limitTwo ['x'])
    [.append "a.jsonl" ['y'], .sweep true (visitA true)]
  have hsmall {s : Sweeping} {v : Visit}
      (h : s.directory.lookup v.name = some ⟨true, ['x', 'y']⟩) :
      ¬ LargeAt (limitTwo ['x']).config s.directory v.name := by
    rintro ⟨entry, hentry, hlarge⟩
    rw [h] at hentry
    cases hentry
    exact absurd (isLarge_iff.1 hlarge).2.2 (by decide)
  refine ⟨hrun.1.2 ⟨trivial, ?_⟩, hrun.2.2 ⟨trivial, ?_⟩⟩
  · rintro _ ⟨⟩
    refine ⟨?_, fun _ _ => trivial⟩
    rintro - _ ⟨⟩
    refine ⟨?_, fun _ _ => trivial⟩
    rintro entry hentry hlarge
    exact absurd ⟨entry, hentry, hlarge⟩ (hsmall (by decide +kernel))
  · rintro _ ⟨⟩
    refine ⟨?_, fun _ _ => trivial⟩
    rintro - _ ⟨⟩ -
    refine ⟨?_, trivial⟩
    rintro hlarge
    exact absurd hlarge (hsmall (by decide +kernel))

/-- A rename that fails costs the content of the transcript, and one that succeeds leaves an archive
that the next sweep rotates. -/
theorem not_rotation :
    (¬ ∀ (m : SessionMaintenance) (as : List SessionAction), RotateOnly m.config →
      Along step LosesNothing m as) ∧
    ¬ ∀ (m : SessionMaintenance) (as : List SessionAction), RotateOnly m.config →
      Along step RotatesOnce m as := by
  have hconfig := rotateOnly_limitTwo ['x', 'y', 'z']
  have hlarge :
      isLarge (limitTwo ['x', 'y', 'z']).config "a.jsonl" ⟨true, ['x', 'y', 'z']⟩ = true := by
    decide +kernel
  have hforced (renamed : Bool) :
      ¬ (limitTwo ['x', 'y', 'z']).TooSoon true (visitA renamed) := fun h => nomatch h.1
  constructor
  · rintro h
    have hrun := h _ [.sweep true (visitA false)] hconfig
    have hspares := (losesNothing_iff hconfig _).1 hrun.1 (hforced false) _ rfl
    obtain ⟨name, entry, hname, hentry, -, -⟩ := hspares.1 _ rfl hlarge
    rw [started, AList.lookup_insert_ne (by simpa using hname)] at hentry
    cases hentry
  · rintro h
    have hrun := h _ [.sweep true (visitA true)] hconfig
    have hrevisits := (rotatesOnce_iff hconfig _).1 hrun.1 (hforced true) _ rfl (by decide)
    exact absurd (hrevisits.1 ⟨_, rfl, hlarge⟩ rfl) List.not_mem_nil

end SessionMaintenance

end RavBot.Session
