import RavBot.Session.SessionMaintenance

/-!
# What a sweep removes

A sweep is to touch transcripts alone, but the passes that remove session files list files with
the extension `.json` as well, and `sessions.json`, the index of the sessions, is one of them.  It
survives exactly when no pass comes to it (`sweep_keepsOthers_iff`).
-/

namespace RavBot.Session

open RavBot.Lib Sweeping

/-! ## Files other than transcripts -/

def KeepsOthers (dir dir' : Directory) : Prop :=
  ∀ name entry, isTranscript name = false → dir.lookup name = some entry →
    dir'.lookup name = some entry

def AddsNoOthers (dir dir' : Directory) : Prop :=
  ∀ name entry, isTranscript name = false → dir'.lookup name = some entry →
    dir.lookup name = some entry

theorem keepsOthers_trans_iff {dir dir' dir'' : Directory} (h : AddsNoOthers dir dir')
    (h' : AddsNoOthers dir' dir'') :
    KeepsOthers dir dir'' ↔ KeepsOthers dir dir' ∧ KeepsOthers dir' dir'' := by
  constructor
  · rintro hkeeps
    exact ⟨fun name entry hname hentry => h' name entry hname (hkeeps name entry hname hentry),
      fun name entry hname hentry => hkeeps name entry hname (h name entry hname hentry)⟩
  · rintro ⟨hkeeps, hkeeps'⟩ name entry hname hentry
    exact hkeeps' name entry hname (hkeeps name entry hname hentry)

/-! ## Removing files -/

section Remove

variable {mode : MaintenanceMode} {warning : String} {removable : String → Bool}

theorem lookup_foldl_remove (infos : List FileInfo) (s : Sweeping) (name : String) :
    (infos.foldl (remove mode warning removable) s).directory.lookup name =
      if mode = .enforce ∧ removable name ∧ ∃ info ∈ infos, info.name = name then none
      else s.directory.lookup name := by
  induction infos generalizing s with
  | nil => simp
  | cons info infos ih =>
    rw [List.foldl_cons, ih]
    cases mode with
    | warn => simp [remove]
    | enforce =>
      have hone : (remove .enforce warning removable s info).directory.lookup name =
          if removable info.name ∧ info.name = name then none
          else s.directory.lookup name := by
        rw [remove]
        dsimp only
        split_ifs with hremovable hname hname
        · rw [hname.2]
          exact AList.lookup_erase _ _
        · refine AList.lookup_erase_ne ?_
          rintro rfl
          exact hname ⟨hremovable, rfl⟩
        · exact absurd hname.1 hremovable
        · rfl
      rw [hone]
      by_cases hname : info.name = name
      · subst hname
        by_cases hremovable : removable info.name <;> simp [hremovable]
      · simp [hname]

theorem addsNoOthers_foldl_remove (infos : List FileInfo) (s : Sweeping) :
    AddsNoOthers s.directory (infos.foldl (remove mode warning removable) s).directory := by
  rintro name entry - hentry
  rw [lookup_foldl_remove] at hentry
  split_ifs at hentry
  exact hentry

theorem keepsOthers_foldl_remove_iff {infos : List FileInfo} {s : Sweeping}
    (hinfos : ∀ info ∈ infos, (s.directory.lookup info.name).isSome) :
    KeepsOthers s.directory (infos.foldl (remove mode warning removable) s).directory ↔
      (mode = .enforce → ∀ info ∈ infos, removable info.name → isTranscript info.name) := by
  constructor
  · rintro hkeeps hmode info hinfo hremovable
    by_contra hother
    obtain ⟨entry, hentry⟩ := Option.isSome_iff_exists.1 (hinfos info hinfo)
    have hkept := hkeeps info.name entry (Bool.eq_false_iff.2 hother) hentry
    rw [lookup_foldl_remove, if_pos ⟨hmode, hremovable, info, hinfo, rfl⟩] at hkept
    cases hkept
  · rintro h name entry hname hentry
    rw [lookup_foldl_remove, if_neg, hentry]
    rintro ⟨hmode, hremovable, info, hinfo, rfl⟩
    rw [h hmode info hinfo hremovable] at hname
    cases hname

end Remove

/-! ## The files of a pass -/

theorem lookup_of_mem_listing {dir : Directory} (listing : Listing dir) {info : FileInfo}
    (h : info ∈ listing.files) : (dir.lookup info.name).isSome := by
  have hmem := listing.perm.subset (List.mem_map_of_mem h)
  rw [sessionFiles, List.mem_filterMap] at hmem
  obtain ⟨⟨name, entry⟩, hentry, hsome⟩ := hmem
  dsimp only at hsome
  split_ifs at hsome
  obtain rfl : name = info.name := (Prod.mk.inj (Option.some.inj hsome)).1
  rw [AList.lookup_isSome]
  exact AList.mem_keys.2 (List.mem_map_of_mem hentry)

theorem tooLarge_subset (cfg : SessionMaintenanceConfig) (total : Int) (files : List FileInfo) :
    tooLarge cfg total files ⊆ files := by
  induction files generalizing total with
  | nil => exact List.Subset.refl _
  | cons info files ih =>
    rw [tooLarge]
    split_ifs
    · exact List.nil_subset _
    · exact List.cons_subset_cons _ (ih _)

theorem doomed_subset (cfg : SessionMaintenanceConfig) (o : SweepOutside) (pass : SweepPass)
    (dir : Directory) : doomed cfg o pass dir ⊆ (o.listing pass dir).files := by
  cases pass with
  | prune => exact List.filter_subset_self _
  | entries =>
    rw [doomed, tooMany]
    split_ifs
    · exact List.nil_subset _
    · exact List.take_subset _ _
  | disk => exact tooLarge_subset _ _ _

/-- What a pass is to leave alone: every file that it can remove is a transcript. -/
def SparesOthers (cfg : SessionMaintenanceConfig) (o : SweepOutside) (pass : SweepPass)
    (dir : Directory) : Prop :=
  cfg.mode = .enforce → ∀ info ∈ doomed cfg o pass dir, o.removable pass info.name →
    isTranscript info.name

theorem keepsOthers_removePass_iff (cfg : SessionMaintenanceConfig) (o : SweepOutside)
    (warning : String) (pass : SweepPass) (s : Sweeping) :
    KeepsOthers s.directory (removePass cfg o warning pass s).directory ↔
      SparesOthers cfg o pass s.directory :=
  keepsOthers_foldl_remove_iff fun _ hinfo =>
    lookup_of_mem_listing _ (doomed_subset cfg o pass s.directory hinfo)

/-! ## Rotating -/

theorem extension_append {s t : List Char} (hs : s ≠ []) (ht : '.' ∉ t) :
    extension (String.ofList (s ++ '.' :: t)) = '.' :: t := by
  have hnone : ∀ c ∈ t, decide (c ≠ '.') = true := by
    rintro c hc
    rw [decide_eq_true_eq]
    rintro rfl
    exact ht hc
  have hup : upToDot (s ++ '.' :: t) = s ++ ['.'] := by
    rw [upToDot, ← List.singleton_append, ← List.append_assoc]
    induction t using List.reverseRecOn with
    | nil => rw [List.append_nil, List.rdropWhile_concat_neg _ _ _ (by decide)]
    | append_singleton t c ih =>
      rw [← List.append_assoc, List.rdropWhile_concat, if_pos (hnone c (by simp))]
      exact ih (fun h => ht (by simp [h])) fun d hd => hnone d (by simp [hd])
  have hafter : (s ++ '.' :: t).rtakeWhile (· ≠ '.') = t := by
    have hsplit : upToDot (s ++ '.' :: t) ++ (s ++ '.' :: t).rtakeWhile (· ≠ '.') =
        s ++ '.' :: t := List.rdropWhile_append_rtakeWhile
    rw [hup, List.append_assoc, List.singleton_append, List.append_cancel_left_eq] at hsplit
    exact (List.cons.inj hsplit).2
  rw [extension, String.toList_ofList, hup, hafter, if_neg]
  rw [List.length_append, List.length_singleton]
  have hlen := List.length_pos_iff.2 hs
  omega

theorem isTranscript_archiveName (name stamp : String) :
    isTranscript (archiveName name stamp) = true := by
  have hname : archiveName name stamp = String.ofList
      ((stem name ++ '.' :: stamp.toList ++ ".archived".toList) ++ '.' :: "jsonl".toList) := by
    rw [← String.toList_inj, String.toList_ofList, archiveName]
    simp
  rw [isTranscript, hname, extension_append (by simp) (by decide)]
  decide

theorem lookup_rotate_of_not_transcript (cfg : SessionMaintenanceConfig) (s : Sweeping) (v : Visit)
    {name : String} (hname : isTranscript name = false) :
    (rotate cfg s v).directory.lookup name = s.directory.lookup name := by
  rw [rotate]
  split
  · rfl
  · next entry _ =>
      split_ifs with hlarge
      · have hne : name ≠ v.name := by
          rintro rfl
          rw [isLarge, hname, Bool.and_false, Bool.false_and] at hlarge
          cases hlarge
        have harchive : name ≠ archiveName v.name v.stamp := by
          rintro rfl
          rw [isTranscript_archiveName] at hname
          cases hname
        cases cfg.mode with
        | warn => rfl
        | enforce =>
          dsimp only
          rw [Table.lookup_insert_ite, if_neg hne, archiveFile]
          split_ifs
          · rw [Table.lookup_insert_ite, if_neg harchive, Table.lookup_erase_ite, if_neg hne]
          · rfl
      · rfl

theorem lookup_rotateLargeFiles_of_not_transcript (cfg : SessionMaintenanceConfig)
    (o : SweepOutside) (s : Sweeping) {name : String} (hname : isTranscript name = false) :
    (rotateLargeFiles cfg o s).directory.lookup name = s.directory.lookup name := by
  rw [rotateLargeFiles]
  induction o.visits generalizing s with
  | nil => rfl
  | cons v visits ih => rw [List.foldl_cons, ih, lookup_rotate_of_not_transcript cfg s v hname]


/-! ## The whole sweep -/

namespace SessionMaintenance

/-- The files other than transcripts are there after a sweep as they were before it. -/
def SweepKeepsOthers (m : SessionMaintenance) (force : Bool) (o : SweepOutside) : Prop :=
  ∀ dir, m.directory = some dir →
    ∃ dir', (m.sweep force o).1.directory = some dir' ∧ KeepsOthers dir dir'

/-- Each pass that is configured spares the others, in the directory that it comes to. -/
def PassesSpareOthers (cfg : SessionMaintenanceConfig) (o : SweepOutside) (dir : Directory) :
    Prop :=
  let s : Sweeping := ⟨dir, { noResult with swept := true }⟩
  let pruned := configured cfg.pruneAfterSeconds (pruneOldSessions cfg o) s
  let limited := configured cfg.maxEntries (enforceMaxEntries cfg o) pruned
  let rotated := configured cfg.rotateBytes (rotateLargeFiles cfg o) limited
  (0 < cfg.pruneAfterSeconds → SparesOthers cfg o .prune s.directory) ∧
    (0 < cfg.maxEntries → SparesOthers cfg o .entries pruned.directory) ∧
      (0 < cfg.maxDiskBytes → SparesOthers cfg o .disk rotated.directory)

/-- A pass adds no files but transcripts, and keeps the others exactly when a condition holds. -/
structure OthersSpec (pass : Sweeping → Sweeping) (P : Sweeping → Prop) : Prop where
  adds : ∀ s, AddsNoOthers s.directory (pass s).directory
  keeps : ∀ s, KeepsOthers s.directory (pass s).directory ↔ P s

theorem othersSpec_removePass (cfg : SessionMaintenanceConfig) (o : SweepOutside)
    (warning : String) (pass : SweepPass) :
    OthersSpec (removePass cfg o warning pass) fun s => SparesOthers cfg o pass s.directory :=
  ⟨fun s => addsNoOthers_foldl_remove _ s, keepsOthers_removePass_iff cfg o warning pass⟩

theorem othersSpec_rotateLargeFiles (cfg : SessionMaintenanceConfig) (o : SweepOutside) :
    OthersSpec (rotateLargeFiles cfg o) fun _ => True := by
  constructor
  · rintro s name entry hname hentry
    rwa [lookup_rotateLargeFiles_of_not_transcript cfg o s hname] at hentry
  · rintro s
    refine iff_of_true ?_ trivial
    rintro name entry hname hentry
    rwa [lookup_rotateLargeFiles_of_not_transcript cfg o s hname]

theorem OthersSpec.configured {pass : Sweeping → Sweeping} {P : Sweeping → Prop}
    (h : OthersSpec pass P) (limit : Int) :
    OthersSpec (configured limit pass) fun s => 0 < limit → P s := by
  by_cases hlimit : 0 < limit
  · have hsame : SessionMaintenance.configured limit pass = pass := by
      funext s
      exact if_pos hlimit
    rw [hsame]
    exact ⟨h.adds, fun s => (h.keeps s).trans ⟨fun hP _ => hP, fun hP => hP hlimit⟩⟩
  · have hid : SessionMaintenance.configured limit pass = id := by
      funext s
      exact if_neg hlimit
    rw [hid]
    exact ⟨fun _ _ _ _ hentry => hentry,
      fun _ => iff_of_true (fun _ _ _ hentry => hentry) fun hpos => absurd hpos hlimit⟩

theorem OthersSpec.comp {pass pass' : Sweeping → Sweeping} {P P' : Sweeping → Prop}
    (h : OthersSpec pass P) (h' : OthersSpec pass' P') :
    OthersSpec (fun s => pass' (pass s)) fun s => P s ∧ P' (pass s) := by
  constructor
  · rintro s name entry hname hentry
    exact h.adds s name entry hname (h'.adds (pass s) name entry hname hentry)
  · rintro s
    rw [keepsOthers_trans_iff (h.adds s) (h'.adds (pass s)), h.keeps, h'.keeps]

theorem keepsOthers_passes_iff (cfg : SessionMaintenanceConfig) (o : SweepOutside)
    (dir : Directory) :
    KeepsOthers dir (passes cfg o dir).directory ↔ PassesSpareOthers cfg o dir := by
  have hprune := (othersSpec_removePass cfg o "Would prune: " .prune).configured
    cfg.pruneAfterSeconds
  have hentries := (othersSpec_removePass cfg o "Would prune (max entries): " .entries).configured
    cfg.maxEntries
  have hrotate := (othersSpec_rotateLargeFiles cfg o).configured cfg.rotateBytes
  have hdisk := (othersSpec_removePass cfg o "Would prune (disk limit): " .disk).configured
    cfg.maxDiskBytes
  have hall := (((hprune.comp hentries).comp hrotate).comp hdisk).keeps
    ⟨dir, { noResult with swept := true }⟩
  refine hall.trans ?_
  rw [imp_true_iff, and_true, and_assoc]
  rfl

/-- **Sweeps and the index.**  A sweep leaves every file that is no transcript as it was,
`sessions.json` among them, exactly when it comes too soon after the last one or each of its passes
spares them. -/
theorem sweep_keepsOthers_iff (m : SessionMaintenance) (force : Bool) (o : SweepOutside) :
    m.SweepKeepsOthers force o ↔
      m.TooSoon force o ∨ ∀ dir, m.directory = some dir → PassesSpareOthers m.config o dir := by
  rw [SweepKeepsOthers, sweep]
  by_cases hsoon : m.TooSoon force o
  · rw [if_pos hsoon]
    exact iff_of_true (fun dir hdir => ⟨dir, hdir, fun _ _ _ hentry => hentry⟩) (.inl hsoon)
  · rw [if_neg hsoon, or_iff_right hsoon]
    cases hdir : m.directory with
    | none => exact iff_of_true nofun nofun
    | some dir =>
      simp only [Option.some.injEq, exists_eq_left', forall_eq']
      exact keepsOthers_passes_iff m.config o dir

/-- The listing of a directory whose files have the given times. -/
def listingOf (mtime : String → Int) (dir : Directory) : Listing dir :=
  let older : FileInfo → FileInfo → Prop := fun a b => a.mtime ≤ b.mtime
  have : Std.Total older := ⟨fun a b => Int.le_total a.mtime b.mtime⟩
  have : IsTrans FileInfo older := ⟨fun _ _ _ => Int.le_trans⟩
  { files :=
      ((sessionFiles dir).map fun file => (⟨file.1, mtime file.1, file.2⟩ : FileInfo)).insertionSort
        older
    perm := by
      refine ((List.perm_insertionSort older _).map _).trans ?_
      rw [List.map_map]
      exact List.Perm.of_eq (List.map_id _)
    sorted := List.pairwise_insertionSort older _ }

/-- An outside where everything can be removed and times are the lengths of the names. -/
def calm (visits : List Visit) : SweepOutside where
  steadyNow := 0
  systemNow := 0
  listing _ := listingOf fun name => -name.length
  removable _ _ := true
  visits := visits

/-- At most one session file is to be left, of the index and a transcript that is newer. -/
def oneEntry : SessionMaintenance where
  config := ⟨.enforce, 0, 1, 0, 0, 300⟩
  lastSweep := 0
  directory := some <|
    (AList.insert "a.jsonl" ⟨true, ['x']⟩ ∅).insert "sessions.json" ⟨true, ['{', '}']⟩

/-- The sweep removes the index. -/
theorem not_sweep_keepsOthers :
    ¬ ∀ (m : SessionMaintenance) (force : Bool) (o : SweepOutside), m.config.mode = .enforce →
      m.SweepKeepsOthers force o := by
  rintro h
  obtain ⟨dir, hdir, hkeeps⟩ := h oneEntry true (calm []) rfl _ rfl
  have hindex := hkeeps "sessions.json" ⟨true, ['{', '}']⟩ (by decide +kernel) (by decide +kernel)
  have hgone :
      (oneEntry.sweep true (calm [])).1.directory.bind (·.lookup "sessions.json") = none := by
    decide +kernel
  rw [hdir] at hgone
  cases hgone.symm.trans hindex

end SessionMaintenance

end RavBot.Session
