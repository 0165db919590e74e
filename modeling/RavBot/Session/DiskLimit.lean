import RavBot.Session.Rotation

/-!
# The disk limit

A pass that removes files counts a file as freed before it removes it, and the rotation counts a transcript as freed
that it has renamed; so `bytes_freed` is more than what has become free by the files that could not be removed and by
the archives.  `enforce_disk_limit` stops when the files that it came to would bring the total under the limit, whether
they could be removed or not.  `disk_limit_iff` says when the limit is enforced and accounted for.
-/

namespace RavBot.Session

open RavBot.Lib Sweeping

/-! ## Sizes -/

def entryBytes (entry : DirEntry) : Nat := if entry.regular then entry.content.length else 0

def sizes (infos : List FileInfo) : Int := (infos.map FileInfo.size).sum

/-- The bytes that were freed by the accounts, and those that are left. -/
def credit (s : Sweeping) : Int := s.result.bytesFreed + totalSessionSize s.directory

def fewer (dir dir' : Directory) : Int := dir.entries.length - dir'.entries.length

def failures (cfg : SessionMaintenanceConfig) (o : SweepOutside) (pass : SweepPass) (dir : Directory) : List FileInfo :=
  (doomed cfg o pass dir).filter fun info => !o.removable pass info.name

def removals (cfg : SessionMaintenanceConfig) (o : SweepOutside) (pass : SweepPass) (dir : Directory) : List FileInfo :=
  (doomed cfg o pass dir).filter fun info => o.removable pass info.name

/-- The bytes of a transcript that is archived, less those of what is in the place of its archive. -/
def archiveExcess (cfg : SessionMaintenanceConfig) (s : Sweeping) (v : Visit) : Int :=
  match s.directory.lookup v.name with
  | none => 0
  | some entry =>
    if isLarge cfg v.name entry ∧ v.renamed then
      entry.content.length - ((s.directory.lookup (archiveName v.name v.stamp)).map entryBytes).getD 0
    else 0

def walkExcess (cfg : SessionMaintenanceConfig) : Sweeping → List Visit → Int
  | _, [] => 0
  | s, v :: visits => archiveExcess cfg s v + walkExcess cfg (rotate cfg s v) visits

/-! ## What is to hold -/

namespace SessionMaintenance

def pruned (cfg : SessionMaintenanceConfig) (o : SweepOutside) (dir : Directory) : Sweeping :=
  configured cfg.pruneAfterSeconds (pruneOldSessions cfg o) (started dir)

def limited (cfg : SessionMaintenanceConfig) (o : SweepOutside) (dir : Directory) : Sweeping :=
  configured cfg.maxEntries (enforceMaxEntries cfg o) (pruned cfg o dir)

def rotated (cfg : SessionMaintenanceConfig) (o : SweepOutside) (dir : Directory) : Sweeping :=
  configured cfg.rotateBytes (rotateLargeFiles cfg o) (limited cfg o dir)

/-- A sweep of a directory has enforced the disk limit, and has counted what it did. -/
structure Accounted (cfg : SessionMaintenanceConfig) (o : SweepOutside) (dir dir' : Directory)
    (result : MaintenanceResult) : Prop where
  limit : totalSessionSize dir' ≤ cfg.maxDiskBytes ∨
    ∀ name entry, dir'.lookup name = some entry → entry.regular = true → isTranscript name = true →
      o.removable .disk name = false
  freed : result.bytesFreed = totalSessionSize dir - totalSessionSize dir'
  removed : result.prunedCount = fewer dir (pruned cfg o dir).directory +
    fewer (pruned cfg o dir).directory (limited cfg o dir).directory + fewer (rotated cfg o dir).directory dir'

def SweepAccounted (m : SessionMaintenance) (force : Bool) (o : SweepOutside) : Prop :=
  ¬ m.TooSoon force o → ∀ dir, m.directory = some dir →
    ∃ dir', (m.sweep force o).1.directory = some dir' ∧ Accounted m.config o dir dir' (m.sweep force o).2

/-- The files that the disk pass comes to and can remove are enough, or all others that it could remove are no
transcripts. -/
def LimitReached (cfg : SessionMaintenanceConfig) (o : SweepOutside) (dir : Directory) : Prop :=
  totalSessionSize dir - sizes (removals cfg o .disk dir) ≤ cfg.maxDiskBytes ∨
    ∀ info ∈ (o.listing .disk dir).files, isTranscript info.name = true → o.removable .disk info.name = true →
      info ∈ doomed cfg o .disk dir

def ifConfigured (limit bytes : Int) : Int := if 0 < limit then bytes else 0

/-- What is counted as freed and is not: the files that could not be removed, and the archives, less what was in the
place of the archives. -/
def excess (cfg : SessionMaintenanceConfig) (o : SweepOutside) (dir : Directory) : Int :=
  ifConfigured cfg.pruneAfterSeconds (sizes (failures cfg o .prune dir)) +
    ifConfigured cfg.maxEntries (sizes (failures cfg o .entries (pruned cfg o dir).directory)) +
    ifConfigured cfg.rotateBytes (walkExcess cfg (limited cfg o dir) o.visits) +
    ifConfigured cfg.maxDiskBytes (sizes (failures cfg o .disk (rotated cfg o dir).directory))

end SessionMaintenance

/-! ## Totals -/

theorem totalSessionSize_eq (dir : Directory) : totalSessionSize dir = (Table.total entryBytes dir : Nat) := by
  rw [totalSessionSize, Table.total]
  induction dir.entries with
  | nil => rfl
  | cons e entries ih =>
    rw [List.map_cons, List.sum_cons, List.map_cons, List.sum_cons, ih, Nat.cast_add, entryBytes]
    split_ifs <;> rfl

variable {dir : Directory}

theorem totalSessionSize_erase {name : String} {entry : DirEntry}
    (h : dir.lookup name = some entry) :
    totalSessionSize (dir.erase name) = totalSessionSize dir - entryBytes entry ∧
      fewer dir (dir.erase name) = 1 := by
  obtain ⟨hsum, hlength⟩ := Table.total_erase entryBytes h
  rw [totalSessionSize_eq, totalSessionSize_eq, fewer]
  omega

structure Listed (dir : Directory) (infos : List FileInfo) : Prop where
  nodup : (infos.map FileInfo.name).Nodup
  size : ∀ info ∈ infos, ∃ entry, dir.lookup info.name = some entry ∧ (entryBytes entry : Int) = info.size

/-! ## Removing files -/

/-- A change that takes bytes away and counts bytes as freed, and counts the files that it removes. -/
structure Accounts (s s' : Sweeping) (gone counted : Int) : Prop where
  total : totalSessionSize s'.directory = totalSessionSize s.directory - gone
  freed : s'.result.bytesFreed = s.result.bytesFreed + counted
  removed : s'.result.prunedCount = s.result.prunedCount + fewer s.directory s'.directory

variable {s : Sweeping}

theorem Accounts.trans {s' s'' : Sweeping} {gone gone' counted counted' : Int} (h : Accounts s s' gone counted)
    (h' : Accounts s' s'' gone' counted') : Accounts s s'' (gone + gone') (counted + counted') := by
  obtain ⟨htotal, hfreed, hremoved⟩ := h
  obtain ⟨htotal', hfreed', hremoved'⟩ := h'
  unfold fewer at hremoved hremoved'
  refine ⟨?_, ?_, ?_⟩
  · omega
  · omega
  · rw [fewer]
    omega

theorem accounts_refl (s : Sweeping) : Accounts s s 0 0 := by
  refine ⟨(Int.sub_zero _).symm, (Int.add_zero _).symm, ?_⟩
  rw [fewer, Int.sub_self, Int.add_zero]

theorem accounts_remove (warning : String) (removable : String → Bool) {info : FileInfo}
    {entry : DirEntry} (hentry : s.directory.lookup info.name = some entry)
    (hbytes : (entryBytes entry : Int) = info.size) :
    Accounts s (remove .enforce warning removable s info) (if removable info.name then info.size else 0) info.size := by
  rw [remove]
  dsimp only
  split_ifs with hremovable
  · obtain ⟨htotal, hfewer⟩ := totalSessionSize_erase hentry
    refine ⟨?_, rfl, ?_⟩
    · rw [htotal, hbytes]
    · rw [hfewer]
  · refine ⟨(Int.sub_zero _).symm, rfl, ?_⟩
    rw [fewer, Int.sub_self, Int.add_zero]

theorem Listed.remove {warning : String} {removable : String → Bool} {info : FileInfo}
    {infos : List FileInfo} (h : Listed s.directory (info :: infos)) :
    Listed (remove .enforce warning removable s info).directory infos := by
  obtain ⟨hnodup, hsize⟩ := h
  rw [List.map_cons, List.nodup_cons] at hnodup
  refine ⟨hnodup.2, fun info' hinfo' => ?_⟩
  have hne : info'.name ≠ info.name := fun heq => hnodup.1 (heq ▸ List.mem_map_of_mem hinfo')
  rw [Sweeping.remove]
  dsimp only
  split_ifs
  · rw [AList.lookup_erase_ne hne]
    exact hsize info' (List.mem_cons_of_mem _ hinfo')
  · exact hsize info' (List.mem_cons_of_mem _ hinfo')

theorem accounts_foldl_remove (warning : String) (removable : String → Bool) {infos : List FileInfo}
    (h : Listed s.directory infos) :
    Accounts s (infos.foldl (remove .enforce warning removable) s)
      (sizes (infos.filter fun info => removable info.name)) (sizes infos) := by
  induction infos generalizing s with
  | nil => exact accounts_refl s
  | cons info infos ih =>
    obtain ⟨entry, hentry, hbytes⟩ := h.size info List.mem_cons_self
    have hall := (accounts_remove warning removable hentry hbytes).trans (ih h.remove)
    have hgone : sizes ((info :: infos).filter fun info => removable info.name) =
        (if removable info.name then info.size else 0) + sizes (infos.filter fun info => removable info.name) := by
      rw [List.filter_cons]
      split_ifs
      · rw [sizes, List.map_cons, List.sum_cons, sizes]
      · rw [Int.zero_add]
    have hcounted : sizes (info :: infos) = info.size + sizes infos := by
      rw [sizes, List.map_cons, List.sum_cons, sizes]
    rw [List.foldl_cons, hgone, hcounted]
    exact hall

theorem doomed_sublist (cfg : SessionMaintenanceConfig) (o : SweepOutside) (pass : SweepPass) (dir : Directory) :
    (doomed cfg o pass dir).Sublist (o.listing pass dir).files := by
  have hlarge (total : Int) (files : List FileInfo) : (tooLarge cfg total files).Sublist files := by
    induction files generalizing total with
    | nil => exact List.Sublist.refl _
    | cons info files ih =>
      rw [tooLarge]
      split_ifs
      · exact List.nil_sublist _
      · exact (ih _).cons_cons _
  cases pass with
  | prune => exact List.filter_sublist
  | entries =>
    rw [doomed, tooMany]
    split_ifs
    · exact List.nil_sublist _
    · exact List.take_sublist _ _
  | disk => exact hlarge _ _

theorem mem_sessionFiles {name : String} {size : Int} :
    (name, size) ∈ sessionFiles dir ↔ ∃ entry, dir.lookup name = some entry ∧ entry.regular = true ∧
      (isTranscript name = true ∨ extension name = ".json".toList) ∧ (entry.content.length : Int) = size := by
  rw [sessionFiles, List.mem_filterMap]
  constructor
  · rintro ⟨⟨name', entry⟩, hentry, hsome⟩
    dsimp only at hsome
    split_ifs at hsome with hlisted
    cases hsome
    rw [Bool.and_eq_true, Bool.or_eq_true, beq_iff_eq] at hlisted
    exact ⟨entry, AList.mem_lookup_iff.2 hentry, hlisted.1, hlisted.2, rfl⟩
  · rintro ⟨entry, hentry, hregular, hname, rfl⟩
    refine ⟨⟨name, entry⟩, AList.mem_lookup_iff.1 hentry, ?_⟩
    dsimp only
    rw [if_pos]
    rw [Bool.and_eq_true, Bool.or_eq_true, beq_iff_eq]
    exact ⟨hregular, hname⟩

theorem nodup_sessionFiles (dir : Directory) : ((sessionFiles dir).map Prod.fst).Nodup := by
  have hkeys : ((sessionFiles dir).map Prod.fst).Sublist dir.entries.keys := by
    rw [sessionFiles, List.keys]
    induction dir.entries with
    | nil => exact List.Sublist.refl _
    | cons e entries ih =>
      rw [List.filterMap_cons, List.map_cons]
      split_ifs
      · exact ih.cons_cons _
      · exact ih.cons _
  exact hkeys.nodup dir.nodupKeys

theorem nodup_listing (listing : Listing dir) : (listing.files.map FileInfo.name).Nodup := by
  have hnames := (listing.perm.map Prod.fst).nodup_iff.2 (nodup_sessionFiles dir)
  rw [List.map_map] at hnames
  exact hnames

theorem listed_doomed (cfg : SessionMaintenanceConfig) (o : SweepOutside) (pass : SweepPass) (dir : Directory) :
    Listed dir (doomed cfg o pass dir) := by
  have hsub := doomed_sublist cfg o pass dir
  refine ⟨(nodup_listing _).sublist (hsub.map _), fun info hinfo => ?_⟩
  have hmem := (o.listing pass dir).perm.subset (List.mem_map_of_mem (hsub.subset hinfo))
  obtain ⟨entry, hentry, hregular, -, hsize⟩ := mem_sessionFiles.1 hmem
  exact ⟨entry, hentry, by rw [entryBytes, if_pos hregular, hsize]⟩

theorem sizes_failures (cfg : SessionMaintenanceConfig) (o : SweepOutside) (pass : SweepPass) (dir : Directory) :
    sizes (doomed cfg o pass dir) = sizes (removals cfg o pass dir) + sizes (failures cfg o pass dir) := by
  rw [removals, failures]
  induction doomed cfg o pass dir with
  | nil => rfl
  | cons info infos ih =>
    rw [List.filter_cons, List.filter_cons]
    cases o.removable pass info.name <;> simp only [sizes] at ih ⊢ <;> simp <;> omega

variable {cfg : SessionMaintenanceConfig}

theorem accounts_removePass (hmode : cfg.mode = .enforce) (o : SweepOutside)
    (warning : String) (pass : SweepPass) (s : Sweeping) :
    Accounts s (removePass cfg o warning pass s) (sizes (removals cfg o pass s.directory))
      (sizes (removals cfg o pass s.directory) + sizes (failures cfg o pass s.directory)) := by
  rw [← sizes_failures, removePass, hmode]
  exact accounts_foldl_remove warning (o.removable pass) (listed_doomed cfg o pass s.directory)

/-! ## Rotating -/

theorem totalSessionSize_insert (dir : Directory) (name : String) (entry : DirEntry) :
    totalSessionSize (dir.insert name entry) =
      totalSessionSize dir + entryBytes entry - ((dir.lookup name).map entryBytes).getD 0 := by
  have hinsert := Table.total_insert_eq entryBytes dir name entry
  rw [totalSessionSize_eq, totalSessionSize_eq, hinsert]
  cases hlookup : dir.lookup name with
  | none =>
    rw [Table.total_erase_of_none entryBytes hlookup, Option.map_none, Option.getD_none]
    omega
  | some old =>
    have herase := (Table.total_erase entryBytes hlookup).1
    rw [Option.map_some, Option.getD_some]
    omega

/-- A transcript that is rotated is counted as freed, but only what was in the place of its archive has become free,
unless it was not renamed. -/
theorem credit_rotate (hmode : cfg.mode = .enforce) (s : Sweeping) (v : Visit) :
    credit (rotate cfg s v) = credit s + archiveExcess cfg s v ∧
      (rotate cfg s v).result.prunedCount = s.result.prunedCount := by
  rw [rotate, archiveExcess]
  cases hentry : s.directory.lookup v.name with
  | none => exact ⟨(Int.add_zero _).symm, rfl⟩
  | some entry =>
    dsimp only
    by_cases hlarge : isLarge cfg v.name entry = true
    · obtain ⟨hregular, htranscript, -⟩ := isLarge_iff.1 hlarge
      have hbytes : entryBytes entry = entry.content.length := if_pos hregular
      have hempty : entryBytes ⟨true, []⟩ = 0 := rfl
      have hne := archiveName_ne htranscript v.stamp
      rw [if_pos hlarge, hmode]
      dsimp only
      refine ⟨?_, rfl⟩
      rw [credit, credit]
      dsimp only
      rw [totalSessionSize_insert, hempty, archiveFile]
      by_cases hrenamed : v.renamed = true
      · have htotal := (totalSessionSize_erase hentry).1
        rw [if_pos hrenamed, if_pos ⟨hlarge, hrenamed⟩, AList.lookup_insert_ne hne.symm, AList.lookup_erase,
          totalSessionSize_insert, AList.lookup_erase_ne hne, htotal, hbytes, Option.map_none, Option.getD_none]
        omega
      · rw [if_neg hrenamed, if_neg fun h => hrenamed h.2, hentry, Option.map_some, Option.getD_some, hbytes]
        omega
    · rw [if_neg hlarge, if_neg fun h => hlarge h.1]
      exact ⟨(Int.add_zero _).symm, rfl⟩

theorem credit_walk (hmode : cfg.mode = .enforce) (s : Sweeping)
    (visits : List Visit) :
    credit (visits.foldl (rotate cfg) s) = credit s + walkExcess cfg s visits ∧
      (visits.foldl (rotate cfg) s).result.prunedCount = s.result.prunedCount := by
  induction visits generalizing s with
  | nil => exact ⟨(Int.add_zero _).symm, rfl⟩
  | cons v visits ih =>
    obtain ⟨hcredit, hcount⟩ := credit_rotate hmode s v
    obtain ⟨hcredit', hcount'⟩ := ih (rotate cfg s v)
    rw [List.foldl_cons, hcredit', hcount', hcredit, hcount, walkExcess, Int.add_assoc]
    exact ⟨rfl, rfl⟩

/-! ## The whole sweep -/

namespace SessionMaintenance

theorem credit_configured {cfg : SessionMaintenanceConfig} (hmode : cfg.mode = .enforce) (o : SweepOutside)
    (warning : String) (pass : SweepPass) (limit : Int) (s : Sweeping) :
    credit (configured limit (removePass cfg o warning pass) s) =
        credit s + ifConfigured limit (sizes (failures cfg o pass s.directory)) ∧
      (configured limit (removePass cfg o warning pass) s).result.prunedCount = s.result.prunedCount +
        fewer s.directory (configured limit (removePass cfg o warning pass) s).directory := by
  rw [configured, ifConfigured]
  split_ifs
  · obtain ⟨htotal, hfreed, hremoved⟩ := accounts_removePass hmode o warning pass s
    refine ⟨?_, hremoved⟩
    rw [credit, credit]
    omega
  · refine ⟨(Int.add_zero _).symm, ?_⟩
    rw [fewer, Int.sub_self, Int.add_zero]

theorem accounts_passes {cfg : SessionMaintenanceConfig} (hmode : cfg.mode = .enforce) (o : SweepOutside)
    (dir : Directory) :
    (passes cfg o dir).result.bytesFreed =
        totalSessionSize dir - totalSessionSize (passes cfg o dir).directory + excess cfg o dir ∧
      (passes cfg o dir).result.prunedCount = fewer dir (pruned cfg o dir).directory +
        fewer (pruned cfg o dir).directory (limited cfg o dir).directory +
        fewer (rotated cfg o dir).directory (passes cfg o dir).directory := by
  obtain ⟨hpruned, hprunedCount⟩ : credit (pruned cfg o dir) = credit (started dir) +
        ifConfigured cfg.pruneAfterSeconds (sizes (failures cfg o .prune dir)) ∧
      (pruned cfg o dir).result.prunedCount = (started dir).result.prunedCount +
        fewer dir (pruned cfg o dir).directory :=
    credit_configured hmode o "Would prune: " .prune cfg.pruneAfterSeconds (started dir)
  obtain ⟨hlimited, hlimitedCount⟩ : credit (limited cfg o dir) = credit (pruned cfg o dir) +
        ifConfigured cfg.maxEntries (sizes (failures cfg o .entries (pruned cfg o dir).directory)) ∧
      (limited cfg o dir).result.prunedCount = (pruned cfg o dir).result.prunedCount +
        fewer (pruned cfg o dir).directory (limited cfg o dir).directory :=
    credit_configured hmode o "Would prune (max entries): " .entries cfg.maxEntries (pruned cfg o dir)
  obtain ⟨hrotated, hrotatedCount⟩ : credit (rotated cfg o dir) = credit (limited cfg o dir) +
        ifConfigured cfg.rotateBytes (walkExcess cfg (limited cfg o dir) o.visits) ∧
      (rotated cfg o dir).result.prunedCount = (limited cfg o dir).result.prunedCount := by
    rw [rotated, configured, ifConfigured]
    split_ifs
    · exact credit_walk hmode (limited cfg o dir) o.visits
    · exact ⟨(Int.add_zero _).symm, rfl⟩
  obtain ⟨hfinal, hfinalCount⟩ : credit (passes cfg o dir) = credit (rotated cfg o dir) +
        ifConfigured cfg.maxDiskBytes (sizes (failures cfg o .disk (rotated cfg o dir).directory)) ∧
      (passes cfg o dir).result.prunedCount = (rotated cfg o dir).result.prunedCount +
        fewer (rotated cfg o dir).directory (passes cfg o dir).directory :=
    credit_configured hmode o "Would prune (disk limit): " .disk cfg.maxDiskBytes (rotated cfg o dir)
  have hstart : credit (started dir) = totalSessionSize dir := Int.zero_add _
  have hcount : (started dir).result.prunedCount = 0 := rfl
  have hend : credit (passes cfg o dir) =
      (passes cfg o dir).result.bytesFreed + totalSessionSize (passes cfg o dir).directory := rfl
  rw [excess]
  constructor
  · omega
  · omega

theorem limitReached_iff {cfg : SessionMaintenanceConfig} (hmode : cfg.mode = .enforce) (o : SweepOutside)
    (s : Sweeping) :
    (totalSessionSize (enforceDiskLimit cfg o s).directory ≤ cfg.maxDiskBytes ∨
      ∀ name entry, (enforceDiskLimit cfg o s).directory.lookup name = some entry → entry.regular = true →
        isTranscript name = true → o.removable .disk name = false) ↔ LimitReached cfg o s.directory := by
  have htotal := (accounts_removePass hmode o "Would prune (disk limit): " .disk s).total
  have hlookup (name : String) : (enforceDiskLimit cfg o s).directory.lookup name =
      if o.removable .disk name ∧ ∃ info ∈ doomed cfg o .disk s.directory, info.name = name then none
      else s.directory.lookup name := by
    rw [enforceDiskLimit, removePass, lookup_foldl_remove, hmode]
    simp only [true_and]
  rw [enforceDiskLimit, htotal, LimitReached, ← enforceDiskLimit]
  refine or_congr_right ?_
  constructor
  · intro h info hinfo htranscript hremovable
    by_contra hspared
    have hmem := (o.listing .disk s.directory).perm.subset (List.mem_map_of_mem hinfo)
    obtain ⟨entry, hentry, hregular, -⟩ := mem_sessionFiles.1 hmem
    have hleft : (enforceDiskLimit cfg o s).directory.lookup info.name = some entry := by
      rw [hlookup, if_neg, hentry]
      rintro ⟨-, info', hinfo', hname⟩
      have hfile := (doomed_sublist cfg o .disk s.directory).subset hinfo'
      have hsame := List.inj_on_of_nodup_map (nodup_listing (o.listing .disk s.directory)) hfile hinfo hname
      exact hspared (hsame ▸ hinfo')
    exact absurd (hremovable.symm.trans (h info.name entry hleft hregular htranscript)) Bool.true_eq_false_eq_False
  · intro h name entry hentry hregular htranscript
    rw [hlookup] at hentry
    split_ifs at hentry with hgone
    have hfile : (name, (entry.content.length : Int)) ∈ sessionFiles s.directory :=
      mem_sessionFiles.2 ⟨entry, hentry, hregular, .inl htranscript, rfl⟩
    obtain ⟨info, hinfo, heq⟩ := List.mem_map.1 ((o.listing .disk s.directory).perm.symm.subset hfile)
    obtain rfl := (Prod.mk.inj heq).1
    by_contra hremovable
    rw [Bool.not_eq_false] at hremovable
    exact hgone ⟨hremovable, info, h info hinfo htranscript hremovable, rfl⟩

theorem accounted_passes_iff {cfg : SessionMaintenanceConfig} (hmode : cfg.mode = .enforce)
    (hdisk : 0 < cfg.maxDiskBytes) (o : SweepOutside) (dir : Directory) :
    Accounted cfg o dir (passes cfg o dir).directory (passes cfg o dir).result ↔
      LimitReached cfg o (rotated cfg o dir).directory ∧ excess cfg o dir = 0 := by
  obtain ⟨hfreed, hremoved⟩ := accounts_passes hmode o dir
  have hpasses : (passes cfg o dir).directory = (enforceDiskLimit cfg o (rotated cfg o dir)).directory :=
    congrArg Sweeping.directory (if_pos hdisk)
  rw [← limitReached_iff hmode o (rotated cfg o dir), ← hpasses]
  constructor
  · rintro ⟨hlimit, hexact, -⟩
    exact ⟨hlimit, by omega⟩
  · rintro ⟨hlimit, hexcess⟩
    exact ⟨hlimit, by omega, hremoved⟩

/-- **The disk limit** is enforced and accounted for by a sweep exactly when it comes too soon after the last one, or
the files that the disk pass can remove bring the total under the limit, as far as there are any, and what is counted as
freed and is not makes up for what the archives overwrite. -/
theorem disk_limit_iff {m : SessionMaintenance} (hmode : m.config.mode = .enforce) (hdisk : 0 < m.config.maxDiskBytes)
    (force : Bool) (o : SweepOutside) :
    m.SweepAccounted force o ↔ m.TooSoon force o ∨ ∀ dir, m.directory = some dir →
      LimitReached m.config o (rotated m.config o dir).directory ∧ excess m.config o dir = 0 := by
  rw [SweepAccounted, ← or_iff_not_imp_left, sweep]
  refine or_congr_right' fun hsoon => forall₂_congr fun dir hdir => ?_
  rw [if_neg hsoon, hdir]
  simp only [Option.some.injEq, exists_eq_left']
  exact accounted_passes_iff hmode hdisk o dir

/-- Two transcripts and a limit of one byte.  The older one has the longer name. -/
def twoTranscripts : SessionMaintenance where
  config := ⟨.enforce, 0, 0, 0, 1, 300⟩
  lastSweep := 0
  directory := some <| (AList.insert "a.jsonl" ⟨true, ['x']⟩ ∅).insert "old.jsonl" ⟨true, ['x', 'y']⟩

def stuck (name : String) : SweepOutside := { calm [] with removable := fun _ name' => name' ≠ name }

/-- The older transcript is removed and accounted for. -/
theorem disk_limit_removed : twoTranscripts.SweepAccounted true (calm []) := by
  refine (disk_limit_iff rfl (by decide) true (calm [])).2 (.inr fun dir hdir => ?_)
  cases hdir
  constructor
  · exact .inl (by decide +kernel)
  · decide +kernel

/-- A transcript that cannot be removed is counted as freed, and the other one is left. -/
theorem not_disk_limit : ¬ ∀ (m : SessionMaintenance) (force : Bool) (o : SweepOutside), m.config.mode = .enforce →
    0 < m.config.maxDiskBytes → m.SweepAccounted force o := by
  intro h
  obtain ⟨dir', hdir', haccounted⟩ := h twoTranscripts true (stuck "old.jsonl") rfl (by decide)
    (fun hsoon => absurd hsoon.1 (by decide)) _ rfl
  have hleft : (twoTranscripts.sweep true (stuck "old.jsonl")).1.directory.map totalSessionSize = some 3 := by
    decide +kernel
  have hcounted : (twoTranscripts.sweep true (stuck "old.jsonl")).2.bytesFreed = 2 := by decide +kernel
  rw [hdir', Option.map_some, Option.some.injEq] at hleft
  have hfreed := haccounted.freed
  rw [hleft, hcounted] at hfreed
  exact absurd hfreed (by decide +kernel)

end SessionMaintenance

end RavBot.Session
