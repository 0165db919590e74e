import RavBot.Session.LoadStore
import RavBot.Lib.Run

/-!
# Saving from several threads

The operations that save do so inside of their critical sections, with one exception:
`IncrementCompactionCount` releases the lock before it calls `SaveStore`, which is public and
takes no lock.  So such a call reads the store and writes the file in two steps, and any other
operation may come between them.

The index file follows the store as long as no such call overwrites it with a store that is out
of date, unless another one is still to write (`index_follows_store`).
-/

namespace RavBot.Session

open RavBot.Lib

def IndexText.isJson : IndexText → Bool
  | json _ => true
  | bytes _ => false

namespace SessionManager

/-- The second half of `SaveStore`: write a JSON object to the index file. -/
def writeIndex (m : SessionManager) (j : Json) : SessionManager :=
  match j.dump with
  | some text => { m with indexFile := some (.json text) }
  | none => { m with indexFile := some (.bytes []) }

def recorded (m : SessionManager) (key : String) : Option Json :=
  match m.indexFile with
  | some (.json j) => j.find? key
  | _ => none

/-- The index file records the sessions of the store, each with all its fields. -/
def InSync (m : SessionManager) : Prop :=
  ∀ key, m.recorded key = (m.store.lookup key).map SessionInfo.toJson

end SessionManager

/-- A `SaveStore` call that runs without the lock. -/
inductive Save where
  /-- It has not read the store yet. -/
  | called
  /-- It has read the store, as the given object. -/
  | serialized (j : Json)

/-- The call has not read the store yet, or has read it as it is now. -/
def Save.Current (m : SessionManager) : Save → Prop
  | called => True
  | serialized j => j = m.storeJson

/-- A session manager that several threads use, with the `SaveStore` calls in progress that run
without the lock. -/
structure Threads where
  manager : SessionManager
  saves : List Save

inductive ThreadAction where
  /-- An operation that does all its work under the lock, or an `IncrementCompactionCount` that
  no other thread comes in between. -/
  | call (op : StoreOp)
  /-- The critical section of `IncrementCompactionCount`. -/
  | countCompaction (key : String)
  /-- A call of `SaveStore` from outside. -/
  | callSave
  /-- A `SaveStore` call without the lock reads the store. -/
  | serialize (i : Nat)
  /-- It writes what it has read. -/
  | write (i : Nat)
  /-- It reads the store and writes it, and no other thread comes in between. -/
  | save (i : Nat)

namespace Threads

def start (m : SessionManager) : Threads := ⟨m, []⟩

/-- A step of some thread. -/
def step (s : Threads) : ThreadAction → Option Threads
  | .call op => some { s with manager := (op.run s.manager).1 }
  | .countCompaction key =>
    match s.manager.countCompaction key with
    | (m, true) => some ⟨m, s.saves ++ [.called]⟩
    | (_, false) => some s
  | .callSave => some { s with saves := s.saves ++ [.called] }
  | .serialize i =>
    match s.saves[i]? with
    | some .called => some { s with saves := s.saves.set i (.serialized s.manager.storeJson) }
    | _ => none
  | .write i =>
    match s.saves[i]? with
    | some (.serialized j) => some ⟨s.manager.writeIndex j, s.saves.eraseIdx i⟩
    | _ => none
  | .save i =>
    match s.saves[i]? with
    | some .called => some ⟨s.manager.saveStore.1, s.saves.eraseIdx i⟩
    | _ => none

/-- A call that writes has read the store as it is now, or another one that has, or has yet to
read it, will write. -/
def WritesCurrent (s : Threads) : ThreadAction → Prop
  | .write i => ∀ j, s.saves[i]? = some (.serialized j) →
      j = s.manager.storeJson ∨ ∃ save ∈ s.saves.eraseIdx i, save.Current s.manager
  | _ => True

end Threads

/-! ## What writing does -/

namespace SessionManager

theorem saveStore_fst_eq (m : SessionManager) : m.saveStore.1 = m.writeIndex m.storeJson := by
  rw [saveStore, writeIndex]
  cases m.storeJson.dump <;> rfl

@[simp] theorem store_writeIndex (m : SessionManager) (j : Json) :
    (m.writeIndex j).store = m.store := by
  rw [writeIndex]
  cases j.dump <;> rfl

theorem storeJson_congr {m m' : SessionManager} (h : m.store = m'.store) :
    m.storeJson = m'.storeJson := by
  rw [storeJson, storeJson, h]

theorem indexFile_writeIndex (m : SessionManager) (j : Json) :
    (m.writeIndex j).indexFile = some (.json j) ∨
      (m.writeIndex j).indexFile = some (.bytes []) := by
  rw [writeIndex, Json.dump]
  cases j.isUtf8 with
  | true => exact .inl rfl
  | false => exact .inr rfl

theorem inSync_of_indexFile {m : SessionManager} (h : m.indexFile = some (.json m.storeJson)) :
    m.InSync := by
  intro key
  rw [recorded, h]
  exact find?_storeJson m key

end SessionManager

/-! ## The file follows the store -/

namespace Threads

open SessionManager

/-- The last write was one of the store as it is now, or it failed, or such a write is still to
come, or nothing has happened since the start. -/
inductive Follows (m : SessionManager) (s : Threads) : Prop
  | written (h : s.manager.indexFile = some (.json s.manager.storeJson))
  | failed (h : s.manager.indexFile = some (.bytes []))
  | pending (save : Save) (hmem : save ∈ s.saves) (hcurrent : save.Current s.manager)
  | unchanged (hstore : s.manager.store = m.store) (hindex : s.manager.indexFile = m.indexFile)

variable {m : SessionManager}

theorem follows_writeIndex (s : Threads) {j : Json} {saves : List Save}
    (h : j = s.manager.storeJson ∨ ∃ save ∈ saves, save.Current s.manager) :
    Follows m ⟨s.manager.writeIndex j, saves⟩ := by
  have hjson := storeJson_congr (store_writeIndex s.manager j)
  rcases h with rfl | ⟨save, hmem, hcurrent⟩
  · rcases indexFile_writeIndex s.manager s.manager.storeJson with hfile | hfile
    · exact .written (hfile.trans (by rw [hjson]))
    · exact .failed hfile
  · refine .pending save hmem ?_
    cases save with
    | called => trivial
    | serialized j' => exact Eq.trans hcurrent hjson.symm

theorem Follows.congr {m' : SessionManager} {s : Threads} (h : Follows m s)
    (hstore : m'.store = s.manager.store) (hindex : m'.indexFile = s.manager.indexFile) :
    Follows m ⟨m', s.saves⟩ := by
  have hjson := storeJson_congr hstore
  cases h with
  | written h => exact .written (by rw [hindex, hjson, h])
  | failed h => exact .failed (hindex.trans h)
  | pending save hmem hcurrent =>
    refine .pending save hmem ?_
    cases save with
    | called => trivial
    | serialized j => exact Eq.trans hcurrent hjson.symm
  | unchanged hs hi => exact .unchanged (hstore.trans hs) (hindex.trans hi)

theorem Follows.call {s : Threads} (h : Follows m s) (op : StoreOp) :
    Follows m ⟨(op.run s.manager).1, s.saves⟩ := by
  by_cases hline : op.LineFails
  · obtain ⟨hstore, hindex⟩ := StoreOp.run_of_lineFails s.manager hline
    exact h.congr hstore hindex
  · generalize hrun : op.run s.manager = r
    have hsaved := StoreOp.saved_run s.manager hline
    rw [hrun] at hsaved
    obtain ⟨m', result⟩ := r
    cases hsaved with
    | untouched hstore hindex => exact h.congr hstore hindex
    | saved hindex hutf8 => exact .written hindex
    | failed hindex hutf8 => exact .failed hindex

theorem Follows.step {s s' : Threads} {a : ThreadAction} (h : Follows m s)
    (hok : s.WritesCurrent a) (hstep : s.step a = some s') : Follows m s' := by
  cases a with
  | call op =>
    cases hstep
    exact h.call op
  | countCompaction key =>
    rw [Threads.step] at hstep
    split at hstep
    · cases hstep
      exact .pending .called (by simp) trivial
    · cases hstep
      exact h
  | callSave =>
    cases hstep
    exact .pending .called (by simp) trivial
  | serialize i =>
    rw [Threads.step] at hstep
    split at hstep
    · next hi =>
        cases hstep
        obtain ⟨hlt, -⟩ := List.getElem?_eq_some_iff.1 hi
        exact .pending _ (List.mem_set hlt _) rfl
    · cases hstep
  | write i =>
    rw [Threads.step] at hstep
    split at hstep
    · next j hi =>
        cases hstep
        exact follows_writeIndex s (hok j hi)
    · cases hstep
  | save i =>
    rw [Threads.step] at hstep
    split at hstep
    · cases hstep
      rw [saveStore_fst_eq]
      exact follows_writeIndex s (.inl rfl)
    · cases hstep

theorem along_writesCurrent {as : List ThreadAction} (h : ∀ a ∈ as, ∀ i, a ≠ .write i)
    (s : Threads) : Along step WritesCurrent s as := by
  refine Along.mono ?_ (along_of_forall h s)
  rintro s a ha
  cases a with
  | write i => exact absurd rfl (ha i)
  | _ => trivial

/-- **The index file follows the store.**  In every run of every interleaving whose writes are
current, or have one behind them that is: when no call is in progress and the last save has not
failed, the index file records the sessions of the store, or nothing has been saved yet. -/
theorem index_follows_store {m : SessionManager} {as : List ThreadAction} {s : Threads}
    (hrun : exec step (start m) as = some s) (hok : Along step WritesCurrent (start m) as)
    (hidle : s.saves = []) (hfile : s.manager.indexFile ≠ some (.bytes [])) :
    s.manager.InSync ∨
      s.manager.store = m.store ∧ s.manager.indexFile = m.indexFile := by
  have hfollows : Follows m s :=
    exec_invariant (fun _ _ _ h hok hstep => h.step hok hstep) (.unchanged rfl rfl) hok hrun
  cases hfollows with
  | written h => exact .inl (inSync_of_indexFile h)
  | failed h => exact absurd h hfile
  | pending save hmem _ =>
    rw [hidle] at hmem
    cases hmem
  | unchanged hstore hindex => exact .inr ⟨hstore, hindex⟩

/-- A manager whose session `agent:main:main` is in the index file. -/
def oneSaved : SessionManager := (oneSession none).saveStore.1

/-- The session is renamed before `IncrementCompactionCount` saves, in a single step. -/
def renamedBefore : List ThreadAction :=
  [.countCompaction "agent:main:main", .call (.updateDisplayName "agent:main:main" "x"), .save 0]

/-- The index file follows the store there. -/
theorem index_follows_store_renamedBefore :
    ∃ s, exec step (start oneSaved) renamedBefore = some s ∧
      (s.manager.InSync ∨
        s.manager.store = oneSaved.store ∧ s.manager.indexFile = oneSaved.indexFile) := by
  refine ⟨_, (Option.some_get (by decide +kernel)).symm, ?_⟩
  refine index_follows_store (Option.some_get _).symm
    (along_writesCurrent (by simp [renamedBefore]) _) (List.isEmpty_iff.1 (by decide +kernel)) ?_
  exact ne_of_apply_ne (Option.map IndexText.isJson) (by decide +kernel)

/-- The save of `IncrementCompactionCount` reads the store before the session is renamed, and
writes it afterwards. -/
def renamedBetween : List ThreadAction :=
  [.countCompaction "agent:main:main", .serialize 0,
    .call (.updateDisplayName "agent:main:main" "x"), .write 0]

/-- The new name is then in the store, but not in the index file. -/
theorem not_index_follows_store :
    ¬ ∀ (m : SessionManager) (as : List ThreadAction) (s : Threads), m.InSync →
      exec step (start m) as = some s → s.saves = [] →
        s.manager.indexFile ≠ some (.bytes []) → s.manager.InSync := by
  rintro h
  have hstart : oneSaved.InSync := inSync_of_indexFile (indexFile_saveStore (by decide +kernel))
  have hsync := h oneSaved renamedBetween _ hstart (Option.some_get (by decide +kernel)).symm
    (List.isEmpty_iff.1 (by decide +kernel))
    (ne_of_apply_ne (Option.map IndexText.isJson) (by decide +kernel)) "agent:main:main"
  have hname := congrArg (fun j => j.bind (·.value Json.getString "displayName" "")) hsync
  revert hname
  decide +kernel

end Threads

end RavBot.Session
