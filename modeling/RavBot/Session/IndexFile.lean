import RavBot.Session.SessionManager

/-!
# The index file

`sessions.json` is written anew by every operation that changes the store.  `StoreOp` lists
these operations, each with what it gets from the outside: its arguments, the session ids that it
draws and the times that it reads.

`SaveStore` opens the file, which truncates it, and serializes the store afterwards.  So a store
with a string that is not UTF-8 costs the whole file (`index_survives_iff`), and the display
name that `execute_agent_request` cuts out of a message can be such a string
(`isUtf8_displayName_iff`).
-/

namespace RavBot.Session

open RavBot.Lib RavBot.Core

namespace SessionManager

/-! ## The operations that save -/

/-- `AppendTranscriptEntry`; the result says whether the session was found. -/
def appendTranscriptEntry (m : SessionManager) (key : String) (entry : Json) (now : Timestamp) :
    SessionManager × Option Bool :=
  match m.store.lookup (normalized key) with
  | none => (m, some false)
  | some info =>
    let path := m.transcriptPath info.sessionId
    let lines := m.transcript info.sessionId
    match entry.dump with
    | none => ({ m with transcripts := m.transcripts.insert path lines }, none)
    | some line =>
      let (m, saved) := saveStore
        { m with
          transcripts := m.transcripts.insert path (lines ++ [some line])
          store := m.store.insert (normalized key) { info with updatedAt := now.text } }
      (m, saved.map fun _ => true)

def deleteSession (m : SessionManager) (key : String) : SessionManager × Option Unit :=
  match m.store.lookup (normalized key) with
  | none => (m, some ())
  | some info =>
    saveStore
      { m with
        transcripts := m.transcripts.erase (m.transcriptPath info.sessionId)
        store := m.store.erase (normalized key) }

def updateDisplayName (m : SessionManager) (key name : String) : SessionManager × Option Unit :=
  match m.store.lookup (normalized key) with
  | none => (m, some ())
  | some info =>
    saveStore
      { m with store := m.store.insert (normalized key) { info with displayName := name } }

def renameTranscript (m : SessionManager) (path archive : String) : SessionManager :=
  match m.transcripts.lookup path with
  | none => m
  | some lines => { m with transcripts := (m.transcripts.erase path).insert archive lines }

/-- `ResetSession`: archive the transcript at the time `now`, and give the session a new id. -/
def resetSession (m : SessionManager) (key sid : String) (now later : Timestamp) :
    SessionManager × Option Unit :=
  match m.store.lookup (normalized key) with
  | none => (m, some ())
  | some info =>
    let path := m.transcriptPath info.sessionId
    let m := m.renameTranscript path (path ++ ".reset." ++ now.text)
    saveStore
      { m with
        store := m.store.insert (normalized key)
          { info with sessionId := sid, updatedAt := later.text } }

/-- The critical section of `IncrementCompactionCount`; the result says whether the session was
found. -/
def countCompaction (m : SessionManager) (key : String) : SessionManager × Bool :=
  match m.store.lookup (normalized key) with
  | none => (m, false)
  | some info =>
    ({ m with
      store := m.store.insert (normalized key)
        { info with compactionCount := info.compactionCount + 1 } }, true)

/-- `IncrementCompactionCount`, which saves after its critical section. -/
def incrementCompactionCount (m : SessionManager) (key : String) : SessionManager × Option Unit :=
  match m.countCompaction key with
  | (m, true) => saveStore m
  | (m, false) => (m, some ())

end SessionManager

/-- A call of an operation that calls `SaveStore`. -/
inductive StoreOp where
  | getOrCreate (key displayName channel sid : String) (now : Timestamp)
  | appendMessage (key : String) (msg : SessionMessage) (now : Timestamp)
  | appendText (key role text : String) (usage : Option UsageInfo) (now later : Timestamp)
  | appendTranscriptEntry (key : String) (entry : Json) (now : Timestamp)
  | deleteSession (key : String)
  | updateDisplayName (key name : String)
  | resetSession (key sid : String) (now later : Timestamp)
  | incrementCompactionCount (key : String)

namespace StoreOp

/-- Run an operation.  The result is `none` when it throws. -/
def run (m : SessionManager) : StoreOp → SessionManager × Option Unit
  | getOrCreate key displayName channel sid now =>
    let (m, handle) := m.getOrCreate key displayName channel sid now
    (m, handle.map fun _ => ())
  | appendMessage key msg now => m.appendMessage key msg now
  | appendText key role text usage now later => m.appendText key role text usage now later
  | appendTranscriptEntry key entry now =>
    let (m, found) := m.appendTranscriptEntry key entry now
    (m, found.map fun _ => ())
  | deleteSession key => m.deleteSession key
  | updateDisplayName key name => m.updateDisplayName key name
  | resetSession key sid now later => m.resetSession key sid now later
  | incrementCompactionCount key => m.incrementCompactionCount key

/-- The line that an operation appends to a transcript. -/
def line : StoreOp → Option Json
  | appendMessage _ msg _ => some msg.toJsonl
  | appendText _ role text usage now _ =>
    some (SessionMessage.toJsonl ⟨role, [ContentBlock.makeText text], now.text, usage⟩)
  | appendTranscriptEntry _ entry _ => some entry
  | _ => none

def LineFails (op : StoreOp) : Prop := ∃ line ∈ op.line, line.isUtf8 = false

end StoreOp

/-! ## Every operation saves the store, or does not touch the index file -/

namespace SessionManager

/-- What became of the index file: it was not touched, or the store was saved. -/
inductive Saved (before after : SessionManager) : Option Unit → Prop
  /-- The operation returned without saving. -/
  | untouched (hstore : after.store = before.store) (hindex : after.indexFile = before.indexFile) :
      Saved before after (some ())
  /-- The operation saved the store. -/
  | saved (hindex : after.indexFile = some (.json after.storeJson))
      (hutf8 : after.storeJson.isUtf8 = true) : Saved before after (some ())
  /-- Saving the store failed. -/
  | failed (hindex : after.indexFile = some (.bytes []))
      (hutf8 : after.storeJson.isUtf8 = false) : Saved before after none

theorem saved_saveStore (before m : SessionManager) : Saved before m.saveStore.1 m.saveStore.2 := by
  rw [saveStore, Json.dump]
  cases hutf8 : m.storeJson.isUtf8 with
  | true => exact .saved rfl hutf8
  | false => exact .failed rfl hutf8

theorem saved_saveStore_map {β : Type} (before m : SessionManager) (f : Unit → β) :
    Saved before m.saveStore.1 ((m.saveStore.2.map f).map fun _ => ()) := by
  have hsame : (m.saveStore.2.map f).map (fun _ => ()) = m.saveStore.2 := by
    cases m.saveStore.2 <;> rfl
  rw [hsame]
  exact saved_saveStore before m

end SessionManager

namespace StoreOp

open SessionManager

variable {op : StoreOp}

theorem run_of_lineFails (m : SessionManager) (h : op.LineFails) :
    (op.run m).1.store = m.store ∧ (op.run m).1.indexFile = m.indexFile := by
  obtain ⟨line, hline, hutf8⟩ := h
  have happend {key : String} {msg : SessionMessage} (now : Timestamp)
      (hutf8 : msg.toJsonl.isUtf8 = false) :
      (m.appendMessage key msg now).1.store = m.store ∧
        (m.appendMessage key msg now).1.indexFile = m.indexFile := by
    rw [SessionManager.appendMessage, Json.dump, hutf8]
    cases m.store.lookup (normalized key) <;> exact ⟨rfl, rfl⟩
  cases op with
  | appendMessage key msg now =>
    cases hline
    exact happend now hutf8
  | appendText key role text usage now later =>
    cases hline
    exact happend later hutf8
  | appendTranscriptEntry key entry now =>
    cases hline
    rw [run, SessionManager.appendTranscriptEntry, Json.dump, hutf8]
    cases m.store.lookup (normalized key) <;> exact ⟨rfl, rfl⟩
  | _ => cases hline

theorem saved_run (m : SessionManager) (h : ¬ op.LineFails) :
    Saved m (op.run m).1 (op.run m).2 := by
  have hutf8 {line : Json} (hline : line ∈ op.line) : line.dump = some line := by
    rw [Json.dump, if_pos]
    by_contra hfails
    exact h ⟨line, hline, Bool.eq_false_iff.2 hfails⟩
  have happend {key : String} {msg : SessionMessage} (now : Timestamp)
      (hdump : msg.toJsonl.dump = some msg.toJsonl) :
      Saved m (m.appendMessage key msg now).1 (m.appendMessage key msg now).2 := by
    rw [SessionManager.appendMessage, hdump]
    cases m.store.lookup (normalized key) with
    | none => exact .untouched rfl rfl
    | some info => exact saved_saveStore _ _
  cases op with
  | getOrCreate key displayName channel sid now =>
    rw [run, SessionManager.getOrCreate]
    cases m.store.lookup (normalized key) with
    | none => exact saved_saveStore_map _ _ _
    | some info => exact .untouched rfl rfl
  | appendMessage key msg now => exact happend now (hutf8 rfl)
  | appendText key role text usage now later => exact happend later (hutf8 rfl)
  | appendTranscriptEntry key entry now =>
    rw [run, SessionManager.appendTranscriptEntry, hutf8 rfl]
    cases m.store.lookup (normalized key) with
    | none => exact .untouched rfl rfl
    | some info => exact saved_saveStore_map _ _ _
  | deleteSession key =>
    rw [run, SessionManager.deleteSession]
    cases m.store.lookup (normalized key) with
    | none => exact .untouched rfl rfl
    | some info => exact saved_saveStore _ _
  | updateDisplayName key name =>
    rw [run, SessionManager.updateDisplayName]
    cases m.store.lookup (normalized key) with
    | none => exact .untouched rfl rfl
    | some info => exact saved_saveStore _ _
  | resetSession key sid now later =>
    rw [run, SessionManager.resetSession]
    cases m.store.lookup (normalized key) with
    | none => exact .untouched rfl rfl
    | some info => exact saved_saveStore _ _
  | incrementCompactionCount key =>
    rw [run, SessionManager.incrementCompactionCount, countCompaction]
    cases m.store.lookup (normalized key) with
    | none => exact .untouched rfl rfl
    | some info => exact saved_saveStore _ _

theorem indexFile_run_iff {m : SessionManager} (hthrow : (op.run m).2 = none) :
    (op.run m).1.indexFile = m.indexFile ↔ op.LineFails ∨ m.indexFile = some (.bytes []) := by
  by_cases hline : op.LineFails
  · exact iff_of_true (run_of_lineFails m hline).2 (.inl hline)
  · have hsaved := saved_run m hline
    rw [hthrow] at hsaved
    cases hsaved with
    | failed hindex _ => rw [hindex, or_iff_right hline, eq_comm]

end StoreOp

/-! ## The display name of a session -/

/-- The display name that `execute_agent_request` gives a session: the first 50 bytes of the
message. -/
def displayName (message : String) : String := String.ofList (message.toList.take 50)

theorem isUtf8_displayName_iff {message : String} (h : Text.validUtf8 message) :
    (Json.str (displayName message)).isUtf8 ↔
      ∀ c ∈ message.toList[50]?, Text.isContinuation c = false := by
  rw [Json.isUtf8, Text.validUtf8, displayName, String.toList_ofList]
  exact Text.utf8From_take_iff 50 (by simp) h

/-! ## A failing save -/

/-- **The index after a failing save.**  An operation that throws leaves `sessions.json` as it
was exactly when it threw before it saved, or the file was there and empty; and the display name
of a UTF-8 message can be serialized exactly when no character of the message goes on after its
first 50 bytes. -/
theorem index_survives_iff {m : SessionManager} {op : StoreOp} (hthrow : (op.run m).2 = none)
    {message : String} (hmessage : Text.validUtf8 message) :
    ((op.run m).1.indexFile = m.indexFile ↔ op.LineFails ∨ m.indexFile = some (.bytes [])) ∧
      ((Json.str (displayName message)).isUtf8 ↔
        ∀ c ∈ message.toList[50]?, Text.isContinuation c = false) :=
  ⟨StoreOp.indexFile_run_iff hthrow, isUtf8_displayName_iff hmessage⟩

def longMessage : String :=
  String.ofList (List.replicate 49 'a' ++ [⟨0xC3, by decide⟩, ⟨0xA9, by decide⟩])

/-- A manager with one session and the given index file. -/
def oneSession (indexFile : Option IndexText) : SessionManager where
  sessionsDir := ""
  store := AList.insert "agent:main:main"
    (SessionManager.newSession "agent:main:main" "" "cli" "0" .empty) ∅
  indexFile := indexFile
  transcripts := ∅

/-- The session of that manager is renamed to the start of the message. -/
def renameOp : StoreOp := .updateDisplayName "agent:main:main" (displayName longMessage)

/-- An index file that is empty stays so. -/
theorem index_survives_iff_empty :
    (renameOp.run (oneSession (some (.bytes [])))).1.indexFile = some (.bytes []) ∧
      ¬ (Json.str (displayName longMessage)).isUtf8 := by
  have hthrow : (renameOp.run (oneSession (some (.bytes [])))).2 = none := by decide +kernel
  have hmessage : Text.validUtf8 longMessage := by decide +kernel
  obtain ⟨hindex, hname⟩ := index_survives_iff hthrow hmessage
  have hcut : longMessage.toList[50]? = some ⟨0xA9, by decide⟩ := by decide +kernel
  exact ⟨hindex.2 (.inr rfl), hname.not.2 fun hstays => absurd (hstays _ hcut) (by decide)⟩

/-- The name that a message gives its session need not be UTF-8, and renaming a session to it
leaves an empty index file. -/
theorem not_index_survives :
    (¬ ∀ (m : SessionManager) (op : StoreOp), (op.run m).2 = none →
        (op.run m).1.indexFile = m.indexFile) ∧
      ¬ ∀ message : String, Text.validUtf8 message → (Json.str (displayName message)).isUtf8 := by
  constructor
  · rintro h
    have hthrow : (renameOp.run (oneSession none)).2 = none := by decide +kernel
    rcases (StoreOp.indexFile_run_iff hthrow).1 (h _ _ hthrow) with ⟨line, hline, -⟩ | hempty
    · cases hline
    · cases hempty
  · rintro h
    have hcut := h longMessage (by decide)
    revert hcut
    decide

end RavBot.Session
