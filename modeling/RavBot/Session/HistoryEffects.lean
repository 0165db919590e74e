import RavBot.Session.IndexFile
import RavBot.Session.Transcript

/-!
# What the operations do to a history

For each operation that `execute_agent_request` uses: which messages the session of a key has
afterwards, whether the session is still there, and when the operation returns.
-/

namespace RavBot.Session

open RavBot.Lib RavBot.Core

namespace SessionManager

def found (m : SessionManager) (key : String) : Bool := (m.store.lookup (normalized key)).isSome

def lines (m : SessionManager) (key : String) : List (Option Json) :=
  match m.store.lookup (normalized key) with
  | none => []
  | some info => m.transcript info.sessionId

def FreshId (m : SessionManager) (sid : String) : Prop :=
  m.transcripts.lookup (m.transcriptPath sid) = none

instance (m : SessionManager) (sid : String) : Decidable (m.FreshId sid) :=
  decidable_of_iff (m.transcripts.lookup (m.transcriptPath sid)).isNone Option.isNone_iff_eq_none

/-- The manager after `ResetSession` has archived the transcript of the session. -/
def archived (m : SessionManager) (key : String) (now : Timestamp) : SessionManager :=
  match m.store.lookup (normalized key) with
  | none => m
  | some info =>
    m.renameTranscript (m.transcriptPath info.sessionId)
      (m.transcriptPath info.sessionId ++ ".reset." ++ now.text)

/-- What `AppendMessage` adds to the history of a key. -/
def persisted (m : SessionManager) (key : String) (msg : SessionMessage) : List SessionMessage :=
  if m.found key ∧ msg.toJsonl.isUtf8 then [msg.readBack] else []

theorem getHistory_eq_lines (m : SessionManager) (key : String) :
    m.getHistory key (-1) = (m.lines key).filterMap SessionMessage.readLine := by
  rw [lines]
  cases hlookup : m.store.lookup (normalized key) with
  | none =>
    rw [getHistory, hlookup]
    rfl
  | some info => exact getHistory_of_lookup hlookup

variable {m : SessionManager} {key sid : String}

variable {m' : SessionManager}

theorem lines_congr (hdir : m'.sessionsDir = m.sessionsDir)
    (htranscripts : m'.transcripts = m.transcripts)
    (hid : (m'.store.lookup (normalized key)).map (·.sessionId) =
      (m.store.lookup (normalized key)).map (·.sessionId)) : m'.lines key = m.lines key := by
  rw [lines, lines]
  cases h : m.store.lookup (normalized key) with
  | none =>
    rw [h] at hid
    rw [Option.map_eq_none_iff.1 hid]
  | some info =>
    rw [h] at hid
    obtain ⟨info', hinfo', heq⟩ := Option.map_eq_some_iff.1 hid
    have hpath : m'.transcriptPath info'.sessionId = m.transcriptPath info.sessionId := by
      rw [transcriptPath, transcriptPath, heq, hdir]
    rw [hinfo']
    dsimp only
    rw [transcript, transcript, hpath, htranscripts]

@[simp] theorem lines_saveStore (m : SessionManager) (key : String) :
    m.saveStore.1.lines key = m.lines key := by
  obtain ⟨file, hfile⟩ := saveStore_fst m
  rw [hfile]
  rfl

@[simp] theorem found_saveStore (m : SessionManager) (key : String) :
    m.saveStore.1.found key = m.found key := by rw [found, saveStore_store, found]

/-! ## Histories -/

theorem getHistory_appendMessage_eq (m : SessionManager) {key' : String}
    (hkey : normalized key' = normalized key) (msg : SessionMessage) (now : Timestamp) :
    (m.appendMessage key' msg now).1.getHistory key (-1) =
      m.getHistory key (-1) ++ m.persisted key' msg := by
  rw [persisted, found, hkey]
  cases hutf8 : msg.toJsonl.isUtf8 with
  | false =>
    rw [getHistory_appendMessage_of_not_utf8 hutf8, if_neg (by simp), List.append_nil]
  | true =>
    cases hlookup : m.store.lookup (normalized key) with
    | none =>
      rw [appendMessage, hkey, hlookup, if_neg (by simp), List.append_nil]
    | some info =>
      rw [getHistory_appendMessage hlookup hkey hutf8, if_pos ⟨rfl, rfl⟩]

theorem getHistory_updateDisplayName (m : SessionManager) (key key' name : String) :
    (m.updateDisplayName key' name).1.getHistory key (-1) = m.getHistory key (-1) := by
  rw [getHistory_eq_lines, getHistory_eq_lines, updateDisplayName]
  cases hlookup : m.store.lookup (normalized key') with
  | none => rfl
  | some info =>
    dsimp only
    rw [lines_saveStore]
    refine congrArg _ (lines_congr rfl rfl ?_)
    rw [Table.lookup_insert_ite]
    split_ifs with hkey
    · rw [hkey, hlookup]
      rfl
    · rfl

theorem getHistory_getOrCreate (m : SessionManager) (key displayName channel : String) (now : Timestamp) (hfresh : m.FreshId sid) :
    (m.getOrCreate key displayName channel sid now).1.getHistory key (-1) =
      m.getHistory key (-1) := by
  rw [getHistory_eq_lines, getHistory_eq_lines, getOrCreate]
  cases hlookup : m.store.lookup (normalized key) with
  | some info => rfl
  | none =>
    have hnil : m.lines key = [] := by rw [lines, hlookup]
    dsimp only
    rw [lines_saveStore, hnil, lines]
    dsimp only
    rw [AList.lookup_insert]
    exact congrArg (fun o => List.filterMap SessionMessage.readLine (Option.getD o [])) hfresh

theorem getHistory_resetSession (m : SessionManager) (key : String)
    {now : Timestamp} (later : Timestamp) (hfresh : (m.archived key now).FreshId sid) :
    (m.resetSession key sid now later).1.getHistory key (-1) = [] := by
  rw [getHistory_eq_lines, resetSession]
  rw [archived] at hfresh
  cases hlookup : m.store.lookup (normalized key) with
  | none =>
    rw [lines]
    dsimp only
    rw [hlookup]
    rfl
  | some info =>
    rw [hlookup] at hfresh
    dsimp only at hfresh ⊢
    rw [lines_saveStore, lines]
    dsimp only
    rw [AList.lookup_insert]
    exact congrArg (fun o => List.filterMap SessionMessage.readLine (Option.getD o [])) hfresh

/-! ## Sessions -/

theorem found_getOrCreate (m : SessionManager) (key displayName channel sid : String)
    (now : Timestamp) : (m.getOrCreate key displayName channel sid now).1.found key = true := by
  rw [getOrCreate]
  cases hlookup : m.store.lookup (normalized key) with
  | some info => exact Option.isSome_iff_exists.2 ⟨info, hlookup⟩
  | none =>
    dsimp only
    rw [found_saveStore, found, AList.lookup_insert]
    rfl

theorem found_insert {k : String} {info : SessionInfo}
    (hstore : m'.store = m.store.insert k info) (h : m.found key = true) :
    m'.found key = true := by
  rw [found, hstore, Table.lookup_insert_ite]
  split_ifs
  · rfl
  · exact h

theorem found_updateDisplayName (h : m.found key = true)
    (key' name : String) : (m.updateDisplayName key' name).1.found key = true := by
  rw [updateDisplayName]
  split
  · exact h
  · rw [found_saveStore]
    exact found_insert rfl h

theorem found_appendMessage (h : m.found key = true)
    (key' : String) (msg : SessionMessage) (now : Timestamp) :
    (m.appendMessage key' msg now).1.found key = true := by
  obtain ⟨info, hlookup⟩ := Option.isSome_iff_exists.1 h
  exact Option.isSome_iff_exists.2 (lookup_appendMessage hlookup key' msg now)

theorem store_renameTranscript (m : SessionManager) (path archive : String) :
    (m.renameTranscript path archive).store = m.store := by
  rw [renameTranscript]
  cases m.transcripts.lookup path <;> rfl

theorem found_resetSession (h : m.found key = true)
    (key' sid : String) (now later : Timestamp) :
    (m.resetSession key' sid now later).1.found key = true := by
  rw [resetSession]
  split
  · exact h
  · rw [found_saveStore]
    exact found_insert (congrArg (AList.insert _ _) (store_renameTranscript m _ _)) h

/-! ## Returning -/

theorem isUtf8_storeJson (m : SessionManager) :
    m.storeJson.isUtf8 = true ↔
      ∀ key info, m.store.lookup key = some info →
        Text.validUtf8 key ∧ info.toJson.isUtf8 = true := by
  have hkeys : ((m.store.entries.map fun e => (e.1, e.2.toJson)).map Prod.fst).Nodup := by
    rw [List.map_map]
    exact m.store.nodupKeys
  rw [storeJson, Json.isUtf8_object hkeys, List.all_map, List.all_eq_true]
  constructor
  · rintro h key info hlookup
    have hentry := h ⟨key, info⟩ (AList.mem_lookup_iff.1 hlookup)
    simpa using hentry
  · rintro h ⟨key, info⟩ hmem
    have hentry := h key info (AList.mem_lookup_iff.2 hmem)
    simpa using hentry

theorem isUtf8_toJson (info : SessionInfo) :
    info.toJson.isUtf8 =
      (Text.validUtf8 info.sessionId && Text.validUtf8 info.updatedAt &&
        Text.validUtf8 info.createdAt && Text.validUtf8 info.displayName &&
          Text.validUtf8 info.channel) := by
  have hkeys : ∀ s ∈ ["sessionId", "updatedAt", "createdAt", "displayName", "channel",
      "compactionCount"], Text.validUtf8 s := by
    decide
  simp only [List.forall_mem_cons] at hkeys
  obtain ⟨hid, hupdated, hcreated, hname, hchannel, hcount, -⟩ := hkeys
  rw [SessionInfo.toJson, Json.isUtf8_object (by simp)]
  simp [Json.isUtf8, hid, hupdated, hcreated, hname, hchannel, hcount, Bool.and_assoc]

theorem saveStore_snd_of_insert {info info' : SessionInfo}
    (hutf8 : m.storeJson.isUtf8 = true) (hlookup : m.store.lookup key = some info)
    (hstore : m'.store = m.store.insert key info')
    (hinfo : info.toJson.isUtf8 = true → info'.toJson.isUtf8 = true) :
    m'.saveStore.2 = some () := by
  rw [isUtf8_storeJson] at hutf8
  have hjson : m'.storeJson.isUtf8 = true := by
    rw [isUtf8_storeJson]
    rintro k i hki
    rw [hstore, Table.lookup_insert_ite] at hki
    split_ifs at hki with hkey
    · cases hki
      rw [hkey]
      exact ⟨(hutf8 key info hlookup).1, hinfo (hutf8 key info hlookup).2⟩
    · exact hutf8 k i hki
  rw [saveStore, Json.dump, if_pos hjson]

theorem appendMessage_snd (hutf8 : m.storeJson.isUtf8 = true) (key : String)
    {msg : SessionMessage} (hmsg : msg.toJsonl.isUtf8 = true) (now : Timestamp) :
    (m.appendMessage key msg now).2 = some () := by
  rw [appendMessage]
  cases hlookup : m.store.lookup (normalized key) with
  | none => rfl
  | some info =>
    have hdump : msg.toJsonl.dump = some msg.toJsonl := if_pos hmsg
    simp only [hdump]
    refine saveStore_snd_of_insert hutf8 hlookup rfl ?_
    rw [isUtf8_toJson, isUtf8_toJson, Text.validUtf8_of_ascii now.ascii]
    simp only [Bool.and_eq_true]
    rintro ⟨⟨⟨⟨hid, -⟩, hcreated⟩, hname⟩, hchannel⟩
    exact ⟨⟨⟨⟨hid, trivial⟩, hcreated⟩, hname⟩, hchannel⟩

theorem appendMessage_snd_of_not_utf8 (h : m.found key = true)
    {msg : SessionMessage} (hmsg : msg.toJsonl.isUtf8 = false) (now : Timestamp) :
    (m.appendMessage key msg now).2 = none := by
  obtain ⟨info, hlookup⟩ := Option.isSome_iff_exists.1 h
  rw [appendMessage, hlookup, Json.dump, hmsg]
  rfl

theorem resetSession_snd (hutf8 : m.storeJson.isUtf8 = true) (key : String) (hsid : Text.validUtf8 sid) (now later : Timestamp) :
    (m.resetSession key sid now later).2 = some () := by
  rw [resetSession]
  cases hlookup : m.store.lookup (normalized key) with
  | none => rfl
  | some info =>
    refine saveStore_snd_of_insert hutf8 hlookup
      (congrArg (AList.insert _ _) (store_renameTranscript m _ _)) ?_
    rw [isUtf8_toJson, isUtf8_toJson, hsid, Text.validUtf8_of_ascii later.ascii]
    simp only [Bool.and_eq_true]
    rintro ⟨⟨⟨⟨-, -⟩, hcreated⟩, hname⟩, hchannel⟩
    exact ⟨⟨⟨⟨trivial, trivial⟩, hcreated⟩, hname⟩, hchannel⟩

end SessionManager

end RavBot.Session
