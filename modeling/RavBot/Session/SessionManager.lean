import RavBot.Session.SessionKey
import RavBot.Session.SessionMessage
import RavBot.Lib.Table

/-!
# The session manager

`SessionManager` keeps a table of sessions by their normalized keys, saves it as a JSON file,
and keeps the messages of each session in a transcript file.  The files are part of the state
here, and opening a file always succeeds.  An operation returns the state it leaves behind
with its result; the result is `none` when the operation throws, which `dump` does when a
string is not UTF-8.

Every operation normalizes the key it is given, and `AppendMessage` with a text does so twice.
So a message gets to the session of its key when the key is one on which normalizing is
idempotent (`appendsToSession_iff`).
-/

namespace RavBot.Session

open RavBot.Lib RavBot.Core

/-- `NormalizeSessionKey` on strings. -/
def normalized (key : String) : String := String.ofList (normalizeSessionKey key.toList)

/-- What `get_timestamp` returns, a text of ASCII characters. -/
structure Timestamp where
  text : String
  ascii : ∀ c ∈ text.toList, c.toNat < 128

def Timestamp.empty : Timestamp := ⟨"", nofun⟩

structure SessionInfo where
  sessionKey : String
  sessionId : String
  updatedAt : String
  createdAt : String
  displayName : String
  channel : String
  compactionCount : Int
  deriving Repr

/-- The entry of a session in the index file. -/
def SessionInfo.toJson (info : SessionInfo) : Json :=
  Json.object
    [("sessionId", .str info.sessionId), ("updatedAt", .str info.updatedAt),
      ("createdAt", .str info.createdAt), ("displayName", .str info.displayName),
      ("channel", .str info.channel), ("compactionCount", .int info.compactionCount)]

structure SessionHandle where
  sessionKey : String
  sessionId : String
  transcriptPath : String
  deriving Repr

inductive IndexText where
  /-- A text that parses, to the given value. -/
  | json (j : Json)
  /-- Bytes that do not parse. -/
  | bytes (bytes : List Char)

/-- `SessionManager` and its files.  `indexFile` is the file `sessions.json`, which may be
missing.  A line of a transcript is `none` when it does not parse. -/
structure SessionManager where
  sessionsDir : String
  store : Table String SessionInfo
  indexFile : Option IndexText
  transcripts : Table String (List (Option Json))

namespace SessionManager

def transcriptPath (m : SessionManager) (sessionId : String) : String :=
  m.sessionsDir ++ "/" ++ sessionId ++ ".jsonl"

/-- The lines in the transcript of a session id; none when there is no such file. -/
def transcript (m : SessionManager) (sessionId : String) : List (Option Json) :=
  (m.transcripts.lookup (m.transcriptPath sessionId)).getD []

/-- The JSON object that `SaveStore` writes. -/
def storeJson (m : SessionManager) : Json :=
  Json.object (m.store.entries.map fun e => (e.1, e.2.toJson))

/-- `SaveStore`.  Opening the file truncates it, before `dump` may throw. -/
def saveStore (m : SessionManager) : SessionManager × Option Unit :=
  match m.storeJson.dump with
  | some text => ({ m with indexFile := some (.json text) }, some ())
  | none => ({ m with indexFile := some (.bytes []) }, none)

/-- The session that `GetOrCreate` makes for a normalized key. -/
def newSession (key displayName channel sid : String) (now : Timestamp) : SessionInfo where
  sessionKey := key
  sessionId := sid
  updatedAt := now.text
  createdAt := now.text
  displayName := if displayName = "" then key else displayName
  channel := channel
  compactionCount := 0

/-- `GetOrCreate`, with the session id and the time that a new session gets. -/
def getOrCreate (m : SessionManager) (key displayName channel sid : String) (now : Timestamp) :
    SessionManager × Option SessionHandle :=
  match m.store.lookup (normalized key) with
  | some info =>
    (m, some ⟨normalized key, info.sessionId, m.transcriptPath info.sessionId⟩)
  | none =>
    let info := newSession (normalized key) displayName channel sid now
    let (m, saved) := saveStore { m with store := m.store.insert (normalized key) info }
    (m, saved.map fun _ => ⟨normalized key, sid, m.transcriptPath sid⟩)

/-- `AppendMessage` with a message.  Opening the transcript creates it, before `dump` may
throw. -/
def appendMessage (m : SessionManager) (key : String) (msg : SessionMessage) (now : Timestamp) :
    SessionManager × Option Unit :=
  match m.store.lookup (normalized key) with
  | none => (m, some ())
  | some info =>
    let path := m.transcriptPath info.sessionId
    let lines := m.transcript info.sessionId
    match msg.toJsonl.dump with
    | none => ({ m with transcripts := m.transcripts.insert path lines }, none)
    | some line =>
      saveStore
        { m with
          transcripts := m.transcripts.insert path (lines ++ [some line])
          store := m.store.insert (normalized key) { info with updatedAt := now.text } }

/-- `AppendMessage` with a role and a text.  It normalizes the key before it calls the other
one.  The message is made at the time `now` and the session is updated at `later`. -/
def appendText (m : SessionManager) (key role text : String) (usage : Option UsageInfo)
    (now later : Timestamp) : SessionManager × Option Unit :=
  m.appendMessage (normalized key) ⟨role, [ContentBlock.makeText text], now.text, usage⟩ later

def getHistory (m : SessionManager) (key : String) (maxMessages : Int) : List SessionMessage :=
  match m.store.lookup (normalized key) with
  | none => []
  | some info =>
    let messages := (m.transcript info.sessionId).filterMap SessionMessage.readLine
    if 0 < maxMessages ∧ maxMessages < Json.toInt32 messages.length then
      messages.drop (messages.length - maxMessages.toNat)
    else messages

/-! ## What the operations do -/

theorem saveStore_fst (m : SessionManager) :
    ∃ file, m.saveStore.1 = { m with indexFile := file } := by
  rw [saveStore]
  split
  · exact ⟨_, rfl⟩
  · exact ⟨_, rfl⟩

@[simp] theorem saveStore_store (m : SessionManager) : m.saveStore.1.store = m.store := by
  obtain ⟨file, hfile⟩ := saveStore_fst m
  rw [hfile]

@[simp] theorem getHistory_saveStore (m : SessionManager) (key : String) (n : Int) :
    m.saveStore.1.getHistory key n = m.getHistory key n := by
  obtain ⟨file, hfile⟩ := saveStore_fst m
  rw [hfile]
  rfl

variable {m : SessionManager} {info : SessionInfo}

theorem getHistory_of_lookup {key : String}
    (h : m.store.lookup (normalized key) = some info) :
    m.getHistory key (-1) =
      (m.transcript info.sessionId).filterMap SessionMessage.readLine := by
  rw [getHistory, h]
  rfl

variable {now : Timestamp}

theorem getOrCreate_some {m' : SessionManager} {key displayName channel sid : String} {handle : SessionHandle}
    (h : m.getOrCreate key displayName channel sid now = (m', some handle)) :
    handle.sessionKey = normalized key ∧
      ∃ info, m'.store.lookup (normalized key) = some info ∧ info.sessionId = handle.sessionId := by
  rw [getOrCreate] at h
  cases hlookup : m.store.lookup (normalized key) with
  | some info =>
    rw [hlookup] at h
    cases h
    exact ⟨rfl, info, hlookup, rfl⟩
  | none =>
    rw [hlookup] at h
    obtain ⟨hm', hhandle⟩ := Prod.ext_iff.1 h
    obtain ⟨-, -, rfl⟩ := Option.map_eq_some_iff.1 hhandle
    obtain rfl := hm'
    exact ⟨rfl, newSession (normalized key) displayName channel sid now, by simp, rfl⟩

theorem getHistory_appendMessage {key key' : String}
    {msg : SessionMessage}
    (hlookup : m.store.lookup (normalized key) = some info)
    (hkey : normalized key' = normalized key) (hutf8 : msg.toJsonl.isUtf8 = true) :
    (m.appendMessage key' msg now).1.getHistory key (-1) =
      m.getHistory key (-1) ++ [msg.readBack] := by
  have hdump : msg.toJsonl.dump = some msg.toJsonl := if_pos hutf8
  rw [appendMessage, hkey, hlookup]
  simp only [hdump]
  refine (getHistory_saveStore _ _ _).trans ?_
  refine (getHistory_of_lookup (AList.lookup_insert _)).trans ?_
  rw [getHistory_of_lookup hlookup]
  simp [transcript, transcriptPath, SessionMessage.readLine_toJsonl]

theorem getHistory_appendMessage_ofText {key key' : String} {role text : String} {later : Timestamp}
    (hlookup : m.store.lookup (normalized key) = some info)
    (hkey : normalized key' = normalized key) (hrole : Text.validUtf8 role)
    (htext : Text.validUtf8 text) :
    (m.appendMessage key' (.ofText role text now.text) later).1.getHistory key (-1) =
      m.getHistory key (-1) ++ [.ofText role text now.text] := by
  rw [getHistory_appendMessage hlookup hkey, SessionMessage.readBack_ofText]
  rw [SessionMessage.isUtf8_ofText, hrole, htext, Text.validUtf8_of_ascii now.ascii]
  rfl

theorem getHistory_appendMessage_of_not_utf8 {msg : SessionMessage}
    (h : msg.toJsonl.isUtf8 = false) (key key' : String) (n : Int) (later : Timestamp) :
    (m.appendMessage key msg later).1.getHistory key' n = m.getHistory key' n := by
  have hdump : msg.toJsonl.dump = none := by
    rw [Json.dump, h]
    rfl
  rw [appendMessage]
  cases hlookup : m.store.lookup (normalized key) with
  | none => rfl
  | some info =>
    simp only [hdump]
    -- opening the file has created it, without a line
    have hsame : ∀ sid, transcript { m with
        transcripts := m.transcripts.insert (m.transcriptPath info.sessionId)
          (m.transcript info.sessionId) } sid = m.transcript sid := by
      intro sid
      simp only [transcript, transcriptPath, Table.lookup_insert_ite]
      split_ifs with hpath
      · rw [hpath]
        rfl
      · rfl
    simp only [getHistory, hsame]

/-! ## Messages get to the session of their key -/

theorem normalized_idem_iff (key : String) :
    normalized (normalized key) = normalized key ↔ StableKey key.toList := by
  rw [← normalizeSessionKey_idem_iff, normalized, normalized, String.toList_ofList,
    String.ofList_inj]

/-- Normalizing the key is idempotent, and after `GetOrCreate` a text message that is appended
under the key, or under the one in the handle, comes last in the history of the key. -/
def AppendsToSession (key role text : String) : Prop :=
  normalized (normalized key) = normalized key ∧
    ∀ (m m' : SessionManager) (displayName channel sid : String) (created now later : Timestamp)
      (handle : SessionHandle),
      m.getOrCreate key displayName channel sid created = (m', some handle) →
        (m'.appendText key role text none now later).1.getHistory key (-1) =
          m'.getHistory key (-1) ++ [.ofText role text now.text] ∧
        (m'.appendText handle.sessionKey role text none now later).1.getHistory key (-1) =
          m'.getHistory key (-1) ++ [.ofText role text now.text] ∧
        (m'.appendMessage handle.sessionKey (.ofText role text now.text) later).1.getHistory
            key (-1) =
          m'.getHistory key (-1) ++ [.ofText role text now.text]

/-- **Messages get to the session of their key** exactly when the key is one on which
normalizing is idempotent and the role and the text are UTF-8. -/
theorem appendsToSession_iff (key role text : String) :
    AppendsToSession key role text ↔
      StableKey key.toList ∧ Text.validUtf8 role ∧ Text.validUtf8 text := by
  rw [← normalized_idem_iff]
  constructor
  · rintro ⟨hidem, happend⟩
    -- a manager that has the session, so that `GetOrCreate` returns
    let m : SessionManager :=
      { sessionsDir := "", indexFile := none, transcripts := ∅
        store := AList.insert (normalized key) (newSession key "" "" "" .empty) ∅ }
    have hget : m.getOrCreate key "" "" "" .empty =
        (m, some ⟨normalized key, "", m.transcriptPath ""⟩) := by
      rw [getOrCreate, show m.store.lookup (normalized key) = some _ from AList.lookup_insert _]
      rfl
    have hlast := (happend m m "" "" "" .empty .empty .empty _ hget).2.2
    by_contra hutf8
    have hfalse : (SessionMessage.ofText role text Timestamp.empty.text).toJsonl.isUtf8 = false := by
      rw [SessionMessage.isUtf8_ofText, Bool.eq_false_iff]
      rintro h
      rw [Bool.and_eq_true, Bool.and_eq_true] at h
      exact hutf8 ⟨hidem, h.1.2, h.2⟩
    rw [getHistory_appendMessage_of_not_utf8 hfalse] at hlast
    simp at hlast
  · rintro ⟨hidem, hrole, htext⟩
    refine ⟨hidem, ?_⟩
    rintro m m' displayName channel sid created now later handle hget
    obtain ⟨hhandle, info, hlookup, -⟩ := getOrCreate_some hget
    rw [hhandle]
    refine ⟨?_, ?_, ?_⟩
    · exact getHistory_appendMessage_ofText hlookup hidem hrole htext
    · exact getHistory_appendMessage_ofText hlookup (by rw [hidem, hidem]) hrole htext
    · exact getHistory_appendMessage_ofText hlookup hidem hrole htext

/-- The session of the key `foo:` is `agent:main:foo:`, and normalizing that drops the colon. -/
theorem not_appendsToSession : ¬ ∀ key role text, AppendsToSession key role text := by
  intro h
  have hidem := (h "foo:" "user" "hi").1
  revert hidem
  decide

end SessionManager

end RavBot.Session
