import RavBot.Lib.IsoTime
import RavBot.Session.IndexSweep

/-!
# The audit log

`LogEntry` appends a line to the file of the day, with the time of the entry to the second, and `Export` and `Query`
read the files of all days.  They compare the times that they read with the interval, so that an entry of the second in
which the interval begins is missed, and one of the second in which it ends is returned though it comes later.
`queries_complete_iff` says for which intervals the queries return the entries that were logged in them.
-/

namespace RavBot.Security

open RavBot.Lib
open scoped List

/-! ## Entries -/

inductive AuditEventType where
  | contentWrapping
  | markerSanitization
  | dangerousToolCall
  | authFailure
  | policyChange
  | accessDenied
  | suspiciousActivity
  deriving DecidableEq, Repr

def auditEventTypeToString : AuditEventType → String
  | .contentWrapping => "content_wrapping"
  | .markerSanitization => "marker_sanitization"
  | .dangerousToolCall => "dangerous_tool_call"
  | .authFailure => "auth_failure"
  | .policyChange => "policy_change"
  | .accessDenied => "access_denied"
  | .suspiciousActivity => "suspicious_activity"

def stringToAuditEventType (str : String) : AuditEventType :=
  if str = "content_wrapping" then .contentWrapping
  else if str = "marker_sanitization" then .markerSanitization
  else if str = "dangerous_tool_call" then .dangerousToolCall
  else if str = "auth_failure" then .authFailure
  else if str = "policy_change" then .policyChange
  else if str = "access_denied" then .accessDenied
  else if str = "suspicious_activity" then .suspiciousActivity
  else .contentWrapping

/-- A reading of the system clock: nanoseconds since 1970, in 64 bits. -/
structure ClockTime where
  nanoseconds : Int
  lower : -2 ^ 63 ≤ nanoseconds
  upper : nanoseconds < 2 ^ 63

def toTimeT (time : Int) : Int := time.tdiv (10 ^ 9)

def fromTimeT (seconds : Int) : Int := seconds * 10 ^ 9

structure AuditEntry where
  id : String
  eventType : AuditEventType
  timestamp : Int
  userId : String
  sessionId : String
  source : String
  action : String
  details : Json
  severity : String

namespace AuditEntry

def toJson (e : AuditEntry) : Json :=
  Json.object
    [("id", .str e.id), ("event_type", .str (auditEventTypeToString e.eventType)),
      ("timestamp", .str (String.ofList (IsoTime.putTime (toTimeT e.timestamp)))), ("user_id", .str e.userId),
      ("session_id", .str e.sessionId), ("source", .str e.source), ("action", .str e.action), ("details", e.details),
      ("severity", .str e.severity)]

/-- The time that a text says, or that of the clock. -/
def readTimestamp (now : Int) (text : String) : Int :=
  if text = "" then now
  else
    match IsoTime.getTime text.toList with
    | some tm => fromTimeT tm.toTime
    | none => now

def fromJson (now : Int) (j : Json) : Option AuditEntry := do
  let id ← j.value Json.getString "id" ""
  let eventType ← j.value Json.getString "event_type" ""
  let timestamp ← j.value Json.getString "timestamp" ""
  let userId ← j.value Json.getString "user_id" ""
  let sessionId ← j.value Json.getString "session_id" ""
  let source ← j.value Json.getString "source" ""
  let action ← j.value Json.getString "action" ""
  let details ← j.value some "details" (.obj [])
  let severity ← j.value Json.getString "severity" "info"
  some { id, eventType := stringToAuditEventType eventType, timestamp := readTimestamp now timestamp, userId, sessionId,
         source, action, details, severity }

/-- The entry with its time to the second, as the log keeps it. -/
def toSecond (e : AuditEntry) : AuditEntry := { e with timestamp := fromTimeT (toTimeT e.timestamp) }

/-- The strings of an entry are UTF-8. -/
structure IsUtf8 (e : AuditEntry) : Prop where
  id : Text.validUtf8 e.id
  userId : Text.validUtf8 e.userId
  sessionId : Text.validUtf8 e.sessionId
  source : Text.validUtf8 e.source
  action : Text.validUtf8 e.action
  details : e.details.isUtf8
  severity : Text.validUtf8 e.severity

end AuditEntry

/-! ## Events -/

/-- A call of one of the functions that log an entry. -/
inductive AuditEvent where
  | contentWrapping (userId sessionId toolName url : String) (contentSize : BitVec 64)
  | markerSanitization (userId sessionId source : String) (markersRemoved : BitVec 32)
  | dangerousToolCall (userId sessionId toolName : String) (parameters : Json) (approved : Bool)
  | authFailure (userId source reason : String)
  | policyChange (userId policyName : String) (oldValue newValue : Json)
  | accessDenied (userId sessionId resource reason : String)
  | suspiciousActivity (userId sessionId description : String) (evidence : Json)

namespace AuditEvent

/-- The entry that the call logs. -/
def entry (id : String) (timestamp : Int) : AuditEvent → AuditEntry
  | contentWrapping userId sessionId toolName url contentSize =>
    { id, eventType := .contentWrapping, timestamp, userId, sessionId, source := toolName
      action := "wrap_external_content"
      details := .object [("tool_name", .str toolName), ("url", .str url), ("content_size", .int contentSize.toNat)]
      severity := "info" }
  | markerSanitization userId sessionId source markersRemoved =>
    { id, eventType := .markerSanitization, timestamp, userId, sessionId, source
      action := "sanitize_boundary_markers"
      details := .object [("markers_removed", .int markersRemoved.toInt)]
      severity := if 0 < markersRemoved.toInt then "warning" else "info" }
  | dangerousToolCall userId sessionId toolName parameters approved =>
    { id, eventType := .dangerousToolCall, timestamp, userId, sessionId, source := "tool_execution"
      action := "call_dangerous_tool"
      details := .object [("tool_name", .str toolName), ("parameters", parameters), ("approved", .bool approved)]
      severity := if approved then "warning" else "error" }
  | authFailure userId source reason =>
    { id, eventType := .authFailure, timestamp, userId, sessionId := "", source
      action := "authentication_failed"
      details := .object [("reason", .str reason)]
      severity := "error" }
  | policyChange userId policyName oldValue newValue =>
    { id, eventType := .policyChange, timestamp, userId, sessionId := "", source := "policy_manager"
      action := "change_policy"
      details := .object [("policy_name", .str policyName), ("old_value", oldValue), ("new_value", newValue)]
      severity := "warning" }
  | accessDenied userId sessionId resource reason =>
    { id, eventType := .accessDenied, timestamp, userId, sessionId, source := "access_control"
      action := "deny_access"
      details := .object [("resource", .str resource), ("reason", .str reason)]
      severity := "warning" }
  | suspiciousActivity userId sessionId description evidence =>
    { id, eventType := .suspiciousActivity, timestamp, userId, sessionId, source := "security_monitor"
      action := "detect_suspicious_activity"
      details := .object [("description", .str description), ("evidence", evidence)]
      severity := "critical" }

/-- The strings of a call. -/
def texts : AuditEvent → List String
  | contentWrapping userId sessionId toolName url _ => [userId, sessionId, toolName, url]
  | markerSanitization userId sessionId source _ => [userId, sessionId, source]
  | dangerousToolCall userId sessionId toolName _ _ => [userId, sessionId, toolName]
  | authFailure userId source reason => [userId, source, reason]
  | policyChange userId policyName _ _ => [userId, policyName]
  | accessDenied userId sessionId resource reason => [userId, sessionId, resource, reason]
  | suspiciousActivity userId sessionId description _ => [userId, sessionId, description]

/-- The JSON values of a call. -/
def values : AuditEvent → List Json
  | dangerousToolCall _ _ _ parameters _ => [parameters]
  | policyChange _ _ oldValue newValue => [oldValue, newValue]
  | suspiciousActivity _ _ _ evidence => [evidence]
  | _ => []

/-- The strings of a call are UTF-8. -/
structure IsUtf8 (event : AuditEvent) : Prop where
  texts : ∀ s ∈ event.texts, Text.validUtf8 s = true
  values : ∀ j ∈ event.values, j.isUtf8 = true

end AuditEvent

/-- `GenerateId`, from the number that is drawn. -/
def generateId (drawn : BitVec 64) : String := String.ofList (List.leftpad 16 '0' (Nat.toDigits 16 drawn.toNat))

/-- A call that logs an entry: the number that is drawn for the id, the time of the entry, and that of the file. -/
structure LogCall where
  event : AuditEvent
  drawn : BitVec 64
  now : ClockTime
  later : ClockTime

def LogCall.entry (call : LogCall) : AuditEntry := call.event.entry (generateId call.drawn) call.now.nanoseconds

/-! ## Files -/

/-- The files of the log directory.  A line that does not parse is `none`. -/
abbrev AuditDirectory := Table String (List (Option Json))

/-- `GetLogFilePath`, without the directory. -/
def logFileName (now : Int) : String :=
  let tm := Tm.ofTime (toTimeT now)
  String.ofList (IsoTime.padded 4 (tm.tmYear + 1900) ++ '-' :: IsoTime.padded 2 (tm.tmMon + 1) ++
    '-' :: IsoTime.padded 2 tm.tmMday ++ ".jsonl".toList)

/-- `LogEntry`.  The file is opened before the entry is dumped, which may throw. -/
def logEntry (dir : AuditDirectory) (later : ClockTime) (e : AuditEntry) : AuditDirectory :=
  match e.toJson.dump with
  | some line => dir.appendTo (logFileName later.nanoseconds) [some line]
  | none => dir.appendTo (logFileName later.nanoseconds) []

def logAll (calls : List LogCall) : AuditDirectory :=
  calls.foldl (fun dir call => logEntry dir call.later call.entry) ∅

def readLogFile (now : Int) (lines : List (Option Json)) : List AuditEntry :=
  lines.filterMap fun line => line.bind (AuditEntry.fromJson now)

/-- The files of the directory in the order in which they are iterated. -/
structure AuditListing (dir : AuditDirectory) where
  files : List (Sigma fun _ : String => List (Option Json))
  perm : files.Perm dir.entries

namespace AuditListing

variable {dir : AuditDirectory} (listing : AuditListing dir) (now startTime endTime : Int)

def entries : List AuditEntry :=
  listing.files.flatMap fun file =>
    if Session.extension file.1 = ".jsonl".toList then readLogFile now file.2 else []

/-- `Export`. -/
def exportEntries (filterUserId : String) : List AuditEntry :=
  (listing.entries now).filter fun e =>
    startTime ≤ e.timestamp && e.timestamp ≤ endTime && (filterUserId = "" || e.userId = filterUserId)

def query (eventType : AuditEventType) : List AuditEntry :=
  (listing.entries now).filter fun e =>
    e.eventType = eventType && startTime ≤ e.timestamp && e.timestamp ≤ endTime

end AuditListing

/-! ## What is to hold -/

def Inside (startTime endTime : Int) (e : AuditEntry) : Prop := startTime ≤ e.timestamp ∧ e.timestamp ≤ endTime

instance (startTime endTime : Int) (e : AuditEntry) : Decidable (Inside startTime endTime e) :=
  inferInstanceAs (Decidable (_ ∧ _))

/-- The queries return the entries that were logged in the interval, in some order, with their times to the second. -/
structure QueriesComplete (calls : List LogCall) (listing : AuditListing (logAll calls))
    (now startTime endTime : Int) : Prop where
  exported : (listing.exportEntries now startTime endTime "").Perm
    (((calls.map LogCall.entry).filter fun e => Inside startTime endTime e).map AuditEntry.toSecond)
  queried (eventType : AuditEventType) : (listing.query now startTime endTime eventType).Perm
    (((calls.map LogCall.entry).filter fun e => Inside startTime endTime e ∧ e.eventType = eventType).map
      AuditEntry.toSecond)

/-- No entry changes sides at the ends of the interval when its time is cut to the second. -/
def CutInside (startTime endTime : Int) (e : AuditEntry) : Prop :=
  Inside startTime endTime e.toSecond ↔ Inside startTime endTime e

/-! ## Reading what was written -/

theorem stringToAuditEventType_toString (type : AuditEventType) :
    stringToAuditEventType (auditEventTypeToString type) = type := by
  cases type <;> rfl

theorem ClockTime.tmYear_bounds (time : ClockTime) :
    0 ≤ (Tm.ofTime (toTimeT time.nanoseconds)).tmYear + 1900 ∧
      (Tm.ofTime (toTimeT time.nanoseconds)).tmYear + 1900 ≤ 9999 := by
  have hlower := time.lower
  have hupper := time.upper
  have hdays : -106752 ≤ toTimeT time.nanoseconds / 86400 ∧ toTimeT time.nanoseconds / 86400 ≤ 106752 := by
    have hsign : Int.sign (10 ^ 9) = 1 := rfl
    rw [toTimeT, Int.tdiv_eq_ediv, hsign]
    split_ifs <;> omega
  have hlo : Date.yearStart 1600 ≤ toTimeT time.nanoseconds / 86400 + Date.epoch := by
    have hstart : Date.yearStart 1600 = 584388 := by decide
    rw [hstart, Date.epoch]
    omega
  have hhi : toTimeT time.nanoseconds / 86400 + Date.epoch < Date.yearStart 2300 := by
    have hstart : Date.yearStart 2300 = 840057 := by decide
    rw [hstart, Date.epoch]
    omega
  obtain ⟨hyear, hyear'⟩ := IsoTime.year_ofDays hlo hhi
  have htm : (Tm.ofTime (toTimeT time.nanoseconds)).tmYear =
      (Date.ofDays (toTimeT time.nanoseconds / 86400)).year - 1900 := rfl
  rw [htm]
  omega

theorem readTimestamp_putTime (now : Int) (time : ClockTime) :
    AuditEntry.readTimestamp now (String.ofList (IsoTime.putTime (toTimeT time.nanoseconds))) =
      fromTimeT (toTimeT time.nanoseconds) := by
  obtain ⟨hlo, hhi⟩ := time.tmYear_bounds
  have hread := IsoTime.toTime_getTime_putTime hlo hhi
  obtain ⟨tm, htm, htime⟩ := Option.map_eq_some_iff.1 hread
  have hne : String.ofList (IsoTime.putTime (toTimeT time.nanoseconds)) ≠ "" := by
    intro hempty
    have hnil := congrArg String.toList hempty
    rw [String.toList_ofList] at hnil
    rw [hnil] at htm
    cases htm
  rw [AuditEntry.readTimestamp, if_neg hne, String.toList_ofList, htm]
  exact congrArg fromTimeT htime

theorem fromJson_toJson_entry (now : Int) (call : LogCall) :
    AuditEntry.fromJson now call.entry.toJson = some call.entry.toSecond := by
  have htime : call.entry.timestamp = call.now.nanoseconds := by
    rw [LogCall.entry]
    cases call.event <;> rfl
  rw [AuditEntry.fromJson, AuditEntry.toJson, AuditEntry.toSecond]
  simp [List.lookup_cons, Json.getString, stringToAuditEventType_toString, htime, readTimestamp_putTime]

theorem validUtf8_generateId (drawn : BitVec 64) : Text.validUtf8 (generateId drawn) = true := by
  refine Text.validUtf8_of_ascii fun c hc => ?_
  rw [generateId, String.toList_ofList, List.leftpad, List.mem_append] at hc
  rcases hc with hc | hc
  · rw [List.eq_of_mem_replicate hc]
    decide
  · exact Text.ascii_of_mem_toDigits hc

theorem AuditEntry.IsUtf8.isUtf8_toJson {e : AuditEntry} (h : e.IsUtf8) : e.toJson.isUtf8 = true := by
  have hkeys : ["id", "event_type", "timestamp", "user_id", "session_id", "source", "action", "details",
      "severity"].all (Text.validUtf8 ·) = true := by decide
  have htype : Text.validUtf8 (auditEventTypeToString e.eventType) = true := by
    cases e.eventType <;> decide
  have htime : Text.validUtf8 (String.ofList (IsoTime.putTime (toTimeT e.timestamp))) = true := by
    refine Text.validUtf8_of_ascii fun c hc => ?_
    rw [String.toList_ofList] at hc
    exact IsoTime.ascii_of_mem_putTime hc
  rw [toJson, Json.isUtf8_object (by simp)]
  simp only [List.all_cons, List.all_nil, Bool.and_true, Bool.and_eq_true] at hkeys
  simp only [List.all_cons, List.all_nil, Bool.and_true, Json.isUtf8, hkeys, htype, htime, h.id, h.userId, h.sessionId,
    h.source, h.action, h.details, h.severity]

theorem AuditEvent.IsUtf8.entry {event : AuditEvent} (h : event.IsUtf8) {id : String} (hid : Text.validUtf8 id = true)
    (timestamp : Int) : (event.entry id timestamp).IsUtf8 := by
  obtain ⟨htexts, hvalues⟩ := h
  have hkeys : ["tool_name", "url", "content_size", "markers_removed", "parameters", "approved", "reason", "policy_name",
      "old_value", "new_value", "resource", "description", "evidence"].all (Text.validUtf8 ·) = true := by decide
  have hwords : ["", "wrap_external_content", "info", "sanitize_boundary_markers", "warning", "tool_execution",
      "call_dangerous_tool", "error", "authentication_failed", "policy_manager", "change_policy", "access_control",
      "deny_access", "security_monitor", "detect_suspicious_activity", "critical"].all (Text.validUtf8 ·) = true := by
    decide
  simp only [List.all_cons, List.all_nil, Bool.and_true, Bool.and_eq_true] at hkeys hwords
  have hdetails {fields : List (String × Json)} (hnodup : (fields.map Prod.fst).Nodup)
      (hfields : fields.all (fun f => Text.validUtf8 f.1 && f.2.isUtf8) = true) : (Json.object fields).isUtf8 = true := by
    rw [Json.isUtf8_object hnodup]
    exact hfields
  cases event with
  | contentWrapping userId sessionId toolName url contentSize =>
    simp only [AuditEvent.texts, List.forall_mem_cons] at htexts
    obtain ⟨huser, hsession, htool, hurl, -⟩ := htexts
    refine ⟨hid, huser, hsession, htool, hwords.2.1, hdetails (by simp) ?_, hwords.2.2.1⟩
    simp only [List.all_cons, List.all_nil, Bool.and_true, Json.isUtf8, hkeys, htool, hurl]
  | markerSanitization userId sessionId source markersRemoved =>
    simp only [AuditEvent.texts, List.forall_mem_cons] at htexts
    obtain ⟨huser, hsession, hsource, -⟩ := htexts
    refine ⟨hid, huser, hsession, hsource, hwords.2.2.2.1, hdetails (by simp) ?_, ?_⟩
    · simp only [List.all_cons, List.all_nil, Bool.and_true, Json.isUtf8, hkeys]
    · rw [AuditEvent.entry]
      dsimp only
      split_ifs <;> simp only [hwords]
  | dangerousToolCall userId sessionId toolName parameters approved =>
    simp only [AuditEvent.texts, AuditEvent.values, List.forall_mem_cons] at htexts hvalues
    obtain ⟨huser, hsession, htool, -⟩ := htexts
    refine ⟨hid, huser, hsession, ?_, ?_, hdetails (by simp) ?_, ?_⟩
    · simp only [AuditEvent.entry, hwords]
    · simp only [AuditEvent.entry, hwords]
    · simp only [List.all_cons, List.all_nil, Bool.and_true, Json.isUtf8, hkeys, htool, hvalues.1]
    · rw [AuditEvent.entry]
      dsimp only
      split_ifs <;> simp only [hwords]
  | authFailure userId source reason =>
    simp only [AuditEvent.texts, List.forall_mem_cons] at htexts
    obtain ⟨huser, hsource, hreason, -⟩ := htexts
    refine ⟨hid, huser, hwords.1, hsource, ?_, hdetails (by simp) ?_, ?_⟩
    · simp only [AuditEvent.entry, hwords]
    · simp only [List.all_cons, List.all_nil, Bool.and_true, Json.isUtf8, hkeys, hreason]
    · simp only [AuditEvent.entry, hwords]
  | policyChange userId policyName oldValue newValue =>
    simp only [AuditEvent.texts, AuditEvent.values, List.forall_mem_cons] at htexts hvalues
    obtain ⟨huser, hpolicy, -⟩ := htexts
    refine ⟨hid, huser, hwords.1, ?_, ?_, hdetails (by simp) ?_, ?_⟩
    · simp only [AuditEvent.entry, hwords]
    · simp only [AuditEvent.entry, hwords]
    · simp only [List.all_cons, List.all_nil, Bool.and_true, Json.isUtf8, hkeys, hpolicy, hvalues.1, hvalues.2.1]
    · simp only [AuditEvent.entry, hwords]
  | accessDenied userId sessionId resource reason =>
    simp only [AuditEvent.texts, List.forall_mem_cons] at htexts
    obtain ⟨huser, hsession, hresource, hreason, -⟩ := htexts
    refine ⟨hid, huser, hsession, ?_, ?_, hdetails (by simp) ?_, ?_⟩
    · simp only [AuditEvent.entry, hwords]
    · simp only [AuditEvent.entry, hwords]
    · simp only [List.all_cons, List.all_nil, Bool.and_true, Json.isUtf8, hkeys, hresource, hreason]
    · simp only [AuditEvent.entry, hwords]
  | suspiciousActivity userId sessionId description evidence =>
    simp only [AuditEvent.texts, AuditEvent.values, List.forall_mem_cons] at htexts hvalues
    obtain ⟨huser, hsession, hdescription, -⟩ := htexts
    refine ⟨hid, huser, hsession, ?_, ?_, hdetails (by simp) ?_, ?_⟩
    · simp only [AuditEvent.entry, hwords]
    · simp only [AuditEvent.entry, hwords]
    · simp only [List.all_cons, List.all_nil, Bool.and_true, Json.isUtf8, hkeys, hdescription, hvalues.1]
    · simp only [AuditEvent.entry, hwords]

/-! ## The files of a run -/

theorem extension_logFileName (now : Int) : Session.extension (logFileName now) = ".jsonl".toList := by
  have hname : logFileName now = String.ofList ((IsoTime.padded 4 ((Tm.ofTime (toTimeT now)).tmYear + 1900) ++
      '-' :: IsoTime.padded 2 ((Tm.ofTime (toTimeT now)).tmMon + 1) ++
        '-' :: IsoTime.padded 2 (Tm.ofTime (toTimeT now)).tmMday) ++ '.' :: "jsonl".toList) := rfl
  rw [hname]
  exact Session.extension_append (by simp) (by decide)

/-- The log has a line for every call, in files with the extension. -/
structure LogInv (calls : List LogCall) (dir : AuditDirectory) : Prop where
  names : ∀ file ∈ dir.entries, Session.extension file.1 = ".jsonl".toList
  lines : (dir.entries.flatMap Sigma.snd).Perm (calls.map fun call => some call.entry.toJson)

theorem names_appendTo {dir : AuditDirectory} (h : ∀ file ∈ dir.entries, Session.extension file.1 = ".jsonl".toList)
    (now : Int) (lines : List (Option Json)) :
    ∀ file ∈ (dir.appendTo (logFileName now) lines).entries, Session.extension file.1 = ".jsonl".toList := by
  intro file hfile
  rcases List.mem_cons.1 hfile with rfl | hfile
  · exact extension_logFileName now
  · exact h file ((List.kerase_sublist _ _).subset hfile)

variable {calls : List LogCall}

theorem LogInv.snoc {dir : AuditDirectory} (h : LogInv calls dir) {call : LogCall}
    (hcall : call.event.IsUtf8) : LogInv (calls ++ [call]) (logEntry dir call.later call.entry) := by
  have hutf8 : call.entry.toJson.isUtf8 = true :=
    (hcall.entry (validUtf8_generateId call.drawn) call.now.nanoseconds).isUtf8_toJson
  rw [logEntry, Json.dump, if_pos hutf8]
  dsimp only
  refine ⟨names_appendTo h.names _ _, ?_⟩
  rw [List.map_append, List.map_singleton]
  calc _ ~ [some call.entry.toJson] ++ dir.entries.flatMap Sigma.snd := Table.perm_flatMap_appendTo _ _ _
    _ ~ [some call.entry.toJson] ++ calls.map fun call => some call.entry.toJson := h.lines.append_left _
    _ ~ _ := List.perm_append_comm

theorem logInv_logAll (hcalls : ∀ call ∈ calls, call.event.IsUtf8) :
    LogInv calls (logAll calls) := by
  induction calls using List.reverseRecOn with
  | nil => exact ⟨List.forall_mem_nil _, List.Perm.refl _⟩
  | append_singleton calls call ih =>
    rw [logAll, List.foldl_append, List.foldl_cons, List.foldl_nil]
    have hbefore := ih fun c hc => hcalls c (List.mem_append_left _ hc)
    exact hbefore.snoc (hcalls call (by simp))

theorem perm_entries (hcalls : ∀ call ∈ calls, call.event.IsUtf8)
    (listing : AuditListing (logAll calls)) (now : Int) :
    (listing.entries now).Perm ((calls.map LogCall.entry).map AuditEntry.toSecond) := by
  obtain ⟨hnames, hlines⟩ := logInv_logAll hcalls
  have hread : listing.entries now = readLogFile now (listing.files.flatMap Sigma.snd) := by
    rw [AuditListing.entries, readLogFile, List.filterMap_flatMap]
    refine List.flatMap_congr fun file hfile => ?_
    rw [if_pos (hnames file (listing.perm.mem_iff.1 hfile)), readLogFile]
  have hcall : ((fun line : Option Json => line.bind (AuditEntry.fromJson now)) ∘ fun call : LogCall =>
      some call.entry.toJson) = some ∘ (AuditEntry.toSecond ∘ LogCall.entry) := by
    funext call
    rw [Function.comp_apply, Option.bind_some, fromJson_toJson_entry]
    rfl
  rw [hread, readLogFile]
  calc _ ~ ((logAll calls).entries.flatMap Sigma.snd).filterMap fun line => line.bind (AuditEntry.fromJson now) :=
        (listing.perm.flatMap_right Sigma.snd).filterMap _
    _ ~ (calls.map fun call => some call.entry.toJson).filterMap fun line => line.bind (AuditEntry.fromJson now) :=
        hlines.filterMap _
    _ = (calls.map LogCall.entry).map AuditEntry.toSecond := by
        rw [List.filterMap_map, hcall, List.filterMap_eq_map, List.map_map]

/-! ## Queries -/

theorem filter_map_perm_iff {α β : Type} (f : α → β) (p : β → Bool) (q : α → Bool) (l : List α) :
    ((l.map f).filter p).Perm ((l.filter q).map f) ↔ ∀ a ∈ l, p (f a) = q a := by
  rw [List.filter_map]
  constructor
  · intro hperm
    -- what the second filter keeps, the first does, and they keep as many
    have hsub : ∀ a ∈ l.filter q, (p ∘ f) a = true := by
      intro a ha
      have hmem : f a ∈ (l.filter (p ∘ f)).map f := hperm.mem_iff.2 (List.mem_map_of_mem ha)
      obtain ⟨b, hb, heq⟩ := List.mem_map.1 hmem
      rw [Function.comp_apply, ← heq]
      exact (List.mem_filter.1 hb).2
    have hboth : (l.filter (p ∘ f)).filter q = l.filter q := by
      rw [List.filter_filter, ← List.filter_eq_self.2 hsub, List.filter_filter]
      exact List.filter_congr fun a _ => by rw [Bool.and_comm]
    have hlength : ((l.filter (p ∘ f)).filter q).length = (l.filter (p ∘ f)).length := by
      have := hperm.length_eq
      rw [List.length_map, List.length_map] at this
      rw [hboth, this]
    have hall := List.length_filter_eq_length_iff.1 hlength
    intro a ha
    rw [Bool.eq_iff_iff]
    exact ⟨fun h => hall a (List.mem_filter.2 ⟨ha, h⟩), fun h => hsub a (List.mem_filter.2 ⟨ha, h⟩)⟩
  · intro h
    have hsame : l.filter (p ∘ f) = l.filter q := List.filter_congr h
    rw [hsame]

/-- **Audit queries.**  They return the entries that were logged in the interval, and no others, exactly when no entry
changes sides at the ends of the interval by its time being cut to the second. -/
theorem queries_complete_iff {calls : List LogCall} (hcalls : ∀ call ∈ calls, call.event.IsUtf8)
    (listing : AuditListing (logAll calls)) (now startTime endTime : Int) :
    QueriesComplete calls listing now startTime endTime ↔
      ∀ call ∈ calls, CutInside startTime endTime call.entry := by
  have hperm := perm_entries hcalls listing now
  have hcut (e : AuditEntry) : CutInside startTime endTime e ↔
      (startTime ≤ e.toSecond.timestamp && e.toSecond.timestamp ≤ endTime) = decide (Inside startTime endTime e) := by
    rw [Bool.eq_iff_iff, Bool.and_eq_true, decide_eq_true_eq, decide_eq_true_eq, decide_eq_true_eq]
    exact Iff.rfl
  have hexported : (listing.exportEntries now startTime endTime "").Perm
      (((calls.map LogCall.entry).filter fun e => Inside startTime endTime e).map AuditEntry.toSecond) ↔
      ∀ call ∈ calls, CutInside startTime endTime call.entry := by
    have hfilter : (listing.exportEntries now startTime endTime "").Perm
        (((calls.map LogCall.entry).map AuditEntry.toSecond).filter fun e =>
          startTime ≤ e.timestamp && e.timestamp ≤ endTime) := by
      rw [AuditListing.exportEntries]
      simp only [decide_true, Bool.true_or, Bool.and_true]
      exact hperm.filter _
    rw [hfilter.congr_left, filter_map_perm_iff, List.forall_mem_map]
    exact forall₂_congr fun call _ => (hcut call.entry).symm
  have hqueried (hall : ∀ call ∈ calls, CutInside startTime endTime call.entry) (eventType : AuditEventType) :
      (listing.query now startTime endTime eventType).Perm
        (((calls.map LogCall.entry).filter fun e => Inside startTime endTime e ∧ e.eventType = eventType).map
          AuditEntry.toSecond) := by
    refine (hperm.filter _).trans ((filter_map_perm_iff _ _ _ _).2 ?_)
    rw [List.forall_mem_map]
    intro call hcall
    rw [Bool.and_assoc, (hcut call.entry).1 (hall call hcall), Bool.decide_and, Bool.and_comm]
    rfl
  constructor
  · exact fun h => hexported.1 h.exported
  · exact fun h => ⟨hexported.2 h, hqueried h⟩

def clock (nanoseconds : Nat) (h : nanoseconds < 10 ^ 9) : ClockTime where
  nanoseconds := 1767323045 * 10 ^ 9 + nanoseconds
  lower := by omega
  upper := by omega

/-- A login that failed, half a second after the beginning of the second. -/
def failedLogin : LogCall where
  event := .authFailure "alice" "gateway" "bad token"
  drawn := 7
  now := clock 500000000 (by decide)
  later := clock 500000000 (by decide)

def loginListing : AuditListing (logAll [failedLogin]) := ⟨(logAll [failedLogin]).entries, List.Perm.refl _⟩

theorem isUtf8_failedLogin : ∀ call ∈ [failedLogin], call.event.IsUtf8 := by
  intro call hcall
  rw [List.mem_singleton.1 hcall]
  exact ⟨by decide, List.forall_mem_nil _⟩

/-- An interval that begins with the second has the login. -/
theorem queries_complete_second : QueriesComplete [failedLogin] loginListing 0 (1767323045 * 10 ^ 9)
    (1767323045 * 10 ^ 9 + 600000000) := by
  refine (queries_complete_iff isUtf8_failedLogin loginListing 0 _ _).2 fun call hcall => ?_
  rw [List.mem_singleton.1 hcall, CutInside]
  decide

/-- An interval that begins later in the second does not have the login that comes after its beginning. -/
theorem not_queries_complete : ¬ ∀ calls : List LogCall, (∀ call ∈ calls, call.event.IsUtf8) →
    ∀ (listing : AuditListing (logAll calls)) (now startTime endTime : Int),
      QueriesComplete calls listing now startTime endTime := by
  intro h
  have hexported := (h _ isUtf8_failedLogin loginListing 0 (1767323045 * 10 ^ 9 + 400000000)
    (1767323045 * 10 ^ 9 + 600000000)).exported
  exact absurd hexported.length_eq (by decide)

end RavBot.Security
