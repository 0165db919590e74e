import RavBot.Core.ContentBlock

/-!
# Session messages

A transcript is a file of JSON lines.  A message is the line that `ToJsonl` makes of it, and
`FromJsonl` reads a line back.
-/

namespace RavBot.Session

open RavBot.Lib RavBot.Core

structure UsageInfo where
  inputTokens : Int
  outputTokens : Int
  cacheCreationInputTokens : Int
  cacheReadInputTokens : Int
  deriving Repr

namespace UsageInfo

/-- `ToJson`: the cache counts are written when they are positive. -/
def toJson (u : UsageInfo) : Json :=
  Json.object <| [("inputTokens", .int u.inputTokens), ("outputTokens", .int u.outputTokens)] ++
    (if 0 < u.cacheCreationInputTokens then
      [("cacheCreationInputTokens", .int u.cacheCreationInputTokens)] else []) ++
    (if 0 < u.cacheReadInputTokens then
      [("cacheReadInputTokens", .int u.cacheReadInputTokens)] else [])

def fromJson (j : Json) : Option UsageInfo := do
  let inputTokens ← j.value Json.getInt "inputTokens" 0
  let outputTokens ← j.value Json.getInt "outputTokens" 0
  let cacheCreationInputTokens ← j.value Json.getInt "cacheCreationInputTokens" 0
  let cacheReadInputTokens ← j.value Json.getInt "cacheReadInputTokens" 0
  return { inputTokens, outputTokens, cacheCreationInputTokens, cacheReadInputTokens }

/-- What is read back of the counts: `int`s, and no cache counts that are not positive. -/
def readBack (u : UsageInfo) : UsageInfo where
  inputTokens := Json.toInt32 u.inputTokens
  outputTokens := Json.toInt32 u.outputTokens
  cacheCreationInputTokens :=
    if 0 < u.cacheCreationInputTokens then Json.toInt32 u.cacheCreationInputTokens else 0
  cacheReadInputTokens :=
    if 0 < u.cacheReadInputTokens then Json.toInt32 u.cacheReadInputTokens else 0

/-- The counts are `int`s and the cache counts are not negative. -/
def Exact (u : UsageInfo) : Prop :=
  (∀ n ∈ [u.inputTokens, u.outputTokens], -2 ^ 31 ≤ n ∧ n < 2 ^ 31) ∧
    ∀ n ∈ [u.cacheCreationInputTokens, u.cacheReadInputTokens], 0 ≤ n ∧ n < 2 ^ 31

theorem fromJson_toJson (u : UsageInfo) : fromJson u.toJson = some u.readBack := by
  rw [toJson, readBack]
  split_ifs <;> simp [fromJson, List.lookup_cons, Json.getInt]

theorem toInt32_eq_self {n : Int} (hlow : -2 ^ 31 ≤ n) (hhigh : n < 2 ^ 31) :
    Json.toInt32 n = n := by
  rw [Json.toInt32, Int.bmod_eq_of_le] <;> omega

theorem readBack_of_exact {u : UsageInfo} (h : u.Exact) : u.readBack = u := by
  obtain ⟨hcounts, hcache⟩ := h
  simp only [List.forall_mem_cons, List.not_mem_nil, false_imp_iff, implies_true,
    and_true] at hcounts hcache
  obtain ⟨⟨hin, hin'⟩, hout, hout'⟩ := hcounts
  obtain ⟨⟨hcreate, hcreate'⟩, hread, hread'⟩ := hcache
  have hpos {n : Int} (hlow : 0 ≤ n) (hhigh : n < 2 ^ 31) :
      (if 0 < n then Json.toInt32 n else 0) = n := by
    split_ifs with h
    · exact toInt32_eq_self (by omega) hhigh
    · omega
  rw [readBack, toInt32_eq_self hin hin', toInt32_eq_self hout hout', hpos hcreate hcreate',
    hpos hread hread']

theorem isUtf8_toJson (u : UsageInfo) : u.toJson.isUtf8 = true := by
  have hkeys : ∀ s ∈ ["inputTokens", "outputTokens", "cacheCreationInputTokens",
      "cacheReadInputTokens"], Text.validUtf8 s := by
    decide
  simp only [List.forall_mem_cons] at hkeys
  obtain ⟨hin, hout, hcreate, hread, -⟩ := hkeys
  rw [toJson]
  split_ifs <;> rw [Json.isUtf8_object (by simp)] <;>
    simp [Json.isUtf8, hin, hout, hcreate, hread]

end UsageInfo

structure SessionMessage where
  role : String
  content : List ContentBlock
  timestamp : String
  usage : Option UsageInfo
  deriving Repr

namespace SessionMessage

def toJsonl (msg : SessionMessage) : Json :=
  Json.object
    [("type", .str "message"), ("timestamp", .str msg.timestamp),
      ("message", Json.object <|
        [("role", .str msg.role), ("content", .arr (msg.content.map ContentBlock.toJson))] ++
        match msg.usage with
        | some usage => [("usage", usage.toJson)]
        | none => [])]

/-- `FromJsonl`.  Content that is a string is one text block. -/
def fromJsonl (j : Json) : Option SessionMessage := do
  let timestamp ← j.value Json.getString "timestamp" ""
  match j.find? "message" with
  | none => return ⟨"", [], timestamp, none⟩
  | some m =>
    let role ← m.value Json.getString "role" ""
    let content ← match m.find? "content" with
      | some (.arr items) => items.mapM ContentBlock.fromJson
      | some (.str text) => some [ContentBlock.makeText text]
      | _ => some []
    let usage ← match m.find? "usage" with
      | some u => (UsageInfo.fromJson u).map some
      | none => some none
    return ⟨role, content, timestamp, usage⟩

/-- The message of a transcript line, as `GetHistory` reads it.  A line that is empty or does
not parse (`none`), has another type than `message`, or makes `FromJsonl` throw is skipped. -/
def readLine : Option Json → Option SessionMessage
  | some j =>
    match j.find? "type" with
    | some (.str type) => if type = "message" then fromJsonl j else none
    | _ => none
  | none => none

def ofText (role text timestamp : String) : SessionMessage :=
  ⟨role, [ContentBlock.makeText text], timestamp, none⟩

/-- What is read back of a message: its blocks with the fields of their types, and the counts of
its usage. -/
def readBack (msg : SessionMessage) : SessionMessage :=
  { msg with
    content := msg.content.map ContentBlock.own
    usage := msg.usage.map UsageInfo.readBack }

theorem readLine_toJsonl (msg : SessionMessage) :
    readLine (some msg.toJsonl) = some msg.readBack := by
  cases husage : msg.usage with
  | none =>
    simp [readLine, toJsonl, fromJsonl, readBack, husage, List.lookup_cons, Json.getString,
      ContentBlock.mapM_fromJson]
  | some usage =>
    simp [readLine, toJsonl, fromJsonl, readBack, husage, List.lookup_cons, Json.getString,
      ContentBlock.mapM_fromJson, UsageInfo.fromJson_toJson]

@[simp] theorem readBack_ofText (role text timestamp : String) :
    (ofText role text timestamp).readBack = ofText role text timestamp := rfl

/-- The line of a message can be written when its timestamp, its role and the strings of its
blocks are UTF-8. -/
theorem isUtf8_toJsonl (msg : SessionMessage) :
    msg.toJsonl.isUtf8 =
      (Text.validUtf8 msg.timestamp && Text.validUtf8 msg.role &&
        Json.allUtf8 (msg.content.map ContentBlock.toJson)) := by
  have hkeys : ∀ s ∈ ["type", "timestamp", "message", "role", "content", "usage"],
      Text.validUtf8 s := by
    decide
  simp only [List.forall_mem_cons] at hkeys
  obtain ⟨htype, htime, hmsg, hrole, hcontent, husage, -⟩ := hkeys
  rw [toJsonl, Json.isUtf8_object (by simp)]
  simp only [List.all_cons, List.all_nil]
  cases msg.usage with
  | none =>
    rw [Json.isUtf8_object (by simp)]
    simp [Json.isUtf8, htype, htime, hmsg, hrole, hcontent, Bool.and_assoc]
  | some usage =>
    rw [Json.isUtf8_object (by simp)]
    simp [Json.isUtf8, htype, htime, hmsg, hrole, hcontent, husage, UsageInfo.isUtf8_toJson,
      Bool.and_assoc]

theorem isUtf8_ofText (role text timestamp : String) :
    (ofText role text timestamp).toJsonl.isUtf8 =
      (Text.validUtf8 timestamp && Text.validUtf8 role && Text.validUtf8 text) := by
  rw [isUtf8_toJsonl]
  simp [ofText, Json.allUtf8, ContentBlock.isUtf8_makeText]

end SessionMessage

end RavBot.Session
