import RavBot.Session.SessionManager

/-!
# The transcript of a session

Messages that are appended to a session are read back by `GetHistory` in the order of the calls
(`getHistory_appendAll`).  A message comes back as it was when its blocks have no fields but
those of their types, and its usage no negative cache counts, which `ToJson` leaves out.
-/

namespace RavBot.Session

open RavBot.Lib RavBot.Core

namespace SessionMessage

/-- A message that is read back from its line as it was. -/
structure Kept (msg : SessionMessage) : Prop where
  role : Text.validUtf8 msg.role
  timestamp : Text.validUtf8 msg.timestamp
  /-- A block has the fields of its own type alone. -/
  own : ∀ b ∈ msg.content, b.own = b
  blocks : ∀ b ∈ msg.content, b.toJson.isUtf8
  usage : ∀ u ∈ msg.usage, u.Exact

theorem Kept.isUtf8_toJsonl {msg : SessionMessage} (h : msg.Kept) : msg.toJsonl.isUtf8 = true := by
  have hblocks : ∀ bs : List ContentBlock, (∀ b ∈ bs, b.toJson.isUtf8) →
      Json.allUtf8 (bs.map ContentBlock.toJson) = true := by
    rintro bs hbs
    induction bs with
    | nil => rfl
    | cons b bs ih =>
      rw [List.forall_mem_cons] at hbs
      rw [List.map_cons, Json.allUtf8, hbs.1, ih hbs.2]
      rfl
  rw [SessionMessage.isUtf8_toJsonl, h.role, h.timestamp, hblocks _ h.blocks]
  rfl

theorem Kept.readBack {msg : SessionMessage} (h : msg.Kept) : msg.readBack = msg := by
  have hcontent : msg.content.map ContentBlock.own = msg.content :=
    (List.map_congr_left h.own).trans (List.map_id _)
  have husage : msg.usage.map UsageInfo.readBack = msg.usage := by
    cases hu : msg.usage with
    | none => rfl
    | some u => exact congrArg some (UsageInfo.readBack_of_exact (h.usage u hu))
  rw [SessionMessage.readBack, hcontent, husage]

end SessionMessage

/-- A call of one of the two forms of `AppendMessage`. -/
inductive Append where
  | message (key : String) (msg : SessionMessage) (now : Timestamp)
  | ofText (key role text : String) (usage : Option UsageInfo) (now later : Timestamp)

namespace Append

def msg : Append → SessionMessage
  | message _ msg _ => msg
  | ofText _ role text usage now _ => ⟨role, [ContentBlock.makeText text], now.text, usage⟩

def lookupKey : Append → String
  | message key _ _ => normalized key
  | ofText key _ _ _ _ _ => normalized (normalized key)

def run (m : SessionManager) : Append → SessionManager × Option Unit
  | message key msg now => m.appendMessage key msg now
  | ofText key role text usage now later => m.appendText key role text usage now later

end Append

namespace SessionManager

/-- A sequence of calls of `AppendMessage`. -/
def appendAll (m : SessionManager) (calls : List Append) : SessionManager :=
  calls.foldl (fun m call => (call.run m).1) m

variable {m : SessionManager} {key : String}

theorem lookup_appendMessage {info : SessionInfo}
    (hlookup : m.store.lookup (normalized key) = some info) (key' : String) (msg : SessionMessage)
    (now : Timestamp) :
    ∃ info, (m.appendMessage key' msg now).1.store.lookup (normalized key) = some info := by
  rw [appendMessage]
  split
  · exact ⟨info, hlookup⟩
  · next info' _ =>
      dsimp only
      split
      · exact ⟨info, hlookup⟩
      · rw [saveStore_store, Table.lookup_insert_ite]
        split_ifs
        · exact ⟨_, rfl⟩
        · exact ⟨info, hlookup⟩

theorem getHistory_run {info : SessionInfo} {call : Append}
    (hlookup : m.store.lookup (normalized key) = some info)
    (hreach : call.lookupKey = normalized key) (hkept : call.msg.Kept) :
    (∃ info, (call.run m).1.store.lookup (normalized key) = some info) ∧
      (call.run m).1.getHistory key (-1) = m.getHistory key (-1) ++ [call.msg] := by
  have happend {key' : String} (now : Timestamp) (hkey : normalized key' = normalized key) :
      (m.appendMessage key' call.msg now).1.getHistory key (-1) =
        m.getHistory key (-1) ++ [call.msg] := by
    rw [getHistory_appendMessage hlookup hkey hkept.isUtf8_toJsonl, hkept.readBack]
  cases call with
  | message key' msg now => exact ⟨lookup_appendMessage hlookup key' msg now, happend now hreach⟩
  | ofText key' role text usage now later =>
    exact ⟨lookup_appendMessage hlookup _ _ _, happend later hreach⟩

theorem getHistory_max {n : Int} (hn : 0 < n)
    (hcount : (m.getHistory key (-1)).length < 2 ^ 31) :
    m.getHistory key n = (m.getHistory key (-1)).rtake n.toNat := by
  cases hlookup : m.store.lookup (normalized key) with
  | none =>
    have hnil (n : Int) : m.getHistory key n = [] := by rw [getHistory, hlookup]
    rw [hnil, hnil, List.rtake_nil]
  | some info =>
    rw [getHistory_of_lookup hlookup] at hcount ⊢
    rw [getHistory, hlookup, List.rtake]
    dsimp only
    rw [UsageInfo.toInt32_eq_self (by omega) (by omega)]
    split_ifs with hmax
    · rfl
    · rw [Nat.sub_eq_zero_of_le (by omega), List.drop_zero]

/-- **Transcript round trip.**  Messages that are appended to a session come back from
`GetHistory` as they were and in their order, after those that were there; with a limit, the last
ones of them all. -/
theorem getHistory_appendAll {m : SessionManager} {key : String} {info : SessionInfo}
    (hlookup : m.store.lookup (normalized key) = some info) {calls : List Append}
    (hcalls : ∀ call ∈ calls, call.lookupKey = normalized key ∧ call.msg.Kept) :
    (m.appendAll calls).getHistory key (-1) =
        m.getHistory key (-1) ++ calls.map Append.msg ∧
      ∀ n : Int, 0 < n → ((m.appendAll calls).getHistory key (-1)).length < 2 ^ 31 →
        (m.appendAll calls).getHistory key n =
          (m.getHistory key (-1) ++ calls.map Append.msg).rtake n.toNat := by
  have hall : (m.appendAll calls).getHistory key (-1) =
      m.getHistory key (-1) ++ calls.map Append.msg := by
    induction calls generalizing m info with
    | nil => exact (List.append_nil _).symm
    | cons call calls ih =>
      rw [List.forall_mem_cons] at hcalls
      obtain ⟨⟨hreach, hkept⟩, hcalls⟩ := hcalls
      obtain ⟨⟨info', hlookup'⟩, hhistory⟩ := getHistory_run hlookup hreach hkept
      have htail := ih hlookup' hcalls
      rw [appendAll, List.foldl_cons]
      rw [appendAll] at htail
      rw [htail, hhistory, List.append_assoc, List.map_cons, List.singleton_append]
  refine ⟨hall, fun n hn hcount => ?_⟩
  rw [getHistory_max hn hcount, hall]

/-- A manager with a session that has no messages. -/
def emptySession : SessionManager where
  sessionsDir := ""
  store := AList.insert "agent:main:main"
    (newSession "agent:main:main" "" "cli" "0" .empty) ∅
  indexFile := none
  transcripts := ∅

/-- A question, and a call with its usage. -/
def questionAndCall : List Append :=
  [.ofText "main" "user" "hi" none .empty .empty,
    .message "agent:main:main"
      ⟨"assistant", [ContentBlock.makeToolUse "1" "read" (.obj [])], "", some ⟨9, 3, 0, 2⟩⟩
      .empty]

/-- Both messages come back. -/
theorem getHistory_appendAll_questionAndCall :
    (emptySession.appendAll questionAndCall).getHistory "main" (-1) =
        emptySession.getHistory "main" (-1) ++ questionAndCall.map Append.msg ∧
      ∀ n : Int, 0 < n →
        ((emptySession.appendAll questionAndCall).getHistory "main" (-1)).length < 2 ^ 31 →
          (emptySession.appendAll questionAndCall).getHistory "main" n =
            (emptySession.getHistory "main" (-1) ++ questionAndCall.map Append.msg).rtake
              n.toNat := by
  refine getHistory_appendAll (Option.some_get (by decide +kernel)).symm ?_
  rw [questionAndCall, List.forall_mem_cons, List.forall_mem_singleton]
  refine ⟨⟨by decide +kernel, ?_⟩, by decide +kernel, ?_⟩
  · exact ⟨by decide, by decide, by simp [Append.msg], by simp [Append.msg]; decide,
      by simp [Append.msg]⟩
  · exact ⟨by decide, by decide, by simp [Append.msg]; rfl, by simp [Append.msg]; decide,
      by simp [Append.msg, UsageInfo.Exact]⟩

/-- A negative cache count is not written, and so it is read back as zero. -/
theorem not_getHistory_appendAll :
    ¬ ∀ (m : SessionManager) (key : String) (info : SessionInfo) (msg : SessionMessage)
        (now : Timestamp), m.store.lookup (normalized key) = some info →
      msg.toJsonl.isUtf8 = true → (∀ b ∈ msg.content, b.own = b) →
      (∀ u ∈ msg.usage, ∀ n ∈ [u.inputTokens, u.outputTokens, u.cacheCreationInputTokens,
        u.cacheReadInputTokens], -2 ^ 31 ≤ n ∧ n < 2 ^ 31) →
      (m.appendMessage key msg now).1.getHistory key (-1) = m.getHistory key (-1) ++ [msg] := by
  rintro h
  let msg : SessionMessage := ⟨"user", [ContentBlock.makeText "hi"], "", some ⟨1, 1, -1, 0⟩⟩
  have hsome : (emptySession.store.lookup (normalized "main")).isSome := by decide +kernel
  have hlookup := (Option.some_get hsome).symm
  have hutf8 : msg.toJsonl.isUtf8 = true := by decide +kernel
  have hback := h emptySession "main" _ msg .empty hlookup hutf8 (by simp [msg])
    (by simp [msg])
  rw [getHistory_appendMessage hlookup rfl hutf8, List.append_cancel_left_eq] at hback
  have hcount := congrArg (fun msgs => msgs.map fun msg =>
    msg.usage.map (·.cacheCreationInputTokens)) hback
  revert hcount
  decide

end SessionManager

end RavBot.Session
