import RavBot.Core.SessionCompaction
import RavBot.Session.Lifecycle

/-!
# Compacting sessions

The handler of `sessions.compact` truncates the history that it reads and counts a compaction, but does not
write what it has truncated.  So the session is as long as before, which is what the handler reports only when
at most one message would be removed.
-/

namespace RavBot.Gateway

open RavBot.Core
open RavBot.Lib
open RavBot.Session

/-! ## The handler -/

inductive CompactOutcome where
  | answer (response : Json)
  | throws (error : String)
  /-- An iterator outside of a list, after which anything may happen. -/
  | outOfRange

def compactedAnswer (originalCount newCount compactionCount : Int) : Json :=
  .object [("compacted", .bool true), ("originalCount", .int originalCount), ("newCount", .int newCount),
    ("compactionCount", .int compactionCount)]

/-- `sessions.compact`. -/
def sessionsCompact (m : SessionManager) (params : Json) : SessionManager × CompactOutcome :=
  match params.value Json.getString "sessionKey" "" with
  | none => (m, .throws "type_error")
  | some sessionKey =>
    if sessionKey = "" then (m, .throws "sessionKey is required")
    else
      let history := m.getHistory sessionKey (-1)
      let historyJson := history.map SessionMessage.toJsonl
      match params.value Json.getInt "maxMessages" 100, params.value Json.getInt "keepRecent" 20 with
      | some maxMessages, some keepRecent =>
        let opts : CompactionOptions := { maxMessages, keepRecent }
        if SessionCompaction.needsCompaction historyJson opts = false then
          (m, .answer (.object [("compacted", .bool false), ("reason", .str "below threshold")]))
        else
          match SessionCompaction.truncate historyJson opts with
          | none => (m, .outOfRange)
          | some compacted =>
            match m.incrementCompactionCount sessionKey with
            | (m, none) => (m, .throws "type_error.316")
            | (m, some ()) =>
              (m, .answer (compactedAnswer (Json.toInt32 history.length) (Json.toInt32 compacted.length)
                (m.getCompactionCount sessionKey)))
      | _, _ => (m, .throws "type_error")

/-! ## What it reports -/

def SameHistories (m m' : SessionManager) : Prop :=
  ∀ key, (∀ n, m'.getHistory key n = m.getHistory key n) ∧ m'.getCompactionCount key = m.getCompactionCount key

/-- A history was compacted to some messages, of which the last ones are those that are kept. -/
structure CompactedTo (before after : List SessionMessage) (keepRecent originalCount newCount : Int) : Prop where
  count : (after.length : Int) = newCount
  recent : after.drop (after.length - (min keepRecent originalCount).toNat) =
    before.drop (before.length - (min keepRecent originalCount).toNat)
  le : newCount ≤ originalCount

/-- An answer says what was done. -/
def Reported (m m' : SessionManager) (params response : Json) : Prop :=
  (response.find? "compacted" = some (.bool false) ∧ SameHistories m m') ∨
    (response.find? "compacted" = some (.bool true) ∧ ∃ sessionKey keepRecent originalCount newCount,
      params.value Json.getString "sessionKey" "" = some sessionKey ∧
      params.value Json.getInt "keepRecent" 20 = some keepRecent ∧
      response.find? "originalCount" = some (.int originalCount) ∧
      response.find? "newCount" = some (.int newCount) ∧
      CompactedTo (m.getHistory sessionKey (-1)) (m'.getHistory sessionKey (-1)) keepRecent originalCount newCount)

/-- A call does what it reports, and nothing when it throws. -/
def DoesAsReported (m : SessionManager) (params : Json) : SessionManager × CompactOutcome → Prop
  | (m', .answer response) => Reported m m' params response
  | (m', .throws _) => SameHistories m m'
  | (_, .outOfRange) => False

/-- A request for a history that is to be compacted. -/
structure Compacts (m : SessionManager) (params : Json) (sessionKey : String) (maxMessages keepRecent : Int) :
    Prop where
  asked : params.value Json.getString "sessionKey" "" = some sessionKey
  key_ne : sessionKey ≠ ""
  readMax : params.value Json.getInt "maxMessages" 100 = some maxMessages
  readKeep : params.value Json.getInt "keepRecent" 20 = some keepRecent
  needs : SessionCompaction.needsCompaction ((m.getHistory sessionKey (-1)).map SessionMessage.toJsonl)
    { maxMessages, keepRecent } = true

/-- Nothing is to be removed: at most one message is not kept, the messages can be counted, and the index can
be written. -/
structure NothingRemoved (m : SessionManager) (sessionKey : String) (keepRecent : Int) : Prop where
  nonneg : 0 ≤ keepRecent
  short : ((m.getHistory sessionKey (-1)).length : Int) ≤ keepRecent + 1
  countable : (m.getHistory sessionKey (-1)).length < 2 ^ 31
  storable : (m.store.lookup (normalized sessionKey)).isSome → m.storeJson.isUtf8 = true

/-! ## Counting a compaction -/

theorem getHistory_incrementCompactionCount (m : SessionManager) (key key' : String) (n : Int) :
    (m.incrementCompactionCount key).1.getHistory key' n = m.getHistory key' n := by
  rw [SessionManager.incrementCompactionCount, SessionManager.countCompaction]
  cases hlookup : m.store.lookup (normalized key) with
  | none => rfl
  | some info =>
    refine (SessionManager.getHistory_saveStore _ _ _).trans ?_
    rw [SessionManager.getHistory, SessionManager.getHistory, Table.lookup_insert_ite]
    split_ifs with hkey
    · rw [hkey, hlookup]
      rfl
    · rfl

variable {m : SessionManager}

theorem isUtf8_storeJson_of_count {m' : SessionManager} {key : String} {info : SessionInfo} {count : Int}
    (hlookup : m.store.lookup key = some info)
    (hstore : m'.store = m.store.insert key { info with compactionCount := count }) :
    m'.storeJson.isUtf8 = true ↔ m.storeJson.isUtf8 = true := by
  have hcount : ({ info with compactionCount := count } : SessionInfo).toJson.isUtf8 = info.toJson.isUtf8 := by
    rw [SessionManager.isUtf8_toJson, SessionManager.isUtf8_toJson]
  rw [SessionManager.isUtf8_storeJson, SessionManager.isUtf8_storeJson, hstore]
  constructor
  · intro h other info' hother
    by_cases hkey : other = key
    · subst hkey
      have hsame := h other _ (AList.lookup_insert _)
      rw [hcount] at hsame
      rw [← Option.some.inj (hlookup.symm.trans hother)]
      exact hsame
    · exact h other info' ((AList.lookup_insert_ne hkey).trans hother)
  · intro h other info' hother
    rw [Table.lookup_insert_ite] at hother
    split_ifs at hother with hkey
    · rw [← Option.some.inj hother, hcount, hkey]
      exact h key info hlookup
    · exact h other info' hother

theorem saveStore_eq_none_iff (m : SessionManager) : m.saveStore.2 = none ↔ ¬ m.storeJson.isUtf8 = true := by
  rw [SessionManager.saveStore, Json.dump]
  split_ifs with hutf8
  · exact iff_of_false (by rintro ⟨⟩) (not_not_intro hutf8)
  · exact iff_of_true rfl hutf8

theorem incrementCompactionCount_eq_none_iff (m : SessionManager) (key : String) :
    (m.incrementCompactionCount key).2 = none ↔
      ¬ ((m.store.lookup (normalized key)).isSome → m.storeJson.isUtf8 = true) := by
  rw [SessionManager.incrementCompactionCount, SessionManager.countCompaction]
  cases hlookup : m.store.lookup (normalized key) with
  | none => exact iff_of_false (by rintro ⟨⟩) (not_not_intro (by rintro ⟨⟩))
  | some info =>
    refine (saveStore_eq_none_iff _).trans (not_congr ?_)
    rw [isUtf8_storeJson_of_count hlookup rfl]
    exact ⟨fun h _ => h, fun h => h rfl⟩

theorem not_sameHistories {key : String}
    (h : (m.incrementCompactionCount key).2 = none) : ¬ SameHistories m (m.incrementCompactionCount key).1 := by
  intro hsame
  have hcount := (hsame key).2
  have hlookup : (m.store.lookup (normalized key)).isSome := by
    by_contra hnone
    exact (incrementCompactionCount_eq_none_iff m key).1 h fun hsome => absurd hsome hnone
  obtain ⟨info, hinfo⟩ := Option.isSome_iff_exists.1 hlookup
  rw [SessionManager.incrementCompactionCount, SessionManager.countCompaction, hinfo] at hcount
  dsimp only at hcount
  rw [SessionManager.getCompactionCount, SessionManager.getCompactionCount, SessionManager.saveStore_store, hinfo,
    Table.lookup_insert_ite, if_pos rfl] at hcount
  dsimp only at hcount
  omega

/-! ## The theorem -/

theorem sameHistories_refl (m : SessionManager) : SameHistories m m := by
  intro key
  exact ⟨fun n => rfl, rfl⟩

variable {params : Json}

theorem sessionsCompact_of_compacts {sessionKey : String}
    {maxMessages keepRecent : Int} (h : Compacts m params sessionKey maxMessages keepRecent) :
    sessionsCompact m params =
      match SessionCompaction.truncate ((m.getHistory sessionKey (-1)).map SessionMessage.toJsonl)
        { maxMessages, keepRecent } with
      | none => (m, .outOfRange)
      | some compacted =>
        match m.incrementCompactionCount sessionKey with
        | (m', none) => (m', .throws "type_error.316")
        | (m', some ()) =>
          (m', .answer (compactedAnswer (Json.toInt32 (m.getHistory sessionKey (-1)).length)
            (Json.toInt32 compacted.length) (m'.getCompactionCount sessionKey))) := by
  rw [sessionsCompact, h.asked]
  dsimp only
  rw [if_neg h.key_ne, h.readMax, h.readKeep]
  dsimp only
  rw [if_neg (ne_false_of_eq_true h.needs)]

theorem doesAsReported_of_not_compacts
    (h : ∀ sessionKey maxMessages keepRecent, ¬ Compacts m params sessionKey maxMessages keepRecent) :
    DoesAsReported m params (sessionsCompact m params) := by
  rw [sessionsCompact]
  cases hkey : params.value Json.getString "sessionKey" "" with
  | none => exact sameHistories_refl m
  | some sessionKey =>
    dsimp only
    split_ifs with hempty
    · exact sameHistories_refl m
    · cases hmax : params.value Json.getInt "maxMessages" 100 with
      | none => exact sameHistories_refl m
      | some maxMessages =>
        cases hkeep : params.value Json.getInt "keepRecent" 20 with
        | none => exact sameHistories_refl m
        | some keepRecent =>
          dsimp only
          rw [if_pos]
          · exact .inl ⟨rfl, sameHistories_refl m⟩
          · rw [← Bool.not_eq_true]
            intro hneeds
            exact h sessionKey maxMessages keepRecent ⟨hkey, hempty, hmax, hkeep, hneeds⟩

theorem compactedTo_self_iff {history : List SessionMessage} {keepRecent originalCount newCount : Int} :
    CompactedTo history history keepRecent originalCount newCount ↔
      (history.length : Int) = newCount ∧ newCount ≤ originalCount :=
  ⟨fun h => ⟨h.count, h.le⟩, fun h => ⟨h.1, rfl, h.2⟩⟩

theorem find?_compactedAnswer (originalCount newCount compactionCount : Int) :
    (compactedAnswer originalCount newCount compactionCount).find? "compacted" = some (.bool true) ∧
      (compactedAnswer originalCount newCount compactionCount).find? "originalCount" = some (.int originalCount) ∧
      (compactedAnswer originalCount newCount compactionCount).find? "newCount" = some (.int newCount) := by
  rw [compactedAnswer, Json.find?_object, Json.find?_object, Json.find?_object]
  exact ⟨rfl, rfl, rfl⟩

theorem toInt32_eq_self_iff (n : Nat) : Json.toInt32 n = n ↔ n < 2 ^ 31 := by
  rw [Json.toInt32, Int.bmod_def]
  split_ifs <;> omega

theorem length_eq_iff {messages compacted : List Json} {opts : CompactionOptions}
    (h : SessionCompaction.truncate messages opts = some compacted) :
    ((messages.length : Int) = Json.toInt32 compacted.length ∧
        Json.toInt32 compacted.length ≤ Json.toInt32 messages.length) ↔
      0 ≤ opts.keepRecent ∧ (messages.length : Int) ≤ opts.keepRecent + 1 ∧ messages.length < 2 ^ 31 := by
  have hle := SessionCompaction.toInt32_le messages.length
  rw [← toInt32_eq_self_iff]
  rcases le_or_gt (Json.toInt32 messages.length) opts.keepRecent with hall | hlt
  · rw [SessionCompaction.truncate_of_le hall] at h
    obtain rfl := Option.some.inj h
    omega
  · rw [SessionCompaction.truncate_of_lt hlt] at h
    split_ifs at h with hpos
    have hlength : (compacted.length : Int) = opts.keepRecent + 1 := by
      rw [← Option.some.inj h, List.length_cons, List.length_drop]
      omega
    rw [SessionCompaction.toInt32_of_le (m := messages.length) (by omega), hlength]
    omega

theorem doesAsReported_iff_of_compacts {sessionKey : String}
    {maxMessages keepRecent : Int} (h : Compacts m params sessionKey maxMessages keepRecent) :
    DoesAsReported m params (sessionsCompact m params) ↔ NothingRemoved m sessionKey keepRecent := by
  rw [sessionsCompact_of_compacts h]
  have hhistory := getHistory_incrementCompactionCount m sessionKey sessionKey (-1)
  have hthrows := incrementCompactionCount_eq_none_iff m sessionKey
  cases htruncate : SessionCompaction.truncate ((m.getHistory sessionKey (-1)).map SessionMessage.toJsonl)
      { maxMessages, keepRecent } with
  | none =>
    refine iff_of_false id fun hnothing => ?_
    have hfits := (SessionCompaction.truncate_fits_iff ((m.getHistory sessionKey (-1)).map SessionMessage.toJsonl)
      { maxMessages, keepRecent }).2 (.inl hnothing.nonneg)
    obtain ⟨result, hresult, -⟩ := hfits
    rw [htruncate] at hresult
    cases hresult
  | some compacted =>
    have hlength := length_eq_iff htruncate
    rw [List.length_map] at hlength
    cases hcount : (m.incrementCompactionCount sessionKey).2 with
    | none =>
      have hchanged := not_sameHistories hcount
      have hstorable := hthrows.1 hcount
      generalize m.incrementCompactionCount sessionKey = result at hcount hchanged
      obtain ⟨m', _⟩ := result
      subst hcount
      exact iff_of_false hchanged fun hnothing => hstorable hnothing.storable
    | some =>
      have hstorable : (m.store.lookup (normalized sessionKey)).isSome → m.storeJson.isUtf8 = true := by
        by_contra hnot
        rw [hthrows.2 hnot] at hcount
        cases hcount
      generalize m.incrementCompactionCount sessionKey = result at hcount hhistory
      obtain ⟨m', _⟩ := result
      subst hcount
      dsimp only at hhistory
      show Reported m m' params _ ↔ _
      obtain ⟨hdone, horiginal, hnew⟩ := find?_compactedAnswer
        (Json.toInt32 (m.getHistory sessionKey (-1)).length) (Json.toInt32 compacted.length)
        (m'.getCompactionCount sessionKey)
      constructor
      · rintro (⟨hnot, -⟩ | ⟨-, key, keep, original, new, hkey, hkeep, horiginal', hnew', hcompacted⟩)
        · rw [hdone] at hnot
          cases hnot
        obtain rfl := Option.some.inj (h.asked.symm.trans hkey)
        obtain rfl := Option.some.inj (h.readKeep.symm.trans hkeep)
        obtain rfl := Json.int.inj (Option.some.inj (horiginal.symm.trans horiginal'))
        obtain rfl := Json.int.inj (Option.some.inj (hnew.symm.trans hnew'))
        rw [hhistory, compactedTo_self_iff] at hcompacted
        obtain ⟨hpos, hshort, hcountable⟩ := hlength.1 hcompacted
        exact ⟨hpos, hshort, hcountable, hstorable⟩
      · intro hnothing
        refine .inr ⟨hdone, sessionKey, keepRecent, _, _, h.asked, h.readKeep, horiginal, hnew, ?_⟩
        rw [hhistory, compactedTo_self_iff]
        exact hlength.2 ⟨hnothing.nonneg, hnothing.short, hnothing.countable⟩

/-- **When compaction does what it reports.**  For every session manager and request, a call of `sessions.compact` does
what it reports exactly when the history is not to be compacted, or nothing is to be removed of it; and for all
messages and options, truncation and compaction are bounded exactly when the number of messages to keep is not
negative, or at least the length of the history as an `int`. -/
theorem compaction_iff (m : SessionManager) (params : Json) (messages : List Json) (opts : CompactionOptions)
    (summaryFn : Option SummaryFn) :
    (DoesAsReported m params (sessionsCompact m params) ↔
      ∀ sessionKey maxMessages keepRecent, Compacts m params sessionKey maxMessages keepRecent →
        NothingRemoved m sessionKey keepRecent) ∧
    (SessionCompaction.Bounded messages opts summaryFn ↔
      0 ≤ opts.keepRecent ∨ Json.toInt32 messages.length ≤ opts.keepRecent) := by
  refine ⟨?_, SessionCompaction.bounded_iff_keepRecent messages opts summaryFn⟩
  by_cases hcompacts : ∃ sessionKey maxMessages keepRecent, Compacts m params sessionKey maxMessages keepRecent
  · obtain ⟨sessionKey, maxMessages, keepRecent, h⟩ := hcompacts
    rw [doesAsReported_iff_of_compacts h]
    constructor
    · intro hnothing sessionKey' maxMessages' keepRecent' h'
      obtain rfl := Option.some.inj (h.asked.symm.trans h'.asked)
      obtain rfl := Option.some.inj (h.readKeep.symm.trans h'.readKeep)
      exact hnothing
    · intro hall
      exact hall sessionKey maxMessages keepRecent h
  · have hnone : ∀ sessionKey maxMessages keepRecent, ¬ Compacts m params sessionKey maxMessages keepRecent := by
      intro sessionKey maxMessages keepRecent h
      exact hcompacts ⟨sessionKey, maxMessages, keepRecent, h⟩
    refine iff_of_true (doesAsReported_of_not_compacts hnone) ?_
    intro sessionKey maxMessages keepRecent h
    exact absurd h (hnone _ _ _)

def greeting : SessionMessage := .ofText "user" "hi" "2026-01-01T00:00:00Z"

/-- A manager of one session with three messages. -/
def threeMessages : SessionManager where
  sessionsDir := "sessions"
  store := AList.insert (normalized "main")
    (SessionManager.newSession (normalized "main") "" "cli" "0a1b2c3d4e5f" .empty) ∅
  indexFile := none
  transcripts := AList.insert "sessions/0a1b2c3d4e5f.jsonl" (List.replicate 3 (some greeting.toJsonl)) ∅

def keepOne : Json := .object [("sessionKey", .str "main"), ("maxMessages", .int 2), ("keepRecent", .int 1)]

theorem length_threeMessages : (threeMessages.getHistory "main" (-1)).length = 3 := by
  have hlookup : threeMessages.store.lookup (normalized "main") =
      some (SessionManager.newSession (normalized "main") "" "cli" "0a1b2c3d4e5f" .empty) :=
    AList.lookup_insert _
  have hlines : threeMessages.transcript "0a1b2c3d4e5f" = List.replicate 3 (some greeting.toJsonl) := by
    have hfile : threeMessages.transcripts.lookup "sessions/0a1b2c3d4e5f.jsonl" =
        some (List.replicate 3 (some greeting.toJsonl)) := AList.lookup_insert _
    rw [SessionManager.transcript]
    show (threeMessages.transcripts.lookup "sessions/0a1b2c3d4e5f.jsonl").getD [] = _
    rw [hfile]
    rfl
  rw [SessionManager.getHistory_of_lookup hlookup]
  show ((threeMessages.transcript "0a1b2c3d4e5f").filterMap _).length = 3
  rw [hlines]
  simp only [List.replicate, List.filterMap_cons, SessionMessage.readLine_toJsonl, List.filterMap_nil]
  rfl

/-- Of three messages one is to be kept; the answer says that there are two, and there are still three. -/
theorem not_doesAsReported : ¬ ∀ (m : SessionManager) (params : Json),
    DoesAsReported m params (sessionsCompact m params) := by
  intro h
  have hcompacts : Compacts threeMessages keepOne "main" 2 1 := by
    refine ⟨rfl, by decide, rfl, rfl, ?_⟩
    rw [SessionCompaction.needsCompaction, SessionCompaction.exceedsCount, List.length_map, length_threeMessages]
    rfl
  have hshort := ((doesAsReported_iff_of_compacts hcompacts).1 (h threeMessages keepOne)).short
  rw [length_threeMessages] at hshort
  exact absurd hshort (by decide)

end RavBot.Gateway
