import RavBot.Lib.JsonTable
import RavBot.Session.IndexFile

/-!
# Loading the index file

`LoadStore` walks over the entries of `sessions.json` in the order of their keys, and the first
entry that it cannot read ends the walk.  The entries after it are not in the store, and the next
`SaveStore` removes them from the file.  So the readable entries are kept exactly when none of
them comes after an entry that is not (`entriesSurvive_iff`).
-/

open List

namespace RavBot.Session

open RavBot.Lib

/-- The session that `LoadStore` makes of an entry. -/
def SessionInfo.fromJson (key : String) (entry : Json) : Option SessionInfo := do
  let sessionId ← entry.value Json.getString "sessionId" ""
  let updatedAt ← entry.value Json.getString "updatedAt" ""
  let createdAt ← entry.value Json.getString "createdAt" ""
  let displayName ← entry.value Json.getString "displayName" ""
  let channel ← entry.value Json.getString "channel" "cli"
  let compactionCount ← entry.value Json.getInt "compactionCount" 0
  return ⟨key, sessionId, updatedAt, createdAt, displayName, channel, compactionCount⟩

/-- Whether `LoadStore` can read an entry. -/
def loads (entry : String × Json) : Bool := (SessionInfo.fromJson entry.1 entry.2).isSome

/-- The loop of `LoadStore`, which an entry that cannot be read ends. -/
def loadEntries : List (String × Json) → Table String SessionInfo → Table String SessionInfo
  | [], store => store
  | (key, entry) :: entries, store =>
    match SessionInfo.fromJson key entry with
    | some info => loadEntries entries (store.insert key info)
    | none => store

namespace SessionManager

def loadStore (m : SessionManager) : SessionManager :=
  match m.indexFile with
  | some (.json j) => { m with store := loadEntries j.items m.store }
  | _ => m

/-- The manager that is constructed on the files of a directory. -/
def opened (sessionsDir : String) (indexFile : Option IndexText)
    (transcripts : Table String (List (Option Json))) : SessionManager :=
  loadStore { sessionsDir, store := ∅, indexFile, transcripts }

/-- The session id that the index file has for a key. -/
def indexedId (m : SessionManager) (key : String) : Option String :=
  match m.indexFile with
  | some (.json j) =>
    (j.find? key).bind fun entry => (SessionInfo.fromJson key entry).map (·.sessionId)
  | _ => none

end SessionManager

/-! ## What is loaded -/

theorem lookup_loadEntries {entries : List (String × Json)}
    (hkeys : (entries.map Prod.fst).Nodup) (store : Table String SessionInfo) (key : String) :
    (loadEntries entries store).lookup key =
      match (entries.takeWhile loads).lookup key with
      | some entry => SessionInfo.fromJson key entry
      | none => store.lookup key := by
  induction entries generalizing store with
  | nil => rfl
  | cons e entries ih =>
    obtain ⟨k, entry⟩ := e
    rw [map_cons, nodup_cons] at hkeys
    rw [loadEntries, takeWhile_cons, loads]
    cases hinfo : SessionInfo.fromJson k entry with
    | none => rfl
    | some info =>
      dsimp only
      rw [ih hkeys.2, Option.isSome_some, if_pos rfl, lookup_cons]
      by_cases heq : key = k
      · subst heq
        have hnone : (entries.takeWhile loads).lookup key = none := by
          rw [lookup_eq_none_iff]
          rintro e he
          simp only [bne_iff_ne, ne_eq]
          rintro rfl
          exact hkeys.1 (mem_map.2 ⟨e, ( takeWhile_prefix _).subset he, rfl⟩)
        rw [hnone, beq_self_eq_true, AList.lookup_insert]
        exact hinfo.symm
      · rw [beq_eq_false_iff_ne.2 heq, AList.lookup_insert_ne heq]

/-- All entries that can be read are loaded exactly when none of them comes after one that
cannot. -/
theorem forall_mem_takeWhile_iff {entries : List (String × Json)}
    (hkeys : (entries.map Prod.fst).Nodup) :
    (∀ e ∈ entries, loads e → e ∈ entries.takeWhile loads) ↔
      entries.Pairwise fun e e' => loads e' → loads e := by
  induction entries with
  | nil => simp
  | cons e entries ih =>
    rw [map_cons, nodup_cons] at hkeys
    rw [pairwise_cons, ← ih hkeys.2, forall_mem_cons, takeWhile_cons]
    cases he : loads e with
    | true =>
      rw [if_pos rfl]
      constructor
      · rintro ⟨-, h⟩
        refine ⟨fun _ _ _ => rfl, fun e' he' hloads => ?_⟩
        refine (mem_cons.1 (h e' he' hloads)).resolve_left ?_
        rintro rfl
        exact hkeys.1 (mem_map_of_mem he')
      · rintro ⟨-, h⟩
        exact ⟨fun _ => mem_cons_self, fun e' he' hloads => mem_cons_of_mem e (h e' he' hloads)⟩
    | false =>
      rw [if_neg Bool.false_ne_true]
      constructor
      · rintro ⟨-, h⟩
        refine ⟨fun e' he' hloads => ?_, fun e' he' hloads => ?_⟩
        · cases h e' he' hloads
        · cases h e' he' hloads
      · rintro ⟨h, -⟩
        refine ⟨nofun, fun e' he' hloads => ?_⟩
        cases h e' he' hloads

namespace SessionManager

theorem find?_storeJson (m : SessionManager) (key : String) :
    m.storeJson.find? key = (m.store.lookup key).map SessionInfo.toJson := by
  have hkeys : ((m.store.entries.map fun e => (e.1, e.2.toJson)).reverse.map Prod.fst).Nodup := by
    rw [map_reverse, nodup_reverse, map_map]
    exact m.store.nodupKeys
  rw [storeJson, Json.find?_object]
  apply Option.ext
  intro entry
  rw [JsonTable.lookup_eq_some_iff hkeys, mem_reverse, mem_map, Option.map_eq_some_iff]
  constructor
  · rintro ⟨⟨k, info⟩, hmem, heq⟩
    cases heq
    exact ⟨info, AList.mem_lookup_iff.2 hmem, rfl⟩
  · rintro ⟨info, hlookup, rfl⟩
    exact ⟨⟨key, info⟩, AList.mem_lookup_iff.1 hlookup, rfl⟩

theorem sessionId_fromJson_toJson (key : String) (info : SessionInfo) :
    (SessionInfo.fromJson key info.toJson).map (·.sessionId) = some info.sessionId := by
  simp [SessionInfo.fromJson, SessionInfo.toJson, lookup_cons, Json.getString, Json.getInt]

variable {m : SessionManager}

theorem indexFile_saveStore (h : m.saveStore.2 = some ()) :
    m.saveStore.1.indexFile = some (.json m.saveStore.1.storeJson) := by
  rw [saveStore, Json.dump] at h ⊢
  cases hutf8 : m.storeJson.isUtf8 with
  | true => rfl
  | false =>
    rw [hutf8] at h
    cases h

/-- `GetOrCreate` keeps the sessions, and either leaves the index file alone or writes them all
to it. -/
theorem getOrCreate_keeps {m' : SessionManager} {key displayName channel sid : String}
    {now : Timestamp} {handle : SessionHandle}
    (h : m.getOrCreate key displayName channel sid now = (m', some handle)) :
    m' = m ∨ m'.indexFile = some (.json m'.storeJson) ∧
      ∀ k info, m.store.lookup k = some info → m'.store.lookup k = some info := by
  rw [getOrCreate] at h
  cases hlookup : m.store.lookup (normalized key) with
  | some info =>
    rw [hlookup] at h
    cases h
    exact .inl rfl
  | none =>
    rw [hlookup] at h
    obtain ⟨rfl, hhandle⟩ := Prod.ext_iff.1 h
    obtain ⟨saved, hsaved, -⟩ := Option.map_eq_some_iff.1 hhandle
    refine .inr ⟨indexFile_saveStore hsaved, fun k info hk => ?_⟩
    dsimp only
    rw [saveStore_store, Table.lookup_insert_ite, if_neg, hk]
    rintro rfl
    rw [hk] at hlookup
    cases hlookup

theorem indexedId_of_saved (h : m.indexFile = some (.json m.storeJson))
    (key : String) : m.indexedId key = (m.store.lookup key).map (·.sessionId) := by
  rw [indexedId, h]
  dsimp only
  rw [find?_storeJson]
  cases m.store.lookup key with
  | none => rfl
  | some info => exact sessionId_fromJson_toJson key info

end SessionManager

/-! ## The readable entries survive -/

/-- Every readable entry of the index file is in the store after loading, and after any
`GetOrCreate` it is in the store and in the index file, with its session id. -/
def EntriesSurvive (entries : List (String × Json)) : Prop :=
  ∀ (sessionsDir : String) (transcripts : Table String (List (Option Json))),
    let m := SessionManager.opened sessionsDir (some (.json (.obj entries))) transcripts
    ∀ key entry info, (key, entry) ∈ entries → SessionInfo.fromJson key entry = some info →
      (m.store.lookup key).map (·.sessionId) = some info.sessionId ∧
        ∀ (key' displayName channel sid : String) (now : Timestamp) (m' : SessionManager)
          (handle : SessionHandle),
          m.getOrCreate key' displayName channel sid now = (m', some handle) →
            (m'.store.lookup key).map (·.sessionId) = some info.sessionId ∧
              m'.indexedId key = some info.sessionId

/-- **Loading the index.**  Whatever else a JSON object in `sessions.json` has, its readable
entries survive exactly when none of them comes after an entry that cannot be read, in the order
of the keys. -/
theorem entriesSurvive_iff {entries : List (String × Json)}
    (hsorted : (entries.map Prod.fst).Pairwise (· < ·)) :
    EntriesSurvive entries ↔ entries.Pairwise fun e e' => loads e' → loads e := by
  have hkeys : (entries.map Prod.fst).Nodup := hsorted.imp ne_of_lt
  have htake : ((entries.takeWhile loads).map Prod.fst).Nodup :=
    hkeys.sublist (( takeWhile_prefix loads).sublist.map Prod.fst)
  rw [← forall_mem_takeWhile_iff hkeys]
  constructor
  · rintro h ⟨key, entry⟩ hmem hloads
    obtain ⟨info, hinfo⟩ := Option.isSome_iff_exists.1 hloads
    have hstore := (h "" ∅ key entry info hmem hinfo).1
    obtain ⟨info', hlookup, -⟩ := Option.map_eq_some_iff.1 hstore
    have hloaded : (loadEntries entries ∅).lookup key = some info' := hlookup
    rw [lookup_loadEntries hkeys] at hloaded
    cases hfound : (entries.takeWhile loads).lookup key with
    | none =>
      rw [hfound] at hloaded
      cases hloaded
    | some entry' =>
      have hmem' := (JsonTable.lookup_eq_some_iff htake).1 hfound
      have hentry : entry' = entry := by
        have hall := ( takeWhile_prefix loads).subset hmem'
        rw [← JsonTable.lookup_eq_some_iff hkeys] at hall hmem
        exact Option.some.inj (hall.symm.trans hmem)
      exact hentry ▸ hmem'
  · rintro h sessionsDir transcripts m key entry info hmem hinfo
    have hfound : (entries.takeWhile loads).lookup key = some entry :=
      (JsonTable.lookup_eq_some_iff htake).2 (h _ hmem (Option.isSome_iff_exists.2 ⟨info, hinfo⟩))
    have hstore : m.store.lookup key = some info := by
      have hloaded := lookup_loadEntries hkeys ∅ key
      rw [hfound] at hloaded
      exact hloaded.trans hinfo
    refine ⟨by rw [hstore]; rfl, ?_⟩
    rintro key' displayName channel sid now m' handle hget
    rcases SessionManager.getOrCreate_keeps hget with hsame | ⟨hindex, hkeeps⟩
    · rw [hsame]
      refine ⟨by rw [hstore]; rfl, ?_⟩
      have hindex : m.indexedId key = (entries.lookup key).bind
          fun entry => (SessionInfo.fromJson key entry).map (·.sessionId) := rfl
      rw [hindex, (JsonTable.lookup_eq_some_iff hkeys).2 hmem, Option.bind_some, hinfo]
      rfl
    · rw [SessionManager.indexedId_of_saved hindex, hkeeps key info hstore]
      exact ⟨rfl, rfl⟩

/-- An index with two sessions and, after them, an entry that is no object. -/
def lastMalformed : List (String × Json) :=
  [("agent:main:a", .obj [("sessionId", .str "1")]), ("agent:main:b", .obj []),
    ("agent:main:c", .null)]

/-- The two sessions survive. -/
theorem entriesSurvive_lastMalformed : EntriesSurvive lastMalformed :=
  (entriesSurvive_iff (by decide +kernel)).2 (by decide +kernel)

/-- An entry with a session id that is a number costs the session after it. -/
theorem not_entriesSurvive : ¬ ∀ entries : List (String × Json),
    (entries.map Prod.fst).Pairwise (· < ·) → EntriesSurvive entries := by
  rintro h
  have hsurvive := h
    [("agent:main:a", .obj [("sessionId", .int 1)]),
      ("agent:main:b", .obj [("sessionId", .str "2")])]
    (by decide +kernel)
  have hlookup := (hsurvive "" ∅ "agent:main:b" (.obj [("sessionId", .str "2")]) _ (by simp) rfl).1
  revert hlookup
  decide +kernel

end RavBot.Session
