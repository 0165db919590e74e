import Mathlib.Data.String.Basic
import RavBot.Lib.IsoTime
import RavBot.Lib.StableSort
import RavBot.Session.SessionManager

/-!
# Listing sessions

The handler of `sessions.list` gives the sessions between two places in the list of `ListSessions`, which it
computes from the numbers that a client sends.  A negative offset takes it in front of the list, and a limit
beyond what an `int` holds behind the first session is undefined; where neither happens, the pages of a limit
are the list, cut at the multiples of the limit (`paginates_iff`).
-/

open List

namespace RavBot.Gateway

open RavBot.Lib RavBot.Session

/-! ## The list -/

/-- What `std::sort` makes of the sessions: those that were updated last come first, and others at the same
time in any order. -/
structure SessionSorter where
  sort : List SessionInfo → List SessionInfo
  perm : ∀ sessions, (sort sessions).Perm sessions
  sorted : ∀ sessions, StableSort.Sorted SessionInfo.updatedAt (sort sessions)

def listSessions (sorter : SessionSorter) (m : SessionManager) : List SessionInfo :=
  sorter.sort (m.store.entries.map fun e => e.2)

/-! ## The handler -/

/-- An addition of `int`s, which is undefined when the sum is none. -/
def addInt (a b : Int) : Option Int := if -2 ^ 31 ≤ a + b ∧ a + b < 2 ^ 31 then some (a + b) else none

/-- `sessions[i]`, which is undefined outside the list. -/
def element {α : Type} (sessions : List α) (i : Int) : Option α := if 0 ≤ i then sessions[i.toNat]? else none

/-- The loop of the handler: so many elements, from a place on. -/
def elements {α : Type} (sessions : List α) : Nat → Int → Option (List α)
  | 0, _ => some []
  | n + 1, i => do
      let session ← element sessions i
      let rest ← elements sessions n (i + 1)
      some (session :: rest)

def total {α : Type} (sessions : List α) : Int := Json.toInt32 sessions.length

/-- `start`. -/
def pageStart {α : Type} (sessions : List α) (offset : Int) : Int := min offset (total sessions)

/-- `end`. -/
def pageEnd {α : Type} (sessions : List α) (limit offset : Int) : Option Int :=
  if 0 < limit then (addInt (pageStart sessions offset) limit).map (min · (total sessions)) else some (total sessions)

def page {α : Type} (sessions : List α) (limit offset : Int) : Option (List α) :=
  (pageEnd sessions limit offset).bind fun stop =>
    elements sessions (stop - pageStart sessions offset).toNat (pageStart sessions offset)

def isoToMs (text : String) : Int :=
  if text = "" then 0
  else match IsoTime.getTime text.toList with
    | none => 0
    | some tm => if tm.toTime < 0 then 0 else tm.toTime * 1000

/-- The row of a session. -/
def sessionRow (s : SessionInfo) : Json :=
  let kind := if Text.contains s.sessionKey "group:".toList then "group"
    else if Text.contains s.sessionKey "global".toList then "global"
    else "direct"
  .object
    [("key", .str s.sessionKey), ("sessionId", .str s.sessionId), ("displayName", .str s.displayName),
      ("surface", .str (if s.channel = "" then "cli" else s.channel)), ("updatedAt", .int (isoToMs s.updatedAt)),
      ("kind", .str kind)]

/-- Why a handler does not answer: it throws, or its behaviour is undefined. -/
inductive NoAnswer where
  | throws
  | undefined
  deriving DecidableEq, Repr

/-- The handler of `sessions.list`, with the time and what the configuration says of the model. -/
def sessionsList (sorter : SessionSorter) (m : SessionManager) (nowMs : Int) (model : String) (contextWindow : Int)
    (params : Json) : Except NoAnswer Json :=
  match params.value Json.getInt "limit" 0, params.value Json.getInt "offset" 0 with
  | some limit, some offset =>
    let sessions := listSessions sorter m
    match page sessions limit offset with
    | some rows => .ok (.object
        [("ts", .int nowMs), ("path", .str ""), ("count", .int (total sessions)),
          ("defaults", .object [("model", .str model), ("contextTokens", .int contextWindow)]),
          ("sessions", .arr (rows.map sessionRow))])
    | none => .error .undefined
  | _, _ => .error .throws

def request (limit offset : Int) : Json := .object [("limit", .int limit), ("offset", .int offset)]

/-- The rows of an answer. -/
def rows : Except NoAnswer Json → Option (List Json)
  | .ok answer =>
    match answer.find? "sessions" with
    | some (.arr rows) => some rows
    | _ => none
  | .error _ => none

/-! ## What is to hold -/

/-- A request has defined behaviour, the times are in the range of `int64_t`, and so many pages of a limit, which
reach the end of the list, are together the rows of the list. -/
structure Paginates (answer : Json → Except NoAnswer Json) (sessions : List SessionInfo) (limit offset : Int)
    (n : Nat) : Prop where
  defined : answer (request limit offset) ≠ .error .undefined
  times : ∀ s ∈ sessions, 0 ≤ isoToMs s.updatedAt ∧ isoToMs s.updatedAt < 2 ^ 63
  complete : 1 ≤ limit → (∀ k < n, (k : Int) * limit < 2 ^ 31) → (sessions.length : Int) ≤ n * limit →
    ((List.range n).mapM fun k : Nat => rows (answer (request limit (k * limit)))).map List.flatten =
      some (sessions.map sessionRow)

/-- The end of a page is an `int`, and it begins in front of the list only where nothing is behind it. -/
def InReach {α : Type} (sessions : List α) (limit offset : Int) : Prop :=
  (0 < limit → min offset (total sessions) + limit < 2 ^ 31) ∧ (offset < total sessions → 0 ≤ offset)

/-! ## One page -/

variable {α : Type}

theorem total_bounds (sessions : List α) : -2 ^ 31 ≤ total sessions ∧ total sessions < 2 ^ 31 := by
  rw [total, Json.toInt32, Int.bmod_def]
  split_ifs <;> omega

theorem total_le (sessions : List α) : total sessions ≤ sessions.length := by
  rw [total, Json.toInt32, Int.bmod_def]
  split_ifs <;> omega

theorem elements_eq {sessions : List α} {n : Nat} {i : Int} (hi : 0 ≤ i) (hn : i + n ≤ sessions.length) :
    elements sessions n i = some ((sessions.drop i.toNat).take n) := by
  induction n generalizing i with
  | zero => rfl
  | succ n ih =>
    have hlt : i.toNat < sessions.length := by omega
    have hnext : (i + 1).toNat = i.toNat + 1 := by omega
    rw [elements, element, if_pos hi, getElem?_eq_getElem hlt, ih (by omega) (by omega), hnext]
    rw [drop_eq_getElem_cons hlt, take_succ_cons]
    rfl

theorem isSome_elements_iff {sessions : List α} {n : Nat} {i : Int} (hn : i + n ≤ sessions.length) :
    (elements sessions n i).isSome ↔ (n ≠ 0 → 0 ≤ i) := by
  by_cases hi : 0 ≤ i
  · rw [elements_eq hi hn]
    exact iff_of_true rfl fun _ => hi
  · cases n with
    | zero => exact iff_of_true rfl fun h => absurd rfl h
    | succ n =>
      rw [elements, element, if_neg hi]
      exact iff_of_false Bool.false_ne_true fun h => hi (h n.succ_ne_zero)

variable {limit offset : Int}

theorem pageEnd_eq {sessions : List α} (hlimit : 0 < limit) (hoffset : -2 ^ 31 ≤ offset) :
    pageEnd sessions limit offset =
      if min offset (total sessions) + limit < 2 ^ 31 then
        some (min (min offset (total sessions) + limit) (total sessions))
      else none := by
  have hlow := (total_bounds sessions).1
  rw [pageEnd, if_pos hlimit, pageStart, addInt]
  by_cases hend : min offset (total sessions) + limit < 2 ^ 31
  · rw [if_pos hend, if_pos ⟨by omega, hend⟩, Option.map_some]
  · rw [if_neg hend, if_neg fun h => hend h.2, Option.map_none]

theorem isSome_page_iff {sessions : List α} (hoffset : -2 ^ 31 ≤ offset) :
    (page sessions limit offset).isSome ↔ InReach sessions limit offset := by
  have hle := total_le sessions
  rw [page, InReach]
  by_cases hlimit : 0 < limit
  · rw [pageEnd_eq hlimit hoffset]
    by_cases hend : min offset (total sessions) + limit < 2 ^ 31
    · rw [if_pos hend, Option.bind_some, pageStart, isSome_elements_iff (by omega)]
      constructor
      · intro h
        exact ⟨fun _ => hend, fun hlt => by omega⟩
      · intro h hne
        have hstart := h.2 (by omega)
        omega
    · rw [if_neg hend, Option.bind_none]
      exact iff_of_false Bool.false_ne_true fun h => hend (h.1 hlimit)
  · rw [pageEnd, if_neg hlimit, Option.bind_some, pageStart, isSome_elements_iff (by omega)]
    constructor
    · intro h
      exact ⟨fun hpos => absurd hpos hlimit, fun hlt => by omega⟩
    · intro h hne
      have hstart := h.2 (by omega)
      omega

/-! ## The pages of a limit -/

theorem total_eq {sessions : List α} (h : (sessions.length : Int) < 2 ^ 31) : total sessions = sessions.length :=
  UsageInfo.toInt32_eq_self (by omega) h

theorem page_eq {sessions : List α} (hlength : (sessions.length : Int) < 2 ^ 31)
    (hlimit : 1 ≤ limit) (hoffset : 0 ≤ offset) (hend : min offset sessions.length + limit < 2 ^ 31) :
    page sessions limit offset = some ((sessions.drop offset.toNat).take limit.toNat) := by
  rw [page, pageEnd_eq hlimit (by omega), pageStart, total_eq hlength, if_pos hend, Option.bind_some,
    elements_eq (by omega) (by omega)]
  by_cases hin : offset < sessions.length
  · have hstart : min offset (sessions.length : Int) = offset := by omega
    rw [hstart]
    by_cases hfull : offset + limit ≤ sessions.length
    · congr 2
      omega
    · -- the last page takes what is left
      rw [take_of_length_le, take_of_length_le] <;> rw [length_drop] <;> omega
  · rw [drop_eq_nil_of_le (by omega), drop_eq_nil_of_le (by omega), take_nil, take_nil]

theorem page_of_wrapped {sessions : List α} (htotal : total sessions < 0) (hlimit : 1 ≤ limit)
    (hfits : limit < 2 ^ 31) (hoffset : 0 ≤ offset) : page sessions limit offset = some [] := by
  have hstart : min offset (total sessions) = total sessions := by omega
  have hstop : (min (total sessions + limit) (total sessions) - total sessions).toNat = 0 := by omega
  rw [page, pageEnd_eq hlimit (by omega), pageStart, hstart, if_pos (by omega), Option.bind_some, hstop, elements]

theorem flatten_pieces (l : List α) (c n : Nat) :
    ((List.range n).map fun k => (l.drop (k * c)).take c).flatten = l.take (n * c) := by
  induction n with
  | zero => simp
  | succ n ih =>
    rw [range_succ, map_append, flatten_append, ih, Nat.succ_mul, take_add]
    simp

/-! ## The handler -/

section Handler

variable (sorter : SessionSorter) (m : SessionManager) (nowMs : Int) (model : String) (contextWindow : Int)

theorem sessionsList_eq {limit offset : Int} (hlimit : -2 ^ 31 ≤ limit ∧ limit < 2 ^ 31)
    (hoffset : -2 ^ 31 ≤ offset ∧ offset < 2 ^ 31) :
    (sessionsList sorter m nowMs model contextWindow (request limit offset) = .error .undefined ↔
        page (listSessions sorter m) limit offset = none) ∧
      rows (sessionsList sorter m nowMs model contextWindow (request limit offset)) =
        (page (listSessions sorter m) limit offset).map (List.map sessionRow) := by
  have hl : (request limit offset).value Json.getInt "limit" 0 = some limit := by
    rw [request, Json.value_object]
    exact congrArg some (UsageInfo.toInt32_eq_self hlimit.1 hlimit.2)
  have ho : (request limit offset).value Json.getInt "offset" 0 = some offset := by
    rw [request, Json.value_object]
    exact congrArg some (UsageInfo.toInt32_eq_self hoffset.1 hoffset.2)
  rw [sessionsList, hl, ho]
  cases hpage : page (listSessions sorter m) limit offset with
  | none => simp [hpage, rows]
  | some infos => simp [hpage, rows, Json.find?_object]

end Handler

theorem isoToMs_bounds (text : String) : 0 ≤ isoToMs text ∧ isoToMs text < 2 ^ 63 := by
  rw [isoToMs]
  split_ifs with hempty
  · exact ⟨le_rfl, by norm_num⟩
  · cases htm : IsoTime.getTime text.toList with
    | none => exact ⟨le_rfl, by norm_num⟩
    | some tm =>
      have hlt := IsoTime.toTime_lt_of_getTime htm
      dsimp only
      split_ifs with hneg
      · exact ⟨le_rfl, by norm_num⟩
      · exact ⟨by omega, by omega⟩

theorem mapM_eq_map {α β γ : Type} {g : α → Option β} {g' : α → Option γ} {f : β → γ} {l : List α}
    (h : ∀ a ∈ l, g' a = (g a).map f) : l.mapM g' = (l.mapM g).map (List.map f) := by
  induction l with
  | nil => rfl
  | cons a l ih =>
    rw [forall_mem_cons] at h
    rw [mapM_cons, mapM_cons, h.1, ih h.2]
    cases g a with
    | none => rfl
    | some b => cases l.mapM g <;> rfl

theorem total_neg {sessions : List α} (hlow : 2 ^ 31 ≤ (sessions.length : Int))
    (hhigh : (sessions.length : Int) < 2 ^ 32) : total sessions < 0 := by
  rw [total, Json.toInt32, Int.bmod_def]
  split_ifs <;> omega

theorem pages_complete_iff {β : Type} {f : α → β} {sessions : List α} {n : Nat}
    {rows : Nat → Option (List β)} (hrows : ∀ k < n, rows k = (page sessions limit (k * limit)).map (List.map f))
    (hlimit : 1 ≤ limit) (hfits : limit < 2 ^ 31) (hoffsets : ∀ k < n, (k : Int) * limit < 2 ^ 31)
    (hall : (sessions.length : Int) ≤ n * limit) :
    ((List.range n).mapM rows).map List.flatten = some (sessions.map f) ↔
      (sessions.length : Int) < 2 ^ 31 ∧ ∀ k < n, min (k * limit) (sessions.length : Int) + limit < 2 ^ 31 := by
  have hnonneg (k : Nat) : 0 ≤ (k : Int) * limit := by positivity
  rw [mapM_eq_map fun k hk => hrows k (mem_range.1 hk), Option.map_map]
  by_cases hlength : (sessions.length : Int) < 2 ^ 31
  · rw [and_iff_right hlength]
    constructor
    · intro hpages k hk
      obtain ⟨pages, hmap, -⟩ := Option.map_eq_some_iff.1 hpages
      obtain ⟨rows, -, hrows⟩ := exists_of_forall₂ (mapM_eq_some_iff.1 hmap) k (mem_range.2 hk)
      have hlow : -2 ^ 31 ≤ (k : Int) * limit := le_trans (by norm_num) (hnonneg k)
      have hreach := (isSome_page_iff hlow).1 (Option.isSome_iff_exists.2 ⟨rows, hrows⟩)
      rw [← total_eq hlength]
      exact hreach.1 hlimit
    · intro hends
      obtain ⟨c, rfl⟩ := Int.eq_ofNat_of_zero_le (by omega : 0 ≤ limit)
      have hmap : ((List.range n).mapM fun k : Nat => page sessions c (k * c)) =
          some ((List.range n).map fun k => (sessions.drop (k * c)).take c) := by
        rw [mapM_eq_some_iff, forall₂_map_right_iff, forall₂_same]
        intro k hk
        have hplace : ((k : Int) * c).toNat = k * c := by rw [← Nat.cast_mul, Int.toNat_natCast]
        rw [page_eq hlength hlimit (hnonneg k) (hends k (mem_range.1 hk)), hplace, Int.toNat_natCast]
      rw [hmap, Option.map_some, Function.comp_apply, ← map_flatten, flatten_pieces, take_of_length_le]
      exact_mod_cast hall
  · refine iff_of_false ?_ fun h => hlength h.1
    -- the length is taken for a negative number, and every page is empty
    have hne : n ≠ 0 := by
      rintro rfl
      rw [Nat.cast_zero, zero_mul] at hall
      omega
    obtain ⟨last, rfl⟩ := Nat.exists_eq_succ_of_ne_zero hne
    have hlast := hoffsets last (Nat.lt_succ_self last)
    have hsum : ((last.succ : Nat) : Int) * limit = last * limit + limit := by
      push_cast
      ring
    have htotal : total sessions < 0 := total_neg (not_lt.1 hlength) (by omega)
    intro hpages
    obtain ⟨pages, hmap, hflat⟩ := Option.map_eq_some_iff.1 hpages
    have hempty : ∀ rows ∈ pages, rows = [] := by
      intro rows hrows
      obtain ⟨k, -, hk⟩ := exists_of_forall₂ (mapM_eq_some_iff.1 hmap).flip rows hrows
      exact Option.some.inj (hk.symm.trans (page_of_wrapped htotal hlimit hfits (hnonneg k)))
    rw [Function.comp_apply, ← map_flatten, flatten_eq_nil_iff.2 hempty] at hflat
    have hnil := congrArg List.length hflat
    rw [length_map, length_map, length_nil] at hnil
    rw [← hnil] at hlength
    exact hlength (by norm_num)

/-- **Pages.**  A request is answered exactly when its page is in reach, and the pages of a limit are together the
list exactly when its length and their ends are `int`s. -/
theorem paginates_iff (sorter : SessionSorter) (m : SessionManager) (nowMs : Int) (model : String)
    (contextWindow : Int) {limit offset : Int} (hlimit : -2 ^ 31 ≤ limit ∧ limit < 2 ^ 31)
    (hoffset : -2 ^ 31 ≤ offset ∧ offset < 2 ^ 31) (n : Nat) :
    Paginates (sessionsList sorter m nowMs model contextWindow) (listSessions sorter m) limit offset n ↔
      InReach (listSessions sorter m) limit offset ∧
        (1 ≤ limit → (∀ k < n, (k : Int) * limit < 2 ^ 31) →
          ((listSessions sorter m).length : Int) ≤ n * limit →
          ((listSessions sorter m).length : Int) < 2 ^ 31 ∧
            ∀ k < n, min (k * limit) ((listSessions sorter m).length : Int) + limit < 2 ^ 31) := by
  have hdefined : sessionsList sorter m nowMs model contextWindow (request limit offset) ≠ .error .undefined ↔
      InReach (listSessions sorter m) limit offset := by
    rw [ne_eq, (sessionsList_eq sorter m nowMs model contextWindow hlimit hoffset).1, ← ne_eq,
      Option.ne_none_iff_isSome]
    exact isSome_page_iff hoffset.1
  have hrows (hpos : 1 ≤ limit) (hoffsets : ∀ k < n, (k : Int) * limit < 2 ^ 31) (k : Nat) (hk : k < n) :
      rows (sessionsList sorter m nowMs model contextWindow (request limit (k * limit))) =
        (page (listSessions sorter m) limit (k * limit)).map (List.map sessionRow) := by
    have hlow : -2 ^ 31 ≤ (k : Int) * limit := le_trans (by norm_num) (by positivity : 0 ≤ (k : Int) * limit)
    exact (sessionsList_eq sorter m nowMs model contextWindow hlimit ⟨hlow, hoffsets k hk⟩).2
  constructor
  · rintro ⟨hanswers, -, hcomplete⟩
    refine ⟨hdefined.1 hanswers, fun hpos hoffsets hall => ?_⟩
    exact (pages_complete_iff (hrows hpos hoffsets) hpos hlimit.2 hoffsets hall).1 (hcomplete hpos hoffsets hall)
  · rintro ⟨hreach, hends⟩
    refine ⟨hdefined.2 hreach, fun s _ => isoToMs_bounds s.updatedAt, fun hpos hoffsets hall => ?_⟩
    exact (pages_complete_iff (hrows hpos hoffsets) hpos hlimit.2 hoffsets hall).2 (hends hpos hoffsets hall)

def stableSorter : SessionSorter where
  sort := StableSort.sortDesc SessionInfo.updatedAt
  perm sessions := perm_insertionSort _ sessions
  sorted := StableSort.sorted_sortDesc SessionInfo.updatedAt

/-- A manager with two sessions. -/
def twoSessions : SessionManager where
  sessionsDir := "sessions"
  store := ((∅ : Table String SessionInfo).insert "agent:main:main"
    ⟨"agent:main:main", "1", "2026-01-02T03:04:05Z", "", "Main", "", 0⟩).insert "agent:main:other"
    ⟨"agent:main:other", "2", "2026-01-02T03:04:05Z", "", "Other", "", 0⟩
  indexFile := none
  transcripts := ∅

/-- Two sessions on pages of one. -/
theorem paginates_two :
    Paginates (sessionsList stableSorter twoSessions 0 "" 0) (listSessions stableSorter twoSessions) 1 1 2 := by
  have hlength : (listSessions stableSorter twoSessions).length = 2 := (stableSorter.perm _).length_eq
  have htotal : total (listSessions stableSorter twoSessions) = _ := total_eq (by rw [hlength]; norm_num)
  refine (paginates_iff stableSorter twoSessions 0 "" 0 (by norm_num) (by norm_num) 2).2 ⟨?_, fun _ _ _ => ?_⟩
  · rw [InReach, htotal, hlength]
    norm_num
  · rw [hlength]
    exact ⟨by norm_num, fun k hk => by omega⟩

/-- A page in front of the list. -/
theorem not_paginates : ¬ ∀ sorter m nowMs model contextWindow limit offset n,
    -2 ^ 31 ≤ limit ∧ limit < 2 ^ 31 → -2 ^ 31 ≤ offset ∧ offset < 2 ^ 31 →
    Paginates (sessionsList sorter m nowMs model contextWindow) (listSessions sorter m) limit offset n := by
  intro h
  have hdefined := (h stableSorter ⟨"sessions", ∅, none, ∅⟩ 0 "" 0 0 (-1) 0 (by norm_num) (by norm_num)).defined
  rw [ne_eq, (sessionsList_eq stableSorter _ 0 "" 0 (by norm_num) (by norm_num)).1, ← ne_eq,
    Option.ne_none_iff_isSome, isSome_page_iff (by norm_num)] at hdefined
  have hlength : (listSessions stableSorter ⟨"sessions", ∅, none, ∅⟩).length = 0 := (stableSorter.perm _).length_eq
  have htotal : total (listSessions stableSorter ⟨"sessions", ∅, none, ∅⟩) = _ :=
    total_eq (by rw [hlength]; norm_num)
  exact absurd (hdefined.2 (by rw [htotal, hlength]; norm_num)) (by norm_num)

end RavBot.Gateway
