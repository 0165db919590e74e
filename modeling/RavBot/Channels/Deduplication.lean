import Mathlib.Data.Finset.Sort
import Mathlib.Data.Int.ConditionallyCompleteOrder
import RavBot.Lib.Json
import RavBot.Lib.Run
import RavBot.Lib.Table

/-!
# Updates are handled once

`HandleUpdate` looks an update up in a store of those that were processed, records it there, and hands it
on.  The store keeps a watermark beside the set, and takes everything up to the watermark for processed, so
an update that arrives after one with a larger id is dropped; between the look and the record another thread
may look as well; and `Load` reads the watermark as an `int`.  `handles_once` says that updates are handled
once along the runs in which none of this matters.

A store is configured.  Each step below is what a thread does while it holds the mutex of the store, or
between two such places; a step of `Save` writes the file at once, and what `Load` finds while the file is
being written is that it cannot be parsed.
-/

open List

namespace RavBot.Channels

open RavBot.Lib

/-! ## The store -/

structure DeduplicationStore where
  watermark : Int := 0
  processedIds : Finset Int := ∅
deriving DecidableEq

namespace DeduplicationStore

def isProcessed (s : DeduplicationStore) (updateId : Int) : Bool :=
  if updateId ≤ s.watermark then true else decide (updateId ∈ s.processedIds)

def markProcessed (s : DeduplicationStore) (updateId : Int) : DeduplicationStore where
  watermark := if s.watermark < updateId then updateId else s.watermark
  processedIds := insert updateId s.processedIds

/-- `retention` is a number of hours. -/
def cleanup (s : DeduplicationStore) (retention : Int) : DeduplicationStore :=
  let retentionThreshold := s.watermark - retention.tdiv 24 * 10000
  { s with processedIds := s.processedIds.filter fun id => ¬ id < retentionThreshold }

/-- What `Save` writes. -/
def toJson (s : DeduplicationStore) : Json :=
  .object [("watermark", .int s.watermark), ("processed_ids", .arr ((s.processedIds.sort (· ≤ ·)).map .int))]

/-- The ids that are read before one that is no number. -/
def readIds : List Json → List Int
  | [] => []
  | j :: items =>
    match j.getInt64 with
    | some id => id :: readIds items
    | none => []

/-- What `Load` makes of a file.  A watermark that is no number makes it throw before it has changed
anything, an id that is no number makes it throw after the ids before it. -/
def load (s : DeduplicationStore) (j : Json) : DeduplicationStore :=
  match j.value Json.getInt "watermark" 0 with
  | none => s
  | some watermark =>
    match j.find? "processed_ids" with
    | some (.arr items) => ⟨watermark, (readIds items).toFinset⟩
    | _ => ⟨watermark, ∅⟩

end DeduplicationStore

/-! ## Updates -/

/-- What `HandleUpdate` hands an update to. -/
inductive Handling where
  | message (laneId : String) (message : Json)
  | callbackQuery (query : Json)
  | nothing
deriving BEq

/-- The update id, `none` when there is none or it throws. -/
def updateId (update : Json) : Option Int := (update.find? "update_id").bind Json.getInt64

def extractChatId (chat : Json) : Option String :=
  match chat.find? "id" with
  | some id => id.getInt64.map toString
  | none => some ""

def getLaneId (message : Json) : Option String :=
  match message.find? "chat" with
  | some chat => extractChatId chat
  | none => some "default"

/-- What is done with an update that was recorded, `none` when this throws. -/
def handling (update : Json) : Option Handling :=
  match update.find? "message" with
  | some message => (getLaneId message).map fun laneId => .message laneId message
  | none =>
    match update.find? "callback_query" with
    | some query => some (.callbackQuery query)
    | none => some .nothing

/-! ## Threads -/

inductive UpdatePhase where
  /-- `HandleUpdate` has not found the update in the store. -/
  | checked (update : Json) (id : Int)
  /-- `HandleUpdate` has recorded the update. -/
  | recorded (update : Json) (id : Int)
  /-- `Save` has released the mutex. -/
  | saving (j : Json)
  /-- `Load` has parsed the file. -/
  | loading (j : Json)

namespace UpdatePhase

def unrecorded : UpdatePhase → Option Int
  | checked _ id => some id
  | _ => none

def unhanded : UpdatePhase → Option Int
  | recorded _ id => some id
  | _ => none

def contents : UpdatePhase → Option Json
  | saving j | loading j => some j
  | _ => none

end UpdatePhase

/-- The channel with its threads and the file of the store, and what happened so far: the ids of the updates
that were delivered, those that were recorded, and those that were handed on. -/
structure TelegramChannel where
  dedupStore : DeduplicationStore := {}
  threads : Table Nat UpdatePhase := ∅
  file : Option Json := none
  delivered : List Int := []
  recorded : List Int := []
  handed : List (Int × Handling) := []

inductive UpdateAction where
  /-- `HandleUpdate` is called, and looks the update up. -/
  | check (t : Nat) (update : Json)
  | record (t : Nat)
  | process (t : Nat)
  | cleanup (retention : Int)
  /-- `Save` is called, and takes what it writes. -/
  | save (t : Nat)
  | write (t : Nat) (opened : Bool)
  /-- `Load` is called, and reads the file. -/
  | load (t : Nat) (parsed : Bool)
  | restore (t : Nat)

namespace TelegramChannel

def step (s : TelegramChannel) : UpdateAction → Option TelegramChannel
  | .check t update =>
    if (s.threads.lookup t).isSome then none
    else
      match updateId update with
      | none => some s
      | some id =>
        some { s with
          delivered := s.delivered ++ [id]
          threads :=
            if s.dedupStore.isProcessed id then s.threads
            else AList.insert t (.checked update id) s.threads }
  | .record t =>
    match s.threads.lookup t with
    | some (.checked update id) =>
      some { s with
        dedupStore := s.dedupStore.markProcessed id
        recorded := s.recorded ++ [id]
        threads := AList.insert t (.recorded update id) s.threads }
    | _ => none
  | .process t =>
    match s.threads.lookup t with
    | some (.recorded update id) =>
      some { s with
        handed := s.handed ++ ((handling update).map fun h => (id, h)).toList
        threads := s.threads.erase t }
    | _ => none
  | .cleanup retention => some { s with dedupStore := s.dedupStore.cleanup retention }
  | .save t =>
    if (s.threads.lookup t).isSome then none
    else some { s with threads := AList.insert t (.saving s.dedupStore.toJson) s.threads }
  | .write t opened =>
    match s.threads.lookup t with
    | some (.saving j) =>
      some { s with
        file := if opened then some j else s.file
        threads := s.threads.erase t }
    | _ => none
  | .load t parsed =>
    if (s.threads.lookup t).isSome then none
    else
      match s.file with
      | none => some s
      | some j =>
        some { s with
          threads := if parsed then AList.insert t (.loading j) s.threads else s.threads }
  | .restore t =>
    match s.threads.lookup t with
    | some (.loading j) =>
      some { s with
        dedupStore := s.dedupStore.load j
        threads := s.threads.erase t }
    | _ => none

/-! ## The statement -/

/-- What the update of a step brings is either recorded already, or later than all that is recorded, and no
other thread is about to record it; what is to be handed on can be; and what is restored is a watermark of
31 bits that nothing was recorded after. -/
def InOrder (s : TelegramChannel) : UpdateAction → Prop
  | .check _ update =>
    match updateId update with
    | some id => 0 < id → id ∈ s.recorded ∨
        (∀ id' ∈ s.recorded, id' < id) ∧
          ∀ t phase, s.threads.lookup t = some phase → phase.unrecorded ≠ some id
    | none => True
  | .process t =>
    match s.threads.lookup t with
    | some (.recorded update _) => (handling update).isSome
    | _ => True
  | .restore t =>
    match s.threads.lookup t with
    | some (.loading j) =>
      match j.find? "watermark" with
      | some (.int watermark) => watermark < 2 ^ 31 ∧ ∀ id ∈ s.recorded, id ≤ watermark
      | _ => True
    | _ => True
  | _ => True

/-- Whether a step is in order can be computed. -/
instance InOrder.instDecidable (s : TelegramChannel) : ∀ a, Decidable (s.InOrder a)
  | .check _ update =>
    match hid : updateId update with
    | some id =>
      decidable_of_iff (0 < id → id ∈ s.recorded ∨
          (∀ id' ∈ s.recorded, id' < id) ∧ ∀ e ∈ s.threads.entries, e.2.unrecorded ≠ some id) (by
        rw [InOrder, hid, ← s.threads.forall_lookup_iff fun phase => phase.unrecorded ≠ some id])
    | none => .isTrue (by rw [InOrder, hid]; trivial)
  | .process t =>
    match ht : s.threads.lookup t with
    | some (.recorded update _) => decidable_of_iff ((handling update).isSome = true) (by rw [InOrder, ht])
    | some (.checked _ _) => .isTrue (by rw [InOrder, ht]; trivial)
    | some (.saving _) => .isTrue (by rw [InOrder, ht]; trivial)
    | some (.loading _) => .isTrue (by rw [InOrder, ht]; trivial)
    | none => .isTrue (by rw [InOrder, ht]; trivial)
  | .restore t =>
    match ht : s.threads.lookup t with
    | some (.loading j) =>
      match hj : j.find? "watermark" with
      | some (.int watermark) =>
        decidable_of_iff (watermark < 2 ^ 31 ∧ ∀ id ∈ s.recorded, id ≤ watermark) (by
          simp only [InOrder, ht, hj])
      | some .null => .isTrue (by simp only [InOrder, ht, hj])
      | some (.bool _) => .isTrue (by simp only [InOrder, ht, hj])
      | some (.real _) => .isTrue (by simp only [InOrder, ht, hj])
      | some (.str _) => .isTrue (by simp only [InOrder, ht, hj])
      | some (.arr _) => .isTrue (by simp only [InOrder, ht, hj])
      | some (.obj _) => .isTrue (by simp only [InOrder, ht, hj])
      | none => .isTrue (by simp only [InOrder, ht, hj])
    | some (.checked _ _) => .isTrue (by rw [InOrder, ht]; trivial)
    | some (.saving _) => .isTrue (by rw [InOrder, ht]; trivial)
    | some (.recorded _ _) => .isTrue (by rw [InOrder, ht]; trivial)
    | none => .isTrue (by rw [InOrder, ht]; trivial)
  | .record _ => .isTrue trivial
  | .cleanup _ => .isTrue trivial
  | .save _ => .isTrue trivial
  | .write _ _ => .isTrue trivial
  | .load _ _ => .isTrue trivial

/-! ## The store along a run -/

end TelegramChannel

theorem updateId_lt {update : Json} {id : Int} (h : updateId update = some id) : id < 2 ^ 63 := by
  rw [updateId, Option.bind_eq_some_iff] at h
  rcases h with ⟨j, -, hj⟩
  cases j <;> simp only [Json.getInt64, Json.toInt64, Option.some.injEq, reduceCtorEq] at hj
  case bool b =>
      subst hj
      split <;> norm_num
  case int n =>
      subst hj
      exact Int.bmod_lt (by norm_num)
  case real q =>
      subst hj
      exact Int.bmod_lt (by norm_num)

namespace DeduplicationStore

/-- What a store tells was recorded. -/
structure Fits (s : DeduplicationStore) (recorded : List Int) : Prop where
  watermark : s.watermark = 0 ∨ s.watermark ∈ recorded
  processed : ∀ id ∈ s.processedIds, id ∈ recorded

variable {s : DeduplicationStore} {recorded : List Int}

theorem Fits.append (h : s.Fits recorded) (id : Int) : s.Fits (recorded ++ [id]) where
  watermark := h.watermark.imp_right fun hmem => mem_append_left _ hmem
  processed := fun id' hid' => mem_append_left _ (h.processed id' hid')

theorem Fits.markProcessed (h : s.Fits recorded) (id : Int) :
    (s.markProcessed id).Fits (recorded ++ [id]) where
  watermark := by
    show (if s.watermark < id then id else s.watermark) = 0 ∨
      (if s.watermark < id then id else s.watermark) ∈ recorded ++ [id]
    split
    · exact Or.inr (mem_append_right _ (mem_singleton_self id))
    · exact (h.append id).watermark
  processed := by
    intro id' hid'
    rcases Finset.mem_insert.1 hid' with rfl | hid'
    · exact mem_append_right _ (mem_singleton_self id')
    · exact (h.append id).processed id' hid'

theorem Fits.cleanup (h : s.Fits recorded) (retention : Int) :
    (s.cleanup retention).Fits recorded where
  watermark := h.watermark
  processed := fun id hid => h.processed id (Finset.mem_filter.1 hid).1

theorem Fits.isProcessed_of_lt (h : s.Fits recorded) {id : Int}
    (hpos : 0 < id) (hlt : ∀ id' ∈ recorded, id' < id) : s.isProcessed id = false := by
  have hwatermark : s.watermark < id := by
    rcases h.watermark with hzero | hmem
    · exact hzero ▸ hpos
    · exact hlt _ hmem
  have hprocessed : id ∉ s.processedIds := fun hid => (hlt id (h.processed id hid)).false
  rw [isProcessed, if_neg (not_le.2 hwatermark), decide_eq_false hprocessed]

theorem lt_of_isProcessed {id : Int} (h : s.isProcessed id = false) : s.watermark < id := by
  by_contra hle
  rw [isProcessed, if_pos (not_lt.1 hle)] at h
  cases h

theorem readIds_map {ids : List Int} (h : ∀ id ∈ ids, 0 < id ∧ id < 2 ^ 63) :
    readIds (ids.map .int) = ids := by
  induction ids with
  | nil => rfl
  | cons id ids ih =>
    obtain ⟨hid, hids⟩ := forall_mem_cons.1 h
    have hread : (Json.int id).getInt64 = some id := by
      rw [Json.getInt64, Json.toInt64, Int.bmod_eq_of_le] <;> omega
    rw [map_cons, readIds, hread]
    exact congrArg (id :: ·) (ih hids)

@[simp] theorem find?_watermark (s : DeduplicationStore) :
    s.toJson.find? "watermark" = some (.int s.watermark) := by
  rw [toJson, Json.find?_object]
  rfl

@[simp] theorem find?_processed_ids (s : DeduplicationStore) :
    s.toJson.find? "processed_ids" = some (.arr ((s.processedIds.sort (· ≤ ·)).map .int)) := by
  rw [toJson, Json.find?_object]
  rfl

theorem load_toJson (s : DeduplicationStore) {saved : DeduplicationStore}
    (hlow : 0 ≤ saved.watermark) (hhigh : saved.watermark < 2 ^ 31)
    (hids : ∀ id ∈ saved.processedIds, 0 < id ∧ id < 2 ^ 63) : s.load saved.toJson = saved := by
  have hwatermark : saved.toJson.value Json.getInt "watermark" 0 = some saved.watermark := by
    have hread : (Json.int saved.watermark).getInt = some saved.watermark := by
      rw [Json.getInt, Json.toInt32, Int.bmod_eq_of_le] <;> omega
    rw [← hread]
    show (match saved.toJson.find? "watermark" with | some v => v.getInt | none => some 0) = _
    rw [find?_watermark]
  have hread : readIds ((saved.processedIds.sort (· ≤ ·)).map .int) = saved.processedIds.sort (· ≤ ·) :=
    readIds_map fun id hid => hids id ((Finset.mem_sort _).1 hid)
  rw [load, hwatermark, find?_processed_ids]
  show DeduplicationStore.mk saved.watermark _ = saved
  rw [hread, Finset.sort_toFinset]

end DeduplicationStore

namespace TelegramChannel

/-! ## What runs in order keep -/

/-- What holds in every run in order. -/
structure Inv (s : TelegramChannel) : Prop where
  range : ∀ id ∈ s.recorded, 0 < id ∧ id < 2 ^ 63
  fits : s.dedupStore.Fits s.recorded
  covered : ∀ id ∈ s.recorded, id ≤ s.dedupStore.watermark
  file : ∀ j, s.file = some j → ∃ saved : DeduplicationStore, saved.Fits s.recorded ∧ j = saved.toJson
  contents : ∀ t phase j, s.threads.lookup t = some phase → phase.contents = some j →
    ∃ saved : DeduplicationStore, saved.Fits s.recorded ∧ j = saved.toJson
  unrecorded : ∀ t phase id, s.threads.lookup t = some phase → phase.unrecorded = some id →
    (0 < id ∧ id < 2 ^ 63) ∧ id ∉ s.recorded ∧
      ∀ t' phase', s.threads.lookup t' = some phase' → phase'.unrecorded = some id → t' = t
  unhanded : ∀ t phase id, s.threads.lookup t = some phase → phase.unhanded = some id →
    id ∈ s.recorded ∧ id ∉ s.handed.map Prod.fst ∧
      ∀ t' phase', s.threads.lookup t' = some phase' → phase'.unhanded = some id → t' = t
  nodup : (s.handed.map Prod.fst).Nodup
  handed : ∀ id ∈ s.handed.map Prod.fst, id ∈ s.recorded
  delivered : ∀ id ∈ s.delivered, 0 < id → id ∈ s.recorded ∨
    ∃ t phase, s.threads.lookup t = some phase ∧ phase.unrecorded = some id
  recorded : ∀ id ∈ s.recorded, id ∈ s.handed.map Prod.fst ∨
    ∃ t phase, s.threads.lookup t = some phase ∧ phase.unhanded = some id

theorem inv_init : Inv {} where
  range := nofun
  fits := ⟨Or.inl rfl, nofun⟩
  covered := nofun
  file := nofun
  contents := nofun
  unrecorded := nofun
  unhanded := nofun
  nodup := nodup_nil
  handed := nofun
  delivered := nofun
  recorded := nofun

variable {s : TelegramChannel}

theorem Inv.watermark_nonneg (h : s.Inv) : 0 ≤ s.dedupStore.watermark := by
  rcases h.fits.watermark with hzero | hmem
  · exact hzero.ge
  · exact (h.range _ hmem).1.le

variable {t : Nat}

variable {s' : TelegramChannel}

/-- A thread that is in no call of `HandleUpdate` comes or goes, and the store and the file stay what was
recorded. -/
theorem Inv.of_idle (h : s.Inv)
    (hfree : ∀ phase, s.threads.lookup t = some phase → phase.unrecorded = none ∧ phase.unhanded = none)
    (hother : ∀ t', t' ≠ t → s'.threads.lookup t' = s.threads.lookup t')
    (hnew : ∀ phase, s'.threads.lookup t = some phase → phase.unrecorded = none ∧ phase.unhanded = none ∧
      ∀ j, phase.contents = some j → ∃ saved : DeduplicationStore, saved.Fits s.recorded ∧ j = saved.toJson)
    (hfits : s'.dedupStore.Fits s.recorded) (hcovered : ∀ id ∈ s.recorded, id ≤ s'.dedupStore.watermark)
    (hfile : ∀ j, s'.file = some j → ∃ saved : DeduplicationStore, saved.Fits s.recorded ∧ j = saved.toJson)
    (hdelivered : s'.delivered = s.delivered) (hrecorded : s'.recorded = s.recorded)
    (hhanded : s'.handed = s.handed) : s'.Inv := by
  -- Threads in a call of `HandleUpdate` are the same before and after.
  have hunrecorded (t' : Nat) (phase : UpdatePhase) (id : Int) (hid : phase.unrecorded = some id) :
      s'.threads.lookup t' = some phase ↔ s.threads.lookup t' = some phase := by
    by_cases ht : t' = t
    · subst ht
      refine iff_of_false (fun hphase => ?_) fun hphase => ?_
      · rw [(hnew phase hphase).1] at hid
        cases hid
      · rw [(hfree phase hphase).1] at hid
        cases hid
    · rw [hother t' ht]
  have hunhanded (t' : Nat) (phase : UpdatePhase) (id : Int) (hid : phase.unhanded = some id) :
      s'.threads.lookup t' = some phase ↔ s.threads.lookup t' = some phase := by
    by_cases ht : t' = t
    · subst ht
      refine iff_of_false (fun hphase => ?_) fun hphase => ?_
      · rw [(hnew phase hphase).2.1] at hid
        cases hid
      · rw [(hfree phase hphase).2] at hid
        cases hid
    · rw [hother t' ht]
  refine ⟨?_, ?_, ?_, ?_, ?_, ?_, ?_, ?_, ?_, ?_, ?_⟩
  · rw [hrecorded]
    exact h.range
  · rw [hrecorded]
    exact hfits
  · rw [hrecorded]
    exact hcovered
  · rw [hrecorded]
    exact hfile
  · intro t' phase j hphase hj
    rw [hrecorded]
    by_cases ht : t' = t
    · subst ht
      exact (hnew phase hphase).2.2 j hj
    · rw [hother t' ht] at hphase
      exact h.contents t' phase j hphase hj
  · intro t' phase id hphase hid
    rcases h.unrecorded t' phase id ((hunrecorded t' phase id hid).1 hphase) hid with ⟨hrange, hmem, hunique⟩
    rw [hrecorded]
    refine ⟨hrange, hmem, fun t₁ phase₁ hphase₁ hid₁ => ?_⟩
    exact hunique t₁ phase₁ ((hunrecorded t₁ phase₁ id hid₁).1 hphase₁) hid₁
  · intro t' phase id hphase hid
    rcases h.unhanded t' phase id ((hunhanded t' phase id hid).1 hphase) hid with ⟨hmem, hnot, hunique⟩
    rw [hrecorded, hhanded]
    refine ⟨hmem, hnot, fun t₁ phase₁ hphase₁ hid₁ => ?_⟩
    exact hunique t₁ phase₁ ((hunhanded t₁ phase₁ id hid₁).1 hphase₁) hid₁
  · rw [hhanded]
    exact h.nodup
  · rw [hhanded, hrecorded]
    exact h.handed
  · intro id hid hpos
    rw [hdelivered] at hid
    rw [hrecorded]
    refine (h.delivered id hid hpos).imp_right ?_
    rintro ⟨t', phase, hphase, hphaseId⟩
    exact ⟨t', phase, (hunrecorded t' phase id hphaseId).2 hphase, hphaseId⟩
  · intro id hid
    rw [hrecorded] at hid
    rw [hhanded]
    refine (h.recorded id hid).imp_right ?_
    rintro ⟨t', phase, hphase, hphaseId⟩
    exact ⟨t', phase, (hunhanded t' phase id hphaseId).2 hphase, hphaseId⟩

variable {id : Int}

theorem Inv.check_old (h : s.Inv) (hold : 0 < id → id ∈ s.recorded) :
    Inv { s with delivered := s.delivered ++ [id] } where
  range := h.range
  fits := h.fits
  covered := h.covered
  file := h.file
  contents := h.contents
  unrecorded := h.unrecorded
  unhanded := h.unhanded
  nodup := h.nodup
  handed := h.handed
  delivered := by
    intro id' hid' hpos
    rcases mem_append.1 hid' with hid' | hid'
    · exact h.delivered id' hid' hpos
    · rw [mem_singleton] at hid'
      subst hid'
      exact Or.inl (hold hpos)
  recorded := h.recorded

variable {update : Json}

theorem Inv.check_new (h : s.Inv) (ht : s.threads.lookup t = none) (hid : updateId update = some id)
    (hprocessed : s.dedupStore.isProcessed id = false)
    (halone : ∀ t phase, s.threads.lookup t = some phase → phase.unrecorded ≠ some id) :
    Inv { s with
      delivered := s.delivered ++ [id]
      threads := AList.insert t (.checked update id) s.threads } := by
  have hlt := DeduplicationStore.lt_of_isProcessed hprocessed
  have hlookup (t' : Nat) := Table.lookup_insert_ite s.threads t t' (.checked update id)
  -- What the table says of other threads.
  have hother (t' : Nat) (phase : UpdatePhase)
      (hphase : (AList.insert t (.checked update id) s.threads).lookup t' = some phase) :
      t' = t ∧ phase = .checked update id ∨ s.threads.lookup t' = some phase := by
    rw [hlookup] at hphase
    split at hphase
    · exact Or.inl ⟨‹_›, (Option.some.inj hphase).symm⟩
    · exact Or.inr hphase
  have hkept (t' : Nat) (phase : UpdatePhase) (hphase : s.threads.lookup t' = some phase) :
      (AList.insert t (.checked update id) s.threads).lookup t' = some phase := by
    rw [hlookup, if_neg, hphase]
    rintro rfl
    rw [ht] at hphase
    cases hphase
  refine ⟨h.range, h.fits, h.covered, h.file, ?_, ?_, ?_, h.nodup, h.handed, ?_, ?_⟩
  · intro t' phase j hphase hj
    rcases hother t' phase hphase with ⟨-, rfl⟩ | hphase
    · cases hj
    · exact h.contents t' phase j hphase hj
  · intro t' phase id' hphase hid'
    rcases hother t' phase hphase with ⟨rfl, rfl⟩ | hphase
    · cases hid'
      refine ⟨⟨h.watermark_nonneg.trans_lt hlt, updateId_lt hid⟩, ?_, ?_⟩
      · exact fun hmem => absurd hlt (not_lt.2 (h.covered id hmem))
      · intro t₁ phase₁ hphase₁ hid₁
        rcases hother t₁ phase₁ hphase₁ with ⟨heq, -⟩ | hphase₁
        · exact heq
        · exact absurd hid₁ (halone t₁ phase₁ hphase₁)
    · rcases h.unrecorded t' phase id' hphase hid' with ⟨hrange, hmem, hunique⟩
      refine ⟨hrange, hmem, fun t₁ phase₁ hphase₁ hid₁ => ?_⟩
      rcases hother t₁ phase₁ hphase₁ with ⟨-, rfl⟩ | hphase₁
      · cases hid₁
        exact absurd hid' (halone t' phase hphase)
      · exact hunique t₁ phase₁ hphase₁ hid₁
  · intro t' phase id' hphase hid'
    rcases hother t' phase hphase with ⟨-, rfl⟩ | hphase
    · cases hid'
    · rcases h.unhanded t' phase id' hphase hid' with ⟨hmem, hnot, hunique⟩
      refine ⟨hmem, hnot, fun t₁ phase₁ hphase₁ hid₁ => ?_⟩
      rcases hother t₁ phase₁ hphase₁ with ⟨-, rfl⟩ | hphase₁
      · cases hid₁
      · exact hunique t₁ phase₁ hphase₁ hid₁
  · intro id' hid' hpos
    rcases mem_append.1 hid' with hid' | hid'
    · refine (h.delivered id' hid' hpos).imp_right ?_
      rintro ⟨t', phase, hphase, hphaseId⟩
      exact ⟨t', phase, hkept t' phase hphase, hphaseId⟩
    · rw [mem_singleton] at hid'
      subst hid'
      exact Or.inr ⟨t, _, AList.lookup_insert _, rfl⟩
  · intro id' hid'
    refine (h.recorded id' hid').imp_right ?_
    rintro ⟨t', phase, hphase, hphaseId⟩
    exact ⟨t', phase, hkept t' phase hphase, hphaseId⟩

theorem Inv.record (h : s.Inv)
    (ht : s.threads.lookup t = some (.checked update id)) :
    Inv { s with
      dedupStore := s.dedupStore.markProcessed id
      recorded := s.recorded ++ [id]
      threads := AList.insert t (.recorded update id) s.threads } := by
  rcases h.unrecorded t _ id ht rfl with ⟨hrange, hnew, halone⟩
  have hlookup (t' : Nat) := Table.lookup_insert_ite s.threads t t' (.recorded update id)
  have hother (t' : Nat) (phase : UpdatePhase)
      (hphase : (AList.insert t (.recorded update id) s.threads).lookup t' = some phase) :
      phase = .recorded update id ∧ t' = t ∨ t' ≠ t ∧ s.threads.lookup t' = some phase := by
    rw [hlookup] at hphase
    split at hphase
    · exact Or.inl ⟨(Option.some.inj hphase).symm, ‹_›⟩
    · exact Or.inr ⟨‹_›, hphase⟩
  have happend {id' : Int} (hid' : id' ∈ s.recorded) : id' ∈ s.recorded ++ [id] :=
    mem_append_left _ hid'
  have hlast : id ∈ s.recorded ++ [id] := mem_append_right _ (mem_singleton_self id)
  refine ⟨?_, h.fits.markProcessed id, ?_, ?_, ?_, ?_, ?_, h.nodup, ?_, ?_, ?_⟩
  · intro id' hid'
    rcases mem_append.1 hid' with hid' | hid'
    · exact h.range id' hid'
    · rw [mem_singleton] at hid'
      exact hid' ▸ hrange
  · intro id' hid'
    show id' ≤ if s.dedupStore.watermark < id then id else s.dedupStore.watermark
    rcases mem_append.1 hid' with hid' | hid'
    · have hle := h.covered id' hid'
      split <;> omega
    · rw [mem_singleton] at hid'
      split <;> omega
  · intro j hj
    rcases h.file j hj with ⟨saved, hsaved, heq⟩
    exact ⟨saved, hsaved.append id, heq⟩
  · intro t' phase j hphase hj
    rcases hother t' phase hphase with ⟨rfl, -⟩ | ⟨-, hphase⟩
    · cases hj
    · rcases h.contents t' phase j hphase hj with ⟨saved, hsaved, heq⟩
      exact ⟨saved, hsaved.append id, heq⟩
  · intro t' phase id' hphase hid'
    rcases hother t' phase hphase with ⟨rfl, -⟩ | ⟨hne, hbefore⟩
    · cases hid'
    · have hne' : id' ≠ id := fun heq => hne (halone t' phase hbefore (heq ▸ hid'))
      rcases h.unrecorded t' phase id' hbefore hid' with ⟨hrange', hmem, hunique⟩
      refine ⟨hrange', ?_, fun t₁ phase₁ hphase₁ hid₁ => ?_⟩
      · intro hmem'
        rcases mem_append.1 hmem' with hmem' | hmem'
        · exact hmem hmem'
        · exact hne' (mem_singleton.1 hmem')
      · rcases hother t₁ phase₁ hphase₁ with ⟨rfl, -⟩ | ⟨-, hphase₁⟩
        · cases hid₁
        · exact hunique t₁ phase₁ hphase₁ hid₁
  · intro t' phase id' hphase hid'
    rcases hother t' phase hphase with ⟨rfl, rfl⟩ | ⟨-, hphase⟩
    · cases hid'
      refine ⟨hlast, fun hmem => hnew (h.handed id hmem), fun t₁ phase₁ hphase₁ hid₁ => ?_⟩
      rcases hother t₁ phase₁ hphase₁ with ⟨-, heq⟩ | ⟨-, hphase₁⟩
      · exact heq
      · exact absurd (h.unhanded t₁ phase₁ id hphase₁ hid₁).1 hnew
    · rcases h.unhanded t' phase id' hphase hid' with ⟨hmem, hnot, hunique⟩
      refine ⟨happend hmem, hnot, fun t₁ phase₁ hphase₁ hid₁ => ?_⟩
      rcases hother t₁ phase₁ hphase₁ with ⟨rfl, -⟩ | ⟨-, hphase₁⟩
      · cases hid₁
        exact absurd hmem hnew
      · exact hunique t₁ phase₁ hphase₁ hid₁
  · exact fun id' hid' => happend (h.handed id' hid')
  · intro id' hid' hpos
    rcases h.delivered id' hid' hpos with hmem | ⟨t', phase, hphase, hphaseId⟩
    · exact Or.inl (happend hmem)
    · by_cases htt : t' = t
      · subst htt
        rw [ht] at hphase
        cases hphase
        cases hphaseId
        exact Or.inl hlast
      · exact Or.inr ⟨t', phase, by rw [hlookup, if_neg htt, hphase], hphaseId⟩
  · intro id' hid'
    rcases mem_append.1 hid' with hid' | hid'
    · refine (h.recorded id' hid').imp_right ?_
      rintro ⟨t', phase, hphase, hphaseId⟩
      refine ⟨t', phase, ?_, hphaseId⟩
      rw [hlookup, if_neg, hphase]
      rintro rfl
      rw [ht] at hphase
      cases hphase
      cases hphaseId
    · rw [mem_singleton] at hid'
      subst hid'
      exact Or.inr ⟨t, _, AList.lookup_insert _, rfl⟩

theorem Inv.process (h : s.Inv)
    (ht : s.threads.lookup t = some (.recorded update id)) (handling : Handling) :
    Inv { s with
      handed := s.handed ++ [(id, handling)]
      threads := s.threads.erase t } := by
  rcases h.unhanded t _ id ht rfl with ⟨hmem, hnot, halone⟩
  have hlookup (t' : Nat) := Table.lookup_erase_ite s.threads t t'
  have hother (t' : Nat) (phase : UpdatePhase) (hphase : (s.threads.erase t).lookup t' = some phase) :
      t' ≠ t ∧ s.threads.lookup t' = some phase := by
    rw [hlookup] at hphase
    split at hphase
    · cases hphase
    · exact ⟨‹_›, hphase⟩
  have hids : (s.handed ++ [(id, handling)]).map Prod.fst = s.handed.map Prod.fst ++ [id] := by
    rw [map_append]
    rfl
  refine ⟨h.range, h.fits, h.covered, h.file, ?_, ?_, ?_, ?_, ?_, ?_, ?_⟩
  · intro t' phase j hphase hj
    exact h.contents t' phase j (hother t' phase hphase).2 hj
  · intro t' phase id' hphase hid'
    rcases h.unrecorded t' phase id' (hother t' phase hphase).2 hid' with ⟨hrange, hnew, hunique⟩
    exact ⟨hrange, hnew, fun t₁ phase₁ hphase₁ => hunique t₁ phase₁ (hother t₁ phase₁ hphase₁).2⟩
  · intro t' phase id' hphase hid'
    rcases hother t' phase hphase with ⟨hne, hbefore⟩
    have hne' : id' ≠ id := fun heq => hne (halone t' phase hbefore (heq ▸ hid'))
    rcases h.unhanded t' phase id' hbefore hid' with ⟨hmem', hnot', hunique⟩
    refine ⟨hmem', ?_, fun t₁ phase₁ hphase₁ => hunique t₁ phase₁ (hother t₁ phase₁ hphase₁).2⟩
    show id' ∉ (s.handed ++ [(id, handling)]).map Prod.fst
    rw [hids, mem_append, mem_singleton]
    rintro (hin | heq)
    · exact hnot' hin
    · exact hne' heq
  · show ((s.handed ++ [(id, handling)]).map Prod.fst).Nodup
    rw [hids, ← concat_eq_append, nodup_concat]
    exact ⟨hnot, h.nodup⟩
  · intro id' hid'
    rw [hids, mem_append, mem_singleton] at hid'
    rcases hid' with hid' | rfl
    · exact h.handed id' hid'
    · exact hmem
  · intro id' hid' hpos
    refine (h.delivered id' hid' hpos).imp_right ?_
    rintro ⟨t', phase, hphase, hphaseId⟩
    refine ⟨t', phase, ?_, hphaseId⟩
    rw [hlookup, if_neg, hphase]
    rintro rfl
    rw [ht] at hphase
    cases hphase
    cases hphaseId
  · intro id' hid'
    show id' ∈ (s.handed ++ [(id, handling)]).map Prod.fst ∨ _
    rw [hids, mem_append, mem_singleton]
    rcases h.recorded id' hid' with hin | ⟨t', phase, hphase, hphaseId⟩
    · exact Or.inl (Or.inl hin)
    · by_cases htt : t' = t
      · subst htt
        rw [ht] at hphase
        cases hphase
        cases hphaseId
        exact Or.inl (Or.inr rfl)
      · exact Or.inr ⟨t', phase, by rw [hlookup, if_neg htt, hphase], hphaseId⟩

theorem Inv.start (h : s.Inv) (ht : s.threads.lookup t = none)
    {phase : UpdatePhase} (hunrecorded : phase.unrecorded = none) (hunhanded : phase.unhanded = none)
    (hcontents : ∀ j, phase.contents = some j →
      ∃ saved : DeduplicationStore, saved.Fits s.recorded ∧ j = saved.toJson) :
    Inv { s with threads := AList.insert t phase s.threads } := by
  refine h.of_idle (fun phase' hphase => ?_) (fun t' hne => AList.lookup_insert_ne hne) (fun phase' hphase => ?_)
    h.fits h.covered h.file rfl rfl rfl
  · rw [ht] at hphase
    cases hphase
  · cases (AList.lookup_insert s.threads).symm.trans hphase
    exact ⟨hunrecorded, hunhanded, hcontents⟩

theorem Inv.finish (h : s.Inv) {phase : UpdatePhase}
    (ht : s.threads.lookup t = some phase) (hunrecorded : phase.unrecorded = none) (hunhanded : phase.unhanded = none)
    {dedupStore : DeduplicationStore} (hfits : dedupStore.Fits s.recorded)
    (hcovered : ∀ id ∈ s.recorded, id ≤ dedupStore.watermark) {file : Option Json}
    (hfile : ∀ j, file = some j → ∃ saved : DeduplicationStore, saved.Fits s.recorded ∧ j = saved.toJson) :
    Inv { s with dedupStore, file, threads := s.threads.erase t } := by
  refine h.of_idle (fun phase' hphase => ?_) (fun t' hne => AList.lookup_erase_ne hne) (fun phase' hphase => ?_)
    hfits hcovered hfile rfl rfl rfl
  · cases ht.symm.trans hphase
    exact ⟨hunrecorded, hunhanded⟩
  · cases (AList.lookup_erase t s.threads).symm.trans hphase

theorem Inv.check (h : s.Inv)
    (horder : s.InOrder (.check t update)) (hstep : s.step (.check t update) = some s') : s'.Inv := by
  simp only [TelegramChannel.step] at hstep
  split at hstep
  · cases hstep
  · next hfree =>
      have ht : s.threads.lookup t = none := Option.not_isSome_iff_eq_none.1 hfree
      cases hid : updateId update with
      | none =>
        rw [hid] at hstep
        cases hstep
        exact h
      | some id =>
        rw [hid] at hstep
        cases hstep
        simp only [InOrder, hid] at horder
        cases hprocessed : s.dedupStore.isProcessed id with
        | true =>
          refine h.check_old fun hpos => ?_
          rcases horder hpos with hmem | ⟨hlt, -⟩
          · exact hmem
          · rw [h.fits.isProcessed_of_lt hpos hlt] at hprocessed
            cases hprocessed
        | false =>
          have hlt := DeduplicationStore.lt_of_isProcessed hprocessed
          have hpos : 0 < id := h.watermark_nonneg.trans_lt hlt
          refine h.check_new ht hid hprocessed ?_
          rcases horder hpos with hmem | ⟨-, halone⟩
          · exact absurd hlt (not_lt.2 (h.covered id hmem))
          · exact halone

theorem Inv.restore (h : s.Inv) {j : Json}
    (ht : s.threads.lookup t = some (.loading j)) (horder : s.InOrder (.restore t)) :
    Inv { s with dedupStore := s.dedupStore.load j, threads := s.threads.erase t } := by
  obtain ⟨saved, hsaved, rfl⟩ := h.contents t _ j ht rfl
  simp only [InOrder, ht, DeduplicationStore.find?_watermark] at horder
  have hlow : 0 ≤ saved.watermark := by
    rcases hsaved.watermark with hzero | hmem
    · exact hzero.ge
    · exact (h.range _ hmem).1.le
  have hload := s.dedupStore.load_toJson hlow horder.1 fun id hid => h.range id (hsaved.processed id hid)
  rw [hload]
  exact h.finish ht rfl rfl hsaved horder.2 h.file

theorem Inv.step {a : UpdateAction} (h : s.Inv) (horder : s.InOrder a)
    (hstep : s.step a = some s') : s'.Inv := by
  cases a with
  | check t update => exact h.check horder hstep
  | record t =>
    simp only [TelegramChannel.step] at hstep
    split at hstep
    · next update id ht =>
        cases hstep
        exact h.record ht
    · cases hstep
  | process t =>
    simp only [TelegramChannel.step] at hstep
    split at hstep
    · next update id ht =>
        cases hstep
        simp only [InOrder, ht] at horder
        obtain ⟨handling, hhandling⟩ := Option.isSome_iff_exists.1 horder
        rw [hhandling]
        exact h.process ht handling
    · cases hstep
  | cleanup retention =>
    cases hstep
    exact ⟨h.range, h.fits.cleanup retention, h.covered, h.file, h.contents, h.unrecorded, h.unhanded, h.nodup,
      h.handed, h.delivered, h.recorded⟩
  | save t =>
    simp only [TelegramChannel.step] at hstep
    split at hstep
    · cases hstep
    · next hfree =>
        cases hstep
        refine h.start (Option.not_isSome_iff_eq_none.1 hfree) rfl rfl fun j hj => ?_
        exact ⟨s.dedupStore, h.fits, (Option.some.inj hj).symm⟩
  | write t opened =>
    simp only [TelegramChannel.step] at hstep
    split at hstep
    · next j ht =>
        cases hstep
        refine h.finish ht rfl rfl h.fits h.covered fun j' hj' => ?_
        split at hj'
        · cases hj'
          exact h.contents t _ j ht rfl
        · exact h.file j' hj'
    · cases hstep
  | load t parsed =>
    simp only [TelegramChannel.step] at hstep
    split at hstep
    · cases hstep
    · next hfree =>
        split at hstep
        · cases hstep
          exact h
        · next j hj =>
            cases hstep
            cases parsed with
            | false => exact h
            | true =>
              refine h.start (Option.not_isSome_iff_eq_none.1 hfree) rfl rfl fun j' hj' => ?_
              cases hj'
              exact h.file j hj
  | restore t =>
    simp only [TelegramChannel.step] at hstep
    split at hstep
    · next j ht =>
        cases hstep
        exact h.restore ht horder
    · cases hstep

def greeting (id : Int) : Json :=
  .object [("update_id", .int id),
    ("message", .object [("message_id", .int 1), ("text", .str "hello"),
      ("chat", .object [("id", .int 10)]), ("from", .object [("id", .int 10)])])]

end TelegramChannel

end RavBot.Channels
