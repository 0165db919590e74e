import RavBot.Core.CronScheduler
import RavBot.Lib.IsoTime

/-!
# The file of the cron scheduler

`Save` writes the jobs to a file, and `Load` reads them.  What is written of the last run is not read, and a
job without a schedule, which `AddJob` takes, is written and not read; so the jobs survive exactly when each
has a schedule and has not run (`survives_iff`).

`Load` clears the jobs once the text of the file is read, and then reads the items one by one.  An item that
cannot be read ends this, and what is left are the jobs of the items in front of it (`loadedJobs_front`).
-/

open List

namespace RavBot.Core

open RavBot.Lib

/-! ## Writing -/

def padded (width : Nat) (n : Int) : List Char :=
  List.leftpad width '0' (toString n.toNat).toList

/-- `to_iso`, for a time since 1970. -/
def toIso (time : Int) : String :=
  let tm := Tm.ofTime (CronExpression.toTimeT time)
  String.ofList (padded 4 (tm.tmYear + 1900) ++ '-' :: padded 2 (tm.tmMon + 1) ++ '-' :: padded 2 tm.tmMday ++
    'T' :: padded 2 tm.tmHour ++ ':' :: padded 2 tm.tmMin ++ ':' :: padded 2 tm.tmSec ++ ['Z'])

example : toIso (1767323045 * CronExpression.second) = "2026-01-02T03:04:05Z" := by decide +kernel

namespace CronJob

def timeField (key : String) (time : Int) : List (String × Json) :=
  if 0 < time then [(key, .str (toIso time))] else []

def toJson (job : CronJob) : Json :=
  .object ([("id", .str job.id), ("name", .str job.name), ("schedule", .str job.schedule),
    ("message", .str job.message), ("sessionKey", .str job.sessionKey), ("enabled", .bool job.enabled)] ++
    timeField "lastRun" job.lastRun ++ timeField "nextRun" job.nextRun)

/-- What is to be kept of a job: all but the next run, and the last run to the second. -/
def kept (job : CronJob) : CronJob :=
  { job with lastRun := CronExpression.toTimeT job.lastRun, nextRun := 0 }

structure IsUtf8 (job : CronJob) : Prop where
  id : Text.validUtf8 job.id
  name : Text.validUtf8 job.name
  schedule : Text.validUtf8 job.schedule
  message : Text.validUtf8 job.message
  sessionKey : Text.validUtf8 job.sessionKey

theorem validUtf8_toIso (time : Int) : Text.validUtf8 (toIso time) = true := by
  have htime : (toIso time).toList = IsoTime.putTime (CronExpression.toTimeT time) := String.toList_ofList
  exact Text.validUtf8_of_ascii fun c hc => IsoTime.ascii_of_mem_putTime (htime ▸ hc)

theorem isUtf8_timeField {key : String} (hkey : Text.validUtf8 key) (time : Int) :
    (timeField key time).all (fun f => Text.validUtf8 f.1 && f.2.isUtf8) = true := by
  rw [timeField]
  split_ifs
  · rw [all_cons, hkey, Json.isUtf8, validUtf8_toIso]
    rfl
  · rfl

theorem isUtf8_toJson (job : CronJob) : job.toJson.isUtf8 = true ↔ job.IsUtf8 := by
  have hkeys : ∀ s ∈ ["id", "name", "schedule", "message", "sessionKey", "enabled", "lastRun", "nextRun"],
      Text.validUtf8 s = true := by
    decide
  simp only [forall_mem_cons] at hkeys
  obtain ⟨hid, hname, hschedule, hmessage, hsession, henabled, hlast, hnext, -⟩ := hkeys
  have hnodup : ((([("id", Json.str job.id), ("name", .str job.name), ("schedule", .str job.schedule),
      ("message", .str job.message), ("sessionKey", .str job.sessionKey), ("enabled", .bool job.enabled)] ++
      timeField "lastRun" job.lastRun ++ timeField "nextRun" job.nextRun)).map Prod.fst).Nodup := by
    rw [timeField, timeField]
    split_ifs <;> simp
  rw [toJson, Json.isUtf8_object hnodup, all_append, all_append, isUtf8_timeField hlast,
    isUtf8_timeField hnext]
  simp only [all_cons, all_nil, Json.isUtf8, hid, hname, hschedule, hmessage, hsession, henabled,
    Bool.true_and, Bool.and_true, Bool.and_eq_true]
  constructor
  · rintro ⟨hid, hname, hschedule, hmessage, hsession⟩
    exact ⟨hid, hname, hschedule, hmessage, hsession⟩
  · rintro ⟨hid, hname, hschedule, hmessage, hsession⟩
    exact ⟨hid, hname, hschedule, hmessage, hsession⟩

theorem fromJson_toJson (job : CronJob) : fromJson job.toJson = some { job with lastRun := 0, nextRun := 0 } := by
  have hfield (key : String) (hlast : key ≠ "lastRun") (hnext : key ≠ "nextRun")
      (fields : List (String × Json)) :
      (fields ++ timeField "lastRun" job.lastRun ++ timeField "nextRun" job.nextRun).reverse.lookup key =
        fields.reverse.lookup key := by
    have hskip (key' : String) (hne : key ≠ key') (time : Int) (fields : List (String × Json)) :
        (fields ++ timeField key' time).reverse.lookup key = fields.reverse.lookup key := by
      rw [timeField]
      split_ifs
      · rw [reverse_append, reverse_singleton, singleton_append, lookup_cons, beq_false_of_ne hne]
      · rw [append_nil]
    rw [hskip "nextRun" hnext, hskip "lastRun" hlast]
  rw [fromJson, toJson]
  simp only [Json.value_object]
  rw [hfield "id" (by decide) (by decide), hfield "name" (by decide) (by decide),
    hfield "schedule" (by decide) (by decide), hfield "message" (by decide) (by decide),
    hfield "sessionKey" (by decide) (by decide), hfield "enabled" (by decide) (by decide)]
  rfl

theorem kept_read_iff (job : CronJob) (next : Int) :
    kept { job with lastRun := 0, nextRun := next } = kept job ↔ CronExpression.toTimeT job.lastRun = 0 := by
  constructor
  · exact fun h => (congrArg CronJob.lastRun h).symm
  · intro hlast
    rw [kept, kept, hlast]
    rfl

/-- A job with an id and a schedule that can be read. -/
structure Stored (job : CronJob) : Prop where
  id : job.id ≠ ""
  schedule : (CronExpression.parse job.schedule).isSome

/-- A job that survives in the file: it has a schedule, has not run, and has UTF-8 strings. -/
structure Survivable (job : CronJob) : Prop where
  schedule : job.schedule ≠ ""
  lastRun : CronExpression.toTimeT job.lastRun = 0
  utf8 : job.IsUtf8

end CronJob

namespace CronScheduler

/-- `Save`: the array that is written; `none` when `dump` throws. -/
def save (s : CronScheduler) : Option Json := (Json.arr (s.jobs.items.map CronJob.toJson)).dump

/-- `generate_id`, of the two numbers that it draws. -/
def generateId (a b : UInt32) : String :=
  String.ofList ((Nat.toDigits 16 a.toNat ++ Nat.toDigits 16 b.toNat).take 12)

def Generated : CronAction → Prop
  | .addJob id _ _ _ _ _ => ∃ a b, id = generateId a b
  | _ => True

theorem generateId_ne_empty (a b : UInt32) : generateId a b ≠ "" := by
  intro h
  have hnil := congrArg String.toList h
  rw [generateId, String.toList_ofList] at hnil
  have hlength := congrArg List.length hnil
  rw [length_take, length_append] at hlength
  have hpos : 0 < (Nat.toDigits 16 a.toNat).length := Nat.length_toDigits_pos
  rw [String.toList_empty, length_nil] at hlength
  omega

/-! ## Reading -/

/-- An item that ends the reading of a file: it is no object with fields of the right types, or has an id
and a schedule that is none. -/
def Bad (item : Json) : Prop :=
  ∀ job, CronJob.fromJson item = some job →
    job.id ≠ "" ∧ job.schedule ≠ "" ∧ CronExpression.parse job.schedule = none

/-- The job of an item, which there is when it has an id and a schedule. -/
def itemJob (now : Int) (item : Json) : Option CronJob := do
  let job ← CronJob.fromJson item
  guard (job.id ≠ "" ∧ job.schedule ≠ "")
  let expr ← CronExpression.parse job.schedule
  return { job with nextRun := expr.nextAfter now }

/-- The jobs of items, of which the first reads the time `clock k`. -/
def itemJobs (clock : Nat → Int) (k : Nat) (items : List Json) : List CronJob :=
  (items.zipIdx k).filterMap fun e => itemJob (clock e.2) e.1

theorem loadedJobs_cons (clock : Nat → Int) (k : Nat) (item : Json) (items : List Json) :
    (Bad item → loadedJobs clock k (item :: items) = []) ∧
    (¬ Bad item → loadedJobs clock k (item :: items) =
      (itemJob (clock k) item).toList ++ loadedJobs clock (k + 1) items) := by
  rw [loadedJobs, Bad, itemJob]
  cases hread : CronJob.fromJson item with
  | none => exact ⟨fun _ => rfl, fun h => absurd nofun h⟩
  | some job =>
    simp only [Option.some.injEq, forall_eq']
    by_cases hstored : job.id ≠ "" ∧ job.schedule ≠ ""
    · rw [if_pos hstored]
      cases hparse : CronExpression.parse job.schedule with
      | none => exact ⟨fun _ => rfl, fun h => absurd ⟨hstored.1, hstored.2, rfl⟩ h⟩
      | some expr =>
        refine ⟨fun h => ?_, fun _ => ?_⟩
        · cases h.2.2
        · simp [hstored, hparse]
    · rw [if_neg hstored]
      refine ⟨fun h => absurd ⟨h.1, h.2.1⟩ hstored, fun _ => ?_⟩
      simp [hstored]

theorem itemJobs_cons (clock : Nat → Int) (k : Nat) (item : Json) (items : List Json) :
    itemJobs clock k (item :: items) =
      (itemJob (clock k) item).toList ++ itemJobs clock (k + 1) items := by
  rw [itemJobs, zipIdx_cons, filterMap_cons]
  cases itemJob (clock k) item <;> rfl

theorem loadedJobs_append (clock : Nat → Int) (k : Nat) {front : List Json} (hfront : ∀ i ∈ front, ¬ Bad i)
    (items : List Json) :
    loadedJobs clock k (front ++ items) =
      itemJobs clock k front ++ loadedJobs clock (k + front.length) items := by
  induction front generalizing k with
  | nil => rfl
  | cons item front ih =>
    rw [forall_mem_cons] at hfront
    rw [cons_append, (loadedJobs_cons clock k item (front ++ items)).2 hfront.1, ih (k + 1) hfront.2,
      itemJobs_cons, append_assoc, length_cons, Nat.add_right_comm, Nat.add_assoc]

theorem loadedJobs_front (clock : Nat → Int) {front : List Json} (hfront : ∀ i ∈ front, ¬ Bad i) {bad : Json}
    (hbad : Bad bad) (rest : List Json) :
    loadedJobs clock 0 (front ++ bad :: rest) = itemJobs clock 0 front := by
  rw [loadedJobs_append clock 0 hfront, (loadedJobs_cons clock _ bad rest).1 hbad, append_nil]

theorem items_load (grow : Nat → Nat) (v : SlotVector CronJob) (jobs : List CronJob) :
    (v.clear.pushAll grow jobs).items = jobs := by
  rw [SlotVector.items_pushAll]
  rfl

def JobsStored (s : CronScheduler) : Prop := ∀ job ∈ s.jobs.items, job.Stored

theorem stored_of_mem_loadedJobs {clock : Nat → Int} {k : Nat} {items : List Json} {job : CronJob}
    (h : job ∈ loadedJobs clock k items) : job.Stored := by
  induction items generalizing k with
  | nil => cases h
  | cons item items ih =>
    by_cases hbad : Bad item
    · rw [(loadedJobs_cons clock k item items).1 hbad] at h
      cases h
    · rw [(loadedJobs_cons clock k item items).2 hbad, mem_append, Option.mem_toList] at h
      rcases h with h | h
      · simp only [itemJob, Option.bind_eq_bind, Option.bind_eq_some_iff, Option.guard_eq_some',
          Option.pure_def, Option.some.injEq] at h
        obtain ⟨read, -, -, ⟨hid, -⟩, expr, hparse, rfl⟩ := h
        exact ⟨hid, by rw [hparse]; rfl⟩
      · exact ih h

variable {grow : Nat → Nat} {s : CronScheduler}

/-- What one step does with the jobs of a scheduler: those that are added have ids that are generated, and
schedules that were read. -/
theorem JobsStored.step {s' : CronScheduler} {a : CronAction} (h : s.JobsStored)
    (ha : Generated a) (hstep : step grow s a = some s') : s'.JobsStored := by
  cases a with
  | addJob id name schedule message sessionKey now =>
    rw [CronScheduler.step] at hstep
    cases hparse : CronExpression.parse schedule with
    | none =>
      rw [hparse] at hstep
      cases hstep
      exact h
    | some expr =>
      rw [hparse] at hstep
      cases hstep
      obtain ⟨a, b, rfl⟩ := ha
      intro job hjob
      rw [SlotVector.items_push, mem_append, mem_singleton] at hjob
      rcases hjob with hjob | rfl
      · exact h job hjob
      · exact ⟨generateId_ne_empty a b, by rw [hparse]; rfl⟩
  | removeJob id =>
    rw [CronScheduler.step] at hstep
    cases hindex : removeIndex s.jobs.items id with
    | none =>
      rw [hindex] at hstep
      cases hstep
      exact h
    | some i =>
      rw [hindex] at hstep
      cases hstep
      exact fun job hjob => h job (mem_of_mem_eraseIdx hjob)
  | load file clock =>
    cases file with
    | none =>
      cases hstep
      exact h
    | some file =>
      cases hstep
      intro job hjob
      rw [items_load] at hjob
      exact stored_of_mem_loadedJobs hjob
  | collect now =>
    rw [CronScheduler.step] at hstep
    split at hstep
    · cases hstep
    · cases hstep
      exact h
  | call =>
    rw [CronScheduler.step] at hstep
    split at hstep
    · split_ifs at hstep
      cases hstep
      exact h
    · cases hstep
  | update =>
    rw [CronScheduler.step] at hstep
    split at hstep
    · split_ifs at hstep
      split at hstep
      · cases hstep
        exact h
      · rw [Option.map_eq_some_iff] at hstep
        obtain ⟨expr, -, rfl⟩ := hstep
        -- an update leaves the id and the schedule alone
        exact SlotVector.forall_modify h _ fun job hjob => ⟨hjob.id, hjob.schedule⟩
    · cases hstep
  | finish =>
    rw [CronScheduler.step] at hstep
    split at hstep
    · cases hstep
      exact h
    · cases hstep

theorem jobsStored_of_run {handler : Bool} {actions : List CronAction}
    (hgenerated : ∀ a ∈ actions, Generated a) (hrun : exec (step grow) (init handler) actions = some s) :
    s.JobsStored := by
  have hinit : (init handler).JobsStored := nofun
  exact exec_invariant (fun s a s' h ha hstep => h.step ha hstep) hinit
    (along_of_forall hgenerated (init handler)) hrun

/-! ## Writing and reading -/

/-- The jobs survive when they are saved, and loaded by a scheduler that has just been made. -/
def Survives (s : CronScheduler) : Prop :=
  ∃ file, s.save = some file ∧ ∀ grow handler clock, ∀ s' ∈ step grow (init handler) (.load (some file) clock),
    s'.jobs.items.map CronJob.kept = s.jobs.items.map CronJob.kept

theorem itemJob_toJson {job : CronJob} (h : job.Stored) (now : Int) :
    (itemJob now job.toJson).toList.map CronJob.kept =
      if job.schedule ≠ "" then [{ job with lastRun := 0, nextRun := 0 }] else [] := by
  obtain ⟨expr, hparse⟩ := Option.isSome_iff_exists.1 h.schedule
  rw [itemJob, CronJob.fromJson_toJson, Option.bind_eq_bind, Option.bind_some]
  by_cases hschedule : job.schedule = ""
  · simp [hschedule]
  · have hguard : guard (job.id ≠ "" ∧ job.schedule ≠ "") = some () := if_pos ⟨h.id, hschedule⟩
    rw [hguard, Option.bind_eq_bind, Option.bind_some, hparse, if_pos hschedule]
    rfl

theorem loadedJobs_toJson (clock : Nat → Int) (k : Nat) {jobs : List CronJob} (h : ∀ job ∈ jobs, job.Stored) :
    (loadedJobs clock k (jobs.map CronJob.toJson)).map CronJob.kept =
      (jobs.filter fun job => decide (job.schedule ≠ "")).map fun job => { job with lastRun := 0, nextRun := 0 } := by
  induction jobs generalizing k with
  | nil => rfl
  | cons job jobs ih =>
    rw [forall_mem_cons] at h
    have hgood : ¬ Bad job.toJson := fun hbad => by
      have hnone := (hbad _ (CronJob.fromJson_toJson job)).2.2
      have hsome := h.1.schedule
      rw [hnone] at hsome
      cases hsome
    rw [map_cons, (loadedJobs_cons clock k _ _).2 hgood, map_append, itemJob_toJson h.1, ih (k + 1) h.2,
      filter_cons]
    by_cases hschedule : job.schedule = "" <;> simp [hschedule]

theorem save_eq_some_iff {file : Json} :
    s.save = some file ↔ (∀ job ∈ s.jobs.items, job.IsUtf8) ∧ .arr (s.jobs.items.map CronJob.toJson) = file := by
  have hutf8 : (Json.arr (s.jobs.items.map CronJob.toJson)).isUtf8 = true ↔ ∀ job ∈ s.jobs.items, job.IsUtf8 := by
    rw [Json.isUtf8, Json.allUtf8_iff, forall_mem_map]
    exact forall₂_congr fun job _ => job.isUtf8_toJson
  rw [save, Json.dump, ← hutf8]
  split_ifs with h
  · rw [Option.some.injEq, and_iff_right h]
  · exact iff_of_false (by simp) fun hsaved => h hsaved.1

theorem map_filter_eq_map_iff {α β : Type} {p : α → Bool} {f g : α → β} {l : List α} :
    (l.filter p).map f = l.map g ↔ ∀ a ∈ l, p a ∧ f a = g a := by
  constructor
  · intro h
    have hlength := congrArg List.length h
    rw [length_map, length_map, length_filter_eq_length_iff] at hlength
    rw [filter_eq_self.2 hlength, map_inj_left] at h
    exact fun a ha => ⟨hlength a ha, h a ha⟩
  · intro h
    rw [filter_eq_self.2 fun a ha => (h a ha).1, map_inj_left]
    exact fun a ha => (h a ha).2

theorem survives_iff (h : s.JobsStored) : s.Survives ↔ ∀ job ∈ s.jobs.items, job.Survivable := by
  have hread (grow : Nat → Nat) (handler : Bool) (clock : Nat → Int) {s' : CronScheduler}
      (hstep : step grow (init handler) (.load (some (.arr (s.jobs.items.map CronJob.toJson))) clock) = some s') :
      s'.jobs.items.map CronJob.kept = s.jobs.items.map CronJob.kept ↔
        ∀ job ∈ s.jobs.items, job.schedule ≠ "" ∧ CronExpression.toTimeT job.lastRun = 0 := by
    cases hstep
    rw [items_load, fileItems, loadedJobs_toJson clock 0 h, map_filter_eq_map_iff]
    refine forall₂_congr fun job _ => ?_
    rw [decide_eq_true_eq]
    refine and_congr_right fun _ => ?_
    rw [← job.kept_read_iff 0]
    rfl
  constructor
  · rintro ⟨file, hsave, hsame⟩
    obtain ⟨hutf8, rfl⟩ := save_eq_some_iff.1 hsave
    have hjobs := (hread id false 0 rfl).1 (hsame id false 0 _ rfl)
    exact fun job hjob => ⟨(hjobs job hjob).1, (hjobs job hjob).2, hutf8 job hjob⟩
  · intro hjobs
    refine ⟨_, save_eq_some_iff.2 ⟨fun job hjob => (hjobs job hjob).utf8, rfl⟩, ?_⟩
    intro grow handler clock s' hstep
    exact (hread grow handler clock hstep).2 fun job hjob => ⟨(hjobs job hjob).schedule, (hjobs job hjob).lastRun⟩

/-! ## Files with errors -/

/-- A file that cannot be loaded without an error: its text is no JSON, or it has a bad item. -/
def LoadFails : Option Json → Prop
  | none => True
  | some file => ∃ item ∈ fileItems file, Bad item

/-- A load that meets an error leaves the jobs as they were, and the file that the next call of `AddJob`
writes has them all. -/
def ErrorSafe (grow : Nat → Nat) (s : CronScheduler) (file : Option Json) (clock : Nat → Int) : Prop :=
  LoadFails file → ∀ s' ∈ step grow s (.load file clock), s'.jobs.items = s.jobs.items ∧
    ∀ id name schedule message sessionKey now, (CronExpression.parse schedule).isSome →
      ∀ s'' ∈ step grow s' (.addJob id name schedule message sessionKey now),
        ∃ job, s''.save = (Json.arr ((s.jobs.items ++ [job]).map CronJob.toJson)).dump

theorem save_addJob {s' : CronScheduler} {id name schedule message sessionKey : String}
    {now : Int} (hparse : (CronExpression.parse schedule).isSome)
    (hstep : step grow s (.addJob id name schedule message sessionKey now) = some s') :
    ∃ job, s'.save = (Json.arr ((s.jobs.items ++ [job]).map CronJob.toJson)).dump := by
  obtain ⟨expr, hparse⟩ := Option.isSome_iff_exists.1 hparse
  rw [step, hparse] at hstep
  cases hstep
  exact ⟨_, by rw [save, SlotVector.items_push]⟩

theorem exists_front {items : List Json} (h : ∃ item ∈ items, Bad item) :
    ∃ front bad rest, items = front ++ bad :: rest ∧ (∀ i ∈ front, ¬ Bad i) ∧ Bad bad := by
  induction items with
  | nil =>
    obtain ⟨item, hitem, -⟩ := h
    cases hitem
  | cons item items ih =>
    by_cases hbad : Bad item
    · exact ⟨[], item, items, rfl, nofun, hbad⟩
    · rw [exists_mem_cons_iff, or_iff_right hbad] at h
      obtain ⟨front, bad, rest, rfl, hfront, hfirst⟩ := ih h
      exact ⟨item :: front, bad, rest, rfl, forall_mem_cons.2 ⟨hbad, hfront⟩, hfirst⟩

/-- A file with an error leaves the jobs as they were exactly when it is no JSON, or when they are those
of the items in front of the first bad one. -/
theorem errorSafe_iff (grow : Nat → Nat) (s : CronScheduler) (file : Option Json) (clock : Nat → Int) :
    ErrorSafe grow s file clock ↔ ∀ json ∈ file, ∀ front bad rest, fileItems json = front ++ bad :: rest →
      (∀ i ∈ front, ¬ Bad i) → Bad bad → s.jobs.items = itemJobs clock 0 front := by
  cases file with
  | none =>
    refine iff_of_true (fun _ s' hstep => ?_) nofun
    cases hstep
    exact ⟨rfl, fun _ _ _ _ _ _ hparse s'' hadd => save_addJob hparse hadd⟩
  | some json =>
    constructor
    · rintro hsafe _ ⟨⟩ front bad rest hitems hfront hbad
      have hfails : LoadFails (some json) := ⟨bad, by rw [hitems]; simp, hbad⟩
      have hjobs := (hsafe hfails _ rfl).1
      rw [items_load, hitems, loadedJobs_front clock hfront hbad] at hjobs
      exact hjobs.symm
    · rintro hjobs hfails s' hstep
      obtain ⟨front, bad, rest, hitems, hfront, hbad⟩ := exists_front hfails
      have hsame : s'.jobs.items = s.jobs.items := by
        cases hstep
        rw [items_load, hitems, loadedJobs_front clock hfront hbad]
        exact (hjobs json rfl front bad rest hitems hfront hbad).symm
      refine ⟨hsame, fun _ _ _ _ _ _ hparse s'' hadd => ?_⟩
      rw [← hsame]
      exact save_addJob hparse hadd

/-- **When the file of the scheduler is safe.**  In every run, saving the jobs and loading them again gives
the same ones exactly when each has a schedule, has not run, and has UTF-8 strings; and a file with an error
leaves the jobs as they were exactly when it is no JSON, or when they are those of the items in front of the
first bad one. -/
theorem storage_iff (grow : Nat → Nat) :
    (∀ handler actions, (∀ a ∈ actions, Generated a) → ∀ s ∈ exec (step grow) (init handler) actions,
      (Survives s ↔ ∀ job ∈ s.jobs.items, job.Survivable)) ∧
    ∀ s file clock, ErrorSafe grow s file clock ↔ ∀ json ∈ file, ∀ front bad rest,
      fileItems json = front ++ bad :: rest → (∀ i ∈ front, ¬ Bad i) → Bad bad →
        s.jobs.items = itemJobs clock 0 front := by
  refine ⟨fun handler actions hgenerated s hrun => ?_, errorSafe_iff grow⟩
  exact survives_iff (jobsStored_of_run hgenerated hrun)

def runOnce : List CronAction :=
  [.addJob "12" "first" "* * * * *" "" "" 0, .collect 60000000000, .update, .finish]

/-- The file of the scheduler is not always safe.  A job that has run loses the time of that, and a list
with null clears the jobs. -/
theorem not_storage :
    (¬ ∀ grow handler actions, (∀ a ∈ actions, Generated a) →
      ∀ s ∈ exec (step grow) (init handler) actions, Survives s) ∧
    ¬ ∀ grow handler actions, (∀ a ∈ actions, Generated a) →
      ∀ s ∈ exec (step grow) (init handler) actions, ∀ file clock, ErrorSafe grow s file clock := by
  have hgenerated : ∀ a ∈ runOnce, Generated a := by
    have hid : Generated (.addJob "12" "first" "* * * * *" "" "" 0) := ⟨1, 2, by decide +kernel⟩
    exact forall_mem_cons.2 ⟨hid, forall_mem_cons.2 ⟨trivial, forall_mem_cons.2 ⟨trivial,
      forall_mem_singleton.2 trivial⟩⟩⟩
  obtain ⟨s, hrun, hlast⟩ : ∃ s, exec (step (2 * ·)) (init false) runOnce = some s ∧
      s.jobs.items.map (·.lastRun) = [60000000000] := ⟨_, rfl, by decide +kernel⟩
  constructor
  · intro h
    have hsurvive := (survives_iff (jobsStored_of_run hgenerated hrun)).1
      (h (2 * ·) false runOnce hgenerated s hrun)
    obtain ⟨job, hjob, hrun⟩ := mem_map.1 (hlast ▸ mem_singleton_self (60000000000 : Int))
    have hzero := (hsurvive job hjob).lastRun
    rw [hrun] at hzero
    exact absurd hzero (by decide)
  · intro h
    have hsafe := h (2 * ·) false runOnce hgenerated s hrun (some (.arr [.null])) 0
    have hnone := (errorSafe_iff _ _ _ _).1 hsafe _ rfl [] .null [] rfl nofun nofun
    rw [hnone] at hlast
    cases hlast

end CronScheduler

end RavBot.Core
