import Mathlib.Data.List.Nodup
import RavBot.Gateway.CronAdd

/-!
# Updating cron jobs

The handler of `cron.update` removes the job and adds a new one, made of the name, the schedule, the message
and the session of the old one and of what the request changes.  The new schedule is only parsed when the old
job is gone, each of the two steps writes the file, and the rest of the job is lost.
-/

open List

namespace RavBot.Gateway

open RavBot.Core
open RavBot.Lib

namespace CronHandlers

/-! ## The code -/

/-- The request with the fields of its patch over its own: `flat`. -/
def flatten : Json → Json
  | .obj fields =>
    match (Json.obj fields).find? "patch" with
    | some (.obj patch) => .obj (patch.foldl (fun flat f => Json.insertField f.1 f.2 flat) fields)
    | _ => .obj fields
  | params => params

/-- The schedule of the new job. -/
def updateSchedule (flat : Json) (job : CronJob) : Option String :=
  match flat.find? "schedule" with
  | some (.obj fields) => do
      let kind ← (Json.obj fields).value Json.getString "kind" ""
      if kind = "cron" then (Json.obj fields).value Json.getString "expr" job.schedule
      else return job.schedule
  | some (.str schedule) => some schedule
  | _ => some job.schedule

/-- The message of the new job. -/
def updateMessage (flat : Json) (job : CronJob) : Option String :=
  match flat.find? "payload" with
  | some (.obj fields) => (Json.obj fields).value Json.getString "message" job.message
  | _ =>
    if flat.contains "message" then flat.value Json.getString "message" job.message
    else some job.message

/-- `cron.update`. -/
def cronUpdate (clock : CronClock) (params : Json) : Effect CronStore Json := do
  let id ← field Json.getString params "id" ""
  if id = "" then throw "cron job id is required"
  let flat := flatten params
  let s ← get
  match s.jobs.find? (·.id = id) with
  | none => throw ("cron job not found: " ++ id)
  | some job =>
    let name ← field Json.getString flat "name" job.name
    let schedule ← Effect.ofOption "type_error" (updateSchedule flat job)
    let message ← Effect.ofOption "type_error" (updateMessage flat job)
    let _ ← CronStore.removeJob job.id
    let newId ← CronStore.addJob clock name schedule message job.sessionKey
    return .object [("ok", .bool true), ("id", .str newId)]

/-! ## All or nothing -/

/-- The schedule that a request asks for: an object is read as `cron.add` reads it, and without an
expression the job keeps its own. -/
def wantedSchedule (flat : Json) (job : CronJob) : Option String :=
  match flat.find? "schedule" with
  | some (.obj fields) => do
      let kind ← (Json.obj fields).value Json.getString "kind" "cron"
      if kind = "cron" then (Json.obj fields).value Json.getString "expr" job.schedule
      else if kind = "every" ∨ kind = "at" then objectSchedule (.obj fields)
      else return job.schedule
  | some (.str schedule) => some schedule
  | _ => some job.schedule

/-- A job is changed as a request asks, and not otherwise. -/
structure Patched (flat : Json) (job updated : CronJob) : Prop where
  name : flat.value Json.getString "name" job.name = some updated.name
  schedule : wantedSchedule flat job = some updated.schedule
  message : updateMessage flat job = some updated.message
  enabled : flat.contains "enabled" = false → updated.enabled = job.enabled
  sessionKey : flat.contains "sessionKey" = false → updated.sessionKey = job.sessionKey
  lastRun : flat.contains "lastRun" = false → updated.lastRun = job.lastRun

/-- What a call that returns has done: the job with the id of the request was changed, every other job is as
before, and the changed job is the one with the id that the call returns. -/
structure UpdatedOne (s : CronStore) (params response : Json) (s' : CronStore) (id newId : String)
    (job updated : CronJob) : Prop where
  asked : params.value Json.getString "id" "" = some id
  found : job ∈ s.jobs ∧ job.id = id
  response_eq : response = .object [("ok", .bool true), ("id", .str newId)]
  length_eq : s'.jobs.length = s.jobs.length
  others : s'.jobs.Perm (updated :: s.jobs.filter (·.id ≠ id))
  returned : s'.jobs.filter (·.id = newId) = [updated]
  patched : Patched (flatten params) job updated

/-- A call changes nothing when it throws, and one job when it returns. -/
def AllOrNothing (s : CronStore) (params : Json) : Except String Json × CronStore → Prop
  | (.error _, s') => s'.jobs = s.jobs ∧ s'.file = s.file
  | (.ok response, s') => ∃ id newId job updated, UpdatedOne s params response s' id newId job updated

/-- A request is read without an error, with a job and values for the new one. -/
structure Accepted (s : CronStore) (params : Json) (job : CronJob) (name schedule message : String) :
    Prop where
  asked : params.value Json.getString "id" "" = some job.id
  id_ne : job.id ≠ ""
  found : s.jobs.find? (·.id = job.id) = some job
  name : (flatten params).value Json.getString "name" job.name = some name
  schedule : updateSchedule (flatten params) job = some schedule
  message : updateMessage (flatten params) job = some message

/-- A new job: what it is made of, and the id and the time that are read. -/
def newJob (clock : CronClock) (name schedule message sessionKey : String) (expr : CronExpression) : CronJob where
  id := CronScheduler.generateId clock.drawn.1 clock.drawn.2
  name := name
  schedule := schedule
  message := message
  sessionKey := sessionKey
  nextRun := expr.nextAfter clock.now

def Writable (s : CronStore) : Prop := s.hasPath = false ∨ ∀ job ∈ s.jobs, job.IsUtf8

def without (s : CronStore) (job : CronJob) : CronStore :=
  { s with jobs := s.jobs.filter (·.id ≠ job.id) }

/-- The requests after which the job is as it should be: the new schedule can be parsed, the jobs can be
written without the old one and with the new one, a schedule that is an object is of kind `cron` or means the
old schedule, the job is enabled and has not run, or the request says so, and the id that is drawn is not that
of another job. -/
structure Covered (s : CronStore) (clock : CronClock) (params : Json) (job : CronJob)
    (name schedule message : String) : Prop where
  parsed : (CronExpression.parse schedule).isSome
  storable : Writable (without s job) ∧ (s.hasPath = false ∨ Text.validUtf8 name ∧
    Text.validUtf8 schedule ∧ Text.validUtf8 message ∧ Text.validUtf8 job.sessionKey)
  kind : ∀ fields, (flatten params).find? "schedule" = some (.obj fields) →
    (Json.obj fields).find? "kind" = some (.str "cron") ∨
      wantedSchedule (flatten params) job = some job.schedule
  enabled : job.enabled = true ∨ (flatten params).contains "enabled" = true
  lastRun : job.lastRun = 0 ∨ (flatten params).contains "lastRun" = true
  fresh : ∀ other ∈ s.jobs, other.id ≠ job.id →
    other.id ≠ CronScheduler.generateId clock.drawn.1 clock.drawn.2

/-- The new job happens to be the old one, which is the last one and cannot be written, and the file is
already empty: the call throws, and what it did is what was there. -/
structure Restored (s : CronStore) (clock : CronClock) (job : CronJob) (name schedule message : String) :
    Prop where
  writable : Writable (without s job)
  notWritable : ¬ Writable s
  empty : s.file = some none
  same : ∃ expr, CronExpression.parse schedule = some expr ∧
    s.jobs = (without s job).jobs ++ [newJob clock name schedule message job.sessionKey expr]

/-! ## The steps -/

theorem isUtf8_jobs {jobs : List CronJob} :
    (Json.arr (jobs.map CronJob.toJson)).isUtf8 = true ↔ ∀ job ∈ jobs, job.IsUtf8 := by
  rw [Json.isUtf8, Json.allUtf8_iff, forall_mem_map]
  exact forall₂_congr fun job _ => job.isUtf8_toJson

theorem outcome_save (s : CronStore) : CronStore.save.outcome s =
    if s.hasPath then
      match (Json.arr (s.jobs.map CronJob.toJson)).dump with
      | some j => (.ok (), { s with file := some (some j) })
      | none => (.error "type_error.316", { s with file := some none })
    else (.ok (), s) := rfl

variable {s : CronStore}

theorem outcome_save_of_writable (h : Writable s) :
    ∃ file, CronStore.save.outcome s = (.ok (), { s with file }) := by
  rw [outcome_save]
  split_ifs with hpath
  · have hutf8 := h.resolve_left fun hfalse => Bool.false_ne_true (hfalse.symm.trans hpath)
    rw [Json.dump, if_pos (isUtf8_jobs.2 hutf8)]
    exact ⟨_, rfl⟩
  · exact ⟨s.file, rfl⟩

theorem outcome_save_of_not_writable (h : ¬ Writable s) :
    CronStore.save.outcome s = (.error "type_error.316", { s with file := some none }) := by
  rw [Writable, not_or, Bool.not_eq_false] at h
  rw [outcome_save, if_pos h.1, Json.dump, if_neg (mt isUtf8_jobs.1 h.2)]

theorem eraseIdx_eq_filter {jobs : List CronJob} (hnodup : (jobs.map (·.id)).Nodup) {id : String} {i : Nat}
    (h : jobs.findIdx? (·.id = id) = some i) : jobs.eraseIdx i = jobs.filter (·.id ≠ id) := by
  induction jobs generalizing i with
  | nil => cases h
  | cons job jobs ih =>
    obtain ⟨hjob, hjobs⟩ := nodup_cons.1 hnodup
    rw [findIdx?_cons] at h
    by_cases hid : job.id = id
    · rw [decide_eq_true hid, if_pos rfl, Option.some.injEq] at h
      subst h
      rw [eraseIdx_cons_zero, filter_cons_of_neg (by simpa using hid)]
      refine (filter_eq_self.2 fun other hother => ?_).symm
      rw [decide_eq_true_eq]
      intro heq
      have hmem : other.id ∈ jobs.map (·.id) := mem_map_of_mem hother
      rw [heq, ← hid] at hmem
      exact hjob hmem
    · rw [decide_eq_false hid, if_neg Bool.false_ne_true, Option.map_eq_some_iff] at h
      obtain ⟨k, hk, rfl⟩ := h
      rw [eraseIdx_cons_succ, filter_cons_of_pos (by simpa using hid), ih hjobs hk]

variable {job : CronJob}

theorem outcome_removeJob (hnodup : (s.jobs.map (·.id)).Nodup)
    (hfound : s.jobs.find? (·.id = job.id) = some job) (hne : job.id ≠ "") :
    (CronStore.removeJob job.id).outcome s =
      (CronStore.save >>= fun _ => pure true).outcome (without s job) := by
  obtain ⟨i, hi⟩ : ∃ i, s.jobs.findIdx? (·.id = job.id) = some i := by
    rw [← Option.isSome_iff_exists, findIdx?_isSome]
    exact any_eq_true.2 ⟨job, mem_of_find?_eq_some hfound, decide_eq_true rfl⟩
  have hindex : CronScheduler.removeIndex s.jobs job.id = some i := by
    rw [CronScheduler.removeIndex, if_neg hne, hi]
  have hrest := eraseIdx_eq_filter hnodup hi
  have hget : (get : Effect CronStore CronStore).outcome s = (.ok s, s) := rfl
  rw [CronStore.removeJob, Effect.outcome_bind, hget]
  dsimp only
  rw [hindex]
  show Effect.outcome (set { s with jobs := s.jobs.eraseIdx i } >>= _) s = _
  rw [Effect.outcome_bind, hrest]
  rfl

variable {schedule name message : String} {expr : CronExpression}

theorem outcome_addJob
    (hparse : CronExpression.parse schedule = some expr) (s : CronStore) (clock : CronClock)
    (name message sessionKey : String) :
    (CronStore.addJob clock name schedule message sessionKey).outcome s =
      (CronStore.save >>= fun _ => pure (CronScheduler.generateId clock.drawn.1 clock.drawn.2)).outcome
        { s with jobs := s.jobs ++ [newJob clock name schedule message sessionKey expr] } := by
  rw [CronStore.addJob, hparse]
  rfl

/-! ## Requests -/

variable {clock : CronClock} {params : Json}

theorem outcome_of_id {id : String}
    (hid : params.value Json.getString "id" "" = some id) (hne : id ≠ "") :
    (cronUpdate clock params).outcome s =
      Effect.outcome (match s.jobs.find? (·.id = id) with
        | none => throw ("cron job not found: " ++ id)
        | some job => do
            let name ← field Json.getString (flatten params) "name" job.name
            let schedule ← Effect.ofOption "type_error" (updateSchedule (flatten params) job)
            let message ← Effect.ofOption "type_error" (updateMessage (flatten params) job)
            let _ ← CronStore.removeJob job.id
            let newId ← CronStore.addJob clock name schedule message job.sessionKey
            return .object [("ok", .bool true), ("id", .str newId)]) s := by
  have hread : field Json.getString params "id" "" = pure id := by rw [field, hid]; rfl
  rw [cronUpdate, hread, pure_bind, if_neg hne]
  rfl

theorem outcome_of_accepted (h : Accepted s params job name schedule message) :
    (cronUpdate clock params).outcome s = (do
      let _ ← CronStore.removeJob job.id
      let newId ← CronStore.addJob clock name schedule message job.sessionKey
      return Json.object [("ok", .bool true), ("id", .str newId)] : Effect CronStore Json).outcome s := by
  rw [outcome_of_id h.asked h.id_ne, h.found]
  show Effect.outcome (field Json.getString (flatten params) "name" job.name >>= _) s = _
  rw [field, h.name, h.schedule, h.message]
  rfl

theorem outcome_of_not_writable (hnodup : (s.jobs.map (·.id)).Nodup)
    (h : Accepted s params job name schedule message) (hwritable : ¬ Writable (without s job)) :
    (cronUpdate clock params).outcome s = (.error "type_error.316", { without s job with file := some none }) := by
  rw [outcome_of_accepted h, Effect.outcome_bind, outcome_removeJob hnodup h.found h.id_ne, Effect.outcome_bind,
    outcome_save_of_not_writable hwritable]

theorem outcome_of_unparsed (hnodup : (s.jobs.map (·.id)).Nodup)
    (h : Accepted s params job name schedule message) (hwritable : Writable (without s job))
    (hparse : CronExpression.parse schedule = none) :
    ∃ file, (cronUpdate clock params).outcome s = (.error "stoi", { without s job with file }) := by
  obtain ⟨file, hsave⟩ := outcome_save_of_writable hwritable
  refine ⟨file, ?_⟩
  rw [outcome_of_accepted h, Effect.outcome_bind, outcome_removeJob hnodup h.found h.id_ne, Effect.outcome_bind,
    hsave]
  show Effect.outcome (CronStore.addJob clock name schedule message job.sessionKey >>= _) _ = _
  rw [CronStore.addJob, hparse]
  rfl

theorem outcome_of_parsed (hnodup : (s.jobs.map (·.id)).Nodup)
    (h : Accepted s params job name schedule message) (hwritable : Writable (without s job)) (hparse : CronExpression.parse schedule = some expr) :
    ∃ file, (cronUpdate clock params).outcome s =
      (CronStore.save >>= fun _ => pure (Json.object [("ok", .bool true),
        ("id", .str (CronScheduler.generateId clock.drawn.1 clock.drawn.2))])).outcome
      { without s job with
        jobs := (without s job).jobs ++ [newJob clock name schedule message job.sessionKey expr], file } := by
  obtain ⟨file, hsave⟩ := outcome_save_of_writable hwritable
  refine ⟨file, ?_⟩
  rw [outcome_of_accepted h, Effect.outcome_bind, outcome_removeJob hnodup h.found h.id_ne, Effect.outcome_bind,
    hsave]
  show Effect.outcome (CronStore.addJob clock name schedule message job.sessionKey >>= _) _ = _
  rw [Effect.outcome_bind, outcome_addJob hparse, Effect.outcome_bind, Effect.outcome_bind]
  rcases CronStore.save.outcome _ with ⟨_ | _, s'⟩
  · rfl
  · rfl

theorem outcome_of_refused
    (h : ∀ job name schedule message, ¬ Accepted s params job name schedule message) :
    ∃ e, (cronUpdate clock params).outcome s = (.error e, s) := by
  cases hid : params.value Json.getString "id" "" with
  | none =>
    rw [cronUpdate, field, hid]
    exact ⟨_, rfl⟩
  | some id =>
    by_cases hne : id = ""
    · have hread : field Json.getString params "id" "" = pure id := by rw [field, hid]; rfl
      rw [cronUpdate, hread, pure_bind, if_pos hne]
      exact ⟨_, rfl⟩
    · rw [outcome_of_id hid hne]
      cases hfound : s.jobs.find? (·.id = id) with
      | none => exact ⟨_, rfl⟩
      | some job =>
        have hjob : job.id = id := by simpa using find?_some hfound
        show ∃ e, Effect.outcome (field Json.getString (flatten params) "name" job.name >>= _) s = _
        rw [field]
        cases hname : (flatten params).value Json.getString "name" job.name with
        | none => exact ⟨_, rfl⟩
        | some name =>
          cases hschedule : updateSchedule (flatten params) job with
          | none => exact ⟨_, rfl⟩
          | some schedule =>
            cases hmessage : updateMessage (flatten params) job with
            | none => exact ⟨_, rfl⟩
            | some message =>
              subst hjob
              exact absurd ⟨hid, hne, hfound, hname, hschedule, hmessage⟩ (h job name schedule message)

/-! ## The theorem -/

/-- The schedule that is taken is the one that is wanted when the object is of kind `cron` or asks for the
old one. -/
theorem wantedSchedule_eq_iff {flat : Json}
    (h : updateSchedule flat job = some schedule) :
    wantedSchedule flat job = some schedule ↔ ∀ fields, flat.find? "schedule" = some (.obj fields) →
      (Json.obj fields).find? "kind" = some (.str "cron") ∨ wantedSchedule flat job = some job.schedule := by
  rw [updateSchedule] at h
  rw [wantedSchedule]
  cases hsched : flat.find? "schedule" with
  | none =>
    rw [hsched] at h
    exact iff_of_true h (by rintro _ ⟨⟩)
  | some sched =>
    cases sched with
    | obj fields =>
      rw [hsched] at h
      simp only [Option.some.injEq, Json.obj.injEq, forall_eq']
      dsimp only [Json.value] at h ⊢
      cases hkind : (Json.obj fields).find? "kind" with
      | none =>
        rw [hkind] at h
        obtain rfl := Option.some.inj h
        exact (or_iff_right (by rintro ⟨⟩)).symm
      | some kind =>
        rw [hkind] at h
        cases kind with
        | str kind =>
          by_cases hcron : kind = "cron"
          · subst hcron
            exact iff_of_true h (.inl rfl)
          · have hne : some (Json.str kind) ≠ some (.str "cron") := by
              rintro ⟨⟩
              exact hcron rfl
            rw [or_iff_right hne]
            replace h : (if kind = "cron" then _ else some job.schedule) = some schedule := h
            rw [if_neg hcron, Option.some.injEq] at h
            rw [h]
        | _ => cases h
    | str text =>
      rw [hsched] at h
      exact iff_of_true h (by rintro _ ⟨⟩)
    | _ =>
      rw [hsched] at h
      exact iff_of_true h (by rintro _ ⟨⟩)

theorem Accepted.unique {job' : CronJob}
    {name' schedule' message' : String}
    (h : Accepted s params job name schedule message) (h' : Accepted s params job' name' schedule' message') :
    job = job' ∧ name = name' ∧ schedule = schedule' ∧ message = message' := by
  have hid : job.id = job'.id := Option.some.inj (h.asked.symm.trans h'.asked)
  have hfound := h.found
  rw [hid] at hfound
  obtain rfl := Option.some.inj (hfound.symm.trans h'.found)
  exact ⟨rfl, Option.some.inj (h.name.symm.trans h'.name), Option.some.inj (h.schedule.symm.trans h'.schedule),
    Option.some.inj (h.message.symm.trans h'.message)⟩

theorem length_without (hnodup : (s.jobs.map (·.id)).Nodup)
    (hmem : job ∈ s.jobs) : (without s job).jobs.length + 1 = s.jobs.length := by
  have hindex : ∃ i, s.jobs.findIdx? (·.id = job.id) = some i := by
    rw [← Option.isSome_iff_exists, findIdx?_isSome]
    exact any_eq_true.2 ⟨job, hmem, decide_eq_true rfl⟩
  obtain ⟨i, hi⟩ := hindex
  obtain ⟨hlt, -⟩ := findIdx?_eq_some_iff_getElem.1 hi
  have hpos : 0 < s.jobs.length := Nat.zero_lt_of_lt hlt
  show (s.jobs.filter (·.id ≠ job.id)).length + 1 = _
  rw [← eraseIdx_eq_filter hnodup hi, length_eraseIdx_of_lt hlt, Nat.sub_add_cancel hpos]

theorem patched_newJob_iff (h : Accepted s params job name schedule message) (expr : CronExpression) :
    Patched (flatten params) job (newJob clock name schedule message job.sessionKey expr) ↔
      (∀ fields, (flatten params).find? "schedule" = some (.obj fields) →
        (Json.obj fields).find? "kind" = some (.str "cron") ∨
          wantedSchedule (flatten params) job = some job.schedule) ∧
      (job.enabled = true ∨ (flatten params).contains "enabled" = true) ∧
      (job.lastRun = 0 ∨ (flatten params).contains "lastRun" = true) := by
  constructor
  · intro hpatched
    refine ⟨(wantedSchedule_eq_iff h.schedule).1 hpatched.schedule, ?_, ?_⟩
    · cases hnamed : (flatten params).contains "enabled" with
      | true => exact .inr rfl
      | false => exact .inl (hpatched.enabled hnamed).symm
    · cases hnamed : (flatten params).contains "lastRun" with
      | true => exact .inr rfl
      | false => exact .inl (hpatched.lastRun hnamed).symm
  · rintro ⟨hkind, henabled, hlast⟩
    refine ⟨h.name, (wantedSchedule_eq_iff h.schedule).2 hkind, h.message, fun hnamed => ?_, fun _ => rfl,
      fun hnamed => ?_⟩
    · exact (henabled.resolve_right (Bool.eq_false_iff.1 hnamed)).symm
    · exact (hlast.resolve_right (Bool.eq_false_iff.1 hnamed)).symm

/-- A call that returns has done what it should exactly when the new job is as it should be and has an id of
its own. -/
theorem updatedOne_iff {s' : CronStore} (hnodup : (s.jobs.map (·.id)).Nodup) (h : Accepted s params job name schedule message)
    (hjobs : s'.jobs = (without s job).jobs ++ [newJob clock name schedule message job.sessionKey expr]) :
    (∃ id newId job' updated, UpdatedOne s params (.object [("ok", .bool true),
        ("id", .str (CronScheduler.generateId clock.drawn.1 clock.drawn.2))]) s' id newId job' updated) ↔
      Patched (flatten params) job (newJob clock name schedule message job.sessionKey expr) ∧
      ∀ other ∈ s.jobs, other.id ≠ job.id →
        other.id ≠ CronScheduler.generateId clock.drawn.1 clock.drawn.2 := by
  have hmem := mem_of_find?_eq_some h.found
  have hself : [newJob clock name schedule message job.sessionKey expr].filter
      (·.id = CronScheduler.generateId clock.drawn.1 clock.drawn.2) =
      [newJob clock name schedule message job.sessionKey expr] :=
    filter_cons_of_pos (decide_eq_true rfl)
  constructor
  · rintro ⟨id, newId, job', updated, hone⟩
    obtain rfl : job.id = id := Option.some.inj (h.asked.symm.trans hone.asked)
    obtain rfl : job' = job := inj_on_of_nodup_map hnodup hone.found.1 hmem hone.found.2
    have hid : CronScheduler.generateId clock.drawn.1 clock.drawn.2 = newId := by
      have hfield := congrArg (fun j => j.find? "id") hone.response_eq
      rw [Json.find?_object, Json.find?_object] at hfield
      exact Json.str.inj (Option.some.inj hfield)
    subst hid
    have hreturned := hone.returned
    rw [hjobs, filter_append, hself] at hreturned
    obtain ⟨hnone, hupdated⟩ := @append_inj' _ _ _ [] _ hreturned rfl
    obtain rfl := singleton_inj.1 hupdated
    refine ⟨hone.patched, fun other hother hne => ?_⟩
    have hfilter := filter_eq_nil_iff.1 hnone other (mem_filter.2 ⟨hother, decide_eq_true hne⟩)
    rwa [decide_eq_true_eq] at hfilter
  · rintro ⟨hpatched, hfresh⟩
    refine ⟨job.id, _, job, _, h.asked, ⟨hmem, rfl⟩, rfl, ?_, ?_, ?_, hpatched⟩
    · rw [hjobs, length_append, length_singleton, length_without hnodup hmem]
    · rw [hjobs]
      exact perm_append_singleton _ _
    · rw [hjobs, filter_append, hself]
      refine append_left_eq_self.2 (filter_eq_nil_iff.2 fun other hother => ?_)
      obtain ⟨hother, hne⟩ := mem_filter.1 hother
      rw [decide_eq_true_eq] at hne ⊢
      exact hfresh other hother hne

theorem validUtf8_generateId (a b : UInt32) : Text.validUtf8 (CronScheduler.generateId a b) = true := by
  refine Text.validUtf8_of_ascii fun c hc => ?_
  rw [CronScheduler.generateId, String.toList_ofList] at hc
  rcases mem_append.1 (mem_of_mem_take hc) with hc | hc
  · exact Text.ascii_of_mem_toDigits hc
  · exact Text.ascii_of_mem_toDigits hc

theorem writable_newJob_iff (h : Writable (without s job)) {file : Option (Option Json)} :
    Writable { without s job with
      jobs := (without s job).jobs ++ [newJob clock name schedule message job.sessionKey expr], file } ↔
      s.hasPath = false ∨ Text.validUtf8 name ∧
        Text.validUtf8 schedule ∧ Text.validUtf8 message ∧ Text.validUtf8 job.sessionKey := by
  refine or_congr_right' fun hpath => ?_
  have hothers := h.resolve_left hpath
  constructor
  · intro hall
    obtain ⟨-, hname, hschedule, hmessage, hsession⟩ :=
      hall _ (mem_append_right _ (mem_singleton_self _))
    exact ⟨hname, hschedule, hmessage, hsession⟩
  · rintro ⟨hname, hschedule, hmessage, hsession⟩ other hother
    rcases mem_append.1 hother with hother | hother
    · exact hothers other hother
    · rw [mem_singleton.1 hother]
      exact ⟨validUtf8_generateId _ _, hname, hschedule, hmessage, hsession⟩

theorem without_ne (hmem : job ∈ s.jobs) : (without s job).jobs ≠ s.jobs := by
  intro heq
  rw [← heq] at hmem
  obtain ⟨-, hne⟩ := mem_filter.1 hmem
  exact of_decide_eq_true hne rfl

/-- **When `cron.update` is all or nothing.**  For every state of the scheduler with distinct ids and every
request, a call changes nothing when it throws, and the job as it is asked when it returns, exactly when the
request is refused before the job is removed, or is one of those after which the job is as it should be, or
happens to put back what was there. -/
theorem allOrNothing_iff {s : CronStore} (hnodup : (s.jobs.map (·.id)).Nodup) (clock : CronClock)
    (params : Json) :
    AllOrNothing s params ((cronUpdate clock params).outcome s) ↔
      ∀ job name schedule message, Accepted s params job name schedule message →
        Covered s clock params job name schedule message ∨ Restored s clock job name schedule message := by
  by_cases haccepted : ∃ job name schedule message, Accepted s params job name schedule message
  · obtain ⟨job, name, schedule, message, h⟩ := haccepted
    have hmem := mem_of_find?_eq_some h.found
    have hall : (∀ job name schedule message, Accepted s params job name schedule message →
        Covered s clock params job name schedule message ∨ Restored s clock job name schedule message) ↔
        Covered s clock params job name schedule message ∨ Restored s clock job name schedule message := by
      refine ⟨fun hall => hall _ _ _ _ h, fun hone job' name' schedule' message' h' => ?_⟩
      obtain ⟨rfl, rfl, rfl, rfl⟩ := h.unique h'
      exact hone
    rw [hall]
    by_cases hwritable : Writable (without s job)
    · cases hparse : CronExpression.parse schedule with
      | none =>
        obtain ⟨file, houtcome⟩ := @outcome_of_unparsed _ _ _ _ _ clock _ hnodup h hwritable hparse
        rw [houtcome]
        refine iff_of_false (fun hsame => without_ne hmem hsame.1) ?_
        rintro (hcovered | hrestored)
        · have hsome := hcovered.parsed
          rw [hparse] at hsome
          cases hsome
        · obtain ⟨expr, hsome, -⟩ := hrestored.same
          rw [hparse] at hsome
          cases hsome
      | some expr =>
        obtain ⟨file, houtcome⟩ := @outcome_of_parsed _ _ _ _ _ _ clock _ hnodup h hwritable hparse
        have hiff := @writable_newJob_iff _ _ schedule name message expr clock hwritable file
        rw [houtcome, Effect.outcome_bind]
        by_cases hnew : Writable { without s job with
            jobs := (without s job).jobs ++ [newJob clock name schedule message job.sessionKey expr], file }
        · obtain ⟨file', hsave⟩ := outcome_save_of_writable hnew
          rw [hsave]
          refine (updatedOne_iff hnodup h rfl).trans ?_
          rw [patched_newJob_iff h]
          constructor
          · rintro ⟨⟨hkind, henabled, hlast⟩, hfresh⟩
            exact .inl ⟨by rw [hparse]; rfl, ⟨hwritable, hiff.1 hnew⟩, hkind, henabled, hlast, hfresh⟩
          · rintro (hcovered | hrestored)
            · exact ⟨⟨hcovered.kind, hcovered.enabled, hcovered.lastRun⟩, hcovered.fresh⟩
            · obtain ⟨expr', hsome, hsame⟩ := hrestored.same
              obtain rfl := Option.some.inj (hparse.symm.trans hsome)
              refine absurd ?_ hrestored.notWritable
              rw [Writable, hsame]
              exact hnew
        · rw [outcome_save_of_not_writable hnew]
          constructor
          · rintro ⟨hsame, hfile⟩
            refine .inr ⟨hwritable, ?_, hfile.symm, expr, hparse, hsame.symm⟩
            rw [Writable, ← hsame]
            exact hnew
          · rintro (hcovered | hrestored)
            · exact absurd (hiff.2 hcovered.storable.2) hnew
            · obtain ⟨expr', hsome, hsame⟩ := hrestored.same
              obtain rfl := Option.some.inj (hparse.symm.trans hsome)
              exact ⟨hsame.symm, hrestored.empty.symm⟩
    · rw [outcome_of_not_writable hnodup h hwritable]
      refine iff_of_false (fun hsame => without_ne hmem hsame.1) ?_
      rintro (hcovered | hrestored)
      · exact hwritable hcovered.storable.1
      · exact hwritable hrestored.writable
  · have hrefused : ∀ job name schedule message, ¬ Accepted s params job name schedule message := by
      intro job name schedule message h
      exact haccepted ⟨job, name, schedule, message, h⟩
    obtain ⟨e, houtcome⟩ := @outcome_of_refused _ clock _ hrefused
    rw [houtcome]
    exact iff_of_true ⟨rfl, rfl⟩ fun job name schedule message h => absurd h (hrefused _ _ _ _)

def dailyRequest : Json := .object [("message", .str "check the mail"), ("schedule", .str "0 9 * * *")]

def daily : CronStore :=
  ((cronAdd ⟨0, 0x1a2b3c4d, 0x5e6f7081⟩ dailyRequest).outcome { jobs := [], hasPath := false, file := none }).2

def dailyId : String := CronScheduler.generateId 0x1a2b3c4d 0x5e6f7081

def renameRequest : Json := .object [("id", .str dailyId), ("name", .str "mail")]

def wordsRequest : Json := .object [("id", .str dailyId), ("schedule", .str "every day at 9")]

/-- Another name is all that is changed. -/
theorem allOrNothing_rename :
    AllOrNothing daily renameRequest ((cronUpdate ⟨0, 0x92a3b4c5, 0xd6e7f809⟩ renameRequest).outcome daily) := by
  have hids : daily.jobs.map (·.id) = [dailyId] := by decide
  have hvalues : ∀ job, daily.jobs.find? (·.id = dailyId) = some job →
      job.schedule = "0 9 * * *" ∧ job.enabled = true ∧ job.lastRun = 0 := by
    intro job hjob
    have hmap : (daily.jobs.find? (·.id = dailyId)).map (fun job => (job.schedule, job.enabled, job.lastRun)) =
        some ("0 9 * * *", true, 0) := by decide
    rw [hjob, Option.map_some, Option.some.injEq, Prod.mk.injEq, Prod.mk.injEq] at hmap
    exact hmap
  refine (allOrNothing_iff (by rw [hids]; exact nodup_singleton _) _ _).2 ?_
  rintro job name schedule message h
  have hid : dailyId = job.id := Option.some.inj h.asked
  have hfound := h.found
  rw [← hid] at hfound
  obtain ⟨hschedule, henabled, hlast⟩ := hvalues job hfound
  obtain rfl : job.schedule = schedule := Option.some.inj h.schedule
  refine .inl ⟨?_, ⟨.inl rfl, .inl rfl⟩, ?_, .inl henabled, .inl hlast, fun other hother hne => ?_⟩
  · rw [hschedule]
    decide
  · rintro fields ⟨⟩
  · have hmem : other.id ∈ daily.jobs.map (·.id) := mem_map_of_mem hother
    rw [hids, mem_singleton, hid] at hmem
    exact absurd hmem hne

/-- With a schedule that cannot be parsed the call throws, and the job is gone. -/
theorem not_allOrNothing : ¬ ∀ (s : CronStore) (clock : CronClock) (params : Json),
    (s.jobs.map (·.id)).Nodup → AllOrNothing s params ((cronUpdate clock params).outcome s) := by
  intro h
  have hnothing := h daily ⟨0, 0x92a3b4c5, 0xd6e7f809⟩ wordsRequest (by decide)
  have hgone : ((cronUpdate ⟨0, 0x92a3b4c5, 0xd6e7f809⟩ wordsRequest).outcome daily).2.jobs.length = 0 := by decide
  have hone : daily.jobs.length = 1 := by decide
  generalize (cronUpdate ⟨0, 0x92a3b4c5, 0xd6e7f809⟩ wordsRequest).outcome daily = result at hnothing hgone
  obtain ⟨_ | response, s'⟩ := result
  · rw [hnothing.1, hone] at hgone
    exact absurd hgone Nat.one_ne_zero
  · obtain ⟨id, newId, job, updated, hupdated⟩ := hnothing
    rw [hupdated.length_eq, hone] at hgone
    exact absurd hgone Nat.one_ne_zero

end CronHandlers

end RavBot.Gateway
