import RavBot.Core.CronExpression
import RavBot.Lib.Json
import RavBot.Lib.Run
import RavBot.Lib.SlotVector

/-!
# The cron scheduler

`scheduler_loop` collects pointers to the jobs that are due while it holds the mutex, and then calls
their handlers and updates them without it.  Meanwhile `RemoveJob`, `Load` and `AddJob` may change the
vector, and the pointers then refer to other jobs, or to none.  The loop runs and updates the jobs that
it collected as long as no such change touches a job that is still to be run (`rightJobs`).

A step is what happens between two acquisitions of the mutex, or one handler call, or the update after
it.  How the vector grows is left to the implementation (`grow`).
-/

namespace RavBot.Core

open RavBot.Lib

structure CronJob where
  id : String
  name : String
  schedule : String
  message : String
  sessionKey : String
  enabled : Bool := true
  lastRun : Int := 0
  nextRun : Int := 0
  deriving DecidableEq, Repr

def CronJob.fromJson (j : Json) : Option CronJob := do
  let id ← j.value Json.getString "id" ""
  let name ← j.value Json.getString "name" ""
  let schedule ← j.value Json.getString "schedule" ""
  let message ← j.value Json.getString "message" ""
  let sessionKey ← j.value Json.getString "sessionKey" "agent:main:main"
  let enabled ← j.value Json.getBool "enabled" true
  return { id, name, schedule, message, sessionKey, enabled }

/-- A job that a pass of the loop has still to run: the pointer to it, and the id that it had when it
was collected. -/
structure DueJob where
  slot : Slot
  id : String
  deriving DecidableEq, Repr

/-- A pass of the loop: its time, the jobs that it has still to run, and whether the handler of the
first of them has been called. -/
structure CronPass where
  now : Int
  due : List DueJob
  called : Bool
  deriving DecidableEq, Repr

/-- `CronScheduler`, with the pass that its loop is in.  `handler` tells whether it has a handler. -/
structure CronScheduler where
  jobs : SlotVector CronJob
  handler : Bool
  pass : Option CronPass

/-- A step of the loop, or a call of another thread. -/
inductive CronAction where
  | addJob (id name schedule message sessionKey : String) (now : Int)
  | removeJob (id : String)
  /-- A file is loaded; `none` when there is none, or it is no JSON.  The `k`-th item reads the time
  `clock k`. -/
  | load (file : Option Json) (clock : Nat → Int)
  | collect (now : Int)
  | call
  | update
  | finish

namespace CronScheduler

def init (handler : Bool) : CronScheduler := ⟨.empty, handler, none⟩

/-- The jobs of a file, as far as it is read: the first item that cannot be read ends it, and items
without an id or a schedule are left out. -/
def loadedJobs (clock : Nat → Int) : Nat → List Json → List CronJob
  | _, [] => []
  | k, item :: items =>
    match CronJob.fromJson item with
    | none => []
    | some job =>
      if job.id ≠ "" ∧ job.schedule ≠ "" then
        match CronExpression.parse job.schedule with
        | none => []
        | some expr =>
          { job with nextRun := expr.nextAfter (clock k) } :: loadedJobs clock (k + 1) items
      else loadedJobs clock (k + 1) items

def fileItems : Json → List Json
  | .arr items => items
  | _ => []

def isPrefixOfId (id : String) (job : CronJob) : Bool :=
  decide (id.toList.length < job.id.toList.length) && id.toList.isPrefixOf job.id.toList

/-- The place of the job that `RemoveJob` erases: that of the first with the id, or else that of the
only one whose id begins with it. -/
def removeIndex (jobs : List CronJob) (id : String) : Option Nat :=
  if id = "" then none
  else match jobs.findIdx? (·.id = id) with
    | some i => some i
    | none =>
      match (jobs.zipIdx.filter fun e => isPrefixOfId id e.1).map (·.2) with
      | [i] => some i
      | _ => none

def collected (jobs : SlotVector CronJob) (now : Int) : List DueJob :=
  (jobs.items.zipIdx.filter fun e => e.1.enabled && decide (e.1.nextRun ≤ now)).map fun e =>
    ⟨jobs.slot e.2, e.1.id⟩

def updated (now : Int) (expr : CronExpression) (job : CronJob) : CronJob :=
  { job with lastRun := now, nextRun := expr.nextAfter now }

/-- What an action does; `none` when it cannot be taken.  An update whose pointer refers to nothing
writes outside of the vector. -/
def step (grow : Nat → Nat) (s : CronScheduler) : CronAction → Option CronScheduler
  | .addJob id name schedule message sessionKey now =>
    match CronExpression.parse schedule with
    | none => some s
    | some expr =>
      let job : CronJob := { id, name, schedule, message, sessionKey
                             nextRun := expr.nextAfter now }
      some { s with jobs := s.jobs.push grow job }
  | .removeJob id =>
    match removeIndex s.jobs.items id with
    | none => some s
    | some i => some { s with jobs := s.jobs.erase i }
  | .load none _ => some s
  | .load (some file) clock =>
    some { s with jobs := s.jobs.clear.pushAll grow (loadedJobs clock 0 (fileItems file)) }
  | .collect now =>
    match s.pass with
    | some _ => none
    | none => some { s with pass := some ⟨now, collected s.jobs now, false⟩ }
  | .call =>
    match s.pass with
    | some ⟨now, d :: due, false⟩ =>
      if s.handler then some { s with pass := some ⟨now, d :: due, true⟩ } else none
    | _ => none
  | .update =>
    match s.pass with
    | some ⟨now, d :: due, called⟩ =>
      if called = s.handler then
        match s.jobs.read d.slot with
        | none => some { s with pass := some ⟨now, due, false⟩ }
        | some job =>
          -- a schedule that cannot be read ends the program
          (CronExpression.parse job.schedule).map fun expr =>
            { s with jobs := s.jobs.modify d.slot (updated now expr)
                     pass := some ⟨now, due, false⟩ }
      else none
    | _ => none
  | .finish =>
    match s.pass with
    | some ⟨_, [], _⟩ => some { s with pass := none }
    | _ => none

def pending (s : CronScheduler) : List DueJob := (s.pass.map (·.due)).getD []

/-- A pointer refers to the job that was collected: it is in the vector and enabled, and has the id
that it had. -/
def Refers (s : CronScheduler) (d : DueJob) : Prop :=
  ∃ job, s.jobs.read d.slot = some job ∧ job.id = d.id ∧ job.enabled

/-- Every job that is still to be run is the one that was collected. -/
def Intact (s : CronScheduler) : Prop := ∀ d ∈ s.pending, s.Refers d

/-- The loop calls handlers for jobs that it collected, and writes the times of a run to the same job
and to no other. -/
def RightJob (grow : Nat → Nat) (s : CronScheduler) : CronAction → Prop
  | .call => ∀ d ∈ s.pending.head?, (step grow s .call).isSome → s.Refers d
  | .update => ∀ d ∈ s.pending.head?, ∀ s' ∈ step grow s .update, s.Refers d ∧
      ∃ now job expr, s.jobs.read d.slot = some job ∧ CronExpression.parse job.schedule = some expr ∧
        ∀ p, s'.jobs.read p = if p = d.slot then some (updated now expr job) else s.jobs.read p
  | _ => True

/-- What other threads do leaves the jobs alone that are still to be run: a job is added while there
is room or nothing to be run; a job is removed that comes after all of them, or else those that move
up have the ids of those in whose places they move; and what is loaded has the same ids in their
places. -/
def Undisturbed (s : CronScheduler) : CronAction → Prop
  | .addJob _ _ schedule _ _ _ => (CronExpression.parse schedule).isSome →
      s.pending = [] ∨ s.jobs.items.length < s.jobs.capacity
  | .removeJob id => ∀ i, removeIndex s.jobs.items id = some i → ∀ d ∈ s.pending,
      i ≤ d.slot.index → ∃ job, s.jobs.items[d.slot.index + 1]? = some job ∧ job.id = d.id ∧ job.enabled
  | .load (some file) clock => s.pending = [] ∨
      (loadedJobs clock 0 (fileItems file)).length ≤ s.jobs.capacity ∧ ∀ d ∈ s.pending,
        ∃ job, (loadedJobs clock 0 (fileItems file))[d.slot.index]? = some job ∧ job.id = d.id ∧
          job.enabled
  | _ => True

variable {s : CronScheduler}

theorem refers_iff {s' : CronScheduler} {d : DueJob} (h : s'.jobs.read d.slot = s.jobs.read d.slot) :
    s'.Refers d ↔ s.Refers d := by
  rw [Refers, Refers, h]

theorem Intact.of_read {s' : CronScheduler} (h : s.Intact) (hpending : s'.pending ⊆ s.pending)
    (hread : ∀ d ∈ s.pending, s'.jobs.read d.slot = s.jobs.read d.slot) : s'.Intact := by
  intro d hd
  rw [refers_iff (hread d (hpending hd))]
  exact h d (hpending hd)

theorem intact_collect (s : CronScheduler) (now : Int) :
    Intact { s with pass := some ⟨now, collected s.jobs now, false⟩ } := by
  intro d hd
  simp only [pending, collected, Option.map_some, Option.getD_some, List.mem_map, List.mem_filter] at hd
  obtain ⟨⟨job, i⟩, ⟨hjob, hdue⟩, rfl⟩ := hd
  rw [Bool.and_eq_true] at hdue
  refine ⟨job, ?_, rfl, hdue.1⟩
  rw [SlotVector.read_slot]
  exact List.mem_zipIdx_iff_getElem?.1 hjob

theorem intact_push_iff (h : s.Intact) (grow : Nat → Nat) (job : CronJob) :
    Intact { s with jobs := s.jobs.push grow job } ↔
      s.pending = [] ∨ s.jobs.items.length < s.jobs.capacity := by
  by_cases hroom : s.jobs.items.length < s.jobs.capacity
  · refine iff_of_true (fun d hd => ?_) (.inr hroom)
    obtain ⟨job', hread, hjob⟩ := h d hd
    exact ⟨job', SlotVector.read_push_of_room hroom job hread, hjob⟩
  · rw [or_iff_left hroom]
    constructor
    · intro hintact
      rw [List.eq_nil_iff_forall_not_mem]
      intro d hd
      obtain ⟨job', hread, -⟩ := h d hd
      obtain ⟨job'', hread', -⟩ := hintact d hd
      dsimp only at hread'
      rw [SlotVector.read_push_of_full hroom job hread] at hread'
      cases hread'
    · intro hnone d hd
      change d ∈ s.pending at hd
      rw [hnone] at hd
      cases hd

/-- A job that is removed leaves the jobs intact exactly when those after it keep their ids in their
places. -/
theorem intact_erase_iff (h : s.Intact) (i : Nat) :
    Intact { s with jobs := s.jobs.erase i } ↔ ∀ d ∈ s.pending, i ≤ d.slot.index →
      ∃ job, s.jobs.items[d.slot.index + 1]? = some job ∧ job.id = d.id ∧ job.enabled := by
  refine forall_congr' fun d => forall_congr' fun hd => ?_
  obtain ⟨job, hread, hjob⟩ := h d hd
  have hbuffer : d.slot.buffer = s.jobs.buffer := by
    rw [SlotVector.read] at hread
    split_ifs at hread with hbuffer
    exact hbuffer
  rw [Refers]
  dsimp only
  rw [SlotVector.read_erase]
  by_cases hlt : d.slot.index < i
  · rw [if_pos hlt]
    exact iff_of_true ⟨job, hread, hjob⟩ fun hle => absurd hlt (Nat.not_lt.2 hle)
  · have hnext : s.jobs.read ⟨d.slot.buffer, d.slot.index + 1⟩ = s.jobs.items[d.slot.index + 1]? :=
      if_pos hbuffer
    rw [if_neg hlt, hnext]
    exact ⟨fun hrefers _ => hrefers, fun hkept => hkept (Nat.not_lt.1 hlt)⟩

theorem intact_load_iff (h : s.Intact) (grow : Nat → Nat)
    (loaded : List CronJob) :
    Intact { s with jobs := s.jobs.clear.pushAll grow loaded } ↔
      s.pending = [] ∨ loaded.length ≤ s.jobs.capacity ∧ ∀ d ∈ s.pending,
        ∃ job, loaded[d.slot.index]? = some job ∧ job.id = d.id ∧ job.enabled := by
  have hbuffer (d : DueJob) (hd : d ∈ s.pending) : d.slot.buffer = s.jobs.buffer := by
    obtain ⟨job, hread, -⟩ := h d hd
    rw [SlotVector.read] at hread
    split_ifs at hread with hbuffer
    exact hbuffer
  by_cases hfits : loaded.length ≤ s.jobs.capacity
  · have hread (d : DueJob) (hd : d ∈ s.pending) :
        (s.jobs.clear.pushAll grow loaded).read d.slot = loaded[d.slot.index]? := by
      have hroom : s.jobs.clear.items.length + loaded.length ≤ s.jobs.clear.capacity := by
        rw [show s.jobs.clear.items.length = 0 from rfl, Nat.zero_add]
        exact hfits
      rw [SlotVector.read_pushAll hroom]
      exact if_pos (hbuffer d hd)
    constructor
    · intro hintact
      refine .inr ⟨hfits, fun d hd => ?_⟩
      obtain ⟨job, hjob⟩ := hintact d hd
      exact ⟨job, hread d hd ▸ hjob.1, hjob.2⟩
    · rintro (hnone | ⟨-, hkept⟩) d hd
      · change d ∈ s.pending at hd
        rw [hnone] at hd
        cases hd
      · obtain ⟨job, hjob⟩ := hkept d hd
        exact ⟨job, (hread d hd).trans hjob.1, hjob.2⟩
  · have hmoved : s.jobs.buffer < (s.jobs.clear.pushAll grow loaded).buffer := by
      refine SlotVector.buffer_lt_pushAll (v := s.jobs.clear) ?_
      rw [show s.jobs.clear.items.length = 0 from rfl, Nat.zero_add]
      exact Nat.not_le.1 hfits
    constructor
    · intro hintact
      left
      rw [List.eq_nil_iff_forall_not_mem]
      intro d hd
      obtain ⟨job, hread, -⟩ := hintact d hd
      dsimp only at hread
      rw [SlotVector.read, hbuffer d hd, if_neg (Nat.ne_of_lt hmoved)] at hread
      cases hread
    · rintro (hnone | ⟨hfits', -⟩) d hd
      · change d ∈ s.pending at hd
        rw [hnone] at hd
        cases hd
      · exact absurd hfits' hfits

theorem update_intact {s' : CronScheduler} {grow : Nat → Nat} (h : s.Intact)
    (hstep : step grow s .update = some s') :
    s'.Intact ∧ ∃ now d due called job expr, s.pass = some ⟨now, d :: due, called⟩ ∧
      s.jobs.read d.slot = some job ∧ CronExpression.parse job.schedule = some expr ∧
      ∀ p, s'.jobs.read p = if p = d.slot then some (updated now expr job) else s.jobs.read p := by
  rw [step] at hstep
  split at hstep
  · next now d due called hpass =>
      have hpending : s.pending = d :: due := by rw [pending, hpass]; rfl
      split_ifs at hstep
      obtain ⟨job, hread, hid, henabled⟩ := h d (hpending ▸ List.mem_cons_self)
      rw [hread] at hstep
      simp only [Option.map_eq_some_iff] at hstep
      obtain ⟨expr, hexpr, rfl⟩ := hstep
      have hwrite (p : Slot) : (s.jobs.modify d.slot (updated now expr)).read p =
          if p = d.slot then some (updated now expr job) else s.jobs.read p := by
        rw [SlotVector.read_modify]
        split_ifs with hp
        · rw [hp, hread]
          rfl
        · rfl
      refine ⟨fun d' hd' => ?_, now, d, due, called, job, expr, hpass, hread, hexpr, hwrite⟩
      obtain ⟨job', hread', hjob'⟩ := h d' (hpending ▸ List.mem_cons_of_mem _ hd')
      rw [Refers, hwrite]
      split_ifs with heq
      · rw [heq, hread, Option.some.injEq] at hread'
        subst hread'
        exact ⟨_, rfl, hjob'⟩
      · exact ⟨job', hread', hjob'⟩
  · cases hstep

theorem intact_step_iff (h : s.Intact) (grow : Nat → Nat) (a : CronAction) :
    (∀ s' ∈ step grow s a, s'.Intact) ↔ s.Undisturbed a := by
  cases a with
  | addJob id name schedule message sessionKey now =>
    rw [step, Undisturbed]
    cases CronExpression.parse schedule with
    | none => exact iff_of_true (fun s' hs' => Option.some.inj hs' ▸ h) nofun
    | some expr => simpa using intact_push_iff h grow _
  | removeJob id =>
    rw [step, Undisturbed]
    cases removeIndex s.jobs.items id with
    | none => exact iff_of_true (fun s' hs' => Option.some.inj hs' ▸ h) nofun
    | some i => simpa using intact_erase_iff h i
  | load file clock =>
    cases file with
    | none => exact iff_of_true (fun s' hs' => Option.some.inj hs' ▸ h) trivial
    | some file => simpa [step, Undisturbed] using intact_load_iff h grow _
  | collect now =>
    rw [step]
    refine iff_of_true (fun s' hs' => ?_) trivial
    split at hs'
    · cases hs'
    · cases hs'
      exact intact_collect s now
  | call =>
    rw [step]
    refine iff_of_true (fun s' hs' => ?_) trivial
    split at hs'
    · next now d due hpass =>
        split_ifs at hs'
        · cases hs'
          refine h.of_read ?_ fun _ _ => rfl
          rw [pending, pending, hpass]
          exact List.Subset.refl _
        · cases hs'
    · cases hs'
  | update => exact iff_of_true (fun s' hs' => (update_intact h hs').1) trivial
  | finish =>
    rw [step]
    refine iff_of_true (fun s' hs' => ?_) trivial
    split at hs'
    · cases hs'
      exact h.of_read (List.nil_subset _) fun _ _ => rfl
    · cases hs'

theorem Intact.rightJob (h : s.Intact) (grow : Nat → Nat) (a : CronAction) : RightJob grow s a := by
  cases a with
  | call => exact fun d hd _ => h d (List.mem_of_mem_head? hd)
  | update =>
    intro d hd s' hs'
    obtain ⟨-, now, d', due, called, job, expr, hpass, hread, hexpr, hwrite⟩ := update_intact h hs'
    have heq : d' = d := by
      rw [pending, hpass] at hd
      exact Option.some.inj hd
    subst heq
    exact ⟨h d' (List.mem_of_mem_head? hd), now, job, expr, hread, hexpr, hwrite⟩
  | _ => trivial

/-- **When the scheduler runs the jobs that are due.**  However the passes of its loop and the calls of
other threads come one after the other, the loop calls handlers for jobs that are in the vector and
enabled and have the ids with which they were collected, and writes the times of their runs to them and
to nothing else, if every call of another thread leaves the jobs alone that are still to be run; and
these stay what they were collected as exactly when that is so. -/
theorem rightJobs (grow : Nat → Nat) (handler : Bool) (actions : List CronAction) :
    (Along (step grow) Undisturbed (init handler) actions →
      Along (step grow) (RightJob grow) (init handler) actions) ∧
    (Along (step grow) (fun s a => ∀ s' ∈ step grow s a, s'.Intact) (init handler) actions ↔
      Along (step grow) Undisturbed (init handler) actions) := by
  have hstart : (init handler).Intact := nofun
  constructor
  · intro halong
    exact halong.imp (fun s a s' h hok hstep => (intact_step_iff h grow a).2 hok s' hstep)
      (fun s a h _ => h.rightJob grow a) hstart
  · exact along_congr (fun s a s' h hok hstep => (intact_step_iff h grow a).2 hok s' hstep)
      (fun s a h => intact_step_iff h grow a) hstart

/-- Two jobs that are run every minute; the first is removed while it is due. -/
def removedWhileDue : List CronAction :=
  [.addJob "1a" "first" "* * * * *" "" "" 0, .addJob "2b" "second" "* * * * *" "" "" 0,
    .collect 60000000000, .removeJob "1a"]

/-- The scheduler does not always run the jobs that are due.  When the first of two jobs is removed
after they were collected, the pointer to it refers to the second, whose handler is called in its
place and which gets its times, and the pointer to the second refers to nothing. -/
theorem not_rightJobs :
    ¬ (∀ (grow : Nat → Nat) (handler : Bool) (actions : List CronAction),
      Along (step grow) (RightJob grow) (init handler) actions) ∧
    ∃ s, exec (step (2 * ·)) (init true) removedWhileDue = some s ∧
      s.pending.map (fun d => (d.id, (s.jobs.read d.slot).map (·.id))) =
        [("1a", some "2b"), ("2b", none)] := by
  refine ⟨fun h => ?_, _, rfl, by decide +kernel⟩
  have hrun := h (2 * ·) true (removedWhileDue ++ [.call])
  have hcall := ((((hrun.2 _ rfl).2 _ rfl).2 _ rfl).2 _ rfl).1
  obtain ⟨job, hread, hid, -⟩ := hcall _ rfl rfl
  revert hid
  obtain rfl := Option.some.inj hread
  decide +kernel

end CronScheduler

end RavBot.Core
