import RavBot.Core.CronIntervals
import RavBot.Core.CronStorage
import RavBot.Lib.Effect

/-!
# Adding cron jobs

The handler of `cron.add` takes a schedule as a text or as an object.  Of an interval in milliseconds it
makes a step of minutes, or of hours when it is an hour or longer; what is lost is the rest of the division,
and that the step starts again with each hour or day.

The jobs are those of a `CronScheduler` between the passes of its loop, with the file that each change
writes.
-/

namespace RavBot.Gateway

open RavBot.Core
open RavBot.Lib

/-- The jobs of a `CronScheduler` and its file.  A file that was opened to be written, and could not be
written, is empty. -/
structure CronStore where
  jobs : List CronJob
  hasPath : Bool
  file : Option (Option Json)

/-- What a call reads from outside: the time, and the numbers that an id is made of. -/
structure CronClock where
  now : Int
  drawn : UInt32 × UInt32

namespace CronStore

/-- Write the jobs to the file, which is opened before they are serialized. -/
def save : Effect CronStore Unit := fun s =>
  if s.hasPath then
    match (Json.arr (s.jobs.map CronJob.toJson)).dump with
    | some j => (.ok (), { s with file := some (some j) })
    | none => (.error "type_error.316", { s with file := some none })
  else (.ok (), s)

def addJob (clock : CronClock) (name schedule message sessionKey : String) : Effect CronStore String := do
  let expr ← Effect.ofOption "stoi" (CronExpression.parse schedule)
  let id := CronScheduler.generateId clock.drawn.1 clock.drawn.2
  let job : CronJob := { id, name, schedule, message, sessionKey, nextRun := expr.nextAfter clock.now }
  modify fun s => { s with jobs := s.jobs ++ [job] }
  save
  return id

def removeJob (id : String) : Effect CronStore Bool := do
  let s ← get
  match CronScheduler.removeIndex s.jobs id with
  | none => return false
  | some i =>
    set { s with jobs := s.jobs.eraseIdx i }
    save
    return true

end CronStore

namespace CronHandlers

def field {α : Type} (get : Json → Option α) (j : Json) (key : String) (default : α) : Effect CronStore α :=
  Effect.ofOption "type_error" (j.value get key default)

def everySchedule (everyMs : Int) : String :=
  let everyMin := max 1 (everyMs.tdiv 60000)
  if everyMin < 60 then "*/" ++ toString everyMin ++ " * * * *"
  else "0 */" ++ toString (everyMin.tdiv 60) ++ " * * *"

/-- The schedule of an object. -/
def objectSchedule (sched : Json) : Option String := do
  let kind ← sched.value Json.getString "kind" "cron"
  if kind = "cron" then sched.value Json.getString "expr" ""
  else if kind = "every" then
    return everySchedule (← sched.value Json.getInt64 "everyMs" 3600000)
  else if kind = "at" then sched.value Json.getString "at" "0 * * * *"
  else return ""

def schedule (params : Json) : Option String :=
  match params.find? "schedule" with
  | some (.obj fields) => objectSchedule (.obj fields)
  | _ => params.value Json.getString "schedule" ""

def message (params : Json) : Option String :=
  match params.find? "payload" with
  | some (.obj fields) => (Json.obj fields).value Json.getString "message" ""
  | _ => params.value Json.getString "message" ""

/-- `cron.add`. -/
def cronAdd (clock : CronClock) (params : Json) : Effect CronStore Json := do
  let name ← field Json.getString params "name" ""
  let sessionKey ← field Json.getString params "sessionKey" "agent:main:main"
  let schedule ← Effect.ofOption "type_error" (schedule params)
  let message ← Effect.ofOption "type_error" (message params)
  let name := if name = "" ∧ message ≠ "" then String.ofList (message.toList.take 40) else name
  if schedule = "" ∨ message = "" then throw "schedule and message are required"
  let id ← CronStore.addJob clock name schedule message sessionKey
  return .object [("ok", .bool true), ("id", .str id)]

/-! ## Intervals -/

/-- A schedule is rejected, or fires at times that are the interval apart, whenever it is started. -/
def KeepsInterval (schedule : String) (everyMs : Int) : Prop :=
  ∀ e, CronExpression.parse schedule = some e →
    ∀ (start : Int) (n : Nat), e.firing start (n + 1) - e.firing start n = everyMs * 1000000

theorem everySchedule_eq {n : Nat} (hpos : 0 < n) :
    everySchedule (60000 * n) =
      if n < 60 then String.ofList (CronExpression.stepText n ++ " * * * *".toList)
      else String.ofList ("0 ".toList ++ (CronExpression.stepText (n / 60) ++ " * * *".toList)) := by
  have hdiv : (60000 * (n : Int)).tdiv 60000 = n := Int.mul_tdiv_cancel_left _ (by decide)
  have hmax : max 1 (n : Int) = n := max_eq_right (by omega)
  have hhour : (n : Int).tdiv 60 = ((n / 60 : Nat) : Int) := rfl
  have htext (n : Nat) : toString (n : Int) = toString n := rfl
  have hlt : (n : Int) < 60 ↔ n < 60 := by omega
  rw [everySchedule, hdiv, hmax, hhour, htext, htext]
  simp only [hlt]
  split_ifs
  · apply String.toList_inj.1
    simp only [String.toList_append, String.toList_ofList, CronExpression.stepText]
  · apply String.toList_inj.1
    simp only [String.toList_append, String.toList_ofList, CronExpression.stepText]
    rfl

theorem keepsInterval_of_parse {schedule : String} {e : CronExpression}
    (h : CronExpression.parse schedule = some e) (n : Int) :
    KeepsInterval schedule (60000 * n) ↔ e.FiresEvery n := by
  have hns : 60000 * n * 1000000 = n * 60 * CronExpression.second := by
    rw [CronExpression.second]
    omega
  rw [KeepsInterval, h, hns]
  constructor
  · intro hall
    exact hall e rfl
  · rintro hfires _ ⟨⟩
    exact hfires

/-- The intervals that the schedule keeps: the divisors of an hour, those of a day that are full hours, and
those that are so many hours that their number is no `int`. -/
theorem keepsInterval_iff {everyMs : Int} (hpos : 0 < everyMs) (hwhole : everyMs % 60000 = 0) :
    KeepsInterval (everySchedule everyMs) everyMs ↔
      everyMs ∣ 3600000 ∨ (3600000 ∣ everyMs ∧ everyMs ∣ 86400000) ∨ 2147483648 * 3600000 ≤ everyMs := by
  obtain ⟨n, rfl⟩ : ∃ n : Nat, everyMs = 60000 * n := ⟨(everyMs / 60000).toNat, by omega⟩
  have hn : 0 < n := by omega
  have hhour : 60000 * (n : Int) ∣ 3600000 ↔ (n : Int) ∣ 60 := Int.mul_dvd_mul_iff_left (by decide) (c := 60)
  have hday : 60000 * (n : Int) ∣ 86400000 ↔ (n : Int) ∣ 1440 :=
    Int.mul_dvd_mul_iff_left (by decide) (c := 1440)
  have hfull : 3600000 ∣ 60000 * (n : Int) ↔ 60 ∣ (n : Int) := Int.mul_dvd_mul_iff_left (by decide) (b := 60)
  rw [everySchedule_eq hn, hhour, hday, hfull]
  split_ifs with hshort
  · have hparse := CronExpression.parse_minuteStep hn
    rw [if_pos (by omega)] at hparse
    rw [keepsInterval_of_parse hparse, CronExpression.firesEvery_minuteStep_iff (by omega)]
    refine (or_iff_left ?_).symm
    omega
  · have hsteps : 0 < n / 60 := by omega
    have hparse := CronExpression.parse_hourStep hsteps
    by_cases hfits : n / 60 ≤ 2147483647
    · rw [if_pos hfits] at hparse
      rw [keepsInterval_of_parse hparse]
      refine (@CronExpression.firesEvery_hourStep_iff n (by omega)).trans ?_
      constructor
      · exact fun h => .inr (.inl h)
      · rintro (hdvd | h | hlong)
        · have hle := Int.le_of_dvd (by decide) hdvd
          have heq : (n : Int) = 60 := by omega
          rw [heq]
          decide
        · exact h
        · omega
    · rw [if_neg hfits] at hparse
      refine iff_of_true ?_ (.inr (.inr (by omega)))
      intro e he
      rw [hparse] at he
      cases he

/-- The schedule that `cron.add` makes of an interval of whole minutes is rejected, or fires at times that
are the interval apart, exactly when the interval divides an hour, or is one of full hours and divides a day,
or is so long that its hours are no `int`. -/
theorem every_kept_iff {params : Json} {fields : List (String × Json)} {everyMs : Int}
    (hschedule : params.find? "schedule" = some (.obj fields))
    (hkind : (Json.obj fields).value Json.getString "kind" "cron" = some "every")
    (hevery : (Json.obj fields).value Json.getInt64 "everyMs" 3600000 = some everyMs)
    (hpos : 0 < everyMs) (hwhole : everyMs % 60000 = 0) :
    (∀ text, schedule params = some text → KeepsInterval text everyMs) ↔
      everyMs ∣ 3600000 ∨ (3600000 ∣ everyMs ∧ everyMs ∣ 86400000) ∨ 2147483648 * 3600000 ≤ everyMs := by
  have htext : schedule params = some (everySchedule everyMs) := by
    rw [schedule, hschedule]
    show objectSchedule (.obj fields) = _
    rw [objectSchedule, hkind, hevery]
    rfl
  rw [← keepsInterval_iff hpos hwhole, htext]
  constructor
  · intro h
    exact h _ rfl
  · rintro h _ ⟨⟩
    exact h

def everyRequest (everyMs : Int) : Json :=
  .obj [("message", .str "check the mail"), ("schedule", .obj [("everyMs", .int everyMs), ("kind", .str "every")])]

/-- An interval of two hours is kept. -/
theorem every_kept_two_hours : schedule (everyRequest 7200000) = some (everySchedule 7200000) ∧
    KeepsInterval (everySchedule 7200000) 7200000 := by
  refine ⟨rfl, ?_⟩
  exact (@every_kept_iff (everyRequest 7200000) _ _ rfl rfl rfl (by decide) (by decide)).2
    (.inr (.inl ⟨by decide, by decide⟩)) _ rfl

/-- An interval of 45 minutes is not kept: it starts again with each hour. -/
theorem not_every_kept : ¬ ∀ (params : Json) (fields : List (String × Json)) (everyMs : Int),
    params.find? "schedule" = some (.obj fields) →
    (Json.obj fields).value Json.getString "kind" "cron" = some "every" →
    (Json.obj fields).value Json.getInt64 "everyMs" 3600000 = some everyMs →
    0 < everyMs → everyMs % 60000 = 0 →
      ∀ text, schedule params = some text → KeepsInterval text everyMs := by
  intro h
  have hkept := h (everyRequest 2700000) _ 2700000 rfl rfl rfl (by decide) (by decide) _ rfl
  rcases (keepsInterval_iff (by decide) (by decide)).1 hkept with hhour | ⟨hfull, -⟩ | hlong
  · exact absurd hhour (by decide)
  · exact absurd hfull (by decide)
  · exact absurd hlong (by decide)

end CronHandlers

end RavBot.Gateway
