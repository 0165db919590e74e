import Mathlib.Algebra.Order.Group.Int
import RavBot.Lib.Run
import RavBot.Lib.SlidingWindow
import RavBot.Lib.Table

/-!
# The rate limiter

`RateLimiter` keeps for each key a queue of the times at which it allowed a call, and every call
drops from its front what has left the window.  So the queue is, at any time, the end of the log of
all calls that were allowed, and what is missing from it lies before the window (`Inv`).  A call
that finds room in the window, and in the last second, therefore leaves the whole log within its
limits (`accepted_limited`).

Times are readings of a steady clock in nanoseconds, and are arguments of the functions that read it.
-/

namespace RavBot.Security

open RavBot.Lib

/-- `RateLimiter::Config`. -/
structure RateConfig where
  maxRequests : Int := 100
  windowSeconds : Int := 60
  burstMax : Int := 20
  deriving DecidableEq, Repr

def oneSecond : Int := 1000000000

def RateConfig.window (config : RateConfig) : Int :=
  config.windowSeconds * oneSecond

structure RateLimiter where
  config : RateConfig
  windows : Table String (List Int)

namespace RateLimiter

def timestamps (limiter : RateLimiter) (key : String) : List Int :=
  (limiter.windows.lookup key).getD []

def purgeOld (limiter : RateLimiter) (timestamps : List Int) (now : Int) : List Int :=
  timestamps.dropWhile (· < now - limiter.config.window)

/-- `burst_count`: the calls of the last second, counted from the back of the queue. -/
def burstCount (timestamps : List Int) (now : Int) : Int :=
  (timestamps.reverse.takeWhile (now - oneSecond ≤ ·)).length

def setTimestamps (limiter : RateLimiter) (key : String) (timestamps : List Int) : RateLimiter :=
  { limiter with windows := limiter.windows.insert key timestamps }

theorem timestamps_setTimestamps (limiter : RateLimiter) (key key' : String) (queue : List Int) :
    (limiter.setTimestamps key' queue).timestamps key =
      if key = key' then queue else limiter.timestamps key := by
  rw [timestamps, setTimestamps, Table.lookup_insert_ite]
  split_ifs <;> rfl

@[simp] theorem purgeOld_nil (limiter : RateLimiter) (now : Int) : limiter.purgeOld [] now = [] :=
  rfl

/-- `Allow`.  A key that had no queue has one afterwards, also when the call is refused. -/
def allow (limiter : RateLimiter) (now : Int) (key : String) : Bool × RateLimiter :=
  let timestamps := limiter.purgeOld (limiter.timestamps key) now
  if limiter.config.maxRequests ≤ timestamps.length then
    (false, limiter.setTimestamps key timestamps)
  else if 0 < limiter.config.burstMax ∧ limiter.config.burstMax ≤ burstCount timestamps now then
    (false, limiter.setTimestamps key timestamps)
  else (true, limiter.setTimestamps key (timestamps ++ [now]))

def remaining (limiter : RateLimiter) (now : Int) (key : String) : Int × RateLimiter :=
  match limiter.windows.lookup key with
  | none => (limiter.config.maxRequests, limiter)
  | some timestamps =>
    let timestamps := limiter.purgeOld timestamps now
    (max 0 (limiter.config.maxRequests - timestamps.length), limiter.setTimestamps key timestamps)

/-- The seconds until the oldest call of a full window has left it. -/
def secondsUntil (limiter : RateLimiter) (now : Int) : List Int → Int
  | [] => 0
  | oldest :: _ =>
    let expiresAt := oldest + limiter.config.window
    if expiresAt ≤ now then 0 else (expiresAt - now).tdiv oneSecond + 1

def retryAfter (limiter : RateLimiter) (now : Int) (key : String) : Int × RateLimiter :=
  match limiter.windows.lookup key with
  | none => (0, limiter)
  | some [] => (0, limiter)
  | some timestamps =>
    let timestamps := limiter.purgeOld timestamps now
    (if timestamps.length < limiter.config.maxRequests then 0
      else limiter.secondsUntil now timestamps, limiter.setTimestamps key timestamps)

/-- `Prune`: every queue is purged, and those that are empty then are dropped. -/
def prune (limiter : RateLimiter) (now : Int) : RateLimiter :=
  { limiter with
    windows := (limiter.windows.mapValues (limiter.purgeOld · now)).filterValues (!·.isEmpty) }

/-- A call may be added: there is room in the window, and in the last second. -/
def Room (limiter : RateLimiter) (now : Int) (queue : List Int) : Prop :=
  (queue.length : Int) < limiter.config.maxRequests ∧
    (0 < limiter.config.burstMax → burstCount queue now < limiter.config.burstMax)

theorem allow_cases (limiter : RateLimiter) (now : Int) (key : String) :
    limiter.allow now key =
        (false, limiter.setTimestamps key (limiter.purgeOld (limiter.timestamps key) now)) ∨
      limiter.Room now (limiter.purgeOld (limiter.timestamps key) now) ∧
        limiter.allow now key =
          (true, limiter.setTimestamps key
            (limiter.purgeOld (limiter.timestamps key) now ++ [now])) := by
  rw [allow]
  split_ifs with hfull hburst
  · exact .inl rfl
  · exact .inl rfl
  · refine .inr ⟨⟨not_le.1 hfull, fun hpos => ?_⟩, rfl⟩
    by_contra hle
    exact hburst ⟨hpos, not_lt.1 hle⟩

theorem timestamps_remaining (limiter : RateLimiter) (now : Int) (key key' : String) :
    (limiter.remaining now key').2.timestamps key =
      if key = key' then limiter.purgeOld (limiter.timestamps key) now
      else limiter.timestamps key := by
  rw [remaining]
  split
  · next hnone =>
      split_ifs with hkey
      · subst hkey
        rw [timestamps, hnone]
        rfl
      · rfl
  · next queue hqueue =>
      rw [timestamps_setTimestamps]
      split_ifs with hkey
      · subst hkey
        rw [timestamps, hqueue]
        rfl
      · rfl

theorem timestamps_retryAfter (limiter : RateLimiter) (now : Int) (key key' : String) :
    (limiter.retryAfter now key').2.timestamps key =
      if key = key' then limiter.purgeOld (limiter.timestamps key) now
      else limiter.timestamps key := by
  have hempty (h : limiter.timestamps key' = []) : limiter.timestamps key =
      if key = key' then limiter.purgeOld (limiter.timestamps key) now
      else limiter.timestamps key := by
    split_ifs with hkey
    · subst hkey
      rw [h, purgeOld_nil]
    · rfl
  rw [retryAfter]
  split
  · next hnone => exact hempty (by rw [timestamps, hnone]; rfl)
  · next hnil => exact hempty (by rw [timestamps, hnil]; rfl)
  · next queue _ hqueue =>
      rw [timestamps_setTimestamps]
      split_ifs with hkey
      · subst hkey
        rw [timestamps, hqueue]
        rfl
      · rfl

theorem timestamps_prune (limiter : RateLimiter) (now : Int) (key : String) :
    (limiter.prune now).timestamps key = limiter.purgeOld (limiter.timestamps key) now := by
  rw [timestamps, timestamps, prune, Table.lookup_filterValues, Table.lookup_mapValues]
  cases limiter.windows.lookup key with
  | none => rfl
  | some queue =>
    simp only [Option.map_some, Option.getD_some]
    cases limiter.purgeOld queue now with
    | nil => rfl
    | cons t queue => rfl

end RateLimiter

inductive RateCall where
  | allow (key : String)
  | remaining (key : String)
  | retryAfter (key : String)
  | prune
  deriving DecidableEq, Repr

/-- A rate limiter, and the time that the last call read. -/
structure RateClock where
  limiter : RateLimiter
  clock : Int

namespace RateClock

/-- The limiter after a call that reads the time `now`. -/
def called (limiter : RateLimiter) (now : Int) : RateCall → RateLimiter
  | .allow key => (limiter.allow now key).2
  | .remaining key => (limiter.remaining now key).2
  | .retryAfter key => (limiter.retryAfter now key).2
  | .prune => limiter.prune now

/-- A call, with the time that it reads.  Time does not go back. -/
def step (s : RateClock) (call : Int × RateCall) : Option RateClock :=
  if s.clock ≤ call.1 then some ⟨called s.limiter call.1 call.2, call.1⟩ else none

def accepts (s : RateClock) : Int × RateCall → List (String × Int)
  | (now, .allow key) => if (s.limiter.allow now key).1 then [(key, now)] else []
  | _ => []

def timesOf (key : String) (accepted : List (String × Int)) : List Int :=
  (accepted.filter (·.1 = key)).map (·.2)

/-- What a call can do to the queue of a key, with the times that it accepts. -/
inductive Touched (limiter : RateLimiter) (now : Int) (key : String) : List Int → List Int → Prop
  | kept : Touched limiter now key (limiter.timestamps key) []
  | purged : Touched limiter now key (limiter.purgeOld (limiter.timestamps key) now) []
  | added (room : limiter.Room now (limiter.purgeOld (limiter.timestamps key) now)) :
      Touched limiter now key (limiter.purgeOld (limiter.timestamps key) now ++ [now]) [now]

theorem Touched.ite (limiter : RateLimiter) (now : Int) (key key' : String) :
    Touched limiter now key (if key = key' then
      limiter.purgeOld (limiter.timestamps key) now else limiter.timestamps key) [] := by
  split_ifs
  · exact .purged
  · exact .kept

theorem touched_called (s : RateClock) (now : Int) (call : RateCall) (key : String) :
    Touched s.limiter now key ((called s.limiter now call).timestamps key)
      (timesOf key (s.accepts (now, call))) := by
  cases call with
  | allow key' =>
    rcases s.limiter.allow_cases now key' with h | ⟨hroom, h⟩
    · rw [called, accepts, h, RateLimiter.timestamps_setTimestamps]
      have hite := Touched.ite s.limiter now key key'
      by_cases hkey : key = key'
      · subst hkey
        exact hite
      · rw [if_neg hkey] at hite ⊢
        exact hite
    · rw [called, accepts, h, RateLimiter.timestamps_setTimestamps]
      by_cases hkey : key = key'
      · subst hkey
        have hadded : Touched s.limiter now key _ _ := .added hroom
        simpa [timesOf] using hadded
      · have hkept : Touched s.limiter now key _ _ := .kept
        simpa [timesOf, hkey, Ne.symm hkey] using hkept
  | remaining key' =>
    rw [called, RateLimiter.timestamps_remaining]
    exact Touched.ite s.limiter now key key'
  | retryAfter key' =>
    rw [called, RateLimiter.timestamps_retryAfter]
    exact Touched.ite s.limiter now key key'
  | prune =>
    rw [called, RateLimiter.timestamps_prune]
    exact .purged

theorem config_called (limiter : RateLimiter) (now : Int) (call : RateCall) :
    (called limiter now call).config = limiter.config := by
  cases call with
  | allow key =>
    rcases limiter.allow_cases now key with h | ⟨-, h⟩ <;> rw [called, h] <;> rfl
  | remaining key =>
    rw [called, RateLimiter.remaining]
    split <;> rfl
  | retryAfter key =>
    rw [called, RateLimiter.retryAfter]
    split <;> rfl
  | prune => rfl

/-- The calls of a key that were accepted so far, and its queue: the log is in order of time and
within its limits, and the queue lacks only what lies before the window. -/
structure Inv (config : RateConfig) (key : String) (s : RateClock)
    (accepted : List (String × Int)) : Prop where
  config_eq : s.limiter.config = config
  sorted : (timesOf key accepted).Pairwise (· ≤ ·)
  past : ∀ t ∈ timesOf key accepted, t ≤ s.clock
  holds : Holds (s.clock - config.window) (timesOf key accepted) (s.limiter.timestamps key)
  limited : Limited config.maxRequests.toNat config.window (timesOf key accepted)
  burst : 0 < config.burstMax → Limited config.burstMax.toNat oneSecond (timesOf key accepted)

@[simp] theorem timesOf_append (key : String) (accepted accepted' : List (String × Int)) :
    timesOf key (accepted ++ accepted') = timesOf key accepted ++ timesOf key accepted' := by
  simp [timesOf]

theorem oneSecond_le_window {config : RateConfig} (h : 1 ≤ config.windowSeconds) :
    oneSecond ≤ config.window := by
  rw [RateConfig.window, oneSecond]
  omega

variable {config : RateConfig} {key : String}

theorem Inv.step (hconfig : 1 ≤ config.windowSeconds) {s s' : RateClock} {call : Int × RateCall}
    {accepted : List (String × Int)} (h : Inv config key s accepted)
    (hstep : s.step call = some s') : Inv config key s' (accepted ++ s.accepts call) := by
  obtain ⟨now, call⟩ := call
  rw [RateClock.step, Option.ite_none_right_eq_some] at hstep
  obtain ⟨hclock : s.clock ≤ now, hs'⟩ := hstep
  have hs' : s' = ⟨called s.limiter now call, now⟩ := (Option.some.inj hs').symm
  subst hs'
  have hpast (t : Int) (ht : t ∈ timesOf key accepted) : t ≤ now := (h.past t ht).trans hclock
  have hlater : Holds (now - config.window) (timesOf key accepted) (s.limiter.timestamps key) :=
    h.holds.mono (by omega)
  have hpurged : Holds (now - config.window) (timesOf key accepted)
      (s.limiter.purgeOld (s.limiter.timestamps key) now) := by
    rw [RateLimiter.purgeOld, h.config_eq]
    exact hlater.purge
  have hconfig' : (called s.limiter now call).config = config :=
    (config_called s.limiter now call).trans h.config_eq
  have htouched := touched_called s now call key
  -- a call that accepts nothing for the key leaves the log as it is
  have hidle {queue : List Int} (hholds : Holds (now - config.window) (timesOf key accepted) queue)
      (hqueue : queue = (called s.limiter now call).timestamps key)
      (htimes : [] = timesOf key (s.accepts (now, call))) :
      Inv config key ⟨called s.limiter now call, now⟩ (accepted ++ s.accepts (now, call)) := by
    have hlog : timesOf key (accepted ++ s.accepts (now, call)) = timesOf key accepted := by
      rw [timesOf_append, ← htimes, List.append_nil]
    refine ⟨hconfig', ?_, ?_, ?_, ?_, ?_⟩ <;> rw [hlog]
    · exact h.sorted
    · exact hpast
    · exact hqueue ▸ hholds
    · exact h.limited
    · exact h.burst
  generalize hqueue : (called s.limiter now call).timestamps key = queue at htouched
  generalize htimes : timesOf key (s.accepts (now, call)) = times at htouched
  cases htouched with
  | kept => exact hidle hlater hqueue.symm htimes.symm
  | purged => exact hidle hpurged hqueue.symm htimes.symm
  | added room =>
    obtain ⟨hwindow, hburst⟩ := room
    rw [h.config_eq] at hwindow hburst
    have hlog : timesOf key (accepted ++ s.accepts (now, call)) = timesOf key accepted ++ [now] := by
      rw [timesOf_append, htimes]
    refine ⟨hconfig', ?_, ?_, ?_, ?_, ?_⟩ <;> rw [hlog]
    · refine List.pairwise_append.2 ⟨h.sorted, List.pairwise_singleton _ _, fun t ht t' ht' => ?_⟩
      rw [List.mem_singleton.1 ht']
      exact hpast t ht
    · intro t ht
      rcases List.mem_append.1 ht with ht | ht
      · exact hpast t ht
      · rw [List.mem_singleton.1 ht]
    · show Holds (now - config.window) _ ((called s.limiter now call).timestamps key)
      rw [hqueue]
      exact hpurged.append [now]
    · apply h.limited.append
      rw [RateLimiter.purgeOld, h.config_eq] at hwindow
      rw [hlater.since_purged h.sorted]
      omega
    · intro hpos
      have hroom := hburst hpos
      apply (h.burst hpos).append
      have hsecond : now - config.window ≤ now - oneSecond := by
        have := oneSecond_le_window hconfig
        omega
      rw [hpurged.since_eq h.sorted hsecond]
      rw [RateLimiter.burstCount] at hroom
      omega

theorem Inv.start (config : RateConfig) (key : String) (clock : Int) :
    Inv config key ⟨⟨config, ∅⟩, clock⟩ [] where
  config_eq := rfl
  sorted := List.Pairwise.nil
  past := nofun
  holds := ⟨[], rfl, nofun⟩
  limited := Limited.nil _ _
  burst := fun _ => Limited.nil _ _

/-- **The limiter keeps to its limits.**  In every run of calls at times that do not go back, no
closed interval of the length of the window holds more than `max_requests` accepted calls of a key
(none, when `max_requests` is negative), and where a burst is bounded no closed second holds more
than `burst_max` of them. -/
theorem accepted_limited (config : RateConfig) (hconfig : 1 ≤ config.windowSeconds) (clock : Int)
    (calls : List (Int × RateCall)) (s' : RateClock)
    (hrun : exec step ⟨⟨config, ∅⟩, clock⟩ calls = some s') (key : String) :
    Limited config.maxRequests.toNat config.window
        (timesOf key (outputs step accepts ⟨⟨config, ∅⟩, clock⟩ calls)) ∧
      (0 < config.burstMax → Limited config.burstMax.toNat oneSecond
        (timesOf key (outputs step accepts ⟨⟨config, ∅⟩, clock⟩ calls))) := by
  have hinv : Inv config key s' ([] ++ outputs step accepts ⟨⟨config, ∅⟩, clock⟩ calls) :=
    exec_outputs_invariant (fun s call s' accepted h _ hstep => h.step hconfig hstep)
      (Inv.start config key clock) (along_of_forall (fun _ _ => trivial) _) hrun
  rw [List.nil_append] at hinv
  exact ⟨hinv.limited, hinv.burst⟩

/-- A run in which two calls are accepted, and one is refused because the last second is full. -/
theorem accepted_limited_two :
    timesOf "a" (outputs step accepts ⟨⟨⟨2, 1, 2⟩, ∅⟩, 0⟩
      [(5, .allow "a"), (6, .allow "a"), (7, .allow "a")]) = [5, 6] ∧
    Limited 2 (RateConfig.window ⟨2, 1, 2⟩) (timesOf "a" (outputs step accepts ⟨⟨⟨2, 1, 2⟩, ∅⟩, 0⟩
      [(5, .allow "a"), (6, .allow "a"), (7, .allow "a")])) :=
  ⟨by decide, (accepted_limited ⟨2, 1, 2⟩ (by decide) 0
    [(5, .allow "a"), (6, .allow "a"), (7, .allow "a")] _ rfl "a").1⟩

/-- With a negative `max_requests` no number of accepted calls, not even none, is at most
`max_requests`. -/
theorem not_accepted_le :
    ¬ ∀ (config : RateConfig) (clock : Int) (calls : List (Int × RateCall)) (s' : RateClock),
      1 ≤ config.windowSeconds → exec step ⟨⟨config, ∅⟩, clock⟩ calls = some s' →
        ∀ (key : String) (start : Int),
          (within start (start + config.window)
            (timesOf key (outputs step accepts ⟨⟨config, ∅⟩, clock⟩ calls)) : Int) ≤
              config.maxRequests := by
  intro h
  have hnone := h ⟨-1, 60, 20⟩ 0 [(0, .allow "a")] _ (by decide) rfl "a" 0
  exact absurd hnone (by decide)

end RateClock

end RavBot.Security
