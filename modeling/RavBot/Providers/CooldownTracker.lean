import Mathlib.Algebra.Group.Int.Defs
import RavBot.Lib.Table

/-!
# Cooldowns

`CooldownTracker` keeps for each key until when it is in cooldown.  Times are readings of a
steady clock in nanoseconds, and are arguments of the functions that read it.
-/

namespace RavBot.Providers

open RavBot.Lib

inductive ProviderErrorKind where
  | rateLimit
  | authError
  | billingError
  | transient
  | modelNotFound
  | timeout
  | contextOverflow
  | unknown
  deriving DecidableEq, Repr

def second : Int := 1000000000

structure CooldownState where
  consecutiveFailures : Int
  lastError : ProviderErrorKind
  cooldownUntil : Int
  lastFailureAt : Int
  lastProbeAt : Int
  deriving DecidableEq, Repr

structure CooldownTracker where
  states : Table String CooldownState

namespace CooldownTracker

/-- `kProbeInterval`. -/
def probeInterval : Int := 30 * second

/-- `kFailureWindowDecay`. -/
def failureWindowDecay : Int := 24 * 3600 * second

/-- The cooldown after a number of failures that follow each other, in seconds: each failure
from the second to the fifth makes it five times longer, up to a cap. -/
def backoff (base cap failureCount : Int) : Int :=
  min (base * 5 ^ (min failureCount 5 - 1).toNat) cap

/-- `ComputeCooldown`, in seconds. -/
def computeCooldown (kind : ProviderErrorKind) (failureCount : Int) : Int :=
  match kind with
  | .rateLimit => backoff 60 3600 failureCount
  | .authError => 3600
  | .billingError => backoff 18000 86400 failureCount
  | .transient => backoff 60 3600 failureCount
  | .modelNotFound => 0
  | .timeout => backoff 30 300 failureCount
  | .unknown => backoff 60 600 failureCount
  | .contextOverflow => 0

def isInCooldown (tracker : CooldownTracker) (now : Int) (key : String) : Bool :=
  match tracker.states.lookup key with
  | some state => now < state.cooldownUntil
  | none => false

def recordFailure (tracker : CooldownTracker) (now : Int) (key : String)
    (kind : ProviderErrorKind) (retryAfterSeconds : Int) : CooldownTracker :=
  let old := match tracker.states.lookup key with
    | some state =>
      if 0 < state.consecutiveFailures ∧ failureWindowDecay < now - state.lastFailureAt then 0
      else state.consecutiveFailures
    | none => 0
  let cooldown := if 0 < retryAfterSeconds then retryAfterSeconds
    else computeCooldown kind (old + 1)
  ⟨tracker.states.insert key
    { consecutiveFailures := old + 1
      lastError := kind
      cooldownUntil := now + cooldown * second
      lastFailureAt := now
      lastProbeAt := now }⟩

def recordSuccess (tracker : CooldownTracker) (key : String) : CooldownTracker :=
  ⟨tracker.states.erase key⟩

/-- Whether a key in cooldown may be probed. -/
def probeDue (tracker : CooldownTracker) (now : Int) (key : String) : Bool :=
  match tracker.states.lookup key with
  | some state =>
    decide (now < state.cooldownUntil) && !decide (now - state.lastProbeAt < probeInterval)
  | none => false

def tryProbe (tracker : CooldownTracker) (now : Int) (key : String) : Bool × CooldownTracker :=
  match tracker.states.lookup key with
  | some state =>
    if tracker.probeDue now key then
      (true, ⟨tracker.states.insert key { state with lastProbeAt := now }⟩)
    else (false, tracker)
  | none => (false, tracker)

@[simp] theorem tryProbe_fst (tracker : CooldownTracker) (now : Int) (key : String) :
    (tracker.tryProbe now key).1 = tracker.probeDue now key := by
  rw [tryProbe]
  split
  · split <;> simp_all
  · next h => simp [probeDue, h]

theorem tryProbe_snd_of_not_due {tracker : CooldownTracker} {now : Int} {key : String}
    (h : tracker.probeDue now key ≠ true) : (tracker.tryProbe now key).2 = tracker := by
  rw [tryProbe]
  split
  · rw [if_neg h]
  · rfl

theorem isInCooldown_of_probeDue {tracker : CooldownTracker} {now : Int} {key : String}
    (h : tracker.probeDue now key = true) : tracker.isInCooldown now key = true := by
  rw [probeDue] at h
  rw [isInCooldown]
  split at h
  · simp_all
  · cases h

end CooldownTracker

end RavBot.Providers
