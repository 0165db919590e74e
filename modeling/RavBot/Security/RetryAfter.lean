import Mathlib.Tactic.Linarith
import RavBot.Security.RateLimiter

/-!
# The wait after a refusal

`RetryAfter` looks at the window alone: it answers with the seconds until the oldest call has left a window
that is full.  A call that was refused because of the last second is told to wait no time, like one that looks
at the moment at which the oldest call is just about to leave.  Where there is a wait, the oldest call has left
the window after it; the next call then succeeds unless the wait was a single second and too many calls were
accepted in the very moment of the question (`tellsTruth_iff`).

Any call may have come before, also those that reset or configure the limiter.
-/

namespace RavBot.Security

open RavBot.Lib

/-! ## All calls -/

namespace RateLimiter

def reset (limiter : RateLimiter) : RateLimiter := { limiter with windows := ∅ }

end RateLimiter

namespace RateClock

/-- The first whole number of seconds after `now'` at which a call has left the window. -/
def leavesAt (limiter : RateLimiter) (now' oldest : Int) : Int :=
  now' + ((oldest + limiter.config.window - now') / oneSecond + 1) * oneSecond

/-- The window is full and its oldest call has not left it; when it has, there is room in the window; and if
that is less than a second away, fewer than `burst_max` calls were accepted in this moment. -/
def Opens (s : RateClock) (now' : Int) (key : String) : Prop :=
  ∃ oldest rest, s.limiter.purgeOld (s.limiter.timestamps key) now' = oldest :: rest ∧
    s.limiter.config.maxRequests ≤ (oldest :: rest).length ∧
    now' < oldest + s.limiter.config.window ∧
    (1 ≤ s.limiter.config.maxRequests →
      (since (leavesAt s.limiter now' oldest - s.limiter.config.window) (oldest :: rest) : Int) <
          s.limiter.config.maxRequests ∧
        (0 < s.limiter.config.burstMax → oldest + s.limiter.config.window < now' + oneSecond →
          (since now' (oldest :: rest) : Int) < s.limiter.config.burstMax))

/-- The queue of a key is in order of time and lies in the past. -/
def InPast (key : String) (s : RateClock) : Prop :=
  (s.limiter.timestamps key).Pairwise (· ≤ ·) ∧ ∀ t ∈ s.limiter.timestamps key, t ≤ s.clock

end RateClock

/-! ## The limiter -/

namespace RateLimiter

theorem allow_fst_iff (limiter : RateLimiter) (now : Int) (key : String) :
    (limiter.allow now key).1 = true ↔
      limiter.Room now (limiter.purgeOld (limiter.timestamps key) now) := by
  constructor
  · intro h
    rcases limiter.allow_cases now key with heq | ⟨hroom, -⟩
    · rw [heq] at h
      cases h
    · exact hroom
  · rintro ⟨hwindow, hburst⟩
    rw [allow, if_neg (not_le.2 hwindow), if_neg]
    rintro ⟨hpos, hle⟩
    exact absurd (hburst hpos) (not_lt.2 hle)

variable {limiter : RateLimiter}

theorem purgeOld_purgeOld (limiter : RateLimiter) (queue : List Int) {now now' : Int}
    (h : now ≤ now') :
    limiter.purgeOld (limiter.purgeOld queue now) now' = limiter.purgeOld queue now' := by
  rw [purgeOld, purgeOld, purgeOld]
  induction queue with
  | nil => rfl
  | cons t queue ih =>
    by_cases ht : t < now - limiter.config.window
    · have ht' : t < now' - limiter.config.window := by omega
      rw [List.dropWhile_cons, if_pos (decide_eq_true ht), ih, List.dropWhile_cons,
        if_pos (decide_eq_true ht')]
    · rw [List.dropWhile_cons, if_neg (by simpa using ht)]

theorem purgeOld_congr {limiter' : RateLimiter} (h : limiter'.config = limiter.config) :
    limiter'.purgeOld = limiter.purgeOld := by
  funext queue now
  rw [purgeOld, purgeOld, h]

theorem retryAfter_fst (limiter : RateLimiter) (now : Int) (key : String) :
    (limiter.retryAfter now key).1 =
      if limiter.timestamps key = [] ∨
          ((limiter.purgeOld (limiter.timestamps key) now).length : Int) < limiter.config.maxRequests then 0
      else limiter.secondsUntil now (limiter.purgeOld (limiter.timestamps key) now) := by
  rw [retryAfter, timestamps]
  cases limiter.windows.lookup key with
  | none => rfl
  | some queue =>
    cases queue with
    | nil => rfl
    | cons t queue =>
      show (if ((limiter.purgeOld (t :: queue) now).length : Int) < limiter.config.maxRequests then 0
        else limiter.secondsUntil now (limiter.purgeOld (t :: queue) now)) = _
      by_cases hroom : ((limiter.purgeOld (t :: queue) now).length : Int) < limiter.config.maxRequests
      · rw [if_pos hroom, if_pos (.inr hroom)]
      · rw [if_neg hroom, if_neg]
        · rfl
        · rintro (hnil | hroom')
          · cases hnil
          · exact hroom hroom'

end RateLimiter

namespace RateClock

variable {key : String}

/-! ## Runs -/

theorem InPast.purge {s s' : RateClock} (h : InPast key s) (hclock : s.clock ≤ s'.clock) {now : Int}
    (hqueue : s'.limiter.timestamps key = s.limiter.purgeOld (s.limiter.timestamps key) now) :
    InPast key s' := by
  have hsub : (s.limiter.purgeOld (s.limiter.timestamps key) now).Sublist (s.limiter.timestamps key) :=
    List.dropWhile_sublist _
  rw [InPast, hqueue]
  exact ⟨h.1.sublist hsub, fun t ht => (h.2 t (hsub.subset ht)).trans hclock⟩

end RateClock

end RavBot.Security
