import RavBot.Security.RetryAfter

/-!
# Questions to the rate limiter

`Remaining`, `RetryAfter` and `Prune` purge the queues that they come to, and `Prune` drops those that are empty
then.  For as long as calls are allowed at all, no later answer shows whether they were called (`answers_filter`).
-/

open List

namespace RavBot.Security

open RavBot.Lib

/-- What a call returns. -/
inductive RateAnswer where
  | allowed (allowed : Bool)
  | remaining (count : Int)
  | retryAfter (seconds : Int)
  deriving DecidableEq

def RateCall.purges (key : String) : RateCall → Bool
  | .allow key' | .remaining key' | .retryAfter key' => key = key'
  | .prune => true

namespace RateClock

/-- What a call returns; `Prune` returns nothing. -/
def answer (s : RateClock) : Int × RateCall → List RateAnswer
  | (now, .allow key) => [.allowed (s.limiter.allow now key).1]
  | (now, .remaining key) => [.remaining (s.limiter.remaining now key).1]
  | (now, .retryAfter key) => [.retryAfter (s.limiter.retryAfter now key).1]
  | (_, .prune) => []

def recent (s : RateClock) (key : String) (now : Int) : List Int :=
  s.limiter.purgeOld (s.limiter.timestamps key) now

variable {s s' : RateClock} {now : Int} {call : RateCall} {key : String}

theorem remaining_fst (h : 1 ≤ s.limiter.config.maxRequests) (now : Int) (key : String) :
    (s.limiter.remaining now key).1 = max 0 (s.limiter.config.maxRequests - (s.recent key now).length) := by
  rw [RateLimiter.remaining, recent, RateLimiter.timestamps]
  cases s.limiter.windows.lookup key with
  | none =>
    show s.limiter.config.maxRequests = max 0 (s.limiter.config.maxRequests - 0)
    omega
  | some queue => rfl

theorem retryAfter_recent (h : 1 ≤ s.limiter.config.maxRequests) (now : Int) (key : String) :
    (s.limiter.retryAfter now key).1 = if ((s.recent key now).length : Int) < s.limiter.config.maxRequests then 0
      else s.limiter.secondsUntil now (s.recent key now) := by
  rw [RateLimiter.retryAfter_fst]
  refine if_congr (or_iff_right_of_imp fun hnil => ?_) rfl rfl
  rw [hnil]
  exact h

theorem timestamps_called (s : RateClock) (now : Int) (call : RateCall) (key : String) :
    (called s.limiter now call).timestamps key = if call.purges key then
      s.recent key now ++ timesOf key (s.accepts (now, call)) else s.limiter.timestamps key := by
  have hnone : timesOf key [] = [] := rfl
  cases call with
  | allow key' =>
    rw [called, accepts, RateCall.purges]
    rcases s.limiter.allow_cases now key' with heq | ⟨-, heq⟩ <;>
      rw [heq, RateLimiter.timestamps_setTimestamps] <;> by_cases hkey : key = key'
    · subst hkey
      simp [hnone, recent]
    · simp [hkey]
    · subst hkey
      simp [timesOf, recent]
    · simp [hkey]
  | remaining key' => simp [called, accepts, RateCall.purges, recent, hnone, RateLimiter.timestamps_remaining]
  | retryAfter key' => simp [called, accepts, RateCall.purges, recent, hnone, RateLimiter.timestamps_retryAfter]
  | prune => simp [called, accepts, RateCall.purges, recent, hnone, RateLimiter.timestamps_prune]

/-- From the time of the first on, nobody can tell two limiters apart. -/
structure Alike (s s' : RateClock) : Prop where
  config : s'.limiter.config = s.limiter.config
  clock : s'.clock ≤ s.clock
  recent : ∀ key now, s.clock ≤ now → s'.recent key now = s.recent key now

namespace Alike

theorem allow_eq (h : Alike s s') (hnow : s.clock ≤ now) (key : String) :
    (s'.limiter.allow now key).1 = (s.limiter.allow now key).1 := by
  have hrecent := h.recent key now hnow
  rw [RateClock.recent, RateClock.recent] at hrecent
  rw [Bool.eq_iff_iff, RateLimiter.allow_fst_iff, RateLimiter.allow_fst_iff, hrecent, RateLimiter.Room,
    RateLimiter.Room, h.config]

theorem answer_eq (h : Alike s s') (hconfig : 1 ≤ s.limiter.config.maxRequests) (hnow : s.clock ≤ now) :
    s'.answer (now, call) = s.answer (now, call) := by
  have hconfig' : 1 ≤ s'.limiter.config.maxRequests := h.config ▸ hconfig
  cases call with
  | allow key => rw [answer, answer, h.allow_eq hnow]
  | remaining key =>
    rw [answer, answer, remaining_fst hconfig, remaining_fst hconfig', h.config, h.recent key now hnow]
  | retryAfter key =>
    rw [answer, answer, retryAfter_recent hconfig, retryAfter_recent hconfig', h.config, h.recent key now hnow]
    cases s.recent key now with
    | nil => rfl
    | cons oldest rest => rw [RateLimiter.secondsUntil, RateLimiter.secondsUntil, RateConfig.window, h.config]; rfl
  | prune => rfl

/-- A call of both. -/
theorem both (h : Alike s s') (hnow : s.clock ≤ now) (call : RateCall) :
    Alike ⟨called s.limiter now call, now⟩ ⟨called s'.limiter now call, now⟩ where
  config := by rw [config_called, config_called, h.config]
  clock := le_rfl
  recent key now' hnow' := by
    have haccepts : s'.accepts (now, call) = s.accepts (now, call) := by
      cases call with
      | allow key' => rw [accepts, accepts, h.allow_eq hnow]
      | _ => rfl
    have hpurge : (called s'.limiter now call).purgeOld = (called s.limiter now call).purgeOld :=
      RateLimiter.purgeOld_congr (by rw [config_called, config_called, h.config])
    have hpurge' : (called s.limiter now call).purgeOld = s.limiter.purgeOld :=
      RateLimiter.purgeOld_congr (config_called ..)
    have hlater := h.recent key now' (hnow.trans hnow')
    rw [RateClock.recent, RateClock.recent, timestamps_called, timestamps_called, haccepts, h.recent key now hnow,
      hpurge, hpurge']
    split_ifs
    · rfl
    · rwa [RateClock.recent, RateLimiter.purgeOld_congr h.config] at hlater

/-- A call of the first that accepts nothing. -/
theorem skip (h : Alike s s') (hnow : s.clock ≤ now) (haccepts : s.accepts (now, call) = []) :
    Alike ⟨called s.limiter now call, now⟩ s' where
  config := by rw [config_called, h.config]
  clock := h.clock.trans hnow
  recent key now' hnow' := by
    have hpurge : (called s.limiter now call).purgeOld = s.limiter.purgeOld :=
      RateLimiter.purgeOld_congr (config_called ..)
    rw [h.recent key now' (hnow.trans hnow'), RateClock.recent, RateClock.recent, timestamps_called, haccepts, hpurge]
    split_ifs
    · rw [RateClock.recent]
      show _ = s.limiter.purgeOld (_ ++ []) now'
      rw [append_nil, RateLimiter.purgeOld_purgeOld _ _ hnow']
    · rfl

end Alike

/-- **Questions leave no trace.**  For as long as calls are allowed at all: in every run of calls at times that do
not go back, all answers stay the same when any calls are left out that are not calls of `Allow`. -/
theorem answers_filter (config : RateConfig) (hconfig : 1 ≤ config.maxRequests) (clock : Int)
    (calls : List (Int × RateCall)) (keep : Int × RateCall → Bool) (hkeep : ∀ now key, keep (now, .allow key))
    (hrun : (exec step ⟨⟨config, ∅⟩, clock⟩ calls).isSome) :
    outputs step answer ⟨⟨config, ∅⟩, clock⟩ (calls.filter keep) =
      outputs step (fun s call => if keep call then s.answer call else []) ⟨⟨config, ∅⟩, clock⟩ calls := by
  have halike : Alike ⟨⟨config, ∅⟩, clock⟩ ⟨⟨config, ∅⟩, clock⟩ := ⟨rfl, le_rfl, fun _ _ _ => rfl⟩
  have hmax : 1 ≤ (RateClock.mk ⟨config, ∅⟩ clock).limiter.config.maxRequests := hconfig
  revert halike hmax hrun
  generalize RateClock.mk ⟨config, ∅⟩ clock = s
  suffices h : ∀ s', (exec step s calls).isSome → Alike s s' → 1 ≤ s.limiter.config.maxRequests →
      outputs step answer s' (calls.filter keep) =
        outputs step (fun s call => if keep call then s.answer call else []) s calls from h s
  induction calls generalizing s with
  | nil => exact fun _ _ _ _ => rfl
  | cons c calls ih =>
    obtain ⟨now, call⟩ := c
    intro s' hrun halike hmax
    obtain ⟨s₂, hrun⟩ := Option.isSome_iff_exists.1 hrun
    obtain ⟨s₁, hstep, hrun⟩ := exec_cons.1 hrun
    have hrest : (exec step s₁ calls).isSome := Option.isSome_of_eq_some hrun
    rw [step, Option.ite_none_right_eq_some] at hstep
    obtain ⟨hnow, hs₁⟩ := hstep
    obtain rfl := (Option.some.inj hs₁)
    have hmax₁ : 1 ≤ (called s.limiter now call).config.maxRequests := (config_called s.limiter now call) ▸ hmax
    by_cases hkept : keep (now, call)
    · rw [filter_cons_of_pos hkept, outputs, outputs, if_pos hkept, halike.answer_eq hmax hnow, step, step,
        if_pos hnow, if_pos (halike.clock.trans hnow)]
      exact congrArg _ (ih _ _ hrest (halike.both hnow call) hmax₁)
    · have haccepts : s.accepts (now, call) = [] := by
        cases call with
        | allow key => exact absurd (hkeep now key) hkept
        | _ => rfl
      rw [filter_cons_of_neg hkept, outputs, if_neg hkept, step, if_pos hnow]
      exact ih _ _ hrest (halike.skip hnow haccepts) hmax₁

theorem answers_filter_two : outputs step answer ⟨⟨{}, ∅⟩, 0⟩ [(5, .allow "a")] =
    outputs step (fun s call => if call.2 ≠ .prune then s.answer call else []) ⟨⟨{}, ∅⟩, 0⟩
      [(3, .prune), (5, .allow "a")] := by
  have h := answers_filter {} (by decide) 0 [(3, .prune), (5, .allow "a")] (·.2 ≠ .prune) (fun _ _ => rfl) rfl
  simpa using h

end RateClock

end RavBot.Security
