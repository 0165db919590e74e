import Mathlib.Data.List.Induction
import RavBot.Providers.CooldownRuns

/-!
# Spacing of probes

A failure of a key and a probe that is granted write the same field, `last_probe_at`, and a probe is granted
only to a key in cooldown for which what stands there lies `kProbeInterval` back.  So as long as the key is
not forgotten, the field only grows, and whatever wrote it keeps the next probe away (`Probed.step`).  What
a call does to the state of a key is one of four things (`step_cases`), from which the laws about pairs of
events of a run follow by induction (`probe_laws`).
-/

namespace RavBot.Providers

open RavBot.Lib

namespace CooldownClock

variable {key : String}

def Granted (start : CooldownClock) (before : List CooldownCall) (now : Int) (key : String) : Prop :=
  ∃ s, exec step start before = some s ∧ s.clock ≤ now ∧ (s.tracker.tryProbe now key).1 = true

/-- The last failure of a key among some calls, since which the key was not forgotten: its time, and when
the cooldown ends to which it led. -/
def LastFailure (start : CooldownClock) (before : List CooldownCall) (key : String)
    (failedAt cooldownUntil : Int) : Prop :=
  ∃ earlier kind retryAfterSeconds later s,
    before = earlier ++ .recordFailure failedAt key kind retryAfterSeconds :: later ∧
      (∀ a ∈ later, ¬ a.Fails key ∧ ¬ a.Clears key) ∧ exec step start earlier = some s ∧
      cooldownUntil = failedAt + s.tracker.demanded failedAt key kind retryAfterSeconds * second

/-- What holds of the probes of a key in a run. -/
structure ProbeLaws (key : String) (start : CooldownClock) (calls : List CooldownCall) : Prop where
  /-- Between two probes that are granted the interval passes. -/
  spaced : ∀ before now between now' after,
    calls = before ++ .tryProbe now key :: (between ++ .tryProbe now' key :: after) →
      Granted start before now key → (∀ a ∈ between, ¬ a.Clears key) →
        Granted start (before ++ .tryProbe now key :: between) now' key →
          CooldownTracker.probeInterval ≤ now' - now
  /-- A probe that is granted comes after the last failure and before the end of its cooldown. -/
  inCooldown : ∀ before now after, calls = before ++ .tryProbe now key :: after →
    Granted start before now key →
      ∃ failedAt cooldownUntil, LastFailure start before key failedAt cooldownUntil ∧
        CooldownTracker.probeInterval ≤ now - failedAt ∧ now < cooldownUntil
  /-- Outside a cooldown no probe is granted. -/
  notOutside : ∀ before now after s, calls = before ++ .tryProbe now key :: after →
    exec step start before = some s → s.tracker.isInCooldown now key = false →
      (s.tracker.tryProbe now key).1 = false

theorem tryProbe_eq_true {tracker : CooldownTracker} {now : Int}
    (h : (tracker.tryProbe now key).1 = true) :
    ∃ state, tracker.states.lookup key = some state ∧ now < state.cooldownUntil ∧
      CooldownTracker.probeInterval ≤ now - state.lastProbeAt := by
  rw [CooldownTracker.tryProbe_fst, CooldownTracker.probeDue] at h
  split at h
  · next state hstate =>
      rw [Bool.and_eq_true, Bool.not_eq_true', decide_eq_true_eq, decide_eq_false_iff_not,
        not_lt] at h
      exact ⟨state, hstate, h⟩
  · cases h

/-! ## Two probes -/

/-- Since a time, the key was not forgotten, and the field was not written with an earlier one. -/
def Probed (key : String) (since : Int) (s : CooldownClock) : Prop :=
  since ≤ s.clock ∧ ∃ state, s.tracker.states.lookup key = some state ∧ since ≤ state.lastProbeAt

theorem Probed.step {since : Int} {s s' : CooldownClock} {a : CooldownCall} (h : Probed key since s)
    (hclear : ¬ a.Clears key) (hstep : step s a = some s') : Probed key since s' := by
  obtain ⟨hsince, state, hstate, hprobe⟩ := h
  obtain ⟨hclock, ⟨-, -, hsame⟩ | ⟨kind, retryAfterSeconds, -, hfailed⟩ | ⟨state', -, -, hstate', hprobed⟩ |
    ⟨hcleared, -⟩⟩ := step_cases hstep key
  · exact ⟨hsince.trans hclock, state, hsame.trans hstate, hprobe⟩
  · refine ⟨hsince.trans hclock, ?_⟩
    rw [hfailed, CooldownTracker.lookup_recordFailure]
    exact ⟨_, rfl, hsince.trans hclock⟩
  · exact ⟨hsince.trans hclock, _, hprobed, hsince.trans hclock⟩
  · exact absurd hcleared hclear

theorem probed_of_tryProbe {s s' : CooldownClock} {now : Int}
    (h : (s.tracker.tryProbe now key).1 = true) (hstep : step s (.tryProbe now key) = some s') :
    Probed key now s' := by
  obtain ⟨state, hstate, -⟩ := tryProbe_eq_true h
  rw [CooldownTracker.tryProbe_fst] at h
  rw [CooldownClock.step] at hstep
  split_ifs at hstep
  cases hstep
  refine ⟨le_rfl, { state with lastProbeAt := now }, ?_, le_rfl⟩
  rw [CooldownTracker.tryProbe, hstate]
  dsimp only
  rw [if_pos h]
  exact AList.lookup_insert _

/-! ## The last failure -/

theorem exists_lastFailure {clock : Int} {before : List CooldownCall} {s : CooldownClock}
    (hrun : exec step ⟨⟨∅⟩, clock⟩ before = some s) {state : CooldownState}
    (hstate : s.tracker.states.lookup key = some state) :
    ∃ failedAt ≤ state.lastProbeAt, failedAt ≤ s.clock ∧
      LastFailure ⟨⟨∅⟩, clock⟩ before key failedAt state.cooldownUntil := by
  induction before using List.reverseRecOn generalizing s state with
  | nil =>
    cases hrun
    cases hstate
  | append_singleton before a ih =>
    obtain ⟨s₁, hrun₁, hstep⟩ := exec_append.1 hrun
    have hstep : step s₁ a = some s := by simpa [exec] using hstep
    -- a call that neither fails nor forgets the key comes after its last failure
    have hlater {state₁ : CooldownState} (hstate₁ : s₁.tracker.states.lookup key = some state₁)
        (hfails : ¬ a.Fails key) (hclears : ¬ a.Clears key) :
        ∃ failedAt ≤ state₁.lastProbeAt, failedAt ≤ s₁.clock ∧
          LastFailure ⟨⟨∅⟩, clock⟩ (before ++ [a]) key failedAt state₁.cooldownUntil := by
      obtain ⟨failedAt, hle, hclock, earlier, kind, retryAfterSeconds, later, s₂, rfl, hbetween,
        hrun₂, huntil⟩ := ih hrun₁ hstate₁
      refine ⟨failedAt, hle, hclock, earlier, kind, retryAfterSeconds, later ++ [a], s₂, ?_, ?_,
        hrun₂, huntil⟩
      · rw [List.append_assoc, List.cons_append]
      · intro b hb
        rcases List.mem_append.1 hb with hb | hb
        · exact hbetween b hb
        · rw [List.mem_singleton.1 hb]
          exact ⟨hfails, hclears⟩
    obtain ⟨hclock, ⟨hfails, hclears, hsame⟩ | ⟨kind, retryAfterSeconds, rfl, hfailed⟩ |
      ⟨state₁, hfails, hclears, hstate₁, hprobed⟩ | ⟨-, hnone⟩⟩ := step_cases hstep key
    · obtain ⟨failedAt, hle, hle', hlast⟩ := hlater (hsame ▸ hstate) hfails hclears
      exact ⟨failedAt, hle, hle'.trans hclock, hlast⟩
    · rw [hfailed, CooldownTracker.lookup_recordFailure] at hstate
      cases hstate
      exact ⟨s.clock, le_rfl, le_rfl, before, kind, retryAfterSeconds, [], s₁, rfl,
        List.forall_mem_nil _, hrun₁, rfl⟩
    · rw [hprobed] at hstate
      cases hstate
      obtain ⟨failedAt, -, hle', hlast⟩ := hlater hstate₁ hfails hclears
      exact ⟨failedAt, hle'.trans hclock, hle'.trans hclock, hlast⟩
    · rw [hnone] at hstate
      cases hstate

/-- **Probes are spaced.**  In every run of calls of a tracker that begins empty: between two probes of a
key that are granted, without the key being forgotten in between, the interval passes; a probe is granted
only when the interval has passed since the last failure and its cooldown has not ended; and outside a
cooldown none is. -/
theorem probe_laws (key : String) (clock : Int) (calls : List CooldownCall) :
    ProbeLaws key ⟨⟨∅⟩, clock⟩ calls where
  spaced := by
    rintro before now between now' after - ⟨s, hrun, -, hgranted⟩ hclear ⟨s', hrun', -, hgranted'⟩
    obtain ⟨s₁, hrun₁, hrest⟩ := exec_append.1 hrun'
    rw [hrun] at hrun₁
    cases hrun₁
    obtain ⟨s₂, hprobe, hbetween⟩ := exec_cons.1 hrest
    have hstep : ∀ s a s', Probed key now s → ¬ a.Clears key → step s a = some s' → Probed key now s' := by
      intro s a s' hprobed hkept hcall
      exact hprobed.step hkept hcall
    have hprobed : Probed key now s' :=
      exec_invariant hstep (probed_of_tryProbe hgranted hprobe) (along_of_forall hclear s₂) hbetween
    obtain ⟨-, state, hstate, hle⟩ := hprobed
    obtain ⟨state', hstate', -, hinterval⟩ := tryProbe_eq_true hgranted'
    rw [hstate] at hstate'
    cases hstate'
    exact hinterval.trans (sub_le_sub_left hle now')
  inCooldown := by
    rintro before now after - ⟨s, hrun, -, hgranted⟩
    obtain ⟨state, hstate, hend, hinterval⟩ := tryProbe_eq_true hgranted
    obtain ⟨failedAt, hle, -, hlast⟩ := exists_lastFailure hrun hstate
    exact ⟨failedAt, state.cooldownUntil, hlast, hinterval.trans (sub_le_sub_left hle now), hend⟩
  notOutside := by
    rintro before now after s - - houtside
    by_contra hgranted
    rw [Bool.not_eq_false, CooldownTracker.tryProbe_fst] at hgranted
    rw [CooldownTracker.isInCooldown_of_probeDue hgranted] at houtside
    cases houtside

/-- A rate limit leads to a cooldown of a minute, in which the key is probed once. -/
example :
    Granted fresh [.recordFailure 0 "openai" .rateLimit 0] (31 * second) "openai" ∧
      ¬ Granted fresh [.recordFailure 0 "openai" .rateLimit 0, .tryProbe (31 * second) "openai"]
        (59 * second) "openai" := by
  constructor
  · exact ⟨_, rfl, by decide, by decide⟩
  · rintro ⟨s, hrun, -, hgranted⟩
    cases hrun
    exact absurd hgranted (by decide)

end CooldownClock

end RavBot.Providers
