import Mathlib.Tactic.Linarith
import RavBot.Lib.Run
import RavBot.Providers.CooldownTracker

/-!
# Runs of the cooldown tracker

Every failure writes a new deadline over the old one: the time of the failure and the wait that
it demands, which is the `Retry-After` of the server or the cooldown of its kind.  So a failure
that demands less makes a key available earlier.  The deadline never moves back exactly when no
wait ends before the deadline that is in place, and that is so when the kinds of the failures
come in the order of their cooldowns (`deadline_kept_iff`).
-/

namespace RavBot.Providers

open RavBot.Lib

/-- A call of the tracker, with the time that it reads. -/
inductive CooldownCall where
  | recordFailure (now : Int) (key : String) (kind : ProviderErrorKind) (retryAfterSeconds : Int)
  | recordSuccess (key : String)
  | isInCooldown (now : Int) (key : String)
  | tryProbe (now : Int) (key : String)
  | reset

/-- A call that forgets the failures of a key. -/
def CooldownCall.Clears (key : String) : CooldownCall → Prop
  | .recordSuccess key' => key' = key
  | .reset => True
  | _ => False

def CooldownCall.Fails (key : String) : CooldownCall → Prop
  | .recordFailure _ key' _ _ => key' = key
  | _ => False

/-- A tracker, and the time that the last call read. -/
structure CooldownClock where
  tracker : CooldownTracker
  clock : Int

namespace CooldownTracker

/-- `cooldown_until` of a key that has failed. -/
def deadline (tracker : CooldownTracker) (key : String) : Option Int :=
  (tracker.states.lookup key).map (·.cooldownUntil)

/-- The failures of a key that still count at a time. -/
def failures (tracker : CooldownTracker) (now : Int) (key : String) : Int :=
  match tracker.states.lookup key with
  | some state =>
    if 0 < state.consecutiveFailures ∧ failureWindowDecay < now - state.lastFailureAt then 0
    else state.consecutiveFailures
  | none => 0

def demanded (tracker : CooldownTracker) (now : Int) (key : String) (kind : ProviderErrorKind)
    (retryAfterSeconds : Int) : Int :=
  if 0 < retryAfterSeconds then retryAfterSeconds
  else computeCooldown kind (tracker.failures now key + 1)

theorem lookup_recordFailure (tracker : CooldownTracker) (now : Int) (key : String)
    (kind : ProviderErrorKind) (retryAfterSeconds : Int) :
    (tracker.recordFailure now key kind retryAfterSeconds).states.lookup key = some
      { consecutiveFailures := tracker.failures now key + 1
        lastError := kind
        cooldownUntil := now + tracker.demanded now key kind retryAfterSeconds * second
        lastFailureAt := now
        lastProbeAt := now } :=
  AList.lookup_insert _

theorem lookup_recordFailure_ne (tracker : CooldownTracker) (now : Int) {key key' : String}
    (h : key' ≠ key) (kind : ProviderErrorKind) (retryAfterSeconds : Int) :
    (tracker.recordFailure now key' kind retryAfterSeconds).states.lookup key =
      tracker.states.lookup key :=
  AList.lookup_insert_ne (Ne.symm h)

theorem lookup_tryProbe (tracker : CooldownTracker) (now : Int) (key key' : String) :
    ∃ lastProbeAt : CooldownState → Int, (tracker.tryProbe now key').2.states.lookup key =
      (tracker.states.lookup key).map fun state =>
        { state with lastProbeAt := lastProbeAt state } := by
  have hsame : tracker.states.lookup key = (tracker.states.lookup key).map fun state =>
      { state with lastProbeAt := state.lastProbeAt } := by
    cases tracker.states.lookup key with
    | none => rfl
    | some state => rfl
  rw [tryProbe]
  split
  · next state hstate =>
      split_ifs
      · by_cases hkey : key = key'
        · subst hkey
          refine ⟨fun _ => now, ?_⟩
          rw [AList.lookup_insert, hstate]
          rfl
        · refine ⟨(·.lastProbeAt), ?_⟩
          rw [AList.lookup_insert_ne hkey]
          exact hsame
      · exact ⟨(·.lastProbeAt), hsame⟩
  · exact ⟨(·.lastProbeAt), hsame⟩

end CooldownTracker

namespace CooldownClock

/-- A call of the tracker.  Time does not go back. -/
def step (s : CooldownClock) : CooldownCall → Option CooldownClock
  | .recordFailure now key kind retryAfterSeconds =>
    if s.clock ≤ now then
      some ⟨s.tracker.recordFailure now key kind retryAfterSeconds, now⟩
    else none
  | .recordSuccess key => some { s with tracker := s.tracker.recordSuccess key }
  | .isInCooldown now _ => if s.clock ≤ now then some { s with clock := now } else none
  | .tryProbe now key =>
    if s.clock ≤ now then some ⟨(s.tracker.tryProbe now key).2, now⟩ else none
  | .reset => some { s with tracker := ⟨∅⟩ }

variable {s : CooldownClock} {a : CooldownCall}

theorem step_cases {s' : CooldownClock} (h : step s a = some s') (key : String) :
    s.clock ≤ s'.clock ∧
      (¬ a.Fails key ∧ ¬ a.Clears key ∧
        s'.tracker.states.lookup key = s.tracker.states.lookup key ∨
      (∃ kind retryAfterSeconds, a = .recordFailure s'.clock key kind retryAfterSeconds ∧
        s'.tracker = s.tracker.recordFailure s'.clock key kind retryAfterSeconds) ∨
      (∃ state, ¬ a.Fails key ∧ ¬ a.Clears key ∧ s.tracker.states.lookup key = some state ∧
        s'.tracker.states.lookup key = some { state with lastProbeAt := s'.clock }) ∨
      a.Clears key ∧ s'.tracker.states.lookup key = none) := by
  cases a with
  | recordFailure now key' kind retryAfterSeconds =>
    rw [step] at h
    split_ifs at h with hclock
    cases h
    refine ⟨hclock, ?_⟩
    by_cases hkey : key' = key
    · subst hkey
      exact .inr (.inl ⟨kind, retryAfterSeconds, rfl, rfl⟩)
    · exact .inl ⟨hkey, id, CooldownTracker.lookup_recordFailure_ne _ _ hkey _ _⟩
  | recordSuccess key' =>
    cases h
    refine ⟨le_rfl, ?_⟩
    by_cases hkey : key' = key
    · subst hkey
      exact .inr (.inr (.inr ⟨rfl, AList.lookup_erase _ _⟩))
    · exact .inl ⟨id, hkey, AList.lookup_erase_ne (Ne.symm hkey)⟩
  | isInCooldown now key' =>
    rw [step] at h
    split_ifs at h with hclock
    cases h
    exact ⟨hclock, .inl ⟨id, id, rfl⟩⟩
  | tryProbe now key' =>
    rw [step] at h
    split_ifs at h with hclock
    cases h
    refine ⟨hclock, ?_⟩
    rw [CooldownTracker.tryProbe]
    split
    · next state hstate =>
        split_ifs with hdue
        · by_cases hkey : key = key'
          · subst hkey
            exact .inr (.inr (.inl ⟨state, id, id, hstate, AList.lookup_insert _⟩))
          · exact .inl ⟨id, id, AList.lookup_insert_ne hkey⟩
        · exact .inl ⟨id, id, rfl⟩
    · exact .inl ⟨id, id, rfl⟩
  | reset =>
    cases h
    exact ⟨le_rfl, .inr (.inr (.inr ⟨trivial, rfl⟩))⟩

def KeepsDeadline (key : String) (s : CooldownClock) (a : CooldownCall) : Prop :=
  ∀ s' ∈ step s a, ∀ deadline ∈ s.tracker.deadline key,
    ∃ deadline' ∈ s'.tracker.deadline key, deadline ≤ deadline'

/-- A failure of a key demands a wait that does not end before the deadline in place. -/
def DemandsEnough (key : String) (s : CooldownClock) : CooldownCall → Prop
  | .recordFailure now key' kind retryAfterSeconds => key' = key → s.clock ≤ now →
      ∀ deadline ∈ s.tracker.deadline key,
        deadline ≤ now + s.tracker.demanded now key kind retryAfterSeconds * second
  | _ => True

/-- The kinds of errors by the length of their cooldowns. -/
def rank : ProviderErrorKind → Nat
  | .modelNotFound => 0
  | .contextOverflow => 0
  | .timeout => 1
  | .unknown => 2
  | .rateLimit => 3
  | .transient => 3
  | .authError => 4
  | .billingError => 5

/-- A failure of a key comes without `Retry-After`, and its kind has no shorter cooldowns than
the kind of the failure before. -/
def InOrder (key : String) (s : CooldownClock) : CooldownCall → Prop
  | .recordFailure _ key' kind retryAfterSeconds => key' = key → retryAfterSeconds ≤ 0 ∧
      ∀ state ∈ s.tracker.states.lookup key, rank state.lastError ≤ rank kind
  | _ => True

theorem deadline_recordFailure (s : CooldownClock) (now : Int) (key : String)
    (kind : ProviderErrorKind) (retryAfterSeconds : Int) :
    (s.tracker.recordFailure now key kind retryAfterSeconds).deadline key =
      some (now + s.tracker.demanded now key kind retryAfterSeconds * second) := by
  rw [CooldownTracker.deadline, CooldownTracker.lookup_recordFailure]
  rfl

variable {key : String}

theorem deadline_of_step {s' : CooldownClock} (h : step s a = some s')
    (hfails : ¬ a.Fails key) (hclear : ¬ a.Clears key) : s'.tracker.deadline key = s.tracker.deadline key := by
  obtain ⟨-, ⟨-, -, hsame⟩ | ⟨kind, retryAfterSeconds, rfl, -⟩ | ⟨state, -, -, hstate, hprobed⟩ | ⟨hcleared, -⟩⟩ :=
    step_cases h key
  · rw [CooldownTracker.deadline, hsame]
    rfl
  · exact absurd rfl hfails
  · rw [CooldownTracker.deadline, CooldownTracker.deadline, hstate, hprobed]
    rfl
  · exact absurd hcleared hclear

theorem keepsDeadline_recordFailure_iff (s : CooldownClock) (now : Int) (key : String) (kind : ProviderErrorKind)
    (retryAfterSeconds : Int) :
    s.KeepsDeadline key (.recordFailure now key kind retryAfterSeconds) ↔
      s.DemandsEnough key (.recordFailure now key kind retryAfterSeconds) := by
  rw [KeepsDeadline, DemandsEnough, step]
  split_ifs with hclock
  · have hnew := s.deadline_recordFailure now key kind retryAfterSeconds
    constructor
    · rintro h - - deadline hdeadline
      obtain ⟨deadline', hdeadline', hle⟩ := h _ rfl deadline hdeadline
      rw [hnew] at hdeadline'
      cases hdeadline'
      exact hle
    · rintro h s' hs' deadline hdeadline
      cases hs'
      exact ⟨_, hnew, h rfl hclock deadline hdeadline⟩
  · exact iff_of_true nofun fun _ hle => absurd hle hclock

theorem keepsDeadline_iff (s : CooldownClock)
    (hclear : ¬ a.Clears key) : s.KeepsDeadline key a ↔ s.DemandsEnough key a := by
  by_cases hfails : a.Fails key
  · cases a with
    | recordFailure now key' kind retryAfterSeconds =>
      cases hfails
      exact s.keepsDeadline_recordFailure_iff now key kind retryAfterSeconds
    | recordSuccess key' => cases hfails
    | isInCooldown now key' => cases hfails
    | tryProbe now key' => cases hfails
    | reset => cases hfails
  · refine iff_of_true (fun s' hs' deadline hdeadline => ⟨deadline, ?_, le_rfl⟩) ?_
    · rw [deadline_of_step hs' hfails hclear]
      exact hdeadline
    · cases a with
      | recordFailure now key' kind retryAfterSeconds => exact fun hkey => absurd hkey hfails
      | recordSuccess key' => trivial
      | isInCooldown now key' => trivial
      | tryProbe now key' => trivial
      | reset => trivial

/-! ## Failures in the order of their cooldowns -/

theorem backoff_mono {base base' cap cap' n n' : Int} (hbase : base ≤ base') (hcap : cap ≤ cap')
    (hpos : 0 ≤ base') (hn : n ≤ n') :
    CooldownTracker.backoff base cap n ≤ CooldownTracker.backoff base' cap' n' := by
  refine min_le_min ?_ hcap
  have hpow : (5 : Int) ^ (min n 5 - 1).toNat ≤ 5 ^ (min n' 5 - 1).toNat :=
    pow_le_pow_right₀ (by decide) (by omega)
  calc base * 5 ^ (min n 5 - 1).toNat
      ≤ base' * 5 ^ (min n 5 - 1).toNat := mul_le_mul_of_nonneg_right hbase (by positivity)
    _ ≤ base' * 5 ^ (min n' 5 - 1).toNat := mul_le_mul_of_nonneg_left hpow hpos

theorem backoff_le (base cap n : Int) : CooldownTracker.backoff base cap n ≤ cap :=
  min_le_right _ _

theorem le_backoff {base cap : Int} (hpos : 0 ≤ base) (hcap : base ≤ cap) (n : Int) :
    base ≤ CooldownTracker.backoff base cap n := by
  refine le_min (le_mul_of_one_le_right hpos ?_) hcap
  exact one_le_pow₀ (by decide)

theorem computeCooldown_le (kind : ProviderErrorKind) (n : Int) :
    CooldownTracker.computeCooldown kind n * second ≤ CooldownTracker.failureWindowDecay := by
  have hday : CooldownTracker.computeCooldown kind n ≤ 86400 := by
    cases kind with
    | rateLimit => exact (backoff_le ..).trans (by decide)
    | transient => exact (backoff_le ..).trans (by decide)
    | timeout => exact (backoff_le ..).trans (by decide)
    | unknown => exact (backoff_le ..).trans (by decide)
    | billingError => exact backoff_le ..
    | authError => exact (show (3600 : Int) ≤ 86400 by decide)
    | modelNotFound => exact (show (0 : Int) ≤ 86400 by decide)
    | contextOverflow => exact (show (0 : Int) ≤ 86400 by decide)
  calc CooldownTracker.computeCooldown kind n * second
      ≤ 86400 * second := mul_le_mul_of_nonneg_right hday (by decide)
    _ = CooldownTracker.failureWindowDecay := rfl

theorem computeCooldown_nonneg (kind : ProviderErrorKind) (n : Int) :
    0 ≤ CooldownTracker.computeCooldown kind n := by
  cases kind with
  | rateLimit => exact le_trans (by decide) (le_backoff (by decide) (by decide) n)
  | transient => exact le_trans (by decide) (le_backoff (by decide) (by decide) n)
  | timeout => exact le_trans (by decide) (le_backoff (by decide) (by decide) n)
  | unknown => exact le_trans (by decide) (le_backoff (by decide) (by decide) n)
  | billingError => exact le_trans (by decide) (le_backoff (by decide) (by decide) n)
  | authError => exact (show (0 : Int) ≤ 3600 by decide)
  | modelNotFound => exact le_rfl
  | contextOverflow => exact le_rfl

theorem computeCooldown_mono {kind kind' : ProviderErrorKind} (h : rank kind ≤ rank kind')
    {n n' : Int} (hn : n ≤ n') :
    CooldownTracker.computeCooldown kind n ≤ CooldownTracker.computeCooldown kind' n' := by
  have hauth : (3600 : Int) ≤ CooldownTracker.backoff 18000 86400 n' :=
    le_trans (by decide) (le_backoff (by decide) (by decide) n')
  cases kind <;> cases kind' <;> first
    | exact absurd h (by decide)
    | exact computeCooldown_nonneg ..
    | exact backoff_mono (by decide) (by decide) (by decide) hn
    | exact le_trans (backoff_le _ _ n) (by decide)
    | exact le_trans (backoff_le _ _ n) (show _ ≤ (3600 : Int) by decide)
    | exact hauth
    | exact le_trans (backoff_le _ _ n) (le_trans (by decide) hauth)
    | exact le_rfl

/-- What a key without `Retry-After` failures looks like: its deadline is that of the last
failure's cooldown. -/
def Computed (key : String) (s : CooldownClock) : Prop :=
  ∀ state ∈ s.tracker.states.lookup key,
    state.lastFailureAt ≤ s.clock ∧
      state.cooldownUntil = state.lastFailureAt +
        CooldownTracker.computeCooldown state.lastError state.consecutiveFailures * second

theorem demandsEnough_of_inOrder (hs : s.Computed key) (ha : s.InOrder key a) : s.DemandsEnough key a := by
  cases a with
  | recordFailure now key' kind retryAfterSeconds =>
    rintro rfl hclock deadline hdeadline
    obtain ⟨hretry, hrank⟩ := ha rfl
    obtain ⟨state, hstate, rfl⟩ := Option.map_eq_some_iff.1 hdeadline
    obtain ⟨hlast, huntil⟩ := hs state hstate
    rw [CooldownTracker.demanded, if_neg (not_lt.2 hretry), CooldownTracker.failures, hstate,
      huntil]
    dsimp only
    have hnonneg := computeCooldown_nonneg kind
    split_ifs with hdecay
    · -- the failures are forgotten, and so the deadline has passed
      have hday := computeCooldown_le state.lastError state.consecutiveFailures
      have hnew : 0 ≤ CooldownTracker.computeCooldown kind (0 + 1) * second :=
        mul_nonneg (hnonneg _) (by decide)
      linarith [hdecay.2]
    · have hlonger : CooldownTracker.computeCooldown state.lastError state.consecutiveFailures *
          second ≤ CooldownTracker.computeCooldown kind (state.consecutiveFailures + 1) * second :=
        mul_le_mul_of_nonneg_right (computeCooldown_mono (hrank state hstate) (by omega))
          (by decide)
      linarith
  | recordSuccess key' => trivial
  | isInCooldown now key' => trivial
  | tryProbe now key' => trivial
  | reset => trivial

theorem Computed.step {s' : CooldownClock} (hs : s.Computed key) (ha : s.InOrder key a) (hstep : step s a = some s') : s'.Computed key := by
  obtain ⟨hclock, ⟨-, -, hsame⟩ | ⟨kind, retryAfterSeconds, rfl, hfailed⟩ | ⟨old, -, -, hold, hprobed⟩ | ⟨-, hnone⟩⟩ :=
    step_cases hstep key
  · rintro state hstate
    obtain ⟨hlast, huntil⟩ := hs state (hsame ▸ hstate)
    exact ⟨hlast.trans hclock, huntil⟩
  · rintro state hstate
    rw [hfailed, CooldownTracker.lookup_recordFailure] at hstate
    cases hstate
    refine ⟨le_rfl, ?_⟩
    rw [CooldownTracker.demanded, if_neg (not_lt.2 (ha rfl).1)]
  · rintro state hstate
    rw [hprobed] at hstate
    cases hstate
    obtain ⟨hlast, huntil⟩ := hs old hold
    exact ⟨hlast.trans hclock, huntil⟩
  · rintro state hstate
    rw [hnone] at hstate
    cases hstate

/-- **A deadline is kept** along a run without `RecordSuccess` for the key and `Reset` exactly
when every failure demands enough; and failures in order do, after the key had none. -/
theorem deadline_kept_iff (key : String) (s : CooldownClock) {as : List CooldownCall}
    (hclear : ∀ a ∈ as, ¬ a.Clears key) :
    (Along step (KeepsDeadline key) s as ↔ Along step (DemandsEnough key) s as) ∧
      (s.tracker.states.lookup key = none → Along step (InOrder key) s as →
        Along step (KeepsDeadline key) s as) := by
  have hiff : Along step (KeepsDeadline key) s as ↔ Along step (DemandsEnough key) s as := by
    induction as generalizing s with
    | nil => exact Iff.rfl
    | cons a as ih =>
      rw [List.forall_mem_cons] at hclear
      refine and_congr (s.keepsDeadline_iff hclear.1) ?_
      exact forall₂_congr fun s' _ => ih s' hclear.2
  refine ⟨hiff, fun hnone hok => hiff.2 ?_⟩
  have hs : s.Computed key := by
    rintro state hstate
    rw [hnone] at hstate
    cases hstate
  exact hok.imp (fun _ _ _ hs ha hstep => hs.step ha hstep)
    (fun _ _ hs ha => demandsEnough_of_inOrder hs ha) hs

def fresh : CooldownClock := ⟨⟨∅⟩, 0⟩

/-- A timeout, a probe a minute later, and then an error of authorization. -/
def inOrderCalls : List CooldownCall :=
  [.recordFailure 0 "openai" .timeout 0, .tryProbe (20 * second) "openai",
    .recordFailure (60 * second) "openai" .authError 0]

/-- The deadline of a key goes up from failure to failure. -/
theorem deadline_kept_inOrderCalls :
    (Along step (KeepsDeadline "openai") fresh inOrderCalls ↔
        Along step (DemandsEnough "openai") fresh inOrderCalls) ∧
      (fresh.tracker.states.lookup "openai" = none →
        Along step (InOrder "openai") fresh inOrderCalls →
          Along step (KeepsDeadline "openai") fresh inOrderCalls) := by
  refine deadline_kept_iff "openai" fresh ?_
  simp [inOrderCalls, CooldownCall.Clears]

/-- A model that is not found ends the cooldown after a billing error. -/
theorem not_deadline_kept :
    ¬ ∀ (key : String) (s : CooldownClock) (as : List CooldownCall),
      (∀ a ∈ as, ¬ a.Clears key) → Along step (KeepsDeadline key) s as := by
  intro h
  have hkept := h "openai" fresh
    [.recordFailure 0 "openai" .billingError 0, .recordFailure 0 "openai" .modelNotFound 0]
    (by simp [CooldownCall.Clears])
  have hnotFound := (keepsDeadline_iff _ id).1 (hkept.2 _ rfl).1
  have hbilling := hnotFound rfl le_rfl _ (deadline_recordFailure ..)
  revert hbilling
  decide

end CooldownClock

end RavBot.Providers
