import RavBot.Providers.FailoverResolver

/-!
# What `Resolve` picks

`pick` is what `Resolve` decides on before it counts a fallback: the model that it takes, the
requested one or one of the chain, and what is resolved from it.  A result of `Resolve` is what
was picked.  What was picked can be used, and nothing is picked only when everything on offer
is in cooldown and no probe is due (`resolve_usable`).
-/

namespace RavBot.Providers

open RavBot.Lib

def ResolvedProvider.Of {P : Type} (r : ResolvedProvider P) (ref : ModelRef) : Prop :=
  r.providerId = ref.provider ∧ r.model = ref.model

namespace FailoverResolver

variable {P : Type}

/-- The first model of a chain that gives a result, and the result.  The model that was
requested is skipped. -/
def pickFallback (now : Int) (model sessionKey : String) :
    List String → FailoverResolver P →
      Option (String × ResolvedProvider P) × FailoverResolver P
  | [], s => (none, s)
  | fallback :: chain, s =>
    if fallback = model then pickFallback now model sessionKey chain s
    else
      match s.tryResolve now (s.registry.resolveModel fallback) sessionKey with
      | (some r, s') => (some (fallback, { r with isFallback := true }), s')
      | (none, s') => pickFallback now model sessionKey chain s'

/-- The model that `Resolve` takes, and what is resolved from it. -/
def pick (s : FailoverResolver P) (now : Int) (model sessionKey : String) :
    Option (String × ResolvedProvider P) × FailoverResolver P :=
  match s.tryResolve now (s.registry.resolveModel model) sessionKey with
  | (some r, s') => (some (model, r), s')
  | (none, s') => pickFallback now model sessionKey s'.fallbackChain s'

def ProbeGranted (s s' : FailoverResolver P) (now : Int) (key : String) : Prop :=
  s.cooldown.probeDue now key = true ∧
    ∃ state ∈ s'.cooldown.states.lookup key, state.lastProbeAt = now

/-- A result that can be used: it is not in cooldown, or a probe of it was granted; and when the
pin of the session is for its provider, and is still there, it is the pinned profile, which
exists and is not in cooldown. -/
structure Usable (s s' : FailoverResolver P) (now : Int) (sessionKey : String)
    (r : ResolvedProvider P) : Prop where
  available : s.cooldown.isInCooldown now (cooldownKey r.providerId r.profileId) = false ∨
    s.ProbeGranted s' now (cooldownKey r.providerId r.profileId)
  pinned : sessionKey ≠ "" → ∀ pin ∈ s'.sessionPins.lookup sessionKey,
    pin.providerId = r.providerId → r.profileId = pin.profileId ∧
      (∃ profile ∈ (s.profiles.lookup r.providerId).getD [], profile.id = pin.profileId) ∧
      s.cooldown.isInCooldown now (cooldownKey r.providerId pin.profileId) = false

/-- Everything of a provider is in cooldown, and no probe is due. -/
def Exhausted (s : FailoverResolver P) (now : Int) (provider : String) : Prop :=
  (match s.profiles.lookup provider with
    | some (first :: rest) => ∀ profile ∈ first :: rest,
        s.cooldown.isInCooldown now (cooldownKey provider profile.id) = true
    | _ => s.cooldown.isInCooldown now provider = true) ∧
    s.cooldown.probeDue now (s.probeKey provider) = false

def Makes (s : FailoverResolver P) (provider : String) : Prop :=
  (∀ apiKey, (s.registry.getProviderWithKey provider apiKey).isSome) ∧
    (s.registry.getProvider provider).1.isSome

/-! ## One attempt -/

variable {s s' : FailoverResolver P} {ref : ModelRef} {r : ResolvedProvider P}

theorem of_withProfile {profile : AuthProfile} (h : s.withProfile ref profile = some r) :
    r.Of ref ∧ r.profileId = profile.id ∧ r.isFallback = false := by
  obtain ⟨provider, -, rfl⟩ := Option.map_eq_some_iff.1 h
  exact ⟨⟨rfl, rfl⟩, rfl, rfl⟩

variable {now : Int}

theorem of_pinnedResult {pin : SessionPin} (h : s.pinnedResult now ref pin = some r) :
    r.Of ref ∧ r.isFallback = false ∧ r.profileId = pin.profileId ∧
      (∃ profile ∈ (s.profiles.lookup ref.provider).getD [], profile.id = pin.profileId) ∧
      s.cooldown.isInCooldown now (cooldownKey ref.provider pin.profileId) = false := by
  rw [pinnedResult] at h
  split_ifs at h with hcool
  · obtain ⟨profile, hmem, hprofile⟩ := List.exists_of_findSome?_eq_some h
    split_ifs at hprofile with hid
    obtain ⟨hof, hprofileId, hfallback⟩ := of_withProfile hprofile
    exact ⟨hof, hfallback, hprofileId.trans hid, ⟨profile, hmem, hid⟩, by simpa using hcool⟩

variable {sessionKey model : String}

theorem of_tryPin_some
    (h : s.tryPin now ref sessionKey = (some r, s')) :
    s' = s ∧ ∃ pin, s.sessionPins.lookup sessionKey = some pin ∧
      s.pinnedResult now ref pin = some r := by
  rw [tryPin] at h
  split at h
  · next pin hpin =>
      split_ifs at hpin
      split_ifs at h
      · split at h
        · next hresult =>
            cases h
            exact ⟨rfl, pin, hpin, hresult⟩
        · cases h
      · cases h
  · cases h

theorem of_tryPin_none (h : s.tryPin now ref sessionKey = (none, s'))
    (hkey : sessionKey ≠ "") :
    ∀ pin ∈ s'.sessionPins.lookup sessionKey, pin.providerId ≠ ref.provider := by
  rintro pin hpin
  rw [tryPin, if_neg hkey] at h
  split at h
  · next pin' hpin' =>
      split_ifs at h with hprovider
      · split at h
        · cases h
        · cases h
          rw [Option.mem_def, AList.lookup_erase] at hpin
          cases hpin
      · cases h
        rw [Option.mem_def, hpin'] at hpin
        cases hpin
        exact hprovider
  · next hnone =>
      cases h
      rw [Option.mem_def, hnone] at hpin
      cases hpin

theorem probeGranted_of_tryProbe {key : String}
    (hcooldown : s'.cooldown = (s.cooldown.tryProbe now key).2)
    (h : (s.cooldown.tryProbe now key).1 = true) : s.ProbeGranted s' now key := by
  rw [CooldownTracker.tryProbe_fst] at h
  refine ⟨h, ?_⟩
  rw [hcooldown, CooldownTracker.tryProbe]
  have hstates : (s.cooldown.states.lookup key).isSome := by
    rw [CooldownTracker.probeDue] at h
    split at h
    · next hstate => rw [hstate]; rfl
    · cases h
  obtain ⟨state, hstate⟩ := Option.isSome_iff_exists.1 hstates
  rw [hstate]
  dsimp only
  rw [if_pos h]
  exact ⟨_, AList.lookup_insert _, rfl⟩

theorem of_useDefault
    (h : s.useDefault ref = (some r, s')) :
    r.Of ref ∧ r.profileId = "" ∧ r.isFallback = false ∧ s'.cooldown = s.cooldown ∧
      s'.sessionPins = s.sessionPins := by
  obtain ⟨hr, rfl⟩ := Prod.mk.inj h
  obtain ⟨provider, -, rfl⟩ := Option.map_eq_some_iff.1 hr
  exact ⟨⟨rfl, rfl⟩, rfl, rfl, rfl, rfl⟩

theorem of_tryProfiles (h : s.tryProfiles now ref = (some r, s')) :
    r.Of ref ∧ r.isFallback = false ∧ s'.sessionPins = s.sessionPins ∧
      (s.cooldown.isInCooldown now (cooldownKey ref.provider r.profileId) = false ∨
        s.ProbeGranted s' now (cooldownKey ref.provider r.profileId)) := by
  have hdefault (h : s.tryDefault now ref = (some r, s')) :
      r.Of ref ∧ r.isFallback = false ∧ s'.sessionPins = s.sessionPins ∧
        (s.cooldown.isInCooldown now (cooldownKey ref.provider r.profileId) = false ∨
          s.ProbeGranted s' now (cooldownKey ref.provider r.profileId)) := by
    rw [tryDefault] at h
    dsimp only at h
    split_ifs at h with hcool hprobe
    · obtain ⟨hof, hprofile, hfallback, hcooldown, hpins⟩ := of_useDefault h
      rw [hprofile]
      exact ⟨hof, hfallback, hpins, .inr (probeGranted_of_tryProbe hcooldown hprobe)⟩
    · cases h
    · obtain ⟨hof, hprofile, hfallback, hcooldown, hpins⟩ := of_useDefault h
      rw [hprofile]
      exact ⟨hof, hfallback, hpins, .inl (by simpa using hcool)⟩
  rw [tryProfiles] at h
  split at h
  · next first rest hprofiles =>
      rw [tryList] at h
      split at h
      · next hhealthy =>
          cases h
          obtain ⟨profile, -, hprofile⟩ := List.exists_of_findSome?_eq_some hhealthy
          split_ifs at hprofile with hcool
          obtain ⟨hof, hprofileId, hfallback⟩ := of_withProfile hprofile
          rw [hprofileId]
          exact ⟨hof, hfallback, rfl, .inl (by simpa using hcool)⟩
      · dsimp only at h
        split_ifs at h with hprobe
        · obtain ⟨hr, rfl⟩ := Prod.mk.inj h
          obtain ⟨hof, hprofileId, hfallback⟩ := of_withProfile hr
          rw [hprofileId]
          exact ⟨hof, hfallback, rfl, .inr (probeGranted_of_tryProbe rfl hprobe)⟩
        · cases h
  · exact hdefault h

theorem usable_of_tryResolve
    (h : s.tryResolve now ref sessionKey = (some r, s')) :
    r.Of ref ∧ r.isFallback = false ∧ s.Usable s' now sessionKey r := by
  rw [tryResolve] at h
  split at h
  · next htry =>
      cases h
      obtain ⟨rfl, pin, hpin, hresult⟩ := of_tryPin_some htry
      obtain ⟨hof, hfallback, hprofile, hexists, hcool⟩ := of_pinnedResult hresult
      refine ⟨hof, hfallback, .inl ?_, ?_⟩
      · rw [hof.1, hprofile]
        exact hcool
      · rintro - pin' hpin' -
        rw [Option.mem_def, hpin] at hpin'
        cases hpin'
        rw [hof.1]
        exact ⟨hprofile, hexists, hcool⟩
  · next s₁ htry =>
      obtain ⟨pins, hpins⟩ := s.tryPin_snd now ref sessionKey
      rw [htry] at hpins
      obtain rfl : s₁ = { s with sessionPins := pins } := hpins
      obtain ⟨hof, hfallback, hkept, havailable⟩ := of_tryProfiles h
      refine ⟨hof, hfallback, ?_, ?_⟩
      · rw [hof.1]
        exact havailable
      · rintro hkey pin hpin hprovider
        rw [hkept] at hpin
        exact absurd (hprovider.trans hof.1) (of_tryPin_none htry hkey pin hpin)

/-! ## The chain -/

theorem tryProbe_cooldown (tracker : CooldownTracker) (now : Int) (key key' : String) :
    (tracker.tryProbe now key).2.isInCooldown now key' = tracker.isInCooldown now key' ∧
      ((tracker.tryProbe now key).2.probeDue now key' = true →
        tracker.probeDue now key' = true) := by
  rw [CooldownTracker.tryProbe]
  split
  · next state hstate =>
      split_ifs
      · by_cases hkey : key' = key
        · subst hkey
          rw [CooldownTracker.isInCooldown, CooldownTracker.isInCooldown,
            CooldownTracker.probeDue, CooldownTracker.probeDue, AList.lookup_insert, hstate]
          refine ⟨rfl, ?_⟩
          simp [CooldownTracker.probeInterval, second]
        · rw [CooldownTracker.isInCooldown, CooldownTracker.isInCooldown,
            CooldownTracker.probeDue, CooldownTracker.probeDue, AList.lookup_insert_ne hkey]
          exact ⟨rfl, id⟩
      · exact ⟨rfl, id⟩
  · exact ⟨rfl, id⟩

theorem Usable.of_afterMiss {s₁ : FailoverResolver P} (halike : Alike (s.afterMiss now model) s₁)
    (h : s₁.Usable s' now sessionKey r) : s.Usable s' now sessionKey r := by
  have hcooldown := halike.cooldown
  have hcool (key : String) :
      s₁.cooldown.isInCooldown now key = s.cooldown.isInCooldown now key := by
    rw [hcooldown]
    exact (tryProbe_cooldown ..).1
  have hdue (key : String) (hdue : s₁.cooldown.probeDue now key = true) :
      s.cooldown.probeDue now key = true := by
    rw [hcooldown] at hdue
    exact (tryProbe_cooldown ..).2 hdue
  obtain ⟨havailable, hpinned⟩ := h
  constructor
  · rw [hcool] at havailable
    exact havailable.imp_right fun hgranted => ⟨hdue _ hgranted.1, hgranted.2⟩
  · rintro hkey pin hpin hprovider
    have h := hpinned hkey pin hpin hprovider
    rw [hcool, show s₁.profiles = s.profiles from halike.profiles] at h
    exact h

variable {chain : List String}

/-- What is picked from a chain comes from one of its models, another than the one requested,
and can be used. -/
theorem of_pickFallback {source : String}
    (h : pickFallback now model sessionKey chain s = (some (source, r), s')) :
    source ∈ chain ∧ source ≠ model ∧ r.isFallback = true ∧
      r.Of (s.registry.resolveModel source) ∧ s.Usable s' now sessionKey r := by
  induction chain generalizing s with
  | nil => cases h
  | cons fallback chain ih =>
    rw [pickFallback] at h
    split_ifs at h with hsame
    · obtain ⟨hmem, hrest⟩ := ih h
      exact ⟨.tail _ hmem, hrest⟩
    · split at h
      · next r' _ htry =>
          cases h
          obtain ⟨hof, -, havailable, hpinned⟩ := usable_of_tryResolve htry
          exact ⟨.head _, hsame, rfl, hof, havailable, hpinned⟩
      · next s₁ htry =>
          have halike := (s.tryResolve_spec now fallback sessionKey).2 (by rw [htry])
          rw [htry] at halike
          obtain ⟨hmem, hne, hfallback, hof, husable⟩ := ih h
          rw [halike.resolveModel] at hof
          exact ⟨.tail _ hmem, hne, hfallback, hof, husable.of_afterMiss halike⟩

theorem of_pick_some {source : String} (h : s.pick now model sessionKey = (some (source, r), s')) :
    (source = model ∨ source ∈ s.fallbackChain) ∧ (r.isFallback = false ↔ source = model) ∧
      r.Of (s.registry.resolveModel source) ∧ s.Usable s' now sessionKey r := by
  rw [pick] at h
  split at h
  · next htry =>
      cases h
      obtain ⟨hof, hfallback, husable⟩ := usable_of_tryResolve htry
      exact ⟨.inl rfl, iff_of_true hfallback rfl, hof, husable⟩
  · next s₁ htry =>
      have halike := (s.tryResolve_spec now model sessionKey).2 (by rw [htry])
      rw [htry] at halike
      obtain ⟨hmem, hne, hfallback, hof, husable⟩ := of_pickFallback h
      rw [halike.resolveModel] at hof
      rw [show s₁.fallbackChain = s.fallbackChain from halike.chain] at hmem
      exact ⟨.inr hmem, by simp [hfallback, hne], hof, husable.of_afterMiss halike⟩

/-! ## Nothing is picked -/

theorem exhausted_of_not_serves
    (hmakes : s.Makes (s.registry.resolveModel model).provider) (h : ¬ s.Serves now model) :
    s.Exhausted now (s.registry.resolveModel model).provider := by
  obtain ⟨hwithKey, hdefault⟩ := hmakes
  rw [Serves, Offers] at h
  rw [Exhausted, probeKey]
  rcases hprofiles : s.profiles.lookup (s.registry.resolveModel model).provider with
    _ | _ | ⟨first, rest⟩
  · rw [hprofiles] at h
    simpa [hdefault] using h
  · rw [hprofiles] at h
    simpa [hdefault] using h
  · rw [hprofiles] at h
    simp only [not_or, not_exists, not_and] at h
    refine ⟨fun profile hmem => ?_, ?_⟩
    · by_contra hcool
      exact h.1 profile hmem (by simpa using hcool) (hwithKey _)
    · by_contra hdue
      exact h.2 (by simpa using hdue) (hwithKey _)

theorem afterMiss_of_exhausted
    (h : s.Exhausted now (s.registry.resolveModel model).provider) : s.afterMiss now model = s := by
  rw [afterMiss, CooldownTracker.tryProbe_snd_of_not_due]
  rw [h.2]
  exact Bool.false_ne_true

theorem Alike.exhausted (h : Alike s s') (now : Int)
    (provider : String) : s'.Exhausted now provider ↔ s.Exhausted now provider := by
  rw [Exhausted, Exhausted, h.probeKey, h.cooldown, h.profiles]

theorem Alike.makes (h : Alike s s') (provider : String) :
    s'.Makes provider ↔ s.Makes provider := by
  rw [Makes, Makes, h.getProvider]
  exact and_congr_left' (forall_congr' fun apiKey => by rw [h.withKey])

theorem Alike.trans {s'' : FailoverResolver P} (h : Alike s s') (h' : Alike s' s'') :
    Alike s s'' where
  resolveModel model := (h'.resolveModel model).trans (h.resolveModel model)
  withKey provider key := (h'.withKey provider key).trans (h.withKey provider key)
  getProvider provider := (h'.getProvider provider).trans (h.getProvider provider)
  cooldown := h'.cooldown.trans h.cooldown
  profiles := h'.profiles.trans h.profiles
  chain := h'.chain.trans h.chain

theorem exhausted_of_tryResolve (hmakes : s.Makes (s.registry.resolveModel model).provider)
    (h : s.tryResolve now (s.registry.resolveModel model) sessionKey = (none, s')) :
    s.Exhausted now (s.registry.resolveModel model).provider ∧ Alike s s' := by
  obtain ⟨hserves, halike⟩ := s.tryResolve_spec now model sessionKey
  rw [h] at hserves halike
  have hexhausted := exhausted_of_not_serves hmakes fun hserved => by simpa using hserves.2 hserved
  have halike := halike rfl
  rw [afterMiss_of_exhausted hexhausted] at halike
  exact ⟨hexhausted, halike⟩

theorem of_pickFallback_none
    (hmakes : ∀ fallback ∈ chain, s.Makes (s.registry.resolveModel fallback).provider)
    (h : pickFallback now model sessionKey chain s = (none, s')) :
    (∀ fallback ∈ chain, fallback ≠ model →
        s.Exhausted now (s.registry.resolveModel fallback).provider) ∧ Alike s s' := by
  induction chain generalizing s with
  | nil =>
    cases h
    exact ⟨nofun, Alike.refl _⟩
  | cons fallback chain ih =>
    rw [List.forall_mem_cons] at hmakes ⊢
    rw [pickFallback] at h
    split_ifs at h with hsame
    · obtain ⟨hall, halike⟩ := ih hmakes.2 h
      exact ⟨⟨fun hne => absurd hsame hne, hall⟩, halike⟩
    · split at h
      · cases h
      · next s₁ htry =>
          obtain ⟨hfirst, hmissed⟩ := exhausted_of_tryResolve hmakes.1 htry
          obtain ⟨hall, halike⟩ := ih (fun fallback hmem => by
            rw [hmissed.resolveModel, hmissed.makes]
            exact hmakes.2 fallback hmem) h
          refine ⟨⟨fun _ => hfirst, fun fallback hmem hne => ?_⟩, hmissed.trans halike⟩
          have hexhausted := hall fallback hmem hne
          rw [hmissed.resolveModel, hmissed.exhausted] at hexhausted
          exact hexhausted

theorem of_pick_none
    (hmakes : ∀ m ∈ model :: s.fallbackChain, s.Makes (s.registry.resolveModel m).provider)
    (h : s.pick now model sessionKey = (none, s')) :
    (∀ m ∈ model :: s.fallbackChain, s.Exhausted now (s.registry.resolveModel m).provider) ∧
      s'.cooldown = s.cooldown := by
  rw [List.forall_mem_cons] at hmakes
  rw [List.forall_mem_cons]
  rw [pick] at h
  split at h
  · cases h
  · next s₁ htry =>
      obtain ⟨hfirst, hmissed⟩ := exhausted_of_tryResolve hmakes.1 htry
      have hchain : s₁.fallbackChain = s.fallbackChain := hmissed.chain
      obtain ⟨hall, halike⟩ := of_pickFallback_none (fun fallback hmem => by
        rw [hmissed.resolveModel, hmissed.makes]
        exact hmakes.2 fallback (hchain ▸ hmem)) h
      refine ⟨⟨hfirst, fun fallback hmem => ?_⟩, (hmissed.trans halike).cooldown⟩
      by_cases hsame : fallback = model
      · rw [hsame]
        exact hfirst
      · have hexhausted := hall fallback (hchain ▸ hmem) hsame
        rw [hmissed.resolveModel, hmissed.exhausted] at hexhausted
        exact hexhausted

/-! ## `Resolve` returns what was picked -/

theorem of_walkChain {result : Option (ResolvedProvider P)}
    {g : Guarded (FailoverResolver P)}
    (h : walkChain now model sessionKey chain ⟨true, s⟩ = .ok (result, g)) :
    result = none ∧ g.held = true ∧
      pickFallback now model sessionKey chain s = (none, g.val) := by
  induction chain generalizing s with
  | nil =>
    cases h
    exact ⟨rfl, rfl, rfl⟩
  | cons fallback chain ih =>
    rw [walkChain] at h
    rw [pickFallback]
    split_ifs at h ⊢ with hsame
    · exact ih h
    · rw [LockM.bind_ok (LockM.unlock_held s),
        LockM.bind_ok (tryResolveModel_free now fallback sessionKey s),
        LockM.bind_ok (LockM.lock_free _)] at h
      rcases htry : s.tryResolve now (s.registry.resolveModel fallback) sessionKey with
        ⟨_ | r, s₁⟩
      · rw [htry] at h
        exact ih h
      · rw [htry] at h
        cases h.symm.trans (LockM.bind_error (LockM.withLock_held _ _))

theorem of_resolve
    {result : Option (ResolvedProvider P)} {g : Guarded (FailoverResolver P)}
    (h : resolve now model sessionKey ⟨false, s⟩ = .ok (result, g)) :
    result = (s.pick now model sessionKey).1.map Prod.snd ∧
      g.val = (s.pick now model sessionKey).2 := by
  rw [resolve, LockM.bind_ok (tryResolveModel_free now model sessionKey s)] at h
  rw [pick]
  rcases htry : s.tryResolve now (s.registry.resolveModel model) sessionKey with ⟨_ | r, s₁⟩
  · rw [htry] at h
    have hwalk : walkFallbacks now model sessionKey ⟨true, s₁⟩ =
        walkChain now model sessionKey s₁.fallbackChain ⟨true, s₁⟩ := LockM.bind_ok rfl
    dsimp only at h
    cases hrun : walkChain now model sessionKey s₁.fallbackChain ⟨true, s₁⟩ with
    | error e =>
      rw [hrun] at hwalk
      cases h.symm.trans (LockM.withLock_error hwalk)
    | ok end_ =>
      obtain ⟨result', held, s₂⟩ := end_
      obtain ⟨rfl, rfl, hpick⟩ := of_walkChain hrun
      rw [hrun] at hwalk
      cases h.symm.trans (LockM.withLock_ok hwalk)
      dsimp only
      rw [hpick]
      exact ⟨rfl, rfl⟩
  · rw [htry] at h
    cases h
    exact ⟨rfl, rfl⟩

/-- **`Resolve` returns what can be used, and nothing only when nothing is left.**  It returns
what was picked; what is picked is a fallback exactly when it does not come from the requested
model, and can be used; and when every instance can be made, nothing is picked only when
the requested model and the whole chain are in cooldown and no probe was granted. -/
theorem resolve_usable (s : FailoverResolver P) (now : Int) (model sessionKey : String) :
    (∀ result g, resolve now model sessionKey ⟨false, s⟩ = .ok (result, g) →
        result = (s.pick now model sessionKey).1.map Prod.snd ∧
          g.val = (s.pick now model sessionKey).2) ∧
      (∀ source r s', s.pick now model sessionKey = (some (source, r), s') →
        (source = model ∨ source ∈ s.fallbackChain) ∧ (r.isFallback = false ↔ source = model) ∧
          r.Of (s.registry.resolveModel source) ∧ s.Usable s' now sessionKey r) ∧
      ((∀ m ∈ model :: s.fallbackChain, s.Makes (s.registry.resolveModel m).provider) →
        ∀ s', s.pick now model sessionKey = (none, s') →
          (∀ m ∈ model :: s.fallbackChain, s.Exhausted now (s.registry.resolveModel m).provider) ∧
            s'.cooldown = s.cooldown) :=
  ⟨fun _ _ => of_resolve, fun _ _ _ => of_pick_some, fun hmakes _ => of_pick_none hmakes⟩

/-- The second provider is a fallback of the first one, which has failed. -/
def failedFirst : FailoverResolver String :=
  (twoProviders.setFallbackChain ["openai/gpt-4o"]).recordFailure 0 "anthropic" "" .rateLimit 0

def failedBoth : FailoverResolver String := failedFirst.recordFailure 0 "openai" "" .rateLimit 0

/-- The fallback is picked after one failure, and nothing after two. -/
theorem resolve_usable_twoProviders :
    (∃ r s', failedFirst.pick 1 "anthropic/claude" "s" = (some ("openai/gpt-4o", r), s') ∧
        failedFirst.Usable s' 1 "s" r) ∧
      (∀ m ∈ ["anthropic/claude", "openai/gpt-4o"],
        failedBoth.Exhausted 1 (failedBoth.registry.resolveModel m).provider) := by
  refine ⟨⟨⟨"openai:openai-key", "openai", "", "gpt-4o", true⟩, _, rfl, ?_⟩, ?_⟩
  · exact ((resolve_usable failedFirst 1 "anthropic/claude" "s").2.1 _ _ _ rfl).2.2.2
  · refine ((resolve_usable failedBoth 1 "anthropic/claude" "s").2.2 ?_ _ rfl).1
    rintro m (_ | ⟨_, _ | ⟨_, ⟨⟩⟩⟩)
    · exact ⟨fun _ => rfl, rfl⟩
    · exact ⟨fun _ => rfl, rfl⟩

end FailoverResolver

end RavBot.Providers
