import RavBot.Lib.Lock
import RavBot.Providers.CooldownTracker
import RavBot.Providers.ProviderRegistry

/-!
# Failover

`FailoverResolver` picks a provider and an API key for a model: the profile that the session
is pinned to, or the first profile that is not in cooldown, or a probe of one that is.  When
the provider of the model has none, it walks a chain of fallback models.  The clock does not
move while it resolves a model: `now` is the time of the call.

`Resolve` walks the chain in the scope of a guard of `mu_`, and unlocks it around each attempt.
Before it returns a fallback it counts it in another scope of the same mutex, which it holds by
then.  So it returns when the model itself is served or none of its fallbacks is
(`resolve_returns_iff`).
-/

namespace RavBot.Providers

open RavBot.Lib

structure AuthProfile where
  id : String
  apiKey : String
  apiKeyEnv : String := ""
  deriving DecidableEq, Repr

structure FailoverStats where
  totalRequests : Int := 0
  successfulRequests : Int := 0
  failedRequests : Int := 0
  failoverCount : Int := 0
  providerUsage : Table String Int := ∅
  profileUsage : Table String Int := ∅

structure SessionPin where
  providerId : String
  profileId : String
  deriving DecidableEq, Repr

structure ResolvedProvider (P : Type) where
  provider : P
  providerId : String
  profileId : String
  model : String
  isFallback : Bool
  deriving Repr

/-- `FailoverResolver`, with its registry. -/
structure FailoverResolver (P : Type) where
  registry : ProviderRegistry P
  cooldown : CooldownTracker
  fallbackChain : List String
  profiles : Table String (List AuthProfile)
  sessionPins : Table String SessionPin
  stats : FailoverStats

def cooldownKey (providerId profileId : String) : String :=
  if profileId = "" then providerId else providerId ++ ":" ++ profileId

namespace FailoverResolver

variable {P : Type}

def setFallbackChain (s : FailoverResolver P) (models : List String) : FailoverResolver P :=
  { s with fallbackChain := models }

def setProfiles (s : FailoverResolver P) (providerId : String) (profiles : List AuthProfile) :
    FailoverResolver P :=
  { s with profiles := s.profiles.insert providerId profiles }

def recordFailure (s : FailoverResolver P) (now : Int) (providerId profileId : String)
    (kind : ProviderErrorKind) (retryAfterSeconds : Int) : FailoverResolver P :=
  { s with
    cooldown :=
      s.cooldown.recordFailure now (cooldownKey providerId profileId) kind retryAfterSeconds
    stats :=
      { s.stats with
        totalRequests := s.stats.totalRequests + 1
        failedRequests := s.stats.failedRequests + 1 } }

def withProfile (s : FailoverResolver P) (ref : ModelRef) (profile : AuthProfile) :
    Option (ResolvedProvider P) :=
  (s.registry.getProviderWithKey ref.provider profile.apiKey).map fun provider =>
    ⟨provider, ref.provider, profile.id, ref.model, false⟩

/-- The result that a pin gives: its profile, if that still exists and is not in cooldown. -/
def pinnedResult (s : FailoverResolver P) (now : Int) (ref : ModelRef) (pin : SessionPin) :
    Option (ResolvedProvider P) :=
  if s.cooldown.isInCooldown now (cooldownKey ref.provider pin.profileId) then none
  else ((s.profiles.lookup ref.provider).getD []).findSome? fun profile =>
    if profile.id = pin.profileId then s.withProfile ref profile else none

/-- The session pin of `try_resolve_model`.  It is kept only when it gives a result. -/
def tryPin (s : FailoverResolver P) (now : Int) (ref : ModelRef) (sessionKey : String) :
    Option (ResolvedProvider P) × FailoverResolver P :=
  match if sessionKey = "" then none else s.sessionPins.lookup sessionKey with
  | some pin =>
    if pin.providerId = ref.provider then
      match s.pinnedResult now ref pin with
      | some r => (some r, s)
      | none => (none, { s with sessionPins := s.sessionPins.erase sessionKey })
    else (none, s)
  | none => (none, s)

/-- The entry of a provider without profiles. -/
def useDefault (s : FailoverResolver P) (ref : ModelRef) :
    Option (ResolvedProvider P) × FailoverResolver P :=
  let (provider, registry) := s.registry.getProvider ref.provider
  (provider.map fun provider => ⟨provider, ref.provider, "", ref.model, false⟩,
    { s with registry })

/-- The first profile that is not in cooldown. -/
def firstHealthy (s : FailoverResolver P) (now : Int) (ref : ModelRef)
    (profiles : List AuthProfile) : Option (ResolvedProvider P) :=
  profiles.findSome? fun profile =>
    if s.cooldown.isInCooldown now (cooldownKey ref.provider profile.id) then none
    else s.withProfile ref profile

/-- The profiles of a provider in `try_resolve_model`.  When all of them are in cooldown the
first one may be probed. -/
def tryList (s : FailoverResolver P) (now : Int) (ref : ModelRef) (first : AuthProfile)
    (rest : List AuthProfile) : Option (ResolvedProvider P) × FailoverResolver P :=
  match s.firstHealthy now ref (first :: rest) with
  | some r => (some r, s)
  | none =>
    let probe := s.cooldown.tryProbe now (cooldownKey ref.provider first.id)
    let s := { s with cooldown := probe.2 }
    if probe.1 then (s.withProfile ref first, s) else (none, s)

/-- The default entry in `try_resolve_model`. -/
def tryDefault (s : FailoverResolver P) (now : Int) (ref : ModelRef) :
    Option (ResolvedProvider P) × FailoverResolver P :=
  let key := cooldownKey ref.provider ""
  if s.cooldown.isInCooldown now key then
    let probe := s.cooldown.tryProbe now key
    let s := { s with cooldown := probe.2 }
    if probe.1 then s.useDefault ref else (none, s)
  else s.useDefault ref

/-- The profiles of the provider, or the default entry where there are none. -/
def tryProfiles (s : FailoverResolver P) (now : Int) (ref : ModelRef) :
    Option (ResolvedProvider P) × FailoverResolver P :=
  match s.profiles.lookup ref.provider with
  | some (first :: rest) => s.tryList now ref first rest
  | _ => s.tryDefault now ref

/-- What `try_resolve_model` does while it holds the mutex. -/
def tryResolve (s : FailoverResolver P) (now : Int) (ref : ModelRef) (sessionKey : String) :
    Option (ResolvedProvider P) × FailoverResolver P :=
  match s.tryPin now ref sessionKey with
  | (some r, s) => (some r, s)
  | (none, s) => s.tryProfiles now ref

def tryResolveModel (now : Int) (model sessionKey : String) :
    LockM (FailoverResolver P) (Option (ResolvedProvider P)) := do
  let ref ← LockM.access fun s => (s.registry.resolveModel model, s)
  LockM.withLock (LockM.access fun s => s.tryResolve now ref sessionKey)

/-- The loop of `Resolve` over the fallback chain.  It holds the mutex but in the attempts. -/
def walkChain (now : Int) (model sessionKey : String) :
    List String → LockM (FailoverResolver P) (Option (ResolvedProvider P))
  | [] => return none
  | fallback :: chain =>
    if fallback = model then walkChain now model sessionKey chain
    else do
      LockM.unlock
      let result ← tryResolveModel now fallback sessionKey
      LockM.lock
      match result with
      | some r => do
          LockM.withLock (LockM.access fun s => (⟨⟩, { s with
            stats := { s.stats with failoverCount := s.stats.failoverCount + 1 } }))
          return some { r with isFallback := true }
      | none => walkChain now model sessionKey chain

/-- What `Resolve` does in the scope of its guard. -/
def walkFallbacks (now : Int) (model sessionKey : String) :
    LockM (FailoverResolver P) (Option (ResolvedProvider P)) := do
  let chain ← LockM.access fun s => (s.fallbackChain, s)
  walkChain now model sessionKey chain

def resolve (now : Int) (model sessionKey : String) :
    LockM (FailoverResolver P) (Option (ResolvedProvider P)) := do
  match ← tryResolveModel now model sessionKey with
  | some r => return some r
  | none => LockM.withLock (walkFallbacks now model sessionKey)

/-! ## Which models are served -/

/-- Whether a provider has something to offer: a profile, or the default entry, that is not in
cooldown or may be probed, and for which the factory makes an instance. -/
def Offers (s : FailoverResolver P) (now : Int) (provider : String) : Prop :=
  match s.profiles.lookup provider with
  | some (first :: rest) =>
    (∃ profile ∈ first :: rest,
      s.cooldown.isInCooldown now (cooldownKey provider profile.id) = false ∧
        (s.registry.getProviderWithKey provider profile.apiKey).isSome) ∨
    (s.cooldown.probeDue now (cooldownKey provider first.id) ∧
      (s.registry.getProviderWithKey provider first.apiKey).isSome)
  | _ =>
    (s.cooldown.isInCooldown now provider = false ∨ s.cooldown.probeDue now provider) ∧
      (s.registry.getProvider provider).1.isSome

/-- The key that is probed when nothing of a provider is out of cooldown. -/
def probeKey (s : FailoverResolver P) (provider : String) : String :=
  match s.profiles.lookup provider with
  | some (first :: _) => cooldownKey provider first.id
  | _ => provider

def Serves (s : FailoverResolver P) (now : Int) (model : String) : Prop :=
  s.Offers now (s.registry.resolveModel model).provider

/-- The state after a model was not served: the probe that was granted is noted. -/
def afterMiss (s : FailoverResolver P) (now : Int) (model : String) : FailoverResolver P :=
  { s with
    cooldown :=
      (s.cooldown.tryProbe now (s.probeKey (s.registry.resolveModel model).provider)).2 }

/-- No fallback of a chain, other than the model itself, is served in its turn. -/
def NoneServes (s : FailoverResolver P) (now : Int) (model : String) : List String → Prop
  | [] => True
  | fallback :: chain =>
    if fallback = model then NoneServes s now model chain
    else ¬ s.Serves now fallback ∧ NoneServes (s.afterMiss now fallback) now model chain

/-- Two states that serve the same models: they may differ in their pins and statistics, and in
the instances that the registry has kept. -/
structure Alike (s s' : FailoverResolver P) : Prop where
  resolveModel : ∀ model, s'.registry.resolveModel model = s.registry.resolveModel model
  withKey : ∀ provider key,
    s'.registry.getProviderWithKey provider key = s.registry.getProviderWithKey provider key
  getProvider : ∀ provider,
    (s'.registry.getProvider provider).1 = (s.registry.getProvider provider).1
  cooldown : s'.cooldown = s.cooldown
  profiles : s'.profiles = s.profiles
  chain : s'.fallbackChain = s.fallbackChain

theorem Alike.refl (s : FailoverResolver P) : Alike s s :=
  ⟨fun _ => rfl, fun _ _ => rfl, fun _ => rfl, rfl, rfl, rfl⟩

variable {s s' : FailoverResolver P}

theorem Alike.offers (h : Alike s s') (now : Int) (provider : String) :
    s'.Offers now provider ↔ s.Offers now provider := by
  simp only [Offers, h.withKey, h.getProvider, h.cooldown, h.profiles]

theorem Alike.serves (h : Alike s s') (now : Int) (model : String) :
    s'.Serves now model ↔ s.Serves now model := by
  rw [Serves, Serves, h.resolveModel, h.offers]

theorem Alike.probeKey (h : Alike s s') (provider : String) :
    s'.probeKey provider = s.probeKey provider := by
  simp only [FailoverResolver.probeKey, h.profiles]

theorem Alike.afterMiss (h : Alike s s') (now : Int) (model : String) :
    Alike (s.afterMiss now model) (s'.afterMiss now model) where
  resolveModel := h.resolveModel
  withKey := h.withKey
  getProvider := h.getProvider
  cooldown := by
    simp only [FailoverResolver.afterMiss, h.probeKey, h.cooldown, h.resolveModel]
  profiles := h.profiles
  chain := h.chain

theorem Alike.noneServes (h : Alike s s') (now : Int) (model : String)
    (chain : List String) : NoneServes s' now model chain ↔ NoneServes s now model chain := by
  induction chain generalizing s s' with
  | nil => exact Iff.rfl
  | cons fallback chain ih =>
    rw [NoneServes, NoneServes]
    split_ifs
    · exact ih h
    · rw [h.serves, ih (h.afterMiss now fallback)]

@[simp] theorem isSome_withProfile (s : FailoverResolver P) (ref : ModelRef)
    (profile : AuthProfile) :
    (s.withProfile ref profile).isSome =
      (s.registry.getProviderWithKey ref.provider profile.apiKey).isSome := by
  simp [withProfile]

theorem isSome_firstHealthy (s : FailoverResolver P) (now : Int) (ref : ModelRef)
    (profiles : List AuthProfile) :
    (s.firstHealthy now ref profiles).isSome ↔ ∃ profile ∈ profiles,
      s.cooldown.isInCooldown now (cooldownKey ref.provider profile.id) = false ∧
        (s.registry.getProviderWithKey ref.provider profile.apiKey).isSome := by
  rw [firstHealthy, List.findSome?_isSome_iff]
  refine exists_congr fun profile => and_congr_right fun _ => ?_
  split_ifs with hcool
  · simp [hcool]
  · simp [hcool]

theorem offers_of_pinnedResult {now : Int} {ref : ModelRef}
    {pin : SessionPin} (h : (s.pinnedResult now ref pin).isSome) : s.Offers now ref.provider := by
  rw [pinnedResult] at h
  split_ifs at h with hcool
  · cases h
  · rw [List.findSome?_isSome_iff] at h
    obtain ⟨profile, hmem, hprofile⟩ := h
    split_ifs at hprofile with hid
    · rw [← hid, Bool.not_eq_true] at hcool
      rw [isSome_withProfile] at hprofile
      rcases hlookup : s.profiles.lookup ref.provider with _ | _ | ⟨first, rest⟩
      · simp [hlookup] at hmem
      · simp [hlookup] at hmem
      · rw [hlookup] at hmem
        rw [Offers, hlookup]
        exact .inl ⟨profile, hmem, hcool, hprofile⟩
    · cases hprofile

theorem offers_of_tryPin {now : Int} {ref : ModelRef} {sessionKey : String}
    (h : (s.tryPin now ref sessionKey).1.isSome) : s.Offers now ref.provider := by
  rw [tryPin] at h
  split at h
  · next pin _ =>
      split_ifs at h
      · split at h
        · next hresult => exact offers_of_pinnedResult (Option.isSome_of_eq_some hresult)
        · cases h
      · cases h
  · cases h

theorem tryPin_snd (s : FailoverResolver P) (now : Int) (ref : ModelRef) (sessionKey : String) :
    ∃ pins, (s.tryPin now ref sessionKey).2 = { s with sessionPins := pins } := by
  rw [tryPin]
  split
  · split_ifs
    · split
      · exact ⟨_, rfl⟩
      · exact ⟨_, rfl⟩
    · exact ⟨_, rfl⟩
  · exact ⟨_, rfl⟩

theorem useDefault_spec (s : FailoverResolver P) (ref : ModelRef) :
    (s.useDefault ref).1.isSome = (s.registry.getProvider ref.provider).1.isSome ∧
      Alike s (s.useDefault ref).2 := by
  refine ⟨by simp [useDefault], ?_⟩
  constructor
  case resolveModel =>
    intro model
    simp only [useDefault, ProviderRegistry.resolveModel]
    rw [ProviderRegistry.aliasMap_getProvider]
  case withKey => exact fun provider key => s.registry.getProviderWithKey_getProvider _ _ _
  case getProvider => exact fun provider => s.registry.getProvider_getProvider _ _
  case cooldown | profiles | chain => rfl

/-- The profiles of a provider give a result exactly when one of them is on offer, and otherwise
they note the probe. -/
theorem tryList_spec (s : FailoverResolver P) (now : Int) (ref : ModelRef) (first : AuthProfile)
    (rest : List AuthProfile) :
    ((s.tryList now ref first rest).1.isSome ↔
        (∃ profile ∈ first :: rest,
          s.cooldown.isInCooldown now (cooldownKey ref.provider profile.id) = false ∧
            (s.registry.getProviderWithKey ref.provider profile.apiKey).isSome) ∨
        (s.cooldown.probeDue now (cooldownKey ref.provider first.id) ∧
          (s.registry.getProviderWithKey ref.provider first.apiKey).isSome)) ∧
      ((s.tryList now ref first rest).1 = none →
        (s.tryList now ref first rest).2 =
          { s with cooldown :=
              (s.cooldown.tryProbe now (cooldownKey ref.provider first.id)).2 }) := by
  rw [tryList, ← isSome_firstHealthy]
  split
  · next hhealthy => simp [hhealthy]
  · next hhealthy =>
      rw [hhealthy]
      dsimp only
      rw [CooldownTracker.tryProbe_fst]
      split_ifs with hdue
      · simp [hdue]
      · simp [hdue]

/-- The default entry gives a result exactly when it is on offer, and otherwise it notes the
probe. -/
theorem tryDefault_spec (s : FailoverResolver P) (now : Int) (ref : ModelRef) :
    ((s.tryDefault now ref).1.isSome ↔
        (s.cooldown.isInCooldown now ref.provider = false ∨
          s.cooldown.probeDue now ref.provider) ∧
        (s.registry.getProvider ref.provider).1.isSome) ∧
      ((s.tryDefault now ref).1 = none →
        Alike { s with cooldown := (s.cooldown.tryProbe now ref.provider).2 }
          (s.tryDefault now ref).2) := by
  have hkey : cooldownKey ref.provider "" = ref.provider := if_pos rfl
  rw [tryDefault, hkey]
  dsimp only
  rw [CooldownTracker.tryProbe_fst]
  split_ifs with hcool hdue
  · obtain ⟨hsome, halike⟩ :=
      useDefault_spec { s with cooldown := (s.cooldown.tryProbe now ref.provider).2 } ref
    rw [hsome]
    exact ⟨by simp [hcool, hdue], fun _ => halike⟩
  · exact ⟨by simp [hcool, hdue], fun _ => Alike.refl _⟩
  · obtain ⟨hsome, halike⟩ := s.useDefault_spec ref
    rw [hsome]
    have hdue : s.cooldown.probeDue now ref.provider ≠ true :=
      fun hdue => hcool (CooldownTracker.isInCooldown_of_probeDue hdue)
    rw [CooldownTracker.tryProbe_snd_of_not_due hdue]
    exact ⟨by simp [hcool], fun _ => halike⟩

theorem tryProfiles_spec (s : FailoverResolver P) (now : Int) (ref : ModelRef) :
    ((s.tryProfiles now ref).1.isSome ↔ s.Offers now ref.provider) ∧
      ((s.tryProfiles now ref).1 = none →
        Alike { s with cooldown := (s.cooldown.tryProbe now (s.probeKey ref.provider)).2 }
          (s.tryProfiles now ref).2) := by
  rcases hlookup : s.profiles.lookup ref.provider with _ | _ | ⟨first, rest⟩
  · simpa only [tryProfiles, Offers, FailoverResolver.probeKey, hlookup] using
      tryDefault_spec s now ref
  · simpa only [tryProfiles, Offers, FailoverResolver.probeKey, hlookup] using
      tryDefault_spec s now ref
  · simp only [tryProfiles, Offers, FailoverResolver.probeKey, hlookup]
    obtain ⟨hsome, hnone⟩ := tryList_spec s now ref first rest
    refine ⟨hsome, fun h => ?_⟩
    rw [hnone h]
    exact Alike.refl _

/-- An attempt gives a result exactly when the model is served, and otherwise it notes the
probe. -/
theorem tryResolve_spec (s : FailoverResolver P) (now : Int) (model sessionKey : String) :
    ((s.tryResolve now (s.registry.resolveModel model) sessionKey).1.isSome ↔
        s.Serves now model) ∧
      ((s.tryResolve now (s.registry.resolveModel model) sessionKey).1 = none →
        Alike (s.afterMiss now model)
          (s.tryResolve now (s.registry.resolveModel model) sessionKey).2) := by
  rw [Serves, afterMiss]
  generalize s.registry.resolveModel model = ref
  have hpin : (s.tryPin now ref sessionKey).1.isSome → s.Offers now ref.provider :=
    offers_of_tryPin
  obtain ⟨pins, hpins⟩ := s.tryPin_snd now ref sessionKey
  rw [tryResolve]
  split
  · next r s' htry =>
      rw [htry] at hpin
      simpa using hpin rfl
  · next s' htry =>
      rw [htry] at hpins
      obtain rfl : s' = { s with sessionPins := pins } := hpins
      obtain ⟨hsome, hnone⟩ := tryProfiles_spec { s with sessionPins := pins } now ref
      refine ⟨hsome, fun h => ?_⟩
      obtain ⟨h₁, h₂, h₃, h₄, h₅, h₆⟩ := hnone h
      exact ⟨h₁, h₂, h₃, h₄, h₅, h₆⟩

/-! ## When the mutex is free again -/

theorem tryResolveModel_free (now : Int) (model sessionKey : String) (s : FailoverResolver P) :
    tryResolveModel now model sessionKey ⟨false, s⟩ =
      .ok ((s.tryResolve now (s.registry.resolveModel model) sessionKey).1,
        ⟨false, (s.tryResolve now (s.registry.resolveModel model) sessionKey).2⟩) := by
  rw [tryResolveModel, LockM.bind_ok rfl]
  exact LockM.withLock_ok rfl

/-- The walk over the chain ends well, without a result, when no fallback is served; and it goes
wrong at the first one that is. -/
theorem walkChain_held (now : Int) (model sessionKey : String) (chain : List String)
    (s : FailoverResolver P) :
    (NoneServes s now model chain →
        ∃ s', walkChain now model sessionKey chain ⟨true, s⟩ = .ok (none, ⟨true, s'⟩)) ∧
      (¬ NoneServes s now model chain →
        walkChain now model sessionKey chain ⟨true, s⟩ = .error .relock) := by
  induction chain generalizing s with
  | nil => exact ⟨fun _ => ⟨s, rfl⟩, fun h => absurd trivial h⟩
  | cons fallback chain ih =>
    rw [walkChain, NoneServes]
    split_ifs with hsame
    · exact ih s
    · obtain ⟨hsome, hnone⟩ := s.tryResolve_spec now fallback sessionKey
      rw [LockM.bind_ok (LockM.unlock_held s),
        LockM.bind_ok (tryResolveModel_free now fallback sessionKey s),
        LockM.bind_ok (LockM.lock_free _)]
      cases hresult : (s.tryResolve now (s.registry.resolveModel fallback) sessionKey).1 with
      | some r =>
        rw [hresult] at hsome
        have hserves := hsome.1 rfl
        refine ⟨fun h => absurd hserves h.1, fun _ => ?_⟩
        exact LockM.bind_error (LockM.withLock_held _ _)
      | none =>
        rw [hresult] at hsome
        have hmiss : ¬ s.Serves now fallback := fun h => by simpa using hsome.2 h
        obtain ⟨hwell, hwrong⟩ := ih (s.tryResolve now (s.registry.resolveModel fallback)
          sessionKey).2
        rw [(hnone hresult).noneServes now model chain] at hwell hwrong
        exact ⟨fun h => hwell h.2, fun h => hwrong fun hrest => h ⟨hmiss, hrest⟩⟩

/-- **When `Resolve` returns**: it returns, with the mutex free, exactly when the model is
served, or none of its fallbacks is. -/
theorem resolve_returns_iff (s : FailoverResolver P) (now : Int) (model sessionKey : String) :
    LockM.Returns (resolve now model sessionKey) s ↔
      s.Serves now model ∨ NoneServes (s.afterMiss now model) now model s.fallbackChain := by
  obtain ⟨hsome, hnone⟩ := s.tryResolve_spec now model sessionKey
  rw [LockM.Returns, resolve, LockM.bind_ok (tryResolveModel_free now model sessionKey s)]
  cases hresult : (s.tryResolve now (s.registry.resolveModel model) sessionKey).1 with
  | some r =>
    rw [hresult] at hsome
    exact iff_of_true ⟨_, _, rfl⟩ (.inl (hsome.1 rfl))
  | none =>
    rw [hresult] at hsome
    have hmiss : ¬ s.Serves now model := fun h => by simpa using hsome.2 h
    have halike := hnone hresult
    rw [← halike.noneServes now model, ← show _ = s.fallbackChain from halike.chain]
    generalize (s.tryResolve now (s.registry.resolveModel model) sessionKey).2 = s'
    obtain ⟨hwell, hwrong⟩ := walkChain_held now model sessionKey s'.fallbackChain s'
    have hwalk : walkFallbacks now model sessionKey ⟨true, s'⟩ =
        walkChain now model sessionKey s'.fallbackChain ⟨true, s'⟩ := LockM.bind_ok rfl
    rw [← hwalk] at hwell hwrong
    constructor
    · rintro ⟨r, s'', hrun⟩
      right
      by_contra hserved
      cases hrun.symm.trans (LockM.withLock_error (hwrong hserved))
    · rintro (h | h)
      · exact absurd h hmiss
      · obtain ⟨s'', hs''⟩ := hwell h
        exact ⟨none, s'', LockM.withLock_ok hs''⟩

/-- Two providers, each of which makes an instance that is named after its key. -/
def twoProviders : FailoverResolver String where
  registry :=
    { factories :=
        AList.insert "anthropic" (fun entry => some ("anthropic:" ++ entry.apiKey))
          (AList.insert "openai" (fun entry => some ("openai:" ++ entry.apiKey)) ∅)
      entries :=
        AList.insert "anthropic" { id := "anthropic", apiKey := "default-key" }
          (AList.insert "openai" { id := "openai", apiKey := "openai-key" } ∅)
      instances := ∅
      aliasMap := ∅
      getenv := fun _ => none }
  cooldown := ⟨∅⟩
  fallbackChain := []
  profiles := ∅
  sessionPins := ∅
  stats := {}

/-- When the first provider has failed and the second one is its fallback, `Resolve` locks the
mutex that it holds. -/
theorem not_resolve_returns :
    ¬ ∀ (s : FailoverResolver String) (now : Int) (model sessionKey : String),
      LockM.Returns (resolve now model sessionKey) s := by
  intro h
  let s := (twoProviders.setFallbackChain ["openai/gpt-4o"]).recordFailure 0 "anthropic" ""
    .rateLimit 0
  have hrelock : (resolve 0 "anthropic/claude-sonnet-4-6" "" ⟨false, s⟩).toOption.isNone := by
    decide +kernel
  obtain ⟨r, s', hrun⟩ := h s 0 "anthropic/claude-sonnet-4-6" ""
  rw [hrun] at hrelock
  cases hrelock

end FailoverResolver

end RavBot.Providers
