import RavBot.Providers.CooldownRuns
import RavBot.Providers.FailoverPicks

/-!
# What a pick leaves as it was

Picking a provider may remove a pin, note probes and keep instances; nothing else changes (`Keeps`).  A
failure changes only the cooldown of its own key.  So a provider that is out of cooldown stays so while
others fail (`Available.recordFailure`), and while a model of the chain has one, something is picked, at the
latest for that model (`pick_of_available`).
-/

namespace RavBot.Providers

open RavBot.Lib

namespace CooldownTracker

theorem isInCooldown_congr {tracker tracker' : CooldownTracker} {key : String}
    (h : tracker'.deadline key = tracker.deadline key) (now : Int) :
    tracker'.isInCooldown now key = tracker.isInCooldown now key := by
  have hdeadline (tracker : CooldownTracker) :
      tracker.isInCooldown now key = (tracker.deadline key).any fun deadline => decide (now < deadline) := by
    rw [isInCooldown, deadline]
    cases tracker.states.lookup key <;> rfl
  rw [hdeadline, hdeadline, h]

theorem isInCooldown_tryProbe (tracker : CooldownTracker) (now now' : Int) (key key' : String) :
    (tracker.tryProbe now key').2.isInCooldown now' key = tracker.isInCooldown now' key := by
  obtain ⟨lastProbeAt, hlookup⟩ := tracker.lookup_tryProbe now key key'
  refine isInCooldown_congr ?_ now'
  rw [deadline, hlookup, deadline, Option.map_map]
  rfl

end CooldownTracker

namespace FailoverResolver

variable {P : Type}

/-- The same is on offer, out of cooldown or in it. -/
structure Keeps (s s' : FailoverResolver P) : Prop where
  resolveModel : ∀ model, s'.registry.resolveModel model = s.registry.resolveModel model
  withKey : ∀ provider key,
    s'.registry.getProviderWithKey provider key = s.registry.getProviderWithKey provider key
  getProvider : ∀ provider, (s'.registry.getProvider provider).1 = (s.registry.getProvider provider).1
  profiles : s'.profiles = s.profiles
  chain : s'.fallbackChain = s.fallbackChain
  isInCooldown : ∀ now key, s'.cooldown.isInCooldown now key = s.cooldown.isInCooldown now key

theorem Keeps.refl (s : FailoverResolver P) : Keeps s s :=
  ⟨fun _ => rfl, fun _ _ => rfl, fun _ => rfl, rfl, rfl, fun _ _ => rfl⟩

theorem Keeps.trans {s s' s'' : FailoverResolver P} (h : Keeps s s') (h' : Keeps s' s'') : Keeps s s'' where
  resolveModel model := (h'.resolveModel model).trans (h.resolveModel model)
  withKey provider key := (h'.withKey provider key).trans (h.withKey provider key)
  getProvider provider := (h'.getProvider provider).trans (h.getProvider provider)
  profiles := h'.profiles.trans h.profiles
  chain := h'.chain.trans h.chain
  isInCooldown now key := (h'.isInCooldown now key).trans (h.isInCooldown now key)

theorem Alike.keeps {s s' : FailoverResolver P} (h : Alike s s') : Keeps s s' :=
  ⟨h.resolveModel, h.withKey, h.getProvider, h.profiles, h.chain, fun _ _ => by rw [h.cooldown]⟩

theorem keeps_tryProbe (s : FailoverResolver P) (now : Int) (key : String) :
    Keeps s { s with cooldown := (s.cooldown.tryProbe now key).2 } :=
  ⟨fun _ => rfl, fun _ _ => rfl, fun _ => rfl, rfl, rfl,
    fun now' key' => s.cooldown.isInCooldown_tryProbe now now' key' key⟩

/-! ## Picks -/

theorem keeps_tryPin (s : FailoverResolver P) (now : Int) (ref : ModelRef) (sessionKey : String) :
    Keeps s (s.tryPin now ref sessionKey).2 := by
  obtain ⟨pins, hpins⟩ := s.tryPin_snd now ref sessionKey
  rw [hpins]
  exact ⟨fun _ => rfl, fun _ _ => rfl, fun _ => rfl, rfl, rfl, fun _ _ => rfl⟩

theorem keeps_tryProfiles (s : FailoverResolver P) (now : Int) (ref : ModelRef) :
    Keeps s (s.tryProfiles now ref).2 := by
  have hdefault : Keeps s (s.tryDefault now ref).2 := by
    rw [tryDefault]
    dsimp only
    split_ifs
    · exact (s.keeps_tryProbe now _).trans (useDefault_spec _ ref).2.keeps
    · exact s.keeps_tryProbe now _
    · exact (s.useDefault_spec ref).2.keeps
  rw [tryProfiles]
  split
  · rw [tryList]
    split
    · exact Keeps.refl s
    · dsimp only
      split_ifs
      · exact s.keeps_tryProbe now _
      · exact s.keeps_tryProbe now _
  · exact hdefault

theorem keeps_tryResolve (s : FailoverResolver P) (now : Int) (ref : ModelRef) (sessionKey : String) :
    Keeps s (s.tryResolve now ref sessionKey).2 := by
  have hpin := s.keeps_tryPin now ref sessionKey
  rw [tryResolve]
  split
  · next htry =>
      rw [htry] at hpin
      exact hpin
  · next htry =>
      rw [htry] at hpin
      exact hpin.trans (keeps_tryProfiles _ now ref)

theorem keeps_pickFallback (now : Int) (model sessionKey : String) (chain : List String)
    (s : FailoverResolver P) : Keeps s (pickFallback now model sessionKey chain s).2 := by
  induction chain generalizing s with
  | nil => exact Keeps.refl s
  | cons fallback chain ih =>
    have hfirst := s.keeps_tryResolve now (s.registry.resolveModel fallback) sessionKey
    rw [pickFallback]
    split_ifs
    · exact ih s
    · split
      · next htry =>
          rw [htry] at hfirst
          exact hfirst
      · next htry =>
          rw [htry] at hfirst
          exact hfirst.trans (ih _)

theorem keeps_pick (s : FailoverResolver P) (now : Int) (model sessionKey : String) :
    Keeps s (s.pick now model sessionKey).2 := by
  have hfirst := s.keeps_tryResolve now (s.registry.resolveModel model) sessionKey
  rw [pick]
  split
  · next htry =>
      rw [htry] at hfirst
      exact hfirst
  · next htry =>
      rw [htry] at hfirst
      exact hfirst.trans (keeps_pickFallback now model sessionKey _ _)

/-! ## What is available -/

/-- A provider has a profile, or else the default entry, that is out of cooldown and of which an instance
can be made. -/
def Available (s : FailoverResolver P) (now : Int) (provider : String) : Prop :=
  match s.profiles.lookup provider with
  | some (first :: rest) => ∃ profile ∈ first :: rest,
      s.cooldown.isInCooldown now (cooldownKey provider profile.id) = false ∧
        (s.registry.getProviderWithKey provider profile.apiKey).isSome
  | _ => s.cooldown.isInCooldown now (cooldownKey provider "") = false ∧ (s.registry.getProvider provider).1.isSome

theorem Available.offers {s : FailoverResolver P} {now : Int} {provider : String} (h : s.Available now provider) :
    s.Offers now provider := by
  have hkey : cooldownKey provider "" = provider := if_pos rfl
  rw [Available, hkey] at h
  rw [Offers]
  rcases hprofiles : s.profiles.lookup provider with _ | _ | ⟨first, rest⟩
  · simp only [hprofiles] at h ⊢
    exact ⟨.inl h.1, h.2⟩
  · simp only [hprofiles] at h ⊢
    exact ⟨.inl h.1, h.2⟩
  · simp only [hprofiles] at h ⊢
    exact .inl h

theorem Keeps.available {s s' : FailoverResolver P} (h : Keeps s s') {now : Int} {provider : String}
    (havailable : s.Available now provider) : s'.Available now provider := by
  rw [Available] at havailable ⊢
  simp only [h.profiles, h.isInCooldown, h.withKey, h.getProvider]
  exact havailable

def keysOf (s : FailoverResolver P) (provider : String) : List String :=
  match s.profiles.lookup provider with
  | some (first :: rest) => (first :: rest).map fun profile => cooldownKey provider profile.id
  | _ => [cooldownKey provider ""]

theorem takeWhile_cooldownKey {provider : String} (h : ':' ∉ provider.toList) (profile : String) :
    (cooldownKey provider profile).toList.takeWhile (· ≠ ':') = provider.toList := by
  have hall : ∀ c ∈ provider.toList, decide (c ≠ ':') = true := by
    intro c hc
    rw [decide_eq_true_eq]
    rintro rfl
    exact h hc
  rw [cooldownKey]
  split_ifs
  · exact List.takeWhile_eq_self_iff.2 hall
  · rw [String.toList_append, String.toList_append, List.append_assoc, List.takeWhile_append_of_pos hall]
    exact List.append_nil _

theorem cooldownKey_ne {provider provider' : String} (h : ':' ∉ provider.toList) (h' : ':' ∉ provider'.toList)
    (hne : provider ≠ provider') (profile profile' : String) :
    cooldownKey provider profile ≠ cooldownKey provider' profile' := by
  intro heq
  have hids := congrArg (fun key => key.toList.takeWhile (· ≠ ':')) heq
  rw [takeWhile_cooldownKey h, takeWhile_cooldownKey h'] at hids
  exact hne (String.toList_inj.1 hids)

theorem isInCooldown_recordFailure_ne (s : FailoverResolver P) (now now' : Int) {provider profile key : String}
    (h : cooldownKey provider profile ≠ key) (kind : ProviderErrorKind) (retryAfterSeconds : Int) :
    (s.recordFailure now provider profile kind retryAfterSeconds).cooldown.isInCooldown now' key =
      s.cooldown.isInCooldown now' key := by
  refine CooldownTracker.isInCooldown_congr ?_ now'
  rw [CooldownTracker.deadline, recordFailure, CooldownTracker.lookup_recordFailure_ne _ _ h]
  rfl

theorem Available.recordFailure {s : FailoverResolver P} {now now' : Int} {provider other : String}
    (h : s.Available now' provider) (hcolon : ':' ∉ provider.toList) (hcolon' : ':' ∉ other.toList)
    (hne : other ≠ provider) (profile : String) (kind : ProviderErrorKind) (retryAfterSeconds : Int) :
    (s.recordFailure now other profile kind retryAfterSeconds).Available now' provider := by
  have hcool (profile' : String) :=
    s.isInCooldown_recordFailure_ne now now' (cooldownKey_ne hcolon' hcolon hne profile profile') kind
      retryAfterSeconds
  rw [Available] at h ⊢
  simp only [hcool]
  exact h

theorem key_mem_of_tryResolve {s s' : FailoverResolver P} {now : Int} {ref : ModelRef} {sessionKey : String}
    {r : ResolvedProvider P} (h : s.tryResolve now ref sessionKey = (some r, s')) :
    cooldownKey ref.provider r.profileId ∈ s.keysOf ref.provider := by
  have hprofile {profiles : List AuthProfile} {profile : AuthProfile} (hmem : profile ∈ profiles)
      (hprofiles : s.profiles.lookup ref.provider = some profiles) {r : ResolvedProvider P}
      (hr : r.profileId = profile.id) : cooldownKey ref.provider r.profileId ∈ s.keysOf ref.provider := by
    rw [keysOf, hprofiles]
    cases profiles with
    | nil => cases hmem
    | cons first rest =>
      rw [hr]
      exact List.mem_map_of_mem (f := fun profile : AuthProfile => cooldownKey ref.provider profile.id) hmem
  have hrest {s₁ : FailoverResolver P} (hprofiles : s₁.profiles = s.profiles)
      (htry : s₁.tryProfiles now ref = (some r, s')) :
      cooldownKey ref.provider r.profileId ∈ s.keysOf ref.provider := by
    have hdefault (hnone : ∀ first rest, s.profiles.lookup ref.provider ≠ some (first :: rest))
        (hid : r.profileId = "") : cooldownKey ref.provider r.profileId ∈ s.keysOf ref.provider := by
      rw [hid, keysOf]
      split
      · next hsome => exact absurd hsome (hnone _ _)
      · exact List.mem_singleton_self _
    rw [tryProfiles] at htry
    split at htry
    · next first rest hsome =>
        rw [hprofiles] at hsome
        rw [tryList] at htry
        split at htry
        · next hhealthy =>
            cases htry
            obtain ⟨profile, hmem, hresult⟩ := List.exists_of_findSome?_eq_some hhealthy
            split_ifs at hresult
            exact hprofile hmem hsome (of_withProfile hresult).2.1
        · dsimp only at htry
          split_ifs at htry
          · exact hprofile List.mem_cons_self hsome (of_withProfile (Prod.mk.inj htry).1).2.1
          · cases htry
    · next hnone =>
        rw [hprofiles] at hnone
        rw [tryDefault] at htry
        dsimp only at htry
        split_ifs at htry
        · exact hdefault hnone (of_useDefault htry).2.1
        · cases htry
        · exact hdefault hnone (of_useDefault htry).2.1
  have hpin := s.tryPin_snd now ref sessionKey
  rw [tryResolve] at h
  split at h
  · next htry =>
      cases h
      obtain ⟨-, pin, -, hresult⟩ := of_tryPin_some htry
      obtain ⟨-, -, hid, ⟨profile, hmem, hprofileId⟩, -⟩ := of_pinnedResult hresult
      cases hprofiles : s.profiles.lookup ref.provider with
      | none =>
        rw [hprofiles] at hmem
        cases hmem
      | some profiles =>
        rw [hprofiles] at hmem
        exact hprofile hmem hprofiles (hid.trans hprofileId.symm)
  · next htry =>
      obtain ⟨pins, hpins⟩ := hpin
      rw [htry] at hpins
      have hprofiles := congrArg FailoverResolver.profiles hpins
      exact hrest hprofiles h

theorem pickFallback_of_available {s : FailoverResolver P} {now : Int} {model sessionKey : String}
    {before after : List String} {fallback : String} (hne : fallback ≠ model)
    (h : s.Available now (s.registry.resolveModel fallback).provider) :
    ∃ source r s', pickFallback now model sessionKey (before ++ fallback :: after) s = (some (source, r), s') ∧
      source ∈ before ++ [fallback] ∧ r.Of (s.registry.resolveModel source) ∧
        cooldownKey r.providerId r.profileId ∈ s.keysOf (s.registry.resolveModel source).provider := by
  induction before generalizing s with
  | nil =>
    have hserved := (s.tryResolve_spec now fallback sessionKey).1.2 h.offers
    rcases htry : s.tryResolve now (s.registry.resolveModel fallback) sessionKey with ⟨_ | r, s'⟩
    · rw [htry] at hserved
      cases hserved
    · refine ⟨fallback, { r with isFallback := true }, s', ?_, List.mem_singleton_self _, ?_, ?_⟩
      · rw [List.nil_append, pickFallback, if_neg hne, htry]
      · exact (usable_of_tryResolve htry).1
      · dsimp only
        rw [(usable_of_tryResolve htry).1.1]
        exact key_mem_of_tryResolve htry
  | cons first before ih =>
    rw [List.cons_append, pickFallback]
    by_cases hsame : first = model
    · rw [if_pos hsame]
      obtain ⟨source, r, s', hpick, hsource, hrest⟩ := ih h
      exact ⟨source, r, s', hpick, List.mem_cons_of_mem _ hsource, hrest⟩
    · rw [if_neg hsame]
      have hkeeps := s.keeps_tryResolve now (s.registry.resolveModel first) sessionKey
      rcases htry : s.tryResolve now (s.registry.resolveModel first) sessionKey with ⟨_ | r, s₁⟩
      · rw [htry] at hkeeps
        obtain ⟨source, r, s', hpick, hsource, hof, hkey⟩ := ih (s := s₁) (by
          rw [hkeeps.resolveModel]
          exact hkeeps.available h)
        rw [hkeeps.resolveModel] at hof hkey
        rw [keysOf, hkeeps.profiles, ← keysOf] at hkey
        exact ⟨source, r, s', hpick, List.mem_cons_of_mem _ hsource, hof, hkey⟩
      · refine ⟨first, { r with isFallback := true }, s₁, rfl, List.mem_cons_self, ?_, ?_⟩
        · exact (usable_of_tryResolve htry).1
        · dsimp only
          rw [(usable_of_tryResolve htry).1.1]
          exact key_mem_of_tryResolve htry

/-- **While a model of the chain is available, something is picked**, of the requested model or of the chain
up to that model. -/
theorem pick_of_available {s : FailoverResolver P} {now : Int} {model sessionKey : String}
    {before after : List String} {fallback : String} (hchain : s.fallbackChain = before ++ fallback :: after)
    (hne : fallback ≠ model) (h : s.Available now (s.registry.resolveModel fallback).provider) :
    ∃ source r s', s.pick now model sessionKey = (some (source, r), s') ∧
      source ∈ model :: (before ++ [fallback]) ∧ r.Of (s.registry.resolveModel source) ∧
        cooldownKey r.providerId r.profileId ∈ s.keysOf (s.registry.resolveModel source).provider := by
  have hkeeps := s.keeps_tryResolve now (s.registry.resolveModel model) sessionKey
  rw [pick]
  rcases htry : s.tryResolve now (s.registry.resolveModel model) sessionKey with ⟨_ | r, s₁⟩
  · rw [htry] at hkeeps
    dsimp only at hkeeps ⊢
    rw [hkeeps.chain, hchain]
    obtain ⟨source, r, s', hpick, hsource, hof, hkey⟩ :=
      @pickFallback_of_available _ s₁ now model sessionKey before after fallback hne (by
        rw [hkeeps.resolveModel]
        exact hkeeps.available h)
    rw [hkeeps.resolveModel] at hof hkey
    rw [keysOf, hkeeps.profiles, ← keysOf] at hkey
    exact ⟨source, r, s', hpick, List.mem_cons_of_mem _ hsource, hof, hkey⟩
  · refine ⟨model, r, s₁, rfl, List.mem_cons_self, (usable_of_tryResolve htry).1, ?_⟩
    rw [(usable_of_tryResolve htry).1.1]
    exact key_mem_of_tryResolve htry

end FailoverResolver

end RavBot.Providers
