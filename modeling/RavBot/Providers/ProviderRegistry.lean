import RavBot.Lib.Table
import RavBot.Lib.Json

/-!
# The provider registry

`ProviderRegistry` knows the providers: their settings, a factory for each, the instances it
has made, and the aliases of models.  A provider instance is a value of a type `P` that the
model leaves open, and a factory may return none.
-/

namespace RavBot.Providers

open RavBot.Lib

structure ModelRef where
  provider : String
  model : String
  deriving DecidableEq, Repr

/-- `ModelRef::parse`: the provider is what comes before the first slash. -/
def ModelRef.parse (raw defaultProvider : String) : ModelRef :=
  match Text.find ['/'] raw.toList with
  | some slash =>
    ⟨String.ofList (raw.toList.take slash), String.ofList (raw.toList.drop (slash + 1))⟩
  | none => ⟨defaultProvider, raw⟩

structure ProviderEntry where
  id : String
  displayName : String := ""
  baseUrl : String := ""
  apiKey : String := ""
  apiKeyEnv : String := ""
  api : String := ""
  timeout : Int := 30
  extra : Json := .null

/-- `ProviderRegistry`, with the environment variables of the process. -/
structure ProviderRegistry (P : Type) where
  factories : Table String (ProviderEntry → Option P)
  entries : Table String ProviderEntry
  instances : Table String (Option P)
  aliasMap : Table String String
  getenv : String → Option String

namespace ProviderRegistry

variable {P : Type}

def resolveApiKey (registry : ProviderRegistry P) (entry : ProviderEntry) : String :=
  if entry.apiKey ≠ "" then entry.apiKey
  else
    let explicit := if entry.apiKeyEnv ≠ "" then registry.getenv entry.apiKeyEnv else none
    let upperId := entry.id.toUpper
    ((explicit.or (registry.getenv (upperId ++ "_API_KEY"))).or
      (registry.getenv (upperId ++ "_KEY"))).getD ""

def resolveModel (registry : ProviderRegistry P) (raw : String) : ModelRef :=
  match registry.aliasMap.lookup raw with
  | some target => .parse target "openai"
  | none => .parse raw "openai"

/-- The entry that `GetProvider` uses: a minimal one if none was added. -/
def entryFor (registry : ProviderRegistry P) (providerId : String) : ProviderEntry :=
  (registry.entries.lookup providerId).getD
    { id := providerId, apiKey := registry.resolveApiKey { id := providerId } }

/-- `GetProvider`.  The instance is kept, also when the factory returned none. -/
def getProvider (registry : ProviderRegistry P) (providerId : String) :
    Option P × ProviderRegistry P :=
  match registry.instances.lookup providerId with
  | some inst => (inst, registry)
  | none =>
    match registry.factories.lookup providerId with
    | none => (none, registry)
    | some factory =>
      let entry := registry.entryFor providerId
      let provider := factory entry
      (provider,
        { registry with
          entries := registry.entries.insert providerId entry
          instances := registry.instances.insert providerId provider })

def getProviderWithKey (registry : ProviderRegistry P) (providerId apiKey : String) : Option P :=
  (registry.factories.lookup providerId).bind fun factory =>
    factory { (registry.entries.lookup providerId).getD { id := providerId } with apiKey }

@[simp] theorem aliasMap_getProvider (registry : ProviderRegistry P) (providerId : String) :
    (registry.getProvider providerId).2.aliasMap = registry.aliasMap := by
  rw [getProvider]
  split
  · rfl
  · split <;> rfl

theorem getProviderWithKey_getProvider (registry : ProviderRegistry P)
    (providerId providerId' apiKey : String) :
    (registry.getProvider providerId).2.getProviderWithKey providerId' apiKey =
      registry.getProviderWithKey providerId' apiKey := by
  rw [getProvider]
  split
  · rfl
  · split
    · rfl
    · rw [getProviderWithKey, getProviderWithKey, Table.lookup_insert_ite]
      split_ifs with h
      · -- a minimal entry differs from a new one in its key only
        subst h
        rw [entryFor]
        cases registry.entries.lookup providerId' <;> rfl
      · rfl

theorem getProvider_getProvider (registry : ProviderRegistry P) (providerId providerId' : String) :
    ((registry.getProvider providerId).2.getProvider providerId').1 =
      (registry.getProvider providerId').1 := by
  cases hinst : registry.instances.lookup providerId with
  | some inst => rw [show registry.getProvider providerId = (inst, registry) by
      rw [getProvider, hinst]]
  | none =>
    cases hfactory : registry.factories.lookup providerId with
    | none => rw [show registry.getProvider providerId = (none, registry) by
        rw [getProvider, hinst, hfactory]]
    | some factory =>
      by_cases h : providerId' = providerId
      · subst h
        simp [getProvider, hinst, hfactory]
      · simp only [getProvider, hinst, hfactory, entryFor, resolveApiKey,
          Table.lookup_insert_ite, if_neg h]
        split
        · rfl
        · split <;> rfl

end ProviderRegistry

end RavBot.Providers
