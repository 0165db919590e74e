import RavBot.Lib.Run
import RavBot.Plugins.PluginManifest

/-!
# The plugin registry

`Discover` enables a plugin as the configuration tells (`should_enable`); `UpdateFromSidecar` adds the
plugins that the sidecar reports and the registry does not know, and enables them all.  `governed_iff` says
in which runs of the two no plugin is enabled that the configuration keeps disabled.
-/

namespace RavBot.Plugins

open RavBot.Lib

/-! ## Records and candidates -/

inductive PluginOrigin where
  | bundled
  | global
  | workspace
  | config
deriving DecidableEq, Repr

inductive PluginStatus where
  | loaded
  | disabled
  | error
deriving DecidableEq, Repr

/-- A directory with a manifest, as `scan_directory` finds it. -/
structure PluginCandidate where
  idHint : String
  source : String
  rootDir : String
  origin : PluginOrigin
  packageName : String
  packageVersion : String
  packageDescription : String
  manifest : Option PluginManifest

structure PluginRecord where
  id : String
  name : String
  version : String
  description : String := ""
  kind : String := ""
  source : String := ""
  rootDir : String := ""
  origin : PluginOrigin
  enabled : Bool := true
  status : PluginStatus := .loaded
  toolNames : List String := []
  channelIds : List String := []
  providerIds : List String := []
  serviceIds : List String := []
  skillNames : List String := []
  gatewayMethods : List String := []
  cliCommands : List String := []
  commandNames : List String := []
  hookNames : List String := []
  httpHandlerCount : Int := 0
  configSchema : Json := .null
  pluginConfig : Json := .null

/-- `plugins_` and `id_index_`. -/
structure PluginRegistry where
  plugins : List PluginRecord := []
  idIndex : List (String × Nat) := []

namespace PluginRegistry

/-! ## `should_enable` -/

/-- `kBundledEnabledByDefault`. -/
def bundledEnabledByDefault : List String := ["device-pair", "phone-control", "talk-voice"]

def listed (items : List Json) (id : String) : Bool := items.any fun d => d.getString == some id

/-- `pc["enabled"]` is false. -/
def switchedOff (pc : Json) : Bool := (pc.find? "enabled").bind Json.getBool == some false

/-- `pc["deny"]` lists a plugin. -/
def denied (pc : Json) (id : String) : Bool :=
  match pc.find? "deny" with
  | some (.arr items) => listed items id
  | _ => false

/-- `pc["allow"]` has items, and does not list a plugin. -/
def notAllowed (pc : Json) (id : String) : Bool :=
  match pc.find? "allow" with
  | some (.arr items) => !items.isEmpty && !listed items id
  | _ => false

/-- The entry of a plugin in `pc["entries"]`. -/
def entryOf (pc : Json) (id : String) : Option Json := (pc.find? "entries").bind (·.find? id)

def shouldEnable (pluginId : String) (origin : PluginOrigin) (pc : Json) : Bool :=
  if switchedOff pc then false
  else if denied pc pluginId then false
  else if notAllowed pc pluginId then false
  else if ((pc.find? "slots").bind (·.find? "memory")).bind Json.getString == some pluginId then true
  else
    match ((entryOf pc pluginId).bind (·.find? "enabled")).bind Json.getBool with
    | some enabled => enabled
    | none => if origin = .bundled then bundledEnabledByDefault.contains pluginId else true

/-! ## `Discover` -/

def candidateId (c : PluginCandidate) : String :=
  match c.manifest with
  | some m => m.id
  | none => c.idHint

/-- The candidates by their ids; the first of an id is the one that counts. -/
def dedup (candidates : List PluginCandidate) : List (String × PluginCandidate) :=
  candidates.foldl (fun seen c =>
    if (seen.lookup (candidateId c)).isNone then OrderedMap.insert (candidateId c) c seen else seen) []

/-- The record of a candidate before it is enabled or not. -/
def recordOf (id : String) (c : PluginCandidate) : PluginRecord :=
  match c.manifest with
  | some m =>
    { id, name := m.name, version := m.version, description := m.description, kind := m.kind
      source := c.source, rootDir := c.rootDir, origin := c.origin
      channelIds := m.channels, providerIds := m.providers, skillNames := m.skills
      configSchema := m.configSchema }
  | none =>
    { id, name := if c.packageName = "" then id else c.packageName, version := c.packageVersion
      description := c.packageDescription, source := c.source, rootDir := c.rootDir
      origin := c.origin }

/-- The record of a candidate. -/
def discovered (pc : Json) (id : String) (c : PluginCandidate) : PluginRecord :=
  let enabled := shouldEnable id c.origin pc
  { recordOf id c with
    enabled
    status := if enabled then .loaded else .disabled
    pluginConfig := ((entryOf pc id).bind (·.find? "config")).getD .null }

def push (reg : PluginRegistry) (r : PluginRecord) : PluginRegistry :=
  { plugins := reg.plugins ++ [r], idIndex := OrderedMap.insert r.id reg.plugins.length reg.idIndex }

/-- `Discover`, with the candidates that are found on disk. -/
def discover (pc : Json) (candidates : List PluginCandidate) : PluginRegistry :=
  (dedup candidates).foldl (fun reg c => reg.push (discovered pc c.1 c.2)) {}

/-! ## `UpdateFromSidecar` -/

def mergeUnique (dest src : List String) : List String :=
  src.foldl (fun dest s => if dest.contains s then dest else dest ++ [s]) dest

/-- The count of handlers in an entry, if it is a number. -/
def httpHandlers (entry : Json) : Option Int :=
  match entry.find? "httpHandlers" with
  | some (.bool _) => none
  | some v => v.getInt
  | none => none

/-- Merge the capabilities that an entry reports into a record. -/
def merge (entry : Json) (r : PluginRecord) : PluginRecord :=
  { r with
    toolNames := mergeUnique r.toolNames (stringsOf entry "tools")
    hookNames := mergeUnique r.hookNames (stringsOf entry "hooks")
    serviceIds := mergeUnique r.serviceIds (stringsOf entry "services")
    providerIds := mergeUnique r.providerIds (stringsOf entry "providers")
    commandNames := mergeUnique r.commandNames (stringsOf entry "commands")
    gatewayMethods := mergeUnique r.gatewayMethods (stringsOf entry "gatewayMethods")
    channelIds := mergeUnique r.channelIds (stringsOf entry "channels")
    cliCommands := mergeUnique r.cliCommands (stringsOf entry "cliEntries")
    httpHandlerCount := (httpHandlers entry).getD r.httpHandlerCount }

/-- The record of a plugin that only the sidecar knows. -/
def reported (entry : Json) (id : String) : Option PluginRecord := do
  let name ← entry.value Json.getString "name" id
  let version ← entry.value Json.getString "version" ""
  return { id, name, version, enabled := true, status := .loaded, origin := .config }

/-- What an entry of a report leads to: it is passed over, it makes `value` throw, or it reports a plugin. -/
inductive Entry where
  | skipped
  | throws
  | plugin (id : String)

/-- The id that an entry reports. -/
def readEntry (entry : Json) : Entry :=
  if !entry.isObject then .skipped
  else
    match entry.value Json.getString "id" "" with
    | none => .throws
    | some id => if id = "" then .skipped else .plugin id

/-- The entries of a report, one after the other.  An exception leaves what was done before. -/
def updateAll (reg : PluginRegistry) : List Json → PluginRegistry
  | [] => reg
  | entry :: entries =>
    match readEntry entry with
    | .skipped => reg.updateAll entries
    | .throws => reg
    | .plugin id =>
      match reg.idIndex.lookup id with
      | some i => { reg with plugins := reg.plugins.modify i (merge entry) }.updateAll entries
      | none =>
        match reported entry id with
        | none => reg
        | some r => (reg.push (merge entry r)).updateAll entries

def updateFromSidecar (reg : PluginRegistry) (list : Json) : PluginRegistry :=
  match list.find? "plugins" with
  | some (.arr entries) => reg.updateAll entries
  | _ => reg

end PluginRegistry

/-! ## Runs -/

inductive RegistryCall where
  | discover (pc : Json) (candidates : List PluginCandidate)
  | updateFromSidecar (list : Json)

/-- The registry, and the configuration that the plugins were discovered under last. -/
structure PluginState where
  pc : Json
  registry : PluginRegistry := {}

namespace PluginState

open PluginRegistry

def apply (s : PluginState) : RegistryCall → PluginState
  | .discover pc candidates => { pc, registry := discover pc candidates }
  | .updateFromSidecar list => { s with registry := s.registry.updateFromSidecar list }

def step (s : PluginState) (c : RegistryCall) : Option PluginState := some (s.apply c)

/-! ## The statement -/

/-- The configuration does not keep a plugin disabled: plugins are not switched off, it is not in the deny
list, and it is in the allow list unless that is empty. -/
structure Permitted (pc : Json) (id : String) : Prop where
  enabled : pc.find? "enabled" ≠ some (.bool false)
  deny : ∀ items, pc.find? "deny" = some (.arr items) → .str id ∉ items
  allow : ∀ items, pc.find? "allow" = some (.arr items) → items ≠ [] → .str id ∈ items

/-- No plugin is enabled that the configuration keeps disabled. -/
def Governed (s : PluginState) : Prop :=
  ∀ r ∈ s.registry.plugins, r.enabled = true → Permitted s.pc r.id

/-- The plugins that a report adds to those that are known, up to the first entry that cannot be read. -/
def newIds (known : List String) : List Json → List String
  | [] => []
  | entry :: entries =>
    match readEntry entry with
    | .skipped => newIds known entries
    | .throws => []
    | .plugin id =>
      if known.contains id then newIds known entries
      else if (reported entry id).isSome then id :: newIds (id :: known) entries
      else []

/-- A report adds no plugin that the configuration keeps disabled. -/
def Conforms (s : PluginState) : RegistryCall → Prop
  | .discover _ _ => True
  | .updateFromSidecar list =>
    ∀ entries, list.find? "plugins" = some (.arr entries) →
      ∀ id ∈ newIds (s.registry.idIndex.map Prod.fst) entries, Permitted s.pc id

/-! ## Calls -/

theorem listed_iff {items : List Json} {id : String} : listed items id = true ↔ .str id ∈ items := by
  simp [listed, getString_eq_some]

theorem permitted_of_shouldEnable {id : String} {origin : PluginOrigin} {pc : Json}
    (h : shouldEnable id origin pc = true) : Permitted pc id := by
  rw [shouldEnable] at h
  split_ifs at h with hoff hdeny hallow
  all_goals
    refine ⟨fun henabled => hoff ?_, fun items hitems hmem => hdeny ?_, fun items hitems hne => ?_⟩
    · rw [switchedOff, henabled]
      rfl
    · rw [denied, hitems]
      exact listed_iff.2 hmem
    · rw [notAllowed, hitems, Bool.and_eq_true, not_and_or] at hallow
      rcases hallow with hempty | hlisted
      · rw [Bool.not_eq_true', Bool.not_eq_false, List.isEmpty_iff] at hempty
        exact absurd hempty hne
      · rw [Bool.not_eq_true', Bool.not_eq_false] at hlisted
        exact listed_iff.1 hlisted

theorem governed_discover (pc : Json) (candidates : List PluginCandidate) :
    Governed { pc, registry := discover pc candidates } := by
  have hall : ∀ (found : List (String × PluginCandidate)) (reg : PluginRegistry),
      Governed { pc, registry := reg } →
        Governed { pc, registry := found.foldl (fun reg c => reg.push (discovered pc c.1 c.2)) reg } := by
    intro found
    induction found with
    | nil => exact fun reg h => h
    | cons c found ih =>
      refine fun reg h => ih _ fun r hr henabled => ?_
      rcases List.mem_append.1 hr with hr | hr
      · exact h r hr henabled
      · rw [List.mem_singleton] at hr
        subst hr
        have hid : (discovered pc c.1 c.2).id = c.1 := by
          rw [discovered, recordOf]
          cases c.2.manifest <;> rfl
        rw [hid]
        exact permitted_of_shouldEnable henabled
  exact hall _ _ fun r hr => nomatch hr

variable {reg : PluginRegistry}

theorem governed_push_iff {pc : Json} {r : PluginRecord} :
    Governed { pc, registry := reg.push r } ↔
      Governed { pc, registry := reg } ∧ (r.enabled = true → Permitted pc r.id) := by
  simp only [Governed, push, List.mem_append, List.mem_singleton, or_imp, forall_and, forall_eq]

theorem governed_modify_iff {pc : Json} (i : Nat) (entry : Json) :
    Governed { pc, registry := { reg with plugins := reg.plugins.modify i (merge entry) } } ↔
      Governed { pc, registry := reg } := by
  have hflags : (reg.plugins.modify i (merge entry)).map (fun r => (r.enabled, r.id)) =
      reg.plugins.map fun r => (r.enabled, r.id) := by
    refine List.ext_getElem? fun n => ?_
    rw [List.getElem?_map, List.getElem?_map, List.getElem?_modify]
    cases reg.plugins[n]? with
    | none => rfl
    | some r => by_cases h : i = n <;> simp [h, merge]
  have hgoverned : ∀ plugins : List PluginRecord, (∀ r ∈ plugins, r.enabled = true → Permitted pc r.id) ↔
      ∀ f ∈ plugins.map fun r => (r.enabled, r.id), f.1 = true → Permitted pc f.2 := by
    intro plugins
    constructor
    · intro h f hf
      obtain ⟨r, hr, rfl⟩ := List.mem_map.1 hf
      exact h r hr
    · exact fun h r hr => h _ (List.mem_map_of_mem hr)
  exact (hgoverned _).trans (hflags ▸ (hgoverned _).symm)

theorem reported_spec {entry : Json} {id : String} {r : PluginRecord} (h : reported entry id = some r) :
    r.enabled = true ∧ r.id = id := by
  simp only [reported, Option.bind_eq_bind, Option.bind_eq_some_iff, Option.pure_def,
    Option.some.injEq] at h
  obtain ⟨name, -, version, -, rfl⟩ := h
  exact ⟨rfl, rfl⟩

/-- A report leaves no plugin enabled that the configuration keeps disabled exactly when there was none
before, and it adds none. -/
theorem governed_updateAll_iff (pc : Json) {known : List String}
    (hknown : ∀ id, known.contains id = (reg.idIndex.lookup id).isSome) (entries : List Json) :
    Governed { pc, registry := reg.updateAll entries } ↔
      Governed { pc, registry := reg } ∧ ∀ id ∈ newIds known entries, Permitted pc id := by
  induction entries generalizing reg known with
  | nil => simp [updateAll, newIds]
  | cons entry entries ih =>
    rw [updateAll, newIds]
    cases readEntry entry with
    | skipped => exact ih hknown
    | throws => simp
    | plugin id =>
      have hid := hknown id
      cases hlookup : reg.idIndex.lookup id with
      | some i =>
        rw [hlookup] at hid
        simp only [hlookup, hid, Option.isSome_some, if_true]
        have hmodify := @ih { reg with plugins := reg.plugins.modify i (merge entry) } known hknown
        rw [hmodify, governed_modify_iff]
      | none =>
        rw [hlookup] at hid
        simp only [hlookup, hid, Option.isSome_none, Bool.false_eq_true, if_false]
        cases hr : reported entry id with
        | none => simp
        | some r =>
          simp only [Option.isSome_some, if_true]
          obtain ⟨henabled, hrid⟩ := reported_spec hr
          have hknown' : ∀ x, (id :: known).contains x =
              ((reg.push (merge entry r)).idIndex.lookup x).isSome := by
            intro x
            have hmerge : (merge entry r).id = id := hrid
            rw [push, hmerge, OrderedMap.lookup_insert, List.contains_cons, hknown]
            by_cases hx : x = id
            · simp [hx]
            · simp [hx]
          have hpermitted : ((merge entry r).enabled = true → Permitted pc (merge entry r).id) ↔
              Permitted pc id := by
            rw [← hrid]
            exact ⟨fun h => h henabled, fun h _ => h⟩
          rw [ih hknown', governed_push_iff, hpermitted, List.forall_mem_cons, and_assoc]

theorem governed_apply_iff {s : PluginState} (h : s.Governed) (c : RegistryCall) :
    (s.apply c).Governed ↔ s.Conforms c := by
  cases c with
  | discover pc candidates => exact iff_of_true (governed_discover pc candidates) trivial
  | updateFromSidecar list =>
    rw [apply, Conforms, updateFromSidecar]
    split
    · rename_i entries hentries
      have hknown : ∀ id, (s.registry.idIndex.map Prod.fst).contains id =
          (s.registry.idIndex.lookup id).isSome := by
        intro id
        rw [Bool.eq_iff_iff, List.contains_iff_mem, List.lookup_isSome_iff, List.mem_map]
        simp only [beq_iff_eq]
        exact ⟨fun ⟨e, he, h⟩ => ⟨e, he, h.symm⟩, fun ⟨e, he, h⟩ => ⟨e, he, h.symm⟩⟩
      have hiff := governed_updateAll_iff s.pc hknown entries
      rw [hentries]
      refine hiff.trans ⟨fun hall entries' heq => ?_, fun hall => ⟨h, hall entries rfl⟩⟩
      obtain rfl := Json.arr.inj (Option.some.inj heq)
      exact hall.2
    · rename_i hnone
      exact iff_of_true h fun entries hentries => absurd hentries (hnone entries)

/-- **A disabled plugin stays disabled.**  In a run of calls on a new registry no plugin is ever enabled
that the configuration keeps disabled exactly when no report of the sidecar adds one. -/
theorem governed_iff (pc : Json) (calls : List RegistryCall) :
    Along step (fun s c => (s.apply c).Governed) { pc } calls ↔ Along step Conforms { pc } calls := by
  refine along_congr (motive := Governed) ?_ (fun s c h => governed_apply_iff h c) fun r hr => nomatch hr
  intro s c s' h hconforms hstep
  rw [← Option.some.inj hstep]
  exact (governed_apply_iff h c).2 hconforms

/-- The sidecar reports a plugin that is in the deny list, and it is enabled. -/
theorem not_governed :
    ¬ ∀ (pc : Json) (calls : List RegistryCall),
      Along step (fun s c => (s.apply c).Governed) { pc } calls := by
  intro h
  obtain ⟨-, hrest⟩ := h (.obj [("deny", .arr [.str "miner"])])
    [.discover (.obj [("deny", .arr [.str "miner"])]) [],
      .updateFromSidecar (.obj [("plugins", .arr [.obj [("id", .str "miner")]])])]
  obtain ⟨hgoverned, -⟩ := hrest _ rfl
  have hpermitted := hgoverned
    (merge (.obj [("id", .str "miner")]) { id := "miner", name := "miner", version := "", origin := .config })
    (by
      simp [apply, updateFromSidecar, updateAll, readEntry, reported, discover, dedup, push, Json.find?,
      Json.value, Json.isObject, Json.getString, List.lookup_cons]) rfl
  exact hpermitted.deny [.str "miner"] rfl (List.mem_singleton.2 rfl)

end PluginState

end RavBot.Plugins
