import RavBot.Plugins.PluginManifest

/-!
# Validating, parsing and printing agree

`Validate` reads the camel case spelling of a field first and `Parse` the other one; `ToJson` leaves out
what `Validate` asks for when the name is the id, and prints a hint that says nothing as null, which
`Parse` cannot read.  `sound_iff` says for which validated manifests none of this matters.
-/

open List

namespace RavBot.Plugins

open RavBot.Lib

namespace PluginManifest

/-! ## The statement -/

/-- A dependency carries what was checked. -/
structure DependencyCarries (d : Json) (dep : PluginDependency) : Prop where
  pluginId : checked d "pluginId" "plugin_id" = some (.str dep.pluginId)
  versionRange : ∀ v, d.find? "versionRange" = some v → v = .str dep.versionRange
  version_range : ∀ v, d.find? "version_range" = some v → v = .str dep.versionRange
  optional : ∀ v, d.find? "optional" = some v → v = .bool dep.optional

/-- A parsed manifest carries what was checked. -/
structure Carries (j : Json) (m : PluginManifest) : Prop where
  id : j.find? "id" = some (.str m.id)
  name : j.find? "name" = some (.str m.name)
  version : j.find? "version" = some (.str m.version)
  entryPoint : checked j "entryPoint" "entry_point" = some (.str m.entryPoint)
  schemaVersion : ∀ v, checked j "schemaVersion" "schema_version" = some v → v = .str m.schemaVersion
  description : ∀ v, j.find? "description" = some v → v = .str m.description
  kind : ∀ v, j.find? "kind" = some v → v = .str m.kind
  dependencies : List.Forall₂ DependencyCarries (itemsOf j "dependencies") m.dependencies
  configSchema : ∀ v, j.find? "configSchema" = some v → v = m.configSchema

/-- A validated value is parsed as a manifest that carries what was checked, is printed as a value without
errors, and is read back from it. -/
def Sound (j : Json) : Prop :=
  ∃ m, parse j = some m ∧ Carries j m ∧ validate m.toJson = [] ∧ parse m.toJson = some m

/-- The two spellings of a field, if both are there, have one value. -/
def Same (j : Json) (camel snake : String) : Prop :=
  ∀ v w, j.find? camel = some v → j.find? snake = some w → v = w

/-- The spellings of a dependency agree, and what stands for a version range is a string. -/
structure DependencyAgrees (d : Json) : Prop where
  pluginId : Same d "pluginId" "plugin_id"
  versionRange : Same d "versionRange" "version_range"
  version : HasType isString d "version"

/-- A hint can be read and says something. -/
structure HintTells (h : Json) : Prop where
  isObject : h.isObject = true
  texts : ∀ key ∈ ["label", "help", "placeholder"], HasType isString h key
  flags : ∀ key ∈ ["advanced", "sensitive"], HasType isBoolean h key
  something : (∃ key ∈ ["label", "help", "placeholder"], ∃ s, h.find? key = some (.str s) ∧ s ≠ "") ∨
    (∃ key ∈ ["advanced", "sensitive"], h.find? key = some (.bool true)) ∨ stringsOf h "tags" ≠ []

/-- No field is spelled in two ways with different values, nothing unchecked cannot be read, and the name
is not the id. -/
structure Agreeing (j : Json) : Prop where
  entryPoint : Same j "entryPoint" "entry_point"
  schemaVersion : Same j "schemaVersion" "schema_version"
  dependencies : ∀ d ∈ itemsOf j "dependencies", DependencyAgrees d
  uiHints : ∀ f ∈ fieldsOf j "uiHints", HintTells f.2
  name : j.find? "name" ≠ j.find? "id"

/-! ## The two spellings -/

variable {v j : Json}

theorem isString_iff : isString v = true ↔ ∃ s, v = .str s := by
  cases v <;> simp [isString]

theorem isBoolean_iff : isBoolean v = true ↔ ∃ b, v = .bool b := by
  cases v <;> simp [isBoolean]

theorem isObject_iff : v.isObject = true ↔ ∃ fields, v = .obj fields := by
  cases v <;> simp [Json.isObject]

variable {default s key : String}

theorem valueOr_getString {name other : String} :
    valueOr Json.getString j name other default = some s ↔
      j.isObject = true ∧ ∃ o, (j.find? other = some (.str o) ∨ j.find? other = none ∧ default = o) ∧
        (j.find? name = some (.str s) ∨ j.find? name = none ∧ o = s) := by
  simp only [valueOr, Option.bind_eq_bind, Option.bind_eq_some_iff, value_getString]
  constructor
  · rintro ⟨o, ⟨hobj, ho⟩, -, hs⟩
    exact ⟨hobj, o, ho, hs⟩
  · rintro ⟨hobj, o, ho, hs⟩
    exact ⟨o, ⟨hobj, ho⟩, hobj, hs⟩

theorem valueOr_checked_iff {camel snake : String} (default : String) (hobj : j.isObject = true)
    (h : checked j camel snake = some (.str s)) :
    valueOr Json.getString j snake camel default = some s ↔ Same j camel snake := by
  rw [valueOr_getString, Same]
  rw [checked] at h
  cases hcamel : j.find? camel with
  | none =>
    rw [hcamel, Option.none_or] at h
    simp [hobj, h]
  | some v =>
    rw [hcamel, Option.some_or] at h
    obtain rfl := Option.some.inj h
    cases hsnake : j.find? snake with
    | none => simp [hobj]
    | some w => simp [hobj, eq_comm]

theorem valueOr_of_checked_eq_none {camel snake : String} (default : String) (hobj : j.isObject = true)
    (h : checked j camel snake = none) :
    valueOr Json.getString j snake camel default = some default ∧ Same j camel snake := by
  obtain ⟨hcamel, hsnake⟩ := Option.or_eq_none_iff.1 h
  refine ⟨valueOr_getString.2 ⟨hobj, default, .inr ⟨hcamel, rfl⟩, .inr ⟨hsnake, rfl⟩⟩, fun v w hv => ?_⟩
  rw [hcamel] at hv
  cases hv

theorem exists_value_getString (default : String) (hobj : j.isObject = true)
    (h : HasType isString j key) :
    ∃ s, j.value Json.getString key default = some s ∧ ∀ v, j.find? key = some v → v = .str s := by
  cases hkey : j.find? key with
  | none =>
    refine ⟨default, value_getString.2 ⟨hobj, .inr ⟨hkey, rfl⟩⟩, fun v hv => ?_⟩
    cases hv
  | some v =>
    obtain ⟨s, rfl⟩ := isString_iff.1 (h v hkey)
    exact ⟨s, value_getString.2 ⟨hobj, .inl hkey⟩, fun w hw => (Option.some.inj hw).symm⟩

theorem exists_value_getBool (default : Bool) (hobj : j.isObject = true)
    (h : HasType isBoolean j key) :
    ∃ b, j.value Json.getBool key default = some b ∧ ∀ v, j.find? key = some v → v = .bool b := by
  cases hkey : j.find? key with
  | none =>
    refine ⟨default, value_getBool.2 ⟨hobj, .inr ⟨hkey, rfl⟩⟩, fun v hv => ?_⟩
    cases hv
  | some v =>
    obtain ⟨b, rfl⟩ := isBoolean_iff.1 (h v hkey)
    exact ⟨b, value_getBool.2 ⟨hobj, .inl hkey⟩, fun w hw => (Option.some.inj hw).symm⟩

theorem hasType_of_value_getString
    (h : j.value Json.getString key default = some s) : HasType isString j key := by
  intro v hv
  rcases (value_getString.1 h).2 with hs | ⟨hs, -⟩
  · rw [hs] at hv
    obtain rfl := Option.some.inj hv
    rfl
  · rw [hs] at hv
    cases hv

theorem hasType_of_value_getBool {default b : Bool}
    (h : j.value Json.getBool key default = some b) : HasType isBoolean j key := by
  intro v hv
  rcases (value_getBool.1 h).2 with hs | ⟨hs, -⟩
  · rw [hs] at hv
    obtain rfl := Option.some.inj hv
    rfl
  · rw [hs] at hv
    cases hv

/-! ## Dependencies -/

theorem fromJson_dependency_iff {d : Json} {dep : PluginDependency} :
    PluginDependency.fromJson d = some dep ↔
      valueOr Json.getString d "plugin_id" "pluginId" "" = some dep.pluginId ∧
      (∃ version, d.value Json.getString "version" "" = some version ∧
        valueOr Json.getString d "version_range" "versionRange" version = some dep.versionRange) ∧
      d.value Json.getBool "optional" false = some dep.optional := by
  simp only [PluginDependency.fromJson, Option.bind_eq_bind, Option.bind_eq_some_iff, Option.pure_def,
    Option.some.injEq]
  constructor
  · rintro ⟨id, hid, version, hversion, range, hrange, opt, hopt, rfl⟩
    exact ⟨hid, ⟨version, hversion, hrange⟩, hopt⟩
  · rintro ⟨hid, ⟨version, hversion, hrange⟩, hopt⟩
    exact ⟨_, hid, version, hversion, _, hrange, _, hopt, rfl⟩

theorem exists_dependency_iff {d : Json} (h : ValidDependency d) :
    (∃ dep, PluginDependency.fromJson d = some dep ∧ DependencyCarries d dep) ↔ DependencyAgrees d := by
  obtain ⟨id, hid, -⟩ := h.pluginId
  constructor
  · rintro ⟨dep, hdep, hcarries⟩
    obtain ⟨hreadId, ⟨version, hversion, -⟩, -⟩ := fromJson_dependency_iff.1 hdep
    refine ⟨(valueOr_checked_iff _ h.isObject hcarries.pluginId).1 hreadId, fun v w hv hw => ?_,
      hasType_of_value_getString hversion⟩
    exact (hcarries.versionRange v hv).trans (hcarries.version_range w hw).symm
  · intro hagrees
    obtain ⟨version, hversion, -⟩ := exists_value_getString "" h.isObject hagrees.version
    obtain ⟨opt, hopt, hoptional⟩ := exists_value_getBool false h.isObject h.optional
    have hreadId := (valueOr_checked_iff "" h.isObject hid).2 hagrees.pluginId
    cases hrange : checked d "versionRange" "version_range" with
    | none =>
      obtain ⟨hcamel, hsnake⟩ := Option.or_eq_none_iff.1 hrange
      refine ⟨⟨id, version, opt⟩, fromJson_dependency_iff.2 ⟨hreadId, ⟨version, hversion,
        (valueOr_of_checked_eq_none _ h.isObject hrange).1⟩, hopt⟩, hid, ?_, ?_, hoptional⟩
      · intro v hv
        rw [hcamel] at hv
        cases hv
      · intro v hv
        rw [hsnake] at hv
        cases hv
    | some v =>
      obtain ⟨range, rfl⟩ : ∃ s, v = .str s := by
        rcases Option.or_eq_some_iff.1 hrange with hv | ⟨-, hv⟩
        · exact isString_iff.1 (h.versionRange v hv)
        · exact isString_iff.1 (h.version_range v hv)
      refine ⟨⟨id, range, opt⟩, fromJson_dependency_iff.2 ⟨hreadId, ⟨version, hversion,
        (valueOr_checked_iff _ h.isObject hrange).2 hagrees.versionRange⟩, hopt⟩, hid, ?_, ?_, hoptional⟩
      · intro v hv
        rw [checked, hv] at hrange
        exact Option.some.inj hrange
      · intro w hw
        cases hcamel : d.find? "versionRange" with
        | none =>
          rw [checked, hcamel, hw] at hrange
          exact Option.some.inj hrange
        | some v =>
          rw [← hagrees.versionRange v w hcamel hw]
          rw [checked, hcamel] at hrange
          exact Option.some.inj hrange

/-! ## Hints -/

variable {hint : PluginConfigUiHint}

theorem fromJson_hint_iff {h : Json} :
    PluginConfigUiHint.fromJson h = some hint ↔
      h.value Json.getString "label" "" = some hint.label ∧
      h.value Json.getString "help" "" = some hint.help ∧
      h.value Json.getBool "advanced" false = some hint.advanced ∧
      h.value Json.getBool "sensitive" false = some hint.sensitive ∧
      h.value Json.getString "placeholder" "" = some hint.placeholder ∧
      stringsOf h "tags" = hint.tags := by
  simp only [PluginConfigUiHint.fromJson, Option.bind_eq_bind, Option.bind_eq_some_iff, Option.pure_def,
    Option.some.injEq]
  constructor
  · rintro ⟨label, hlabel, help, hhelp, advanced, hadvanced, sensitive, hsensitive, placeholder,
      hplaceholder, rfl⟩
    exact ⟨hlabel, hhelp, hadvanced, hsensitive, hplaceholder, rfl⟩
  · rintro ⟨hlabel, hhelp, hadvanced, hsensitive, hplaceholder, htags⟩
    refine ⟨_, hlabel, _, hhelp, _, hadvanced, _, hsensitive, _, hplaceholder, ?_⟩
    rw [htags]

variable {cond : Bool}

theorem setIf_eq_nil : setIf cond key v = [] ↔ cond = false := by
  cases cond <;> simp [setIf]

theorem fields_ne_nil_iff :
    hint.fields ≠ [] ↔ hint.label ≠ "" ∨ hint.help ≠ "" ∨ hint.tags ≠ [] ∨ hint.advanced = true ∨
      hint.sensitive = true ∨ hint.placeholder ≠ "" := by
  rw [Ne, PluginConfigUiHint.fields]
  simp only [append_eq_nil_iff, setIf_eq_nil, not_and_or, Bool.not_eq_false, bne_iff_ne]

theorem find?_of_value_getString (h : j.value Json.getString key "" = some s)
    (hs : s ≠ "") : j.find? key = some (.str s) := by
  rcases (value_getString.1 h).2 with hfound | ⟨-, rfl⟩
  · exact hfound
  · exact absurd rfl hs

theorem find?_of_value_getBool (h : j.value Json.getBool key false = some true) :
    j.find? key = some (.bool true) := by
  rcases (value_getBool.1 h).2 with hfound | ⟨-, hfalse⟩
  · exact hfound
  · cases hfalse

theorem exists_hint_iff {h : Json} :
    (∃ hint, PluginConfigUiHint.fromJson h = some hint ∧ hint.fields ≠ []) ↔ HintTells h := by
  constructor
  · rintro ⟨hint, hhint, hfields⟩
    obtain ⟨hlabel, hhelp, hadvanced, hsensitive, hplaceholder, htags⟩ := fromJson_hint_iff.1 hhint
    refine ⟨(value_getString.1 hlabel).1, ?_, ?_, ?_⟩
    · simpa using ⟨hasType_of_value_getString hlabel, hasType_of_value_getString hhelp,
        hasType_of_value_getString hplaceholder⟩
    · simpa using ⟨hasType_of_value_getBool hadvanced, hasType_of_value_getBool hsensitive⟩
    · rcases fields_ne_nil_iff.1 hfields with hne | hne | hne | hset | hset | hne
      · exact .inl ⟨"label", by simp, _, find?_of_value_getString hlabel hne, hne⟩
      · exact .inl ⟨"help", by simp, _, find?_of_value_getString hhelp hne, hne⟩
      · exact .inr (.inr (htags ▸ hne))
      · rw [hset] at hadvanced
        exact .inr (.inl ⟨"advanced", by simp, find?_of_value_getBool hadvanced⟩)
      · rw [hset] at hsensitive
        exact .inr (.inl ⟨"sensitive", by simp, find?_of_value_getBool hsensitive⟩)
      · exact .inl ⟨"placeholder", by simp, _, find?_of_value_getString hplaceholder hne, hne⟩
  · intro htells
    have htexts := htells.texts
    have hflags := htells.flags
    simp only [forall_mem_cons, not_mem_nil, IsEmpty.forall_iff, implies_true, and_true]
      at htexts hflags
    obtain ⟨label, hlabel, hlabel'⟩ := exists_value_getString "" htells.isObject htexts.1
    obtain ⟨help, hhelp, hhelp'⟩ := exists_value_getString "" htells.isObject htexts.2.1
    obtain ⟨placeholder, hplaceholder, hplaceholder'⟩ :=
      exists_value_getString "" htells.isObject htexts.2.2
    obtain ⟨advanced, hadvanced, hadvanced'⟩ :=
      exists_value_getBool false htells.isObject hflags.1
    obtain ⟨sensitive, hsensitive, hsensitive'⟩ :=
      exists_value_getBool false htells.isObject hflags.2
    refine ⟨⟨label, help, stringsOf h "tags", advanced, sensitive, placeholder⟩,
      fromJson_hint_iff.2 ⟨hlabel, hhelp, hadvanced, hsensitive, hplaceholder, rfl⟩,
      fields_ne_nil_iff.2 ?_⟩
    rcases htells.something with ⟨key, hkey, s, hs, hne⟩ | ⟨key, hkey, hset⟩ | htags
    · simp only [mem_cons, not_mem_nil, or_false] at hkey
      rcases hkey with rfl | rfl | rfl
      · exact .inl (Json.str.inj (hlabel' _ hs) ▸ hne)
      · exact .inr (.inl (Json.str.inj (hhelp' _ hs) ▸ hne))
      · exact .inr (.inr (.inr (.inr (.inr (Json.str.inj (hplaceholder' _ hs) ▸ hne)))))
    · simp only [mem_cons, not_mem_nil, or_false] at hkey
      rcases hkey with rfl | rfl
      · exact .inr (.inr (.inr (.inl (Json.bool.inj (hadvanced' _ hset)).symm)))
      · exact .inr (.inr (.inr (.inr (.inl (Json.bool.inj (hsensitive' _ hset)).symm))))
    · exact .inr (.inr (.inl htags))

/-! ## Printing -/

@[simp] theorem reverse_setIf (cond : Bool) (key : String) (v : Json) :
    (setIf cond key v).reverse = setIf cond key v := by
  cases cond <;> rfl

@[simp] theorem lookup_setIf (cond : Bool) (key key' : String) (v : Json) :
    (setIf cond key v).lookup key' = if key' = key ∧ cond = true then some v else none := by
  cases cond with
  | false => simp [setIf]
  | true =>
    by_cases h : key' = key
    · simp [setIf, h]
    · simp [setIf, lookup_cons, beq_eq_false_iff_ne.2 h, h]

@[simp] theorem isObject_object (fields : List (String × Json)) : (Json.object fields).isObject = true :=
  rfl

theorem assigned_of_ne_nil {fields : List (String × Json)} (h : fields ≠ []) :
    assigned fields = Json.object fields := by
  cases fields with
  | nil => exact absurd rfl h
  | cons f fields => rfl

theorem filterMap_getString_strings (l : List String) : (l.map Json.str).filterMap Json.getString = l := by
  rw [filterMap_map]
  exact filterMap_some

theorem read_string (h : cond = false → default = s) :
    (if cond = true then some (Json.str s) else none) = some (.str s) ∨
      (if cond = true then some (Json.str s) else none) = none ∧ default = s := by
  cases cond with
  | true => exact .inl rfl
  | false => exact .inr ⟨rfl, h rfl⟩

theorem read_flag (b : Bool) :
    (if b = true then some (Json.bool b) else none) = some (.bool b) ∨
      (if b = true then some (Json.bool b) else none) = none ∧ false = b := by
  cases b with
  | true => exact .inl rfl
  | false => exact .inr ⟨rfl, rfl⟩

theorem read_strings {l : List String}
    (h : j.find? key = if (l != []) = true then some (strings l) else none) : stringsOf j key = l := by
  rw [stringsOf, h]
  cases l with
  | nil => rfl
  | cons s l => exact filterMap_getString_strings (s :: l)

theorem eq_of_bne_eq_false (h : (s != default) = false) : default = s :=
  (bne_eq_false_iff_eq.1 h).symm

theorem value_getString_of_find?
    (hobj : j.isObject = true) (h : j.find? key = if cond = true then some (.str s) else none)
    (hcond : cond = false → default = s) : j.value Json.getString key default = some s :=
  value_getString.2 ⟨hobj, h ▸ read_string hcond⟩

theorem value_getBool_of_find? {b : Bool} (hobj : j.isObject = true)
    (h : j.find? key = if b = true then some (.bool b) else none) :
    j.value Json.getBool key false = some b :=
  value_getBool.2 ⟨hobj, h ▸ read_flag b⟩

theorem valueOr_getString_of_find? {name other : String}
    (hobj : j.isObject = true) (hname : j.find? name = none)
    (h : j.find? other = if cond = true then some (.str s) else none) (hcond : cond = false → default = s) :
    valueOr Json.getString j name other default = some s :=
  valueOr_getString.2 ⟨hobj, s, h ▸ read_string hcond, .inr ⟨hname, rfl⟩⟩

theorem find?_toJson_dependency (dep : PluginDependency) :
    dep.toJson.find? "pluginId" = (if true = true then some (.str dep.pluginId) else none) ∧
    dep.toJson.find? "versionRange" =
      (if (dep.versionRange != "") = true then some (.str dep.versionRange) else none) ∧
    dep.toJson.find? "optional" = (if dep.optional = true then some (.bool dep.optional) else none) ∧
    ∀ key ∈ ["plugin_id", "version", "version_range"], dep.toJson.find? key = none := by
  simp [PluginDependency.toJson, assigned, lookup_append, lookup_cons, -lookup_eq_none_iff]

theorem fromJson_toJson_dependency (dep : PluginDependency) :
    PluginDependency.fromJson dep.toJson = some dep := by
  obtain ⟨hid, hrange, hoptional, hnone⟩ := find?_toJson_dependency dep
  rw [fromJson_dependency_iff]
  refine ⟨valueOr_getString_of_find? rfl (hnone _ (by simp)) hid (fun h => Bool.noConfusion h),
    ⟨"", value_getString.2 ⟨rfl, .inr ⟨hnone _ (by simp), rfl⟩⟩,
      valueOr_getString_of_find? rfl (hnone _ (by simp)) hrange eq_of_bne_eq_false⟩,
    value_getBool_of_find? rfl hoptional⟩

theorem fromJson_toJson_hint_iff :
    PluginConfigUiHint.fromJson hint.toJson = some hint ↔ hint.fields ≠ [] := by
  constructor
  · intro h hnil
    rw [PluginConfigUiHint.toJson, hnil] at h
    cases h
  · intro h
    have hfind : ∀ key, (Json.object hint.fields).find? key = hint.fields.reverse.lookup key :=
      Json.find?_object hint.fields
    rw [fromJson_hint_iff, PluginConfigUiHint.toJson, assigned_of_ne_nil h]
    refine ⟨value_getString_of_find? rfl ?_ eq_of_bne_eq_false,
      value_getString_of_find? rfl ?_ eq_of_bne_eq_false, value_getBool_of_find? rfl ?_,
      value_getBool_of_find? rfl ?_, value_getString_of_find? rfl ?_ eq_of_bne_eq_false,
      read_strings ?_⟩
    all_goals
      rw [hfind]
      simp [PluginConfigUiHint.fields, lookup_append]

/-- The fields of a printed manifest. -/
structure Printed (j : Json) (m : PluginManifest) : Prop where
  isObject : j.isObject = true
  id : j.find? "id" = some (.str m.id)
  name : j.find? "name" = if (m.name != "" && m.name != m.id) = true then some (.str m.name) else none
  description : j.find? "description" = if (m.description != "") = true then some (.str m.description) else none
  version : j.find? "version" = if (m.version != "") = true then some (.str m.version) else none
  schemaVersion : j.find? "schemaVersion" =
    if (m.schemaVersion != "" && m.schemaVersion != "1.0") = true then some (.str m.schemaVersion) else none
  entryPoint : j.find? "entryPoint" = if (m.entryPoint != "") = true then some (.str m.entryPoint) else none
  kind : j.find? "kind" = if (m.kind != "") = true then some (.str m.kind) else none
  channels : j.find? "channels" = if (m.channels != []) = true then some (strings m.channels) else none
  providers : j.find? "providers" = if (m.providers != []) = true then some (strings m.providers) else none
  skills : j.find? "skills" = if (m.skills != []) = true then some (strings m.skills) else none
  dependencies : j.find? "dependencies" = if (m.dependencies != []) = true then
    some (.arr (m.dependencies.map PluginDependency.toJson)) else none
  configSchema : j.find? "configSchema" =
    if (!m.configSchema.isNull && !isEmpty m.configSchema) = true then some m.configSchema else none
  uiHints : j.find? "uiHints" = if (!m.uiHints.isEmpty) = true then
    some (Json.object (m.uiHints.map fun h => (h.1, h.2.toJson))) else none
  schema_version : j.find? "schema_version" = none
  entry_point : j.find? "entry_point" = none

variable {m : PluginManifest}

theorem find?_toJson (hextra : ∀ f ∈ m.extraFields, isExtra f.1 = true)
    (hkey : isExtra key = false) : m.toJson.find? key = m.ownFields.reverse.lookup key := by
  have hnone : m.extraFields.reverse.lookup key = none := by
    rw [lookup_eq_none_iff]
    intro f hf
    have hne : key ≠ f.1 := by
      rintro rfl
      rw [hextra f (mem_reverse.1 hf)] at hkey
      cases hkey
    exact bne_iff_ne.2 hne
  rw [toJson, Json.find?_object, reverse_append, lookup_append, hnone, Option.none_or]

theorem printed_toJson (hextra : ∀ f ∈ m.extraFields, isExtra f.1 = true) : Printed m.toJson m := by
  refine ⟨rfl, ?_, ?_, ?_, ?_, ?_, ?_, ?_, ?_, ?_, ?_, ?_, ?_, ?_, ?_, ?_⟩
  all_goals
    rw [find?_toJson hextra (by simp [isExtra, knownFields])]
    simp [ownFields, lookup_append, lookup_cons, -lookup_eq_none_iff]

/-- What every manifest that was parsed from a validated value is. -/
structure Readable (m : PluginManifest) : Prop where
  name : m.name ≠ ""
  schemaVersion : m.schemaVersion ≠ ""
  configSchema : m.configSchema.isObject = true
  uiHints : OrderedMap.Sorted m.uiHints
  extraFields : OrderedMap.Sorted m.extraFields
  isExtra : ∀ f ∈ m.extraFields, isExtra f.1 = true

theorem mem_setIf {f : String × Json} (h : f ∈ setIf cond key v) : f = (key, v) := by
  cases cond with
  | false => cases h
  | true => exact mem_singleton.1 h

theorem isExtra_ownFields {f : String × Json} (h : f ∈ m.ownFields) :
    PluginManifest.isExtra f.1 = false := by
  simp only [ownFields, mem_cons, mem_append] at h
  rcases h with rfl | h | h | h | h | h | h | h | h | h | h | h | h
  · simp [PluginManifest.isExtra, knownFields]
  all_goals
    rw [mem_setIf h]
    simp [PluginManifest.isExtra, knownFields]

theorem extraFields_toJson (h : Readable m) :
    OrderedMap.insertAll (m.toJson.items.filter fun f => PluginManifest.isExtra f.1) [] = m.extraFields := by
  have hown : m.ownFields.filter (fun f => PluginManifest.isExtra f.1) = [] := by
    rw [filter_eq_nil_iff]
    intro f hf
    rw [isExtra_ownFields hf]
    exact Bool.false_ne_true
  have hextra : m.extraFields.filter (fun f => PluginManifest.isExtra f.1) = m.extraFields :=
    filter_eq_self.2 h.isExtra
  rw [toJson, OrderedMap.object_eq, Json.items, OrderedMap.filter_insertAll _ _ OrderedMap.sorted_nil,
    filter_append, hown, hextra, nil_append, filter_nil,
    OrderedMap.insertAll_eq_self h.extraFields, OrderedMap.insertAll_eq_self h.extraFields]

theorem itemsOf_dependencies (h : Printed j m) :
    itemsOf j "dependencies" = m.dependencies.map PluginDependency.toJson := by
  rw [itemsOf, h.dependencies]
  cases m.dependencies <;> rfl

theorem fieldsOf_uiHints (h : Printed j m)
    (hsorted : OrderedMap.Sorted m.uiHints) :
    fieldsOf j "uiHints" = m.uiHints.map fun h => (h.1, h.2.toJson) := by
  have hprinted : OrderedMap.Sorted (m.uiHints.map fun h => (h.1, h.2.toJson)) :=
    hsorted.of_keys (by rw [map_map]; rfl)
  rw [fieldsOf, h.uiHints, OrderedMap.object_eq, OrderedMap.insertAll_eq_self hprinted]
  cases m.uiHints <;> rfl

theorem mapM_hintFromJson_iff (hints : List (String × PluginConfigUiHint)) :
    (hints.map fun h => (h.1, h.2.toJson)).mapM hintFromJson = some hints ↔
      ∀ h ∈ hints, h.2.fields ≠ [] := by
  have hone : ∀ h : String × PluginConfigUiHint,
      hintFromJson (h.1, h.2.toJson) = some h ↔ h.2.fields ≠ [] := by
    intro h
    rw [← fromJson_toJson_hint_iff, hintFromJson, Option.map_eq_some_iff]
    exact ⟨fun ⟨hint, hhint, heq⟩ => heq ▸ hhint, fun hhint => ⟨h.2, hhint, rfl⟩⟩
  rw [mapM_eq_some_iff, forall₂_map_left_iff, forall₂_same]
  exact forall₂_congr fun h _ => hone h

theorem keys_of_mapM_hintFromJson {fields : List (String × Json)}
    {hints : List (String × PluginConfigUiHint)} (h : fields.mapM hintFromJson = some hints) :
    hints.map Prod.fst = fields.map Prod.fst := by
  have hforall := mapM_eq_some_iff.1 h
  clear h
  induction hforall with
  | nil => rfl
  | cons hf _ ih =>
    obtain ⟨hint, -, rfl⟩ := Option.map_eq_some_iff.1 hf
    rw [map_cons, map_cons, ih]

theorem mapM_fromJson_dependencies (deps : List PluginDependency) :
    (deps.map PluginDependency.toJson).mapM PluginDependency.fromJson = some deps := by
  rw [mapM_eq_some_iff, forall₂_map_left_iff, forall₂_same]
  exact fun dep _ => fromJson_toJson_dependency dep

theorem parse_toJson_iff (h : Readable m) :
    parse m.toJson = some m ↔ ∀ h ∈ m.uiHints, h.2.fields ≠ [] := by
  have hprinted := printed_toJson h.isExtra
  rw [parse_eq_some_iff]
  constructor
  · intro hparsed
    obtain ⟨hints, hhints, hall⟩ := hparsed.uiHints
    rw [fieldsOf_uiHints hprinted h.uiHints] at hhints
    have hkeys : hints.map Prod.fst = m.uiHints.map Prod.fst := by
      rw [keys_of_mapM_hintFromJson hhints, map_map]
      rfl
    rw [OrderedMap.insertAll_eq_self (h.uiHints.of_keys hkeys)] at hall
    rw [hall] at hhints
    exact (mapM_hintFromJson_iff _).1 hhints
  · intro hfields
    refine ⟨hprinted.id, ?_, ?_, ?_, ?_, ?_, ?_, read_strings hprinted.channels,
      read_strings hprinted.providers, read_strings hprinted.skills, ?_, ?_, ⟨m.uiHints, ?_, ?_⟩,
      extraFields_toJson h⟩
    · refine value_getString_of_find? hprinted.isObject hprinted.name fun hcond => ?_
      rcases Bool.and_eq_false_iff.1 hcond with hname | hname
      · exact absurd (bne_eq_false_iff_eq.1 hname) h.name
      · exact eq_of_bne_eq_false hname
    · exact value_getString_of_find? hprinted.isObject hprinted.description eq_of_bne_eq_false
    · exact value_getString_of_find? hprinted.isObject hprinted.version eq_of_bne_eq_false
    · refine valueOr_getString_of_find? hprinted.isObject hprinted.schema_version hprinted.schemaVersion
        fun hcond => ?_
      rcases Bool.and_eq_false_iff.1 hcond with hversion | hversion
      · exact absurd (bne_eq_false_iff_eq.1 hversion) h.schemaVersion
      · exact eq_of_bne_eq_false hversion
    · exact valueOr_getString_of_find? hprinted.isObject hprinted.entry_point hprinted.entryPoint
        eq_of_bne_eq_false
    · exact value_getString_of_find? hprinted.isObject hprinted.kind eq_of_bne_eq_false
    · rw [itemsOf_dependencies hprinted]
      exact mapM_fromJson_dependencies _
    · rw [hprinted.configSchema]
      obtain ⟨fields, hschema⟩ := isObject_iff.1 h.configSchema
      rw [hschema]
      cases fields <;> rfl
    · rw [fieldsOf_uiHints hprinted h.uiHints]
      exact (mapM_hintFromJson_iff _).2 hfields
    · exact OrderedMap.insertAll_eq_self h.uiHints

theorem hasType_of_find? {is : Json → Bool}
    (h : j.find? key = if cond = true then some v else none) (hv : is v = true) : HasType is j key := by
  intro w hw
  rw [h, Option.ite_none_right_eq_some] at hw
  exact Option.some.inj hw.2 ▸ hv

theorem validDependency_toJson {dep : PluginDependency} (h : dep.pluginId ≠ "") :
    ValidDependency dep.toJson := by
  obtain ⟨hid, hrange, hoptional, hnone⟩ := find?_toJson_dependency dep
  refine ⟨rfl, ⟨dep.pluginId, ?_, h⟩, hasType_of_find? hrange rfl, fun v hv => ?_,
    hasType_of_find? hoptional rfl⟩
  · rw [checked, hid]
    rfl
  · rw [hnone _ (by simp)] at hv
    cases hv

/-- What every manifest that carries what was checked has. -/
structure Checked (m : PluginManifest) : Prop where
  id : m.id ≠ "" ∧ idRegex m.id = true
  name : m.name ≠ ""
  version : semverRegex m.version = true
  entryPoint : m.entryPoint ≠ ""
  schemaVersion : m.schemaVersion = "1.0" ∨ m.schemaVersion = "1.1"
  dependencies : ∀ dep ∈ m.dependencies, dep.pluginId ≠ ""
  configSchema : m.configSchema.isObject = true

theorem validate_toJson_iff (h : Checked m)
    (hextra : ∀ f ∈ m.extraFields, PluginManifest.isExtra f.1 = true) :
    validate m.toJson = [] ↔ m.name ≠ m.id := by
  have hprinted := printed_toJson hextra
  rw [validate_eq_nil_iff]
  constructor
  · rintro hvalid hname
    obtain ⟨s, hs, -⟩ := hvalid.name
    rw [hprinted.name, Option.ite_none_right_eq_some, Bool.and_eq_true, bne_iff_ne, bne_iff_ne] at hs
    exact hs.1.2 hname
  · intro hname
    have hversion : m.version ≠ "" := by
      intro hempty
      have hsemver := h.version
      rw [hempty] at hsemver
      revert hsemver
      decide
    refine ⟨rfl, ⟨m.id, hprinted.id, h.id⟩, ⟨m.name, ?_, h.name⟩, ⟨m.version, ?_, h.version⟩,
      ⟨m.entryPoint, ?_, h.entryPoint⟩, fun v hv => ?_, hasType_of_find? hprinted.description rfl,
      hasType_of_find? hprinted.kind rfl, hasType_of_find? hprinted.channels rfl,
      hasType_of_find? hprinted.providers rfl, hasType_of_find? hprinted.skills rfl,
      ⟨hasType_of_find? hprinted.dependencies rfl, fun d hd => ?_⟩,
      hasType_of_find? hprinted.configSchema h.configSchema, hasType_of_find? hprinted.uiHints rfl⟩
    · rw [hprinted.name]
      simp [h.name, hname]
    · rw [hprinted.version]
      simp [hversion]
    · rw [checked, hprinted.entryPoint]
      simp [h.entryPoint]
    · rw [checked, hprinted.schema_version, Option.or_none, hprinted.schemaVersion,
        Option.ite_none_right_eq_some] at hv
      rw [← Option.some.inj hv.2]
      exact h.schemaVersion.imp (congrArg _) (congrArg _)
    · rw [itemsOf_dependencies hprinted] at hd
      obtain ⟨dep, hdep, rfl⟩ := mem_map.1 hd
      exact validDependency_toJson (h.dependencies dep hdep)

/-! ## Soundness -/

theorem sorted_fieldsOf (hj : OrderedMap.Ordered j) (key : String) :
    OrderedMap.Sorted (fieldsOf j key) := by
  rw [fieldsOf]
  split
  · rename_i fields hfields
    cases hj.find? hfields with
    | obj hsorted _ => exact hsorted
  · exact OrderedMap.sorted_nil

theorem Parsed.mapM_uiHints (h : Parsed j m)
    (hj : OrderedMap.Ordered j) : (fieldsOf j "uiHints").mapM hintFromJson = some m.uiHints := by
  obtain ⟨hints, hhints, heq⟩ := h.uiHints
  have hsorted : OrderedMap.Sorted hints :=
    (sorted_fieldsOf hj "uiHints").of_keys (keys_of_mapM_hintFromJson hhints)
  rw [OrderedMap.insertAll_eq_self hsorted] at heq
  exact heq ▸ hhints

theorem Parsed.isExtra (h : Parsed j m) :
    OrderedMap.Sorted m.extraFields ∧ ∀ f ∈ m.extraFields, PluginManifest.isExtra f.1 = true := by
  rw [← h.extraFields]
  refine ⟨OrderedMap.sorted_nil.insertAll _, fun f hf => ?_⟩
  rcases OrderedMap.mem_insertAll hf with hf | hf
  · exact (mem_filter.1 hf).2
  · cases hf

theorem Carries.checked (h : Carries j m) (hparsed : Parsed j m)
    (hvalid : Valid j) : Checked m := by
  obtain ⟨id, hid, hid'⟩ := hvalid.id
  obtain ⟨name, hname, hname'⟩ := hvalid.name
  obtain ⟨version, hversion, hversion'⟩ := hvalid.version
  obtain ⟨entryPoint, hentryPoint, hentryPoint'⟩ := hvalid.entryPoint
  rw [h.id, Option.some_inj, Json.str.injEq] at hid
  rw [h.name, Option.some_inj, Json.str.injEq] at hname
  rw [h.version, Option.some_inj, Json.str.injEq] at hversion
  rw [h.entryPoint, Option.some_inj, Json.str.injEq] at hentryPoint
  refine ⟨hid ▸ hid', hname ▸ hname', hversion ▸ hversion', hentryPoint ▸ hentryPoint', ?_, ?_, ?_⟩
  · cases hschema : PluginManifest.checked j "schemaVersion" "schema_version" with
    | none =>
      have hdefault := (valueOr_of_checked_eq_none "1.0" hvalid.isObject hschema).1
      rw [hparsed.schemaVersion] at hdefault
      exact .inl (Option.some.inj hdefault)
    | some v =>
      have hv := hvalid.schemaVersion v hschema
      rw [h.schemaVersion v hschema, Json.str.injEq, Json.str.injEq] at hv
      exact hv
  · intro dep hdep
    obtain ⟨d, hd, hcarries⟩ := exists_of_forall₂ h.dependencies.flip dep hdep
    obtain ⟨s, hs, hs'⟩ := (hvalid.dependencies.2 d hd).pluginId
    rw [hcarries.pluginId, Option.some_inj, Json.str.injEq] at hs
    exact hs ▸ hs'
  · cases hschema : j.find? "configSchema" with
    | none =>
      rw [← hparsed.configSchema, hschema]
      rfl
    | some v => exact h.configSchema v hschema ▸ hvalid.configSchema v hschema

theorem Checked.readable (h : Checked m) (hparsed : Parsed j m)
    (hj : OrderedMap.Ordered j) : Readable m := by
  refine ⟨h.name, ?_, h.configSchema, ?_, hparsed.isExtra.1, hparsed.isExtra.2⟩
  · rcases h.schemaVersion with hv | hv <;> simp [hv]
  · exact (sorted_fieldsOf hj "uiHints").of_keys (keys_of_mapM_hintFromJson (hparsed.mapM_uiHints hj))

theorem Agreeing.exists_carries (hagreeing : Agreeing j) (hvalid : Valid j) :
    ∃ m, Parsed j m ∧ Carries j m := by
  have hobj := hvalid.isObject
  obtain ⟨id, hid, -⟩ := hvalid.id
  obtain ⟨name, hname, -⟩ := hvalid.name
  obtain ⟨version, hversion, -⟩ := hvalid.version
  obtain ⟨entryPoint, hentryPoint, -⟩ := hvalid.entryPoint
  obtain ⟨description, hdescription, hdescription'⟩ :=
    exists_value_getString "" hobj hvalid.description
  obtain ⟨kind, hkind, hkind'⟩ := exists_value_getString "" hobj hvalid.kind
  obtain ⟨schemaVersion, hschemaVersion, hschemaVersion'⟩ :
      ∃ s, valueOr Json.getString j "schema_version" "schemaVersion" "1.0" = some s ∧
        ∀ v, checked j "schemaVersion" "schema_version" = some v → v = .str s := by
    cases hschema : checked j "schemaVersion" "schema_version" with
    | none =>
      refine ⟨"1.0", (valueOr_of_checked_eq_none _ hobj hschema).1, fun v hv => ?_⟩
      cases hv
    | some v =>
      obtain ⟨s, rfl⟩ : ∃ s, v = .str s := by
        rcases hvalid.schemaVersion v hschema with hv | hv
        · exact ⟨_, hv⟩
        · exact ⟨_, hv⟩
      exact ⟨s, (valueOr_checked_iff _ hobj hschema).2 hagreeing.schemaVersion,
        fun w hw => (Option.some.inj hw).symm⟩
  obtain ⟨dependencies, hdependencies⟩ := exists_forall₂ fun d hd =>
    (exists_dependency_iff (hvalid.dependencies.2 d hd)).2 (hagreeing.dependencies d hd)
  obtain ⟨hints, hhints⟩ : ∃ hints, (fieldsOf j "uiHints").mapM hintFromJson = some hints := by
    simp only [mapM_eq_some_iff]
    refine exists_forall₂ fun f hf => ?_
    obtain ⟨hint, hhint, -⟩ := exists_hint_iff.2 (hagreeing.uiHints f hf)
    exact ⟨(f.1, hint), Option.map_eq_some_iff.2 ⟨hint, hhint, rfl⟩⟩
  refine ⟨⟨id, name, description, version, schemaVersion, entryPoint, kind, stringsOf j "channels",
    stringsOf j "providers", stringsOf j "skills", dependencies,
    (j.find? "configSchema").getD (.obj []), OrderedMap.insertAll hints [],
    OrderedMap.insertAll (j.items.filter fun f => PluginManifest.isExtra f.1) []⟩, ?_, ?_⟩
  · refine ⟨hid, value_getString.2 ⟨hobj, .inl hname⟩, hdescription,
      value_getString.2 ⟨hobj, .inl hversion⟩, hschemaVersion,
      (valueOr_checked_iff _ hobj hentryPoint).2 hagreeing.entryPoint, hkind, rfl, rfl, rfl, ?_, rfl,
      ⟨hints, hhints, rfl⟩, rfl⟩
    exact mapM_eq_some_iff.2 (hdependencies.imp fun d dep h => h.1)
  · refine ⟨hid, hname, hversion, hentryPoint, hschemaVersion', hdescription', hkind',
      hdependencies.imp fun d dep h => h.2, fun v hv => ?_⟩
    rw [hv]
    rfl

theorem Carries.same (h : Carries j m) (hparsed : Parsed j m)
    (hvalid : Valid j) :
    Same j "entryPoint" "entry_point" ∧ Same j "schemaVersion" "schema_version" ∧
      ∀ d ∈ itemsOf j "dependencies", DependencyAgrees d := by
  refine ⟨(valueOr_checked_iff _ hvalid.isObject h.entryPoint).1 hparsed.entryPoint, ?_, fun d hd => ?_⟩
  · cases hschema : PluginManifest.checked j "schemaVersion" "schema_version" with
    | none => exact (valueOr_of_checked_eq_none "1.0" hvalid.isObject hschema).2
    | some v =>
      rw [h.schemaVersion v hschema] at hschema
      exact (valueOr_checked_iff _ hvalid.isObject hschema).1 hparsed.schemaVersion
  · have hboth := forall₂_and (mapM_eq_some_iff.1 hparsed.dependencies) h.dependencies
    obtain ⟨dep, -, hdep⟩ := exists_of_forall₂ hboth d hd
    exact (exists_dependency_iff (hvalid.dependencies.2 d hd)).1 ⟨dep, hdep⟩

/-- A validated manifest is parsed as one that carries what was checked, is printed without errors and is
read back, exactly when the spellings of its fields agree, what is not checked can be read, and its name is
not its id. -/
theorem sound_iff {j : Json} (hj : OrderedMap.Ordered j) (h : validate j = []) :
    Sound j ↔ Agreeing j := by
  have hvalid := validate_eq_nil_iff.1 h
  constructor
  · rintro ⟨m, hparse, hcarries, hprinted, hback⟩
    have hparsed := parse_eq_some_iff.1 hparse
    have hchecked := hcarries.checked hparsed hvalid
    have hfields := (parse_toJson_iff (hchecked.readable hparsed hj)).1 hback
    have hname := (validate_toJson_iff hchecked hparsed.isExtra.2).1 hprinted
    obtain ⟨hentryPoint, hschemaVersion, hdependencies⟩ := hcarries.same hparsed hvalid
    refine ⟨hentryPoint, hschemaVersion, hdependencies, fun f hf => ?_, ?_⟩
    · obtain ⟨hint, hhint, heq⟩ := exists_of_forall₂ (mapM_eq_some_iff.1 (hparsed.mapM_uiHints hj)) f hf
      obtain ⟨hint', hhint', rfl⟩ := Option.map_eq_some_iff.1 heq
      exact exists_hint_iff.1 ⟨hint', hhint', hfields _ hhint⟩
    · rw [hcarries.name, hcarries.id, Ne, Option.some_inj, Json.str.injEq]
      exact hname
  · intro hagreeing
    obtain ⟨m, hparsed, hcarries⟩ := hagreeing.exists_carries hvalid
    have hchecked := hcarries.checked hparsed hvalid
    refine ⟨m, parse_eq_some_iff.2 hparsed, hcarries,
      (validate_toJson_iff hchecked hparsed.isExtra.2).2 fun heq => hagreeing.name ?_,
      (parse_toJson_iff (hchecked.readable hparsed hj)).2 fun hint hhint => ?_⟩
    · rw [hcarries.name, hcarries.id, heq]
    · obtain ⟨f, hf, heq⟩ :=
        exists_of_forall₂ (mapM_eq_some_iff.1 (hparsed.mapM_uiHints hj)).flip hint hhint
      obtain ⟨hint', hhint', rfl⟩ := Option.map_eq_some_iff.1 heq
      obtain ⟨hint'', hhint'', hfields⟩ := exists_hint_iff.2 (hagreeing.uiHints f hf)
      rw [hhint'] at hhint''
      exact Option.some.inj hhint'' ▸ hfields

/-- A manifest with one spelling of each field and a name of its own is validated and read back. -/
theorem sound_plain :
    Sound (.obj [("entryPoint", .str "index.js"), ("id", .str "weather"), ("name", .str "Weather"),
      ("version", .str "1.0.0")]) := by
  have hordered : OrderedMap.Ordered (.obj [("entryPoint", .str "index.js"), ("id", .str "weather"),
      ("name", .str "Weather"), ("version", .str "1.0.0")]) := by
    refine .obj ?_ ?_
    · simp only [OrderedMap.Sorted, pairwise_cons]
      decide
    · simp only [forall_mem_cons, not_mem_nil, IsEmpty.forall_iff, implies_true, and_true]
      exact ⟨.str _, .str _, .str _, .str _⟩
  refine (sound_iff hordered (by decide)).2 ⟨?_, ?_, ?_, ?_, by simp [Json.find?, lookup_cons]⟩
  · rintro v w - ⟨⟩
  · rintro v w ⟨⟩
  · rintro d ⟨⟩
  · rintro f ⟨⟩

/-- The validator checks one spelling of the entry point and the parser takes the other. -/
theorem not_sound_of_two_spellings : ∃ j, OrderedMap.Ordered j ∧ validate j = [] ∧ ¬ Sound j := by
  refine ⟨.obj [("entryPoint", .str "index.js"), ("entry_point", .str "main.js"), ("id", .str "weather"),
    ("name", .str "Weather"), ("version", .str "1.0.0")], .obj ?_ ?_, by decide, ?_⟩
  · simp only [OrderedMap.Sorted, pairwise_cons]
    decide
  · simp only [forall_mem_cons, not_mem_nil, IsEmpty.forall_iff, implies_true, and_true]
    exact ⟨.str _, .str _, .str _, .str _, .str _⟩
  · rintro ⟨m, hparse, hcarries, -⟩
    -- the parser reads `entry_point`, the validator has checked `entryPoint`
    have hparsed : some "main.js" = some m.entryPoint := (parse_eq_some_iff.1 hparse).entryPoint
    have hchecked : some (Json.str "index.js") = some (.str m.entryPoint) := hcarries.entryPoint
    rw [← Option.some.inj hparsed] at hchecked
    revert hchecked
    simp

end PluginManifest

end RavBot.Plugins
