import RavBot.Lib.OrderedMap

/-!
# Plugin manifests

`Validate`, `Parse` and `ToJson` of a plugin manifest, the three walks over the fields of a JSON value.  A
field of a manifest may be spelled in two ways.  `validate_eq_nil_iff` says what a validated value is, and
`parse_eq_some_iff` which manifest a value is parsed as, both field by field.
-/

namespace RavBot.Plugins

open RavBot.Lib

/-! ## Reading fields -/

/-- `j.value(name, j.value(other, default))`: the default is read first, and throws first. -/
def valueOr {α : Type} (get : Json → Option α) (j : Json) (name other : String) (default : α) :
    Option α := do
  let other ← j.value get other default
  j.value get name other

def stringsOf (j : Json) (key : String) : List String :=
  match j.find? key with
  | some (.arr items) => items.filterMap Json.getString
  | _ => []

def setIf (cond : Bool) (key : String) (value : Json) : List (String × Json) :=
  if cond then [(key, value)] else []

/-- The value of a `nlohmann::json` whose fields were set one after the other: null when none was. -/
def assigned : List (String × Json) → Json
  | [] => .null
  | fields => Json.object fields

def strings (l : List String) : Json := .arr (l.map .str)

/-! ## Dependencies -/

structure PluginDependency where
  pluginId : String
  versionRange : String
  optional : Bool
deriving DecidableEq

namespace PluginDependency

def fromJson (j : Json) : Option PluginDependency := do
  let pluginId ← valueOr Json.getString j "plugin_id" "pluginId" ""
  let version ← j.value Json.getString "version" ""
  let versionRange ← valueOr Json.getString j "version_range" "versionRange" version
  let optional ← j.value Json.getBool "optional" false
  return { pluginId, versionRange, optional }

def toJson (dep : PluginDependency) : Json :=
  assigned <|
    ("pluginId", .str dep.pluginId) ::
      (setIf (dep.versionRange != "") "versionRange" (.str dep.versionRange) ++
        setIf dep.optional "optional" (.bool dep.optional))

end PluginDependency

/-! ## Hints for the user interface -/

structure PluginConfigUiHint where
  label : String
  help : String
  tags : List String
  advanced : Bool
  sensitive : Bool
  placeholder : String
deriving DecidableEq

namespace PluginConfigUiHint

def fromJson (j : Json) : Option PluginConfigUiHint := do
  let label ← j.value Json.getString "label" ""
  let help ← j.value Json.getString "help" ""
  let advanced ← j.value Json.getBool "advanced" false
  let sensitive ← j.value Json.getBool "sensitive" false
  let placeholder ← j.value Json.getString "placeholder" ""
  return { label, help, tags := stringsOf j "tags", advanced, sensitive, placeholder }

/-- The fields that `ToJson` sets. -/
def fields (hint : PluginConfigUiHint) : List (String × Json) :=
  setIf (hint.label != "") "label" (.str hint.label) ++
    (setIf (hint.help != "") "help" (.str hint.help) ++
    (setIf (hint.tags != []) "tags" (strings hint.tags) ++
    (setIf hint.advanced "advanced" (.bool hint.advanced) ++
    (setIf hint.sensitive "sensitive" (.bool hint.sensitive) ++
    setIf (hint.placeholder != "") "placeholder" (.str hint.placeholder)))))

def toJson (hint : PluginConfigUiHint) : Json := assigned hint.fields

end PluginConfigUiHint

/-! ## Manifests -/

/-- `uiHints` and `extraFields` are ordered by their keys. -/
structure PluginManifest where
  id : String
  name : String
  description : String
  version : String
  schemaVersion : String
  entryPoint : String
  kind : String
  channels : List String
  providers : List String
  skills : List String
  dependencies : List PluginDependency
  configSchema : Json
  uiHints : List (String × PluginConfigUiHint)
  extraFields : List (String × Json)

namespace PluginManifest

def knownFields : List String :=
  ["id", "name", "description", "version", "schema_version", "schemaVersion", "entry_point",
    "entryPoint", "kind", "channels", "providers", "skills", "dependencies", "configSchema", "uiHints"]

/-- Whether a field is none that `Parse` knows. -/
def isExtra (key : String) : Bool := !knownFields.contains key

def itemsOf (j : Json) (key : String) : List Json :=
  match j.find? key with
  | some (.arr items) => items
  | _ => []

def fieldsOf (j : Json) (key : String) : List (String × Json) :=
  match j.find? key with
  | some (.obj fields) => fields
  | _ => []

/-- A field of `uiHints`. -/
def hintFromJson (field : String × Json) : Option (String × PluginConfigUiHint) :=
  (PluginConfigUiHint.fromJson field.2).map (field.1, ·)

def parse (j : Json) : Option PluginManifest := do
  let id ← (j.find? "id").bind Json.getString
  let name ← j.value Json.getString "name" id
  let description ← j.value Json.getString "description" ""
  let version ← j.value Json.getString "version" ""
  let schemaVersion ← valueOr Json.getString j "schema_version" "schemaVersion" "1.0"
  let entryPoint ← valueOr Json.getString j "entry_point" "entryPoint" ""
  let kind ← j.value Json.getString "kind" ""
  let dependencies ← (itemsOf j "dependencies").mapM PluginDependency.fromJson
  let configSchema := (j.find? "configSchema").getD (.obj [])
  let uiHints ← (fieldsOf j "uiHints").mapM hintFromJson
  return {
    id, name, description, version, schemaVersion, entryPoint, kind, dependencies, configSchema
    channels := stringsOf j "channels"
    providers := stringsOf j "providers"
    skills := stringsOf j "skills"
    uiHints := OrderedMap.insertAll uiHints []
    extraFields := OrderedMap.insertAll (j.items.filter fun f => isExtra f.1) [] }

/-- `empty` of a JSON value. -/
def isEmpty : Json → Bool
  | .null => true
  | .arr items => items.isEmpty
  | .obj fields => fields.isEmpty
  | _ => false

/-- The fields that `ToJson` sets before the extra ones. -/
def ownFields (m : PluginManifest) : List (String × Json) :=
  ("id", .str m.id) ::
    (setIf (m.name != "" && m.name != m.id) "name" (.str m.name) ++
    (setIf (m.description != "") "description" (.str m.description) ++
    (setIf (m.version != "") "version" (.str m.version) ++
    (setIf (m.schemaVersion != "" && m.schemaVersion != "1.0") "schemaVersion" (.str m.schemaVersion) ++
    (setIf (m.entryPoint != "") "entryPoint" (.str m.entryPoint) ++
    (setIf (m.kind != "") "kind" (.str m.kind) ++
    (setIf (m.channels != []) "channels" (strings m.channels) ++
    (setIf (m.providers != []) "providers" (strings m.providers) ++
    (setIf (m.skills != []) "skills" (strings m.skills) ++
    (setIf (m.dependencies != []) "dependencies" (.arr (m.dependencies.map PluginDependency.toJson)) ++
    (setIf (!m.configSchema.isNull && !isEmpty m.configSchema) "configSchema" m.configSchema ++
    setIf (!m.uiHints.isEmpty) "uiHints"
      (Json.object (m.uiHints.map fun h => (h.1, h.2.toJson))))))))))))))

def toJson (m : PluginManifest) : Json := Json.object (m.ownFields ++ m.extraFields)

/-! ## Validation -/

/-- A field that must be a string: what else is checked of it. -/
def requireString (field : Option Json) (key : String) (check : String → List String) : List String :=
  match field with
  | none => ["Missing required field: " ++ key]
  | some (.str s) => check s
  | some _ => ["Field '" ++ key ++ "' must be a string"]

def nonEmpty (key s : String) : List String :=
  if s = "" then ["Field '" ++ key ++ "' cannot be empty"] else []

def optionalField (is : Json → Bool) (j : Json) (key type : String) : List String :=
  match j.find? key with
  | some v => if is v then [] else ["Field '" ++ key ++ "' must be " ++ type]
  | none => []

def isString : Json → Bool
  | .str _ => true
  | _ => false

def isArray : Json → Bool
  | .arr _ => true
  | _ => false

def isBoolean : Json → Bool
  | .bool _ => true
  | _ => false

/-- `[a-zA-Z0-9]`. -/
def isAlphanumeric (c : Char) : Bool :=
  ('a' ≤ c && c ≤ 'z') || ('A' ≤ c && c ≤ 'Z') || ('0' ≤ c && c ≤ '9')

def idRegex (s : String) : Bool :=
  !s.toList.isEmpty && s.toList.all fun c => isAlphanumeric c || c == '_' || c == '-'

/-- `\d+` with what follows it. -/
def afterDigits (s : List Char) : Option (List Char) :=
  if (s.takeWhile Char.isDigit).isEmpty then none else some (s.dropWhile Char.isDigit)

/-- `\.`. -/
def afterDot : List Char → Option (List Char)
  | '.' :: s => some s
  | _ => none

/-- `[a-zA-Z0-9.-]+`, with what follows it. -/
def afterLabel (s : List Char) : Option (List Char) :=
  let ok c := isAlphanumeric c || c == '.' || c == '-'
  if (s.takeWhile ok).isEmpty then none else some (s.dropWhile ok)

def isBuild : List Char → Bool
  | [] => true
  | '+' :: s => afterLabel s == some []
  | _ => false

def isSuffix : List Char → Bool
  | '-' :: s => (afterLabel s).any isBuild
  | s => isBuild s

def semverRegex (s : String) : Bool :=
  ((((afterDigits s.toList).bind afterDot).bind afterDigits).bind afterDot).bind afterDigits
    |>.any isSuffix

/-- The checks of `id`. -/
def validateId (s : String) : List String :=
  if s = "" then ["Field 'id' cannot be empty"]
  else if idRegex s then []
  else ["Field 'id' must contain only letters, numbers, underscores, and hyphens"]

/-- The check of `version`. -/
def validateVersion (s : String) : List String :=
  if semverRegex s then [] else ["Field 'version' must be a valid semver (e.g., '1.0.0')"]

/-- The field that a check reads: the camel case spelling goes before the other one. -/
def checked (j : Json) (camel snake : String) : Option Json := (j.find? camel).or (j.find? snake)

/-- The checks of the schema version. -/
def validateSchemaVersion (j : Json) : List String :=
  match checked j "schemaVersion" "schema_version" with
  | none => []
  | some (.str v) =>
    if v ≠ "1.0" ∧ v ≠ "1.1" then ["Unsupported schemaVersion: " ++ v ++ " (supported: 1.0, 1.1)"]
    else []
  | some _ => ["Field 'schemaVersion' must be a string"]

/-- A field of a dependency that need not be there. -/
def optionalOfDependency (is : Json → Bool) (start : String) (dep : Json) (key type : String) :
    List String :=
  match dep.find? key with
  | some v => if is v then [] else [start ++ "." ++ key ++ " must be " ++ type]
  | none => []

def validatePluginId (start : String) : Option Json → List String
  | none => [start ++ " missing required field: pluginId"]
  | some (.str s) => if s = "" then [start ++ ".pluginId must be a non-empty string"] else []
  | some _ => [start ++ ".pluginId must be a non-empty string"]

/-- The checks of a dependency. -/
def validateDependency (dep : Json) (i : Nat) : List String :=
  let start := "dependencies[" ++ toString i ++ "]"
  if !dep.isObject then [start ++ " must be an object"]
  else
    validatePluginId start (checked dep "pluginId" "plugin_id") ++
      (optionalOfDependency isString start dep "versionRange" "a string" ++
      (optionalOfDependency isString start dep "version_range" "a string" ++
      optionalOfDependency isBoolean start dep "optional" "a boolean"))

/-- The checks of the dependencies. -/
def validateDependencies (j : Json) : List String :=
  match j.find? "dependencies" with
  | none => []
  | some (.arr items) => items.zipIdx.flatMap fun (dep, i) => validateDependency dep i
  | some _ => ["Field 'dependencies' must be an array"]

def validate (j : Json) : List String :=
  if !j.isObject then ["Manifest must be a JSON object"]
  else
    requireString (j.find? "id") "id" validateId ++
      (requireString (j.find? "name") "name" (nonEmpty "name") ++
      (requireString (j.find? "version") "version" validateVersion ++
      (requireString (checked j "entryPoint" "entry_point") "entryPoint" (nonEmpty "entryPoint") ++
      (validateSchemaVersion j ++
      (optionalField isString j "description" "a string" ++
      (optionalField isString j "kind" "a string" ++
      (optionalField isArray j "channels" "an array" ++
      (optionalField isArray j "providers" "an array" ++
      (optionalField isArray j "skills" "an array" ++
      (validateDependencies j ++
      (optionalField Json.isObject j "configSchema" "an object" ++
      optionalField Json.isObject j "uiHints" "an object")))))))))))

/-! ## What a validated value is -/

def HasType (is : Json → Bool) (j : Json) (key : String) : Prop := ∀ v, j.find? key = some v → is v = true

/-- What is checked of a dependency. -/
structure ValidDependency (d : Json) : Prop where
  isObject : d.isObject = true
  pluginId : ∃ s, checked d "pluginId" "plugin_id" = some (.str s) ∧ s ≠ ""
  versionRange : HasType isString d "versionRange"
  version_range : HasType isString d "version_range"
  optional : HasType isBoolean d "optional"

structure Valid (j : Json) : Prop where
  isObject : j.isObject = true
  id : ∃ s, j.find? "id" = some (.str s) ∧ s ≠ "" ∧ idRegex s = true
  name : ∃ s, j.find? "name" = some (.str s) ∧ s ≠ ""
  version : ∃ s, j.find? "version" = some (.str s) ∧ semverRegex s = true
  entryPoint : ∃ s, checked j "entryPoint" "entry_point" = some (.str s) ∧ s ≠ ""
  schemaVersion : ∀ v, checked j "schemaVersion" "schema_version" = some v →
    v = .str "1.0" ∨ v = .str "1.1"
  description : HasType isString j "description"
  kind : HasType isString j "kind"
  channels : HasType isArray j "channels"
  providers : HasType isArray j "providers"
  skills : HasType isArray j "skills"
  dependencies : HasType isArray j "dependencies" ∧ ∀ d ∈ itemsOf j "dependencies", ValidDependency d
  configSchema : HasType Json.isObject j "configSchema"
  uiHints : HasType Json.isObject j "uiHints"

theorem requireString_eq_nil {field : Option Json} {key : String} {check : String → List String} :
    requireString field key check = [] ↔ ∃ s, field = some (.str s) ∧ check s = [] := by
  rw [requireString.eq_def]
  split
  · simp
  · simp
  · rename_i v hv
    refine iff_of_false (List.cons_ne_nil _ _) ?_
    rintro ⟨s, hs, -⟩
    exact hv s (Option.some.inj hs)

theorem nonEmpty_eq_nil {key s : String} : nonEmpty key s = [] ↔ s ≠ "" := by
  rw [nonEmpty]
  split_ifs with h <;> simp [h]

variable {j : Json}

theorem optionalField_eq_nil {is : Json → Bool} {key type : String} :
    optionalField is j key type = [] ↔ HasType is j key := by
  rw [optionalField, HasType]
  cases j.find? key with
  | none => simp
  | some v => simp

theorem optionalOfDependency_eq_nil {is : Json → Bool} {start key type : String} {d : Json} :
    optionalOfDependency is start d key type = [] ↔ HasType is d key := by
  rw [optionalOfDependency, HasType]
  cases d.find? key with
  | none => simp
  | some v => simp

theorem validateId_eq_nil {s : String} : validateId s = [] ↔ s ≠ "" ∧ idRegex s = true := by
  rw [validateId]
  by_cases hempty : s = ""
  · simp [hempty]
  · by_cases hid : idRegex s = true <;> simp [hempty, hid]

theorem validateVersion_eq_nil {s : String} : validateVersion s = [] ↔ semverRegex s = true := by
  rw [validateVersion]
  split_ifs with h <;> simp [h]

theorem validateSchemaVersion_eq_nil :
    validateSchemaVersion j = [] ↔
      ∀ v, checked j "schemaVersion" "schema_version" = some v → v = .str "1.0" ∨ v = .str "1.1" := by
  rw [validateSchemaVersion]
  split
  · rename_i h
    simp [h]
  · rename_i v h
    rw [h]
    by_cases hv : v ≠ "1.0" ∧ v ≠ "1.1"
    · rw [if_pos hv]
      refine iff_of_false (List.cons_ne_nil _ _) fun hall => ?_
      rcases hall _ rfl with heq | heq
      · exact hv.1 (Json.str.inj heq)
      · exact hv.2 (Json.str.inj heq)
    · rw [if_neg hv]
      refine iff_of_true rfl fun w hw => ?_
      obtain rfl := Option.some.inj hw
      rw [← not_or, not_not] at hv
      exact hv.imp (congrArg _) (congrArg _)
  · rename_i v hv h
    refine iff_of_false (List.cons_ne_nil _ _) fun hall => ?_
    rcases hall v h with heq | heq
    · exact hv _ heq
    · exact hv _ heq

theorem validatePluginId_eq_nil {start : String} {field : Option Json} :
    validatePluginId start field = [] ↔ ∃ s, field = some (.str s) ∧ s ≠ "" := by
  rw [validatePluginId.eq_def]
  split
  · simp
  · simp
  · rename_i v hv
    refine iff_of_false (List.cons_ne_nil _ _) ?_
    rintro ⟨s, hs, -⟩
    exact hv s (Option.some.inj hs)

theorem validateDependency_eq_nil {d : Json} {i : Nat} :
    validateDependency d i = [] ↔ ValidDependency d := by
  rw [validateDependency]
  cases hobj : d.isObject with
  | false => exact iff_of_false (List.cons_ne_nil _ _) fun h => Bool.noConfusion (hobj ▸ h.isObject)
  | true =>
    simp only [Bool.not_true, Bool.false_eq_true, if_false, List.append_eq_nil_iff,
      validatePluginId_eq_nil, optionalOfDependency_eq_nil]
    exact ⟨fun ⟨h₁, h₂, h₃, h₄⟩ => ⟨hobj, h₁, h₂, h₃, h₄⟩,
      fun h => ⟨h.pluginId, h.versionRange, h.version_range, h.optional⟩⟩

theorem validateDependencies_eq_nil :
    validateDependencies j = [] ↔
      HasType isArray j "dependencies" ∧ ∀ d ∈ itemsOf j "dependencies", ValidDependency d := by
  rw [validateDependencies, HasType, itemsOf]
  split
  · rename_i h
    simp [h]
  · rename_i items h
    simp only [h, List.flatMap_eq_nil_iff, validateDependency_eq_nil]
    refine ⟨fun hall => ⟨?_, fun d hd => ?_⟩, fun hall e he => ?_⟩
    · rintro v ⟨⟩
      rfl
    · obtain ⟨i, hi, rfl⟩ := List.mem_iff_getElem.1 hd
      exact hall (items[i], i) (List.mem_zipIdx_iff_getElem?.2 (by simp [hi]))
    · exact hall.2 e.1 (List.fst_mem_of_mem_zipIdx he)
  · rename_i v hv h
    refine iff_of_false (List.cons_ne_nil _ _) fun hall => ?_
    have harr := hall.1 v h
    cases v with
    | arr items => exact hv items rfl
    | _ => cases harr

theorem validate_eq_nil_iff : validate j = [] ↔ Valid j := by
  rw [validate]
  cases hobj : j.isObject with
  | false => exact iff_of_false (List.cons_ne_nil _ _) fun h => Bool.noConfusion (hobj ▸ h.isObject)
  | true =>
    simp only [Bool.not_true, Bool.false_eq_true, if_false, List.append_eq_nil_iff,
      requireString_eq_nil, optionalField_eq_nil, validateId_eq_nil, nonEmpty_eq_nil,
      validateVersion_eq_nil, validateSchemaVersion_eq_nil, validateDependencies_eq_nil]
    constructor
    · rintro ⟨h₁, h₂, h₃, h₄, h₅, h₆, h₇, h₈, h₉, h₁₀, h₁₁, h₁₂, h₁₃⟩
      exact ⟨hobj, h₁, h₂, h₃, h₄, h₅, h₆, h₇, h₈, h₉, h₁₀, h₁₁, h₁₂, h₁₃⟩
    · intro h
      exact ⟨h.id, h.name, h.version, h.entryPoint, h.schemaVersion, h.description, h.kind, h.channels,
        h.providers, h.skills, h.dependencies, h.configSchema, h.uiHints⟩

end PluginManifest

/-! ## What a value is parsed as -/

theorem getString_eq_some {v : Json} {s : String} : v.getString = some s ↔ v = .str s := by
  cases v <;> simp [Json.getString]

theorem getBool_eq_some {v : Json} {b : Bool} : v.getBool = some b ↔ v = .bool b := by
  cases v <;> simp [Json.getBool]

theorem value_eq_some_iff {α : Type} {get : Json → Option α} {j : Json} {key : String} {default a : α} :
    j.value get key default = some a ↔
      j.isObject = true ∧
        ((∃ v, j.find? key = some v ∧ get v = some a) ∨ j.find? key = none ∧ default = a) := by
  cases j with
  | obj fields =>
    rw [Json.value]
    cases (Json.obj fields).find? key with
    | none => simp [Json.isObject]
    | some v => simp [Json.isObject]
  | _ => simp [Json.value, Json.isObject]

theorem value_getString {j : Json} {key default s : String} :
    j.value Json.getString key default = some s ↔
      j.isObject = true ∧ (j.find? key = some (.str s) ∨ j.find? key = none ∧ default = s) := by
  simp [value_eq_some_iff, getString_eq_some]

theorem value_getBool {j : Json} {key : String} {default b : Bool} :
    j.value Json.getBool key default = some b ↔
      j.isObject = true ∧ (j.find? key = some (.bool b) ∨ j.find? key = none ∧ default = b) := by
  simp [value_eq_some_iff, getBool_eq_some]

namespace PluginManifest

/-- The manifest that a value is parsed as, field by field. -/
structure Parsed (j : Json) (m : PluginManifest) : Prop where
  id : j.find? "id" = some (.str m.id)
  name : j.value Json.getString "name" m.id = some m.name
  description : j.value Json.getString "description" "" = some m.description
  version : j.value Json.getString "version" "" = some m.version
  schemaVersion : valueOr Json.getString j "schema_version" "schemaVersion" "1.0" = some m.schemaVersion
  entryPoint : valueOr Json.getString j "entry_point" "entryPoint" "" = some m.entryPoint
  kind : j.value Json.getString "kind" "" = some m.kind
  channels : stringsOf j "channels" = m.channels
  providers : stringsOf j "providers" = m.providers
  skills : stringsOf j "skills" = m.skills
  dependencies : (itemsOf j "dependencies").mapM PluginDependency.fromJson = some m.dependencies
  configSchema : (j.find? "configSchema").getD (.obj []) = m.configSchema
  uiHints : ∃ hints, (fieldsOf j "uiHints").mapM hintFromJson = some hints ∧
    OrderedMap.insertAll hints [] = m.uiHints
  extraFields : OrderedMap.insertAll (j.items.filter fun f => isExtra f.1) [] = m.extraFields

theorem parse_eq_some_iff {j : Json} {m : PluginManifest} : parse j = some m ↔ Parsed j m := by
  simp only [parse, Option.bind_eq_bind, Option.bind_eq_some_iff, getString_eq_some, Option.pure_def,
    Option.some.injEq, exists_eq_right]
  constructor
  · rintro ⟨id, hid, name, hname, description, hdescription, version, hversion, schemaVersion,
      hschemaVersion, entryPoint, hentryPoint, kind, hkind, dependencies, hdependencies, uiHints, huiHints,
      rfl⟩
    exact ⟨hid, hname, hdescription, hversion, hschemaVersion, hentryPoint, hkind, rfl, rfl, rfl,
      hdependencies, rfl, ⟨uiHints, huiHints, rfl⟩, rfl⟩
  · rintro h
    obtain ⟨hints, hhints, huiHints⟩ := h.uiHints
    refine ⟨m.id, h.id, m.name, h.name, m.description, h.description, m.version, h.version,
      m.schemaVersion, h.schemaVersion, m.entryPoint, h.entryPoint, m.kind, h.kind, m.dependencies,
      h.dependencies, hints, hhints, ?_⟩
    rw [h.channels, h.providers, h.skills, h.configSchema, huiHints, h.extraFields]

end PluginManifest

end RavBot.Plugins
