import RavBot.Core.ConfigLoads

/-!
# Validated configurations

The variables of the environment change the texts of a configuration and not its shape, and what `validate` looks
at fits when it finds nothing wrong.  So a configuration that passes is read exactly when what it does not look
at fits as well.
-/

namespace RavBot.Core.Configuration

open RavBot.Lib
open RavBot.Lib.JsonShape

/-! ## Environment variables -/

theorem expandFields_eq (getenv : String → Option String) (fields : List (String × Json)) :
    expandFields getenv fields = fields.map fun f => (f.1, expandEnvInJson getenv f.2) := by
  induction fields with
  | nil => rfl
  | cons f fields ih =>
    obtain ⟨key, j⟩ := f
    rw [expandFields, ih, List.map_cons]

theorem expandItems_eq (getenv : String → Option String) (items : List Json) :
    expandItems getenv items = items.map (expandEnvInJson getenv) := by
  induction items with
  | nil => rfl
  | cons j items ih => rw [expandItems, ih, List.map_cons]

theorem keepsShape_expandEnvInJson (getenv : String → Option String) : KeepsShape (expandEnvInJson getenv) where
  obj fields := by rw [expandEnvInJson, expandFields_eq]
  arr items := by rw [expandEnvInJson, expandItems_eq]
  str s := by
    rw [expandEnvInJson]
    exact ⟨_, rfl⟩
  other j hobject harray hstr := by
    cases j with
    | obj fields => cases hobject
    | arr items => exact absurd rfl (harray items)
    | str s => exact absurd rfl (hstr s)
    | _ => rw [expandEnvInJson] <;> rintro _ ⟨⟩

section

variable {g : Json → Json} (hg : KeepsShape g)

include hg

theorem rawObject_map (json : Json) (key : String) : rawObject (g json) key = g (rawObject json key) := by
  have hnull : g .null = .null := hg.other .null rfl (by rintro _ ⟨⟩) (by rintro _ ⟨⟩)
  rw [rawObject, rawObject, hg.find?_eq]
  cases json.find? key with
  | none => exact hnull.symm
  | some v =>
    rw [Option.map_some]
    cases v with
    | obj fields => rw [hg.obj]
    | arr items =>
      rw [hg.arr]
      exact hnull.symm
    | str s =>
      obtain ⟨t, ht⟩ := hg.str s
      rw [ht]
      exact hnull.symm
    | null => rw [hnull]
    | _ =>
      rw [hg.other _ rfl (by rintro _ ⟨⟩) (by rintro _ ⟨⟩)]
      exact hnull.symm

theorem contains_map (json : Json) (key : String) : (g json).contains key = json.contains key := by
  rw [Json.contains, Json.contains, hg.find?_eq, Option.isSome_map]

theorem forall_find?_map {json : Json} {key : String} {p : Json → Prop} :
    (∀ v, (g json).find? key = some v → p v) ↔ ∀ v, json.find? key = some v → p (g v) := by
  rw [hg.find?_eq]
  cases json.find? key with
  | none => exact iff_of_true (by rintro _ ⟨⟩) (by rintro _ ⟨⟩)
  | some v => simp only [Option.map_some, Option.some.injEq, forall_eq']

theorem toolsFit_map_iff (tools : Json) : ToolsFit id (g tools) ↔ ToolsFit g tools := by
  have hexec : id (rawObject (g tools) "exec") = g (rawObject tools "exec") := rawObject_map hg tools "exec"
  have htools : (∀ f ∈ (g tools).objectFields, f.1 ≠ "exec" ∧ f.1 ≠ "profile" →
      (JsonShape.object toolFields).Fits f.2) ↔ ∀ f ∈ tools.objectFields, f.1 ≠ "exec" ∧ f.1 ≠ "profile" →
        (JsonShape.object toolFields).Fits f.2 := by
    rw [hg.objectFields_eq, List.forall_mem_map]
    exact forall₂_congr fun f _ => imp_congr Iff.rfl (hg.fits_map_iff _ f.2)
  constructor
  · rintro ⟨hutf8, hpermission, hall⟩
    rw [hexec] at hutf8
    rw [contains_map hg, contains_map hg] at hpermission hall
    rw [hg.fieldsFit_map_iff] at hpermission
    exact ⟨hutf8, hpermission, fun hnot => htools.1 (hall hnot)⟩
  · rintro ⟨hutf8, hpermission, hall⟩
    refine ⟨?_, ?_, ?_⟩
    · rw [hexec]
      exact hutf8
    · rw [contains_map hg, contains_map hg, hg.fieldsFit_map_iff]
      exact hpermission
    · rw [contains_map hg, contains_map hg]
      exact fun hnot => htools.2 (hall hnot)

theorem uncheckedFits_map_iff (json : Json) : UncheckedFits id (g json) ↔ UncheckedFits g json := by
  have hdefaults : (∀ agents, (g json).find? "agents" = some agents → ∀ defaults,
      agents.find? "defaults" = some defaults → (JsonShape.object (checkedAgent ++ uncheckedAgent)).Fits defaults) ↔
      ∀ agents, json.find? "agents" = some agents → ∀ defaults, agents.find? "defaults" = some defaults →
        (JsonShape.object (checkedAgent ++ uncheckedAgent)).Fits defaults := by
    rw [forall_find?_map hg]
    refine forall₂_congr fun agents _ => ?_
    rw [forall_find?_map hg]
    exact forall₂_congr fun defaults _ => hg.fits_map_iff _ defaults
  have htools : (∀ v, (g json).find? "tools" = some v → v.isObject = true → ToolsFit id v) ↔
      ∀ v, json.find? "tools" = some v → v.isObject = true → ToolsFit g v := by
    rw [forall_find?_map hg]
    refine forall₂_congr fun v _ => ?_
    rw [hg.isObject_eq, toolsFit_map_iff hg]
  constructor
  · rintro ⟨hsections, hdef, ht⟩
    rw [contains_map hg] at hdef
    exact ⟨(hg.fieldsFit_map_iff _ _).1 hsections, fun hnot => hdefaults.1 (hdef hnot), htools.1 ht⟩
  · rintro ⟨hsections, hdef, ht⟩
    refine ⟨(hg.fieldsFit_map_iff _ _).2 hsections, ?_, htools.2 ht⟩
    rw [contains_map hg]
    exact fun hnot => hdefaults.2 (hdef hnot)

end

/-! ## What `validate` looks at -/

variable {json : Json} {key path : String}

theorem check_eq_nil_iff {error : String} {passes : Json → Bool} :
    check json key passes error = [] ↔ ∀ v, json.find? key = some v → passes v = true := by
  rw [check]
  cases json.find? key with
  | none => exact iff_of_true rfl (by rintro _ ⟨⟩)
  | some v =>
    simp only [Option.some.injEq, forall_eq']
    split_ifs with hpasses
    · exact iff_of_true rfl hpasses
    · exact iff_of_false id hpasses

theorem validateSection_eq_nil_iff {errors : Json → List String} :
    validateSection json key errors = [] ↔
      ∀ v, json.find? key = some v → v.isObject = true ∧ errors v = [] := by
  rw [validateSection]
  cases json.find? key with
  | none => exact iff_of_true rfl (by rintro _ ⟨⟩)
  | some v =>
    simp only [Option.some.injEq, forall_eq']
    split_ifs with hobject
    · exact (and_iff_right hobject).symm
    · exact iff_of_false id fun h => hobject h.1

theorem fits_of_validateEntries {errors : String → Json → List String} {entries : Json}
    {fields : List (String × JsonShape)} (hobject : entries.isObject = true)
    (h : validateEntries path errors entries = [])
    (hfits : ∀ path j, errors path j = [] → FieldsFit fields j) :
    (JsonShape.values (.object fields)).Fits entries := by
  rw [validateEntries, List.flatMap_eq_nil_iff] at h
  rw [JsonShape.Fits]
  intro f hf
  have hitem : f ∈ entries.items := by
    cases entries with
    | obj list => exact hf
    | _ => cases hobject
  have herrors := h f hitem
  rw [JsonShape.Fits]
  split_ifs at herrors with hvalue
  exact ⟨hvalue, hfits _ _ herrors⟩

theorem getInt_of_isNumberInteger {v : Json} (h : isNumberInteger v = true) : JsonType.int.holds v = true := by
  cases v with
  | int n => rfl
  | _ => cases h

theorem fits_int {error : String} (h : check json key isNumberInteger error = []) :
    ∀ v, json.find? key = some v → (JsonShape.type .int).Fits v := by
  intro v hv
  rw [JsonShape.Fits]
  exact getInt_of_isNumberInteger (check_eq_nil_iff.1 h v hv)

theorem fits_type {error : String} (t : JsonType) (h : check json key t.holds error = []) :
    ∀ v, json.find? key = some v → (JsonShape.type t).Fits v := by
  intro v hv
  rw [JsonShape.Fits]
  exact check_eq_nil_iff.1 h v hv

theorem fieldsFit_of_validateAgent {agent : Json} (h : validateAgent agent = []) :
    FieldsFit checkedAgent agent := by
  simp only [validateAgent, List.append_eq_nil_iff] at h
  obtain ⟨⟨⟨⟨⟨⟨⟨⟨⟨-, hmaxIterations⟩, hmaxIterations'⟩, htemperature⟩, hmaxTokens⟩, hmaxTokens'⟩, hwindow⟩, hwindow'⟩,
    -⟩, -⟩ := h
  exact ⟨fits_int hmaxIterations', fits_int hmaxIterations, fits_type .double htemperature, fits_int hmaxTokens',
    fits_int hmaxTokens, fits_int hwindow', fits_int hwindow, trivial⟩

theorem fieldsFit_of_validateProvider {provider : Json} (h : validateProvider path provider = []) :
    FieldsFit checkedProvider provider := by
  simp only [validateProvider, List.append_eq_nil_iff] at h
  obtain ⟨⟨⟨⟨hapiKey, hapiKey'⟩, hbaseUrl⟩, hbaseUrl'⟩, htimeout⟩ := h
  exact ⟨fits_type .string hapiKey', fits_type .string hapiKey, fits_type .string hbaseUrl',
    fits_type .string hbaseUrl, fits_int htimeout, trivial⟩

theorem fieldsFit_of_validateGateway {gateway : Json} (h : validateGateway gateway = []) :
    FieldsFit checkedGateway gateway := by
  simp only [validateGateway, List.append_eq_nil_iff] at h
  exact ⟨fits_int h.1, fits_type .string h.2, trivial⟩

theorem fieldsFit_of_validateChannel {channel : Json} (h : validateChannel path channel = []) :
    FieldsFit checkedChannel channel := by
  simp only [validateChannel, List.append_eq_nil_iff] at h
  exact ⟨fits_type .bool h.1.1, fits_type .string h.1.2, fits_type .string h.2, trivial⟩

theorem fieldsFit_of_validateSystem {system : Json} (h : validateSystem system = []) :
    FieldsFit checkedSystem system := by
  simp only [validateSystem, List.append_eq_nil_iff] at h
  exact ⟨fits_int h.2, trivial⟩

theorem fieldsFit_of_validateSecurity {security : Json} (h : validateSecurity security = []) :
    FieldsFit checkedSecurity security := by
  simp only [validateSecurity, List.append_eq_nil_iff] at h
  exact ⟨fits_type .bool h.2, trivial⟩

theorem fits_of_validateSection {errors : Json → List String}
    {fields : List (String × JsonShape)} (h : validateSection json key errors = [])
    (hfits : ∀ j, errors j = [] → FieldsFit fields j) :
    ∀ v, json.find? key = some v → (JsonShape.object fields).Fits v := by
  intro v hv
  obtain ⟨hobject, herrors⟩ := validateSection_eq_nil_iff.1 h v hv
  rw [JsonShape.Fits]
  exact ⟨hobject, hfits v herrors⟩

theorem fieldsFit_of_validate (h : validate json = []) : FieldsFit checkedSections json := by
  rw [validate] at h
  split_ifs at h
  simp only [List.append_eq_nil_iff] at h
  obtain ⟨⟨⟨⟨⟨hagent, hproviders⟩, hgateway⟩, hchannels⟩, hsystem⟩, hsecurity⟩ := h
  refine ⟨fits_of_validateSection hagent fun _ => fieldsFit_of_validateAgent, ?_,
    fits_of_validateSection hgateway fun _ => fieldsFit_of_validateGateway, ?_,
    fits_of_validateSection hsystem fun _ => fieldsFit_of_validateSystem,
    fits_of_validateSection hsecurity fun _ => fieldsFit_of_validateSecurity, trivial⟩
  · intro v hv
    obtain ⟨hobject, herrors⟩ := validateSection_eq_nil_iff.1 hproviders v hv
    exact fits_of_validateEntries hobject herrors fun _ _ => fieldsFit_of_validateProvider
  · intro v hv
    obtain ⟨hobject, herrors⟩ := validateSection_eq_nil_iff.1 hchannels v hv
    exact fits_of_validateEntries hobject herrors fun _ _ => fieldsFit_of_validateChannel

/-! ## The theorem -/

/-- **When a configuration that passes is read.**  For every environment and every JSON value, `validate` finds
something wrong or the value is read, exactly when it does or what it does not look at fits. -/
theorem loads_iff (getenv : String → Option String) (json : Json) :
    (validate json = [] → (RavBotConfig.fromJson getenv json).isSome) ↔
      (validate json = [] → UncheckedFits (expandEnvInJson getenv) json) := by
  have hg := keepsShape_expandEnvInJson getenv
  refine imp_congr_right fun hvalid => ?_
  have hchecked := (hg.fieldsFit_map_iff checkedSections json).2 (fieldsFit_of_validate hvalid)
  rw [RavBotConfig.fromJson, isSome_fromJsonExpanded_iff hchecked, uncheckedFits_map_iff hg]

/-- The level of thinking is checked only when it is a string. -/
theorem not_loads : ¬ ∀ (getenv : String → Option String) (json : Json),
    validate json = [] → (RavBotConfig.fromJson getenv json).isSome := by
  intro h
  have hread := h (fun _ => none) (.obj [("agent", .obj [("thinking", .bool true)])]) (by decide)
  exact absurd hread (by decide)

end RavBot.Core.Configuration
