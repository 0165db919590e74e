import RavBot.Core.ConfigShapes

/-!
# Reading a configuration

Each section is read exactly when its fields fit; the environment variables change texts, and so no shape.  What
`validate` does look at fits when it finds nothing wrong.
-/

namespace RavBot.Core.Configuration

open RavBot.Lib
open RavBot.Lib.JsonShape

/-! ## The sections -/

variable {α : Type} {json : Json} {key : String}

theorem isSome_spelled_bind_iff {β : Type} {get : Json → Option α} (hj : json.isObject = true)
    {key' : String} {default : α} {f : α → Option β} {q : Prop} (hf : ∀ a, (f a).isSome ↔ q) :
    (spelled get json key key' default >>= f).isSome ↔
      (∀ v, json.find? key' = some v → (get v).isSome) ∧ (∀ v, json.find? key = some v → (get v).isSome) ∧ q := by
  rw [spelled, bind_assoc]
  refine isSome_bind_iff (isSome_value_iff hj) fun inner => ?_
  exact isSome_bind_iff (isSome_value_iff hj) hf

theorem isSome_pure (a : α) : (pure a : Option α).isSome ↔ True := iff_of_true rfl trivial

theorem isSome_subsection_of {fromJson : Json → Option α} {p : Json → Prop}
    (hread : ∀ j : Json, j.isObject = true → ((fromJson j).isSome ↔ p j)) {default : α} :
    (subsection fromJson json key default).isSome ↔ ∀ v, json.find? key = some v → v.isObject = true → p v := by
  rw [subsection]
  cases hfind : json.find? key with
  | none => exact iff_of_true rfl (by rintro _ ⟨⟩)
  | some v =>
    simp only [Option.some.injEq, forall_eq']
    cases v with
    | obj fields => exact (hread _ rfl).trans ⟨fun h _ => h, fun h => h rfl⟩
    | _ => exact iff_of_true rfl (by rintro ⟨⟩)

theorem isSome_subsection_iff {fromJson : Json → Option α} {fields : List (String × JsonShape)}
    (hread : ∀ j : Json, j.isObject = true → ((fromJson j).isSome ↔ FieldsFit fields j))
    {default : α} : (subsection fromJson json key default).isSome ↔
      ∀ v, json.find? key = some v → (JsonShape.ifObject fields).Fits v := by
  simp only [JsonShape.Fits]
  exact isSome_subsection_of hread

variable {shape : JsonShape}

theorem isSome_readItems_iff {fromJson : Json → Option α}
    (hread : ∀ j : Json, (fromJson j).isSome ↔ shape.Fits j) :
    (readItems fromJson json key).isSome ↔ ∀ v, json.find? key = some v → (JsonShape.items shape).Fits v := by
  rw [readItems]
  cases hfind : json.find? key with
  | none => exact iff_of_true rfl (by rintro _ ⟨⟩)
  | some v =>
    simp only [Option.some.injEq, forall_eq', JsonShape.Fits]
    cases v with
    | arr items => exact isSome_mapM_iff.trans (forall₂_congr fun item _ => hread item)
    | _ => exact iff_of_true rfl (List.forall_mem_nil _)

theorem isSome_readEntries_iff {fromJson : Json → Option α}
    (hread : ∀ v, json.find? key = some v → ∀ f ∈ v.objectFields, (fromJson f.2).isSome ↔ shape.Fits f.2) :
    (readEntries fromJson json key).isSome ↔ ∀ v, json.find? key = some v → (JsonShape.values shape).Fits v := by
  rw [readEntries]
  cases hfind : json.find? key with
  | none => exact iff_of_true rfl (by rintro _ ⟨⟩)
  | some v =>
    simp only [Option.some.injEq, forall_eq', JsonShape.Fits]
    cases v with
    | obj fields =>
      refine isSome_mapM_iff.trans (forall₂_congr fun f hf => ?_)
      rw [Option.isSome_map]
      exact hread _ hfind f hf
    | _ => exact iff_of_true rfl (List.forall_mem_nil _)

theorem fits_object_of {fromJson : Json → Option α} {fields : List (String × JsonShape)}
    (hobject : ∀ j : Json, j.isObject = true → ((fromJson j).isSome ↔ FieldsFit fields j))
    (hother : ∀ j : Json, j.isObject = false → fromJson j = none) (j : Json) :
    (fromJson j).isSome ↔ (JsonShape.object fields).Fits j := by
  rw [JsonShape.Fits]
  cases hj : j.isObject with
  | true => exact (hobject j hj).trans (and_iff_right rfl).symm
  | false =>
    rw [hother j hj]
    exact iff_of_false (by rintro ⟨⟩) (by rintro ⟨⟨⟩, -⟩)

theorem AgentConfig.isSome_fromJson_iff (hj : json.isObject = true) :
    (AgentConfig.fromJson json).isSome ↔ FieldsFit (checkedAgent ++ uncheckedAgent) json := by
  simp only [checkedAgent, uncheckedAgent, bothSpellings, List.cons_append, List.nil_append, FieldsFit, JsonShape.Fits]
  rw [AgentConfig.fromJson]
  refine isSome_spelled_bind_iff hj fun _ => isSome_bind_iff (isSome_value_iff hj) fun _ => ?_
  refine isSome_spelled_bind_iff hj fun _ => isSome_spelled_bind_iff hj fun _ => ?_
  refine isSome_bind_iff (isSome_value_iff hj) fun _ => isSome_bind_iff (isSome_value_iff hj) fun _ => ?_
  refine isSome_spelled_bind_iff hj fun _ => isSome_spelled_bind_iff hj fun _ => ?_
  refine isSome_spelled_bind_iff hj fun _ => isSome_spelled_bind_iff hj fun _ => ?_
  exact isSome_spelled_bind_iff hj fun _ => isSome_pure _

theorem ModelCost.isSome_fromJson_iff (hj : json.isObject = true) :
    (ModelCost.fromJson json).isSome ↔ FieldsFit ([("input", .type .double), ("output", .type .double)] ++
      bothSpellings .double "cacheRead" "cache_read" ++ bothSpellings .double "cacheWrite" "cache_write") json := by
  simp only [bothSpellings, List.cons_append, List.nil_append, FieldsFit, JsonShape.Fits]
  rw [ModelCost.fromJson]
  refine isSome_bind_iff (isSome_value_iff hj) fun _ => isSome_bind_iff (isSome_value_iff hj) fun _ => ?_
  exact isSome_spelled_bind_iff hj fun _ => isSome_spelled_bind_iff hj fun _ => isSome_pure _

theorem ModelDefinition.isSome_fromJson_iff (json : Json) :
    (ModelDefinition.fromJson json).isSome ↔ (JsonShape.object modelFields).Fits json := by
  refine fits_object_of (fun j hj => ?_) (fun j hj => ?_) json
  · have hcost := @isSome_subsection_iff _ j "cost" _ _ (fun _ => ModelCost.isSome_fromJson_iff) {}
    simp only [modelFields, bothSpellings, List.cons_append, List.nil_append, FieldsFit, JsonShape.Fits] at hcost ⊢
    rw [ModelDefinition.fromJson]
    refine isSome_bind_iff (isSome_value_iff hj) fun _ => isSome_bind_iff (isSome_value_iff hj) fun _ => ?_
    refine isSome_bind_iff (isSome_value_iff hj) fun _ => isSome_bind_iff (isSome_value_iff hj) fun _ => ?_
    refine isSome_bind_iff hcost fun _ => ?_
    exact isSome_spelled_bind_iff hj fun _ => isSome_spelled_bind_iff hj fun _ => isSome_pure _
  · rw [ModelDefinition.fromJson, value_of_not_object hj]
    rfl

theorem ProviderConfig.isSome_fromJson_iff (json : Json) :
    (ProviderConfig.fromJson json).isSome ↔ (JsonShape.object (checkedProvider ++ uncheckedProvider)).Fits json := by
  refine fits_object_of (fun j hj => ?_) (fun j hj => ?_) json
  · have hmodels := @isSome_readItems_iff _ j "models" _ _ ModelDefinition.isSome_fromJson_iff
    simp only [checkedProvider, uncheckedProvider, bothSpellings, List.cons_append, List.nil_append, FieldsFit,
      JsonShape.Fits]
      at hmodels ⊢
    rw [ProviderConfig.fromJson]
    refine isSome_spelled_bind_iff hj fun _ => isSome_spelled_bind_iff hj fun _ => ?_
    rw [and_left_comm]
    refine isSome_bind_iff (isSome_value_iff hj) fun _ => isSome_bind_iff (isSome_value_iff hj) fun _ => ?_
    exact isSome_bind_iff hmodels fun _ => isSome_pure _
  · rw [ProviderConfig.fromJson, spelled, value_of_not_object hj]
    rfl

theorem ModelEntryConfig.isSome_fromJson_iff (json : Json) :
    (ModelEntryConfig.fromJson json).isSome ↔ (JsonShape.object [("alias", .type .string)]).Fits json := by
  refine fits_object_of (fun j hj => ?_) (fun j hj => ?_) json
  · simp only [FieldsFit, JsonShape.Fits]
    rw [ModelEntryConfig.fromJson]
    exact isSome_bind_iff (isSome_value_iff hj) fun _ => isSome_pure _
  · rw [ModelEntryConfig.fromJson, value_of_not_object hj]
    rfl

theorem ChannelConfig.isSome_fromJson_iff (hchecked : (JsonShape.object checkedChannel).Fits json) :
    (ChannelConfig.fromJson json).isSome ↔ (JsonShape.ifObject uncheckedChannel).Fits json := by
  simp only [checkedChannel, uncheckedChannel, FieldsFit, JsonShape.Fits] at hchecked ⊢
  obtain ⟨hj, henabled, htoken, hbot, -⟩ := hchecked
  have hread : (ChannelConfig.tokenOf json).isSome := by
    rw [ChannelConfig.tokenOf]
    cases hfind : json.find? "botToken" with
    | some token => exact hbot token hfind
    | none => exact (isSome_value_iff hj).2 htoken
  obtain ⟨enabled, henabled⟩ := Option.isSome_iff_exists.1 ((@isSome_value_iff _ _ _ hj _ false).2 henabled)
  obtain ⟨token, htoken⟩ := Option.isSome_iff_exists.1 hread
  rw [ChannelConfig.fromJson, henabled, htoken]
  show ((json.value Json.getStrings "allowed_ids" []) >>= _).isSome ↔ _
  rw [hj]
  refine (isSome_bind_iff (isSome_value_iff hj) fun _ => isSome_pure _).trans ?_
  exact ⟨fun h _ => h, fun h => h rfl⟩

theorem ToolConfig.isSome_fromJson_iff (json : Json) :
    (ToolConfig.fromJson json).isSome ↔ (JsonShape.object toolFields).Fits json := by
  refine fits_object_of (fun j hj => ?_) (fun j hj => ?_) json
  · simp only [toolFields, FieldsFit, JsonShape.Fits]
    rw [ToolConfig.fromJson]
    refine isSome_bind_iff (isSome_value_iff hj) fun _ => isSome_bind_iff (isSome_value_iff hj) fun _ => ?_
    refine isSome_bind_iff (isSome_value_iff hj) fun _ => isSome_bind_iff (isSome_value_iff hj) fun _ => ?_
    exact isSome_bind_iff (isSome_value_iff hj) fun _ => isSome_bind_iff (isSome_value_iff hj) fun _ => isSome_pure _
  · rw [ToolConfig.fromJson, value_of_not_object hj]
    rfl

theorem ToolPermissionConfig.isSome_fromJson_iff (hj : json.isObject = true) :
    (ToolPermissionConfig.fromJson json).isSome ↔ FieldsFit permissionFields json := by
  simp only [permissionFields, FieldsFit, JsonShape.Fits]
  rw [ToolPermissionConfig.fromJson]
  exact isSome_bind_iff (isSome_value_iff hj) fun _ => isSome_bind_iff (isSome_value_iff hj) fun _ => isSome_pure _

theorem MCPServerConfig.isSome_fromJson_iff (json : Json) :
    (MCPServerConfig.fromJson json).isSome ↔
      (JsonShape.object [("name", .type .string), ("url", .type .string), ("timeout", .type .int)]).Fits json := by
  refine fits_object_of (fun j hj => ?_) (fun j hj => ?_) json
  · simp only [FieldsFit, JsonShape.Fits]
    rw [MCPServerConfig.fromJson]
    refine isSome_bind_iff (isSome_value_iff hj) fun _ => isSome_bind_iff (isSome_value_iff hj) fun _ => ?_
    exact isSome_bind_iff (isSome_value_iff hj) fun _ => isSome_pure _
  · rw [MCPServerConfig.fromJson, value_of_not_object hj]
    rfl

theorem MCPConfig.isSome_fromJson_iff (json : Json) :
    (MCPConfig.fromJson json).isSome ↔ FieldsFit mcpFields json := by
  rw [MCPConfig.fromJson, isSome_readItems_iff MCPServerConfig.isSome_fromJson_iff, mcpFields, FieldsFit, FieldsFit,
    and_true]

theorem SkillEntryConfig.isSome_fromJson_iff (json : Json) :
    (SkillEntryConfig.fromJson json).isSome ↔ (JsonShape.object [("enabled", .type .bool)]).Fits json := by
  refine fits_object_of (fun j hj => ?_) (fun j hj => ?_) json
  · rw [FieldsFit, FieldsFit, and_true]
    simp only [JsonShape.Fits]
    exact isSome_value_iff hj
  · exact value_of_not_object hj

theorem SkillsConfig.isSome_fromJson_iff (hj : json.isObject = true) :
    (SkillsConfig.fromJson json).isSome ↔ FieldsFit skillsFields json := by
  have hload := @isSome_subsection_iff _ json "load" SkillsLoadConfig.fromJson [("extraDirs", .type .strings)]
    (fun j hj => by
      rw [FieldsFit, FieldsFit, and_true]
      simp only [JsonShape.Fits]
      exact isSome_value_iff hj) []
  have hentries := @isSome_readEntries_iff _ json "entries" _ _
    fun _ _ f _ => SkillEntryConfig.isSome_fromJson_iff f.2
  rw [skillsFields, FieldsFit, FieldsFit, FieldsFit, FieldsFit, FieldsFit, SkillsConfig.fromJson]
  simp only [JsonShape.Fits] at hload hentries ⊢
  refine isSome_bind_iff (isSome_value_iff hj) fun _ => isSome_bind_iff (isSome_value_iff hj) fun _ => ?_
  exact isSome_bind_iff hload fun _ => isSome_bind_iff hentries fun _ => isSome_pure _

theorem isSome_present_iff {fromJson : Json → Option α}
    (hread : ∀ j : Json, (fromJson j).isSome ↔ shape.Fits j) {default : α} :
    (present fromJson json key default).isSome ↔ ∀ v, json.find? key = some v → shape.Fits v := by
  rw [present]
  cases hfind : json.find? key with
  | none => exact iff_of_true rfl (by rintro _ ⟨⟩)
  | some v =>
    simp only [Option.some.injEq, forall_eq']
    exact hread v

theorem GatewayAuthConfig.isSome_fromJson_iff (json : Json) : (GatewayAuthConfig.fromJson json).isSome ↔
    (JsonShape.object [("mode", .type .string), ("token", .type .string)]).Fits json := by
  refine fits_object_of (fun j hj => ?_) (fun j hj => ?_) json
  · simp only [FieldsFit, JsonShape.Fits]
    rw [GatewayAuthConfig.fromJson]
    exact isSome_bind_iff (isSome_value_iff hj) fun _ => isSome_bind_iff (isSome_value_iff hj) fun _ => isSome_pure _
  · rw [GatewayAuthConfig.fromJson, value_of_not_object hj]
    rfl

theorem GatewayControlUiConfig.isSome_fromJson_iff (json : Json) : (GatewayControlUiConfig.fromJson json).isSome ↔
    (JsonShape.object [("enabled", .type .bool), ("port", .type .int)]).Fits json := by
  refine fits_object_of (fun j hj => ?_) (fun j hj => ?_) json
  · simp only [FieldsFit, JsonShape.Fits]
    rw [GatewayControlUiConfig.fromJson]
    exact isSome_bind_iff (isSome_value_iff hj) fun _ => isSome_bind_iff (isSome_value_iff hj) fun _ => isSome_pure _
  · rw [GatewayControlUiConfig.fromJson, value_of_not_object hj]
    rfl

theorem GatewayConfig.isSome_fromJson_iff (hj : json.isObject = true) :
    (GatewayConfig.fromJson json).isSome ↔ FieldsFit (checkedGateway ++ uncheckedGateway) json := by
  have hauth := @isSome_present_iff _ json "auth" _ _ GatewayAuthConfig.isSome_fromJson_iff {}
  have hui := @isSome_present_iff _ json "controlUi" _ _ GatewayControlUiConfig.isSome_fromJson_iff {}
  simp only [checkedGateway, uncheckedGateway, bothSpellings, List.cons_append, List.nil_append, FieldsFit,
    JsonShape.Fits]
    at hauth hui ⊢
  rw [GatewayConfig.fromJson]
  refine isSome_bind_iff (isSome_value_iff hj) fun _ => isSome_bind_iff (isSome_value_iff hj) fun _ => ?_
  refine isSome_bind_iff hauth fun _ => isSome_bind_iff hui fun _ => ?_
  refine isSome_spelled_bind_iff hj fun _ => isSome_spelled_bind_iff hj fun _ => ?_
  refine isSome_spelled_bind_iff hj fun _ => isSome_spelled_bind_iff hj fun _ => ?_
  exact isSome_spelled_bind_iff hj fun _ => isSome_pure _

theorem SystemConfig.isSome_fromJson_iff (hj : json.isObject = true) :
    (SystemConfig.fromJson json).isSome ↔ FieldsFit (checkedSystem ++ uncheckedSystem) json := by
  simp only [checkedSystem, uncheckedSystem, List.cons_append, List.nil_append, FieldsFit, JsonShape.Fits]
  rw [SystemConfig.fromJson, and_left_comm]
  refine isSome_bind_iff (isSome_value_iff hj) fun _ => ?_
  rw [and_left_comm]
  refine isSome_bind_iff (isSome_value_iff hj) fun _ => ?_
  rw [and_left_comm]
  refine isSome_bind_iff (isSome_value_iff hj) fun _ => isSome_bind_iff (isSome_value_iff hj) fun _ => ?_
  exact isSome_bind_iff (isSome_value_iff hj) fun _ => isSome_bind_iff (isSome_value_iff hj) fun _ => isSome_pure _

theorem SecurityConfig.isSome_fromJson_iff (hj : json.isObject = true) :
    (SecurityConfig.fromJson json).isSome ↔ FieldsFit (checkedSecurity ++ uncheckedSecurity) json := by
  simp only [checkedSecurity, uncheckedSecurity, List.cons_append, List.nil_append, FieldsFit, JsonShape.Fits]
  rw [SecurityConfig.fromJson, and_left_comm]
  exact isSome_bind_iff (isSome_value_iff hj) fun _ => isSome_bind_iff (isSome_value_iff hj) fun _ => isSome_pure _

theorem LlmSection.isSome_fromJson_iff (hj : json.isObject = true) :
    (LlmSection.fromJson json).isSome ↔ FieldsFit llmFields json := by
  simp only [llmFields, FieldsFit, JsonShape.Fits]
  rw [LlmSection.fromJson]
  refine isSome_bind_iff (isSome_value_iff hj) fun _ => isSome_bind_iff (isSome_value_iff hj) fun _ => ?_
  refine isSome_bind_iff (isSome_value_iff hj) fun _ => isSome_bind_iff (isSome_value_iff hj) fun _ => ?_
  refine isSome_bind_iff (isSome_value_iff hj) fun _ => isSome_bind_iff (isSome_value_iff hj) fun _ => ?_
  exact isSome_bind_iff (isSome_value_iff hj) fun _ => isSome_pure _

/-! ## The whole -/

theorem isSome_agentSection_iff
    (hchecked : ∀ v, json.find? "agent" = some v → (JsonShape.object checkedAgent).Fits v) (llm : Option LlmSection) :
    (agentSection json llm).isSome ↔
      (∀ v, json.find? "agent" = some v → (JsonShape.ifObject uncheckedAgent).Fits v) ∧
      (json.contains "agent" = false →
        ∀ agents, json.find? "agents" = some agents → ∀ defaults, agents.find? "defaults" = some defaults →
          (JsonShape.object (checkedAgent ++ uncheckedAgent)).Fits defaults) := by
  rw [agentSection.eq_def, Json.contains]
  cases hagent : json.find? "agent" with
  | some v =>
    have hv := hchecked v hagent
    rw [JsonShape.Fits] at hv
    obtain ⟨hobject, hfields⟩ := hv
    simp only [Option.some.injEq, forall_eq', Option.isSome_some, Bool.true_eq_false, false_imp_iff, and_true,
      JsonShape.Fits]
    cases v with
    | obj fields =>
      refine (AgentConfig.isSome_fromJson_iff rfl).trans ?_
      rw [fieldsFit_append, and_iff_right hfields]
      exact ⟨fun h _ => h, fun h => h rfl⟩
    | _ => cases hobject
  | none =>
    have hread (j : Json) : (AgentConfig.fromJson j).isSome ↔
        (JsonShape.object (checkedAgent ++ uncheckedAgent)).Fits j := by
      refine fits_object_of (fun _ => AgentConfig.isSome_fromJson_iff) (fun j hj => ?_) j
      rw [AgentConfig.fromJson, spelled, value_of_not_object hj]
      rfl
    rw [and_iff_right (by rintro _ ⟨⟩)]
    simp only [Option.isSome_none, true_imp_iff]
    cases hagents : json.find? "agents" with
    | none =>
      refine iff_of_true ?_ (by rintro _ ⟨⟩)
      cases llm <;> rfl
    | some agents =>
      simp only [Option.some.injEq, forall_eq', Option.bind_some]
      cases hdefaults : agents.find? "defaults" with
      | none =>
        refine iff_of_true ?_ (by rintro _ ⟨⟩)
        cases llm <;> rfl
      | some defaults =>
        simp only [Option.some.injEq, forall_eq']
        exact hread defaults

theorem find?_rawObject {key' : String} {p : Json → Prop} :
    (∀ v, (rawObject json key).find? key' = some v → p v) ↔
      ∀ s, json.find? key = some s → s.isObject = true → ∀ v, s.find? key' = some v → p v := by
  rw [rawObject]
  cases json.find? key with
  | none => exact iff_of_true (by rintro _ ⟨⟩) (by rintro _ ⟨⟩)
  | some s =>
    simp only [Option.some.injEq, forall_eq']
    cases s with
    | obj fields => exact ⟨fun h _ => h, fun h => h rfl⟩
    | _ => exact iff_of_true (by rintro _ ⟨⟩) (by rintro ⟨⟩)

theorem isSome_modelObject_iff (json : Json) (agent : AgentConfig) :
    (modelObject json agent).isSome ↔
      ∀ agents, json.find? "agents" = some agents → ∀ defaults, agents.find? "defaults" = some defaults →
        ∀ v, defaults.find? "model" = some v →
          (JsonShape.ifObject [("primary", .type .string), ("fallbacks", .items (.type .string))]).Fits v := by
  rw [modelObject]
  cases json.find? "agents" with
  | none => exact iff_of_true rfl (by rintro _ ⟨⟩)
  | some agents =>
    simp only [Option.some.injEq, forall_eq', Option.bind_some]
    cases agents.find? "defaults" with
    | none => exact iff_of_true rfl (by rintro _ ⟨⟩)
    | some defaults =>
      simp only [Option.some.injEq, forall_eq', Option.bind_some]
      cases defaults.find? "model" with
      | none => exact iff_of_true rfl (by rintro _ ⟨⟩)
      | some v =>
        simp only [Option.some.injEq, forall_eq']
        cases v with
        | obj fields =>
          simp only [JsonShape.Fits, FieldsFit, and_true]
          refine (isSome_bind_iff (isSome_value_iff rfl) fun model => ?_).trans ⟨fun h _ => h, fun h => h rfl⟩
          cases (Json.obj fields).find? "fallbacks" with
          | none => exact iff_of_true rfl (by rintro _ ⟨⟩)
          | some fallbacks =>
            simp only [Option.some.injEq, forall_eq']
            cases fallbacks with
            | arr items =>
              refine (isSome_bind_iff isSome_mapM_iff fun _ => isSome_pure _).trans ?_
              exact and_iff_left trivial
            | _ => exact iff_of_true rfl (List.forall_mem_nil _)
        | _ =>
          rw [JsonShape.Fits]
          exact iff_of_true rfl (by rintro ⟨⟩)

theorem ToolsSection.isSome_fromJson_iff (hj : json.isObject = true) :
    (ToolsSection.fromJson json).isSome ↔ ToolsFit id json := by
  have hdump : ((rawObject json "exec").dump).isSome ↔ (rawObject json "exec").isUtf8 = true := by
    rw [Json.dump]
    split_ifs with hutf8
    · exact iff_of_true rfl hutf8
    · exact iff_of_false (by rintro ⟨⟩) hutf8
  rw [ToolsSection.fromJson]
  by_cases hnamed : json.contains "allow" = true ∨ json.contains "deny" = true
  · refine (isSome_bind_iff hdump fun _ => ?_).trans
      (⟨fun h => ⟨h.1, fun _ => h.2, fun hnot => absurd hnamed hnot⟩, fun h => ⟨h.exec, h.permission hnamed⟩⟩ :
        (rawObject json "exec").isUtf8 = true ∧ FieldsFit permissionFields json ↔ _)
    rw [if_pos hnamed, ← and_true (FieldsFit permissionFields json)]
    exact isSome_bind_iff (ToolPermissionConfig.isSome_fromJson_iff hj) fun _ => isSome_pure _
  · refine (isSome_bind_iff hdump fun _ => ?_).trans
      (⟨fun h => ⟨h.1, fun hyes => absurd hyes hnamed, fun _ => h.2⟩, fun h => ⟨h.exec, h.tools hnamed⟩⟩ :
        (rawObject json "exec").isUtf8 = true ∧ (∀ f ∈ json.objectFields, f.1 ≠ "exec" ∧ f.1 ≠ "profile" →
          (JsonShape.object toolFields).Fits f.2) ↔ _)
    rw [if_neg hnamed, ← and_true (∀ f ∈ json.objectFields, _)]
    refine isSome_bind_iff ?_ fun _ => isSome_pure _
    rw [isSome_mapM_iff]
    cases json with
    | obj fields =>
      constructor
      · intro h f hf hne
        have hread := h f (List.mem_filter.2 ⟨hf, decide_eq_true hne⟩)
        rw [Option.isSome_map] at hread
        exact (ToolConfig.isSome_fromJson_iff f.2).1 hread
      · intro h f hf
        obtain ⟨hf, hne⟩ := List.mem_filter.1 hf
        rw [Option.isSome_map]
        exact (ToolConfig.isSome_fromJson_iff f.2).2 (h f hf (of_decide_eq_true hne))
    | _ => cases hj

theorem isObject_of_find? {v : Json} (h : json.find? key = some v) : json.isObject = true := by
  cases json with
  | obj fields => rfl
  | _ => cases h

theorem ifObject_append_iff {checked unchecked : List (String × JsonShape)} {v : Json}
    (h : (JsonShape.object checked).Fits v) :
    (JsonShape.ifObject (checked ++ unchecked)).Fits v ↔ (JsonShape.ifObject unchecked).Fits v := by
  rw [JsonShape.Fits] at h
  rw [JsonShape.Fits, JsonShape.Fits, fieldsFit_append, and_iff_right h.2]

theorem object_append_iff {checked unchecked : List (String × JsonShape)} {v : Json}
    (h : (JsonShape.object checked).Fits v) :
    (JsonShape.object (checked ++ unchecked)).Fits v ↔ (JsonShape.ifObject unchecked).Fits v := by
  rw [JsonShape.Fits] at h
  rw [JsonShape.Fits, JsonShape.Fits, fieldsFit_append, and_iff_right h.2, and_iff_right h.1]
  exact ⟨fun hfields _ => hfields, fun hfields => hfields h.1⟩

theorem isSome_fromJsonExpanded_iff (hchecked : FieldsFit checkedSections json) :
    (RavBotConfig.fromJsonExpanded json).isSome ↔ UncheckedFits id json := by
  rw [checkedSections, FieldsFit, FieldsFit, FieldsFit, FieldsFit, FieldsFit, FieldsFit, FieldsFit] at hchecked
  obtain ⟨hagent, hproviders, hgateway, hchannels, hsystem, hsecurity, -⟩ := hchecked
  have hsystem' (d : SystemConfig) : (subsection SystemConfig.fromJson json "system" d).isSome ↔
      ∀ v, json.find? "system" = some v → (JsonShape.ifObject uncheckedSystem).Fits v :=
    (isSome_subsection_iff fun _ => SystemConfig.isSome_fromJson_iff).trans
      (forall₂_congr fun v hv => ifObject_append_iff (hsystem v hv))
  have hllm' : (subsection (fun llm => (LlmSection.fromJson llm).map some) json "llm" none).isSome ↔
      ∀ v, json.find? "llm" = some v → (JsonShape.ifObject llmFields).Fits v := by
    refine isSome_subsection_iff fun j hj => ?_
    rw [Option.isSome_map]
    exact LlmSection.isSome_fromJson_iff hj
  have hgateway' (d : GatewayConfig) : (subsection GatewayConfig.fromJson json "gateway" d).isSome ↔
      ∀ v, json.find? "gateway" = some v → (JsonShape.ifObject uncheckedGateway).Fits v :=
    (isSome_subsection_iff fun _ => GatewayConfig.isSome_fromJson_iff).trans
      (forall₂_congr fun v hv => ifObject_append_iff (hgateway v hv))
  have hproviders' : (readEntries ProviderConfig.fromJson json "providers").isSome ↔
      ∀ v, json.find? "providers" = some v → (JsonShape.values (.ifObject uncheckedProvider)).Fits v := by
    refine isSome_readEntries_iff fun v hv f hf => (ProviderConfig.isSome_fromJson_iff f.2).trans ?_
    have hentries := hproviders v hv
    rw [JsonShape.Fits] at hentries
    exact object_append_iff (hentries f hf)
  have hmodels' : (readEntries ProviderConfig.fromJson (rawObject json "models") "providers").isSome ↔
      ∀ v, json.find? "models" = some v → (JsonShape.ifObject
        [("providers", .values (.object (checkedProvider ++ uncheckedProvider)))]).Fits v := by
    refine (isSome_readEntries_iff fun _ _ f _ => ProviderConfig.isSome_fromJson_iff f.2).trans ?_
    rw [find?_rawObject]
    refine forall₂_congr fun v _ => ?_
    rw [JsonShape.Fits, FieldsFit, FieldsFit, and_true]
  have hentries' : (readEntries ModelEntryConfig.fromJson (rawObject (rawObject json "agents") "defaults")
      "models").isSome ↔ ∀ agents, json.find? "agents" = some agents → agents.isObject = true →
        ∀ defaults, agents.find? "defaults" = some defaults → defaults.isObject = true →
          ∀ v, defaults.find? "models" = some v → (JsonShape.values (.object [("alias", .type .string)])).Fits v := by
    refine (isSome_readEntries_iff fun _ _ f _ => ModelEntryConfig.isSome_fromJson_iff f.2).trans ?_
    rw [find?_rawObject, find?_rawObject]
  have hchannels' : (readEntries ChannelConfig.fromJson json "channels").isSome ↔
      ∀ v, json.find? "channels" = some v → (JsonShape.values (.ifObject uncheckedChannel)).Fits v := by
    refine isSome_readEntries_iff fun v hv f hf => ?_
    have hentries := hchannels v hv
    rw [JsonShape.Fits] at hentries
    exact ChannelConfig.isSome_fromJson_iff (hentries f hf)
  have hsecurity' (d : SecurityConfig) : (subsection SecurityConfig.fromJson json "security" d).isSome ↔
      ∀ v, json.find? "security" = some v → (JsonShape.ifObject uncheckedSecurity).Fits v :=
    (isSome_subsection_iff fun _ => SecurityConfig.isSome_fromJson_iff).trans
      (forall₂_congr fun v hv => ifObject_append_iff (hsecurity v hv))
  have hmcp' (d : List MCPServerConfig) : (subsection MCPConfig.fromJson json "mcp" d).isSome ↔
      ∀ v, json.find? "mcp" = some v → (JsonShape.ifObject mcpFields).Fits v :=
    isSome_subsection_iff fun j _ => MCPConfig.isSome_fromJson_iff j
  have hskills' (d : SkillsConfig) : (subsection SkillsConfig.fromJson json "skills" d).isSome ↔
      ∀ v, json.find? "skills" = some v → (JsonShape.ifObject skillsFields).Fits v :=
    isSome_subsection_iff fun _ => SkillsConfig.isSome_fromJson_iff
  have htools' (d : ToolsSection) : (subsection ToolsSection.fromJson json "tools" d).isSome ↔
      ∀ v, json.find? "tools" = some v → v.isObject = true → ToolsFit id v :=
    isSome_subsection_of fun _ => ToolsSection.isSome_fromJson_iff
  rw [RavBotConfig.fromJsonExpanded]
  refine (isSome_bind_iff (hsystem' _) fun system => isSome_bind_iff hllm' fun llm =>
    isSome_bind_iff (isSome_agentSection_iff hagent llm) fun agent => isSome_bind_iff (hgateway' _) fun _ =>
    isSome_bind_iff hproviders' fun _ => isSome_bind_iff hmodels' fun _ => isSome_bind_iff hentries' fun _ =>
    isSome_bind_iff (isSome_modelObject_iff json agent) fun _ => isSome_bind_iff hchannels' fun _ =>
    isSome_bind_iff (hsecurity' _) fun _ => isSome_bind_iff (hmcp' _) fun _ => isSome_bind_iff (hskills' _) fun _ =>
    isSome_bind_iff (htools' _) fun _ => isSome_pure _).trans ?_
  constructor
  · rintro ⟨hsystem, hllm, ⟨hagent, hdefaults⟩, hgateway, hproviders, hmodels, hentries, hmodel, hchannels, hsecurity,
      hmcp, hskills, htools, -⟩
    refine ⟨?_, hdefaults, htools⟩
    refine ⟨hsystem, hllm, hagent, hgateway, hproviders, hmodels, ?_, hchannels, hsecurity, hmcp, hskills, trivial⟩
    intro agents hagents
    simp only [JsonShape.Fits, FieldsFit, and_true] at hentries hmodel ⊢
    intro hobject defaults hdefaults hobject'
    exact ⟨hentries agents hagents hobject defaults hdefaults hobject', hmodel agents hagents defaults hdefaults⟩
  · rintro ⟨⟨hsystem, hllm, hagent, hgateway, hproviders, hmodels, hagents, hchannels, hsecurity, hmcp, hskills, -⟩,
      hdefaults, htools⟩
    refine ⟨hsystem, hllm, ⟨hagent, hdefaults⟩, hgateway, hproviders, hmodels, ?_, ?_, hchannels, hsecurity, hmcp,
      hskills, htools, trivial⟩
    · intro agents hfind hobject defaults hdefaults hobject'
      have hfits := hagents agents hfind
      simp only [JsonShape.Fits, FieldsFit, and_true] at hfits ⊢
      exact (hfits hobject defaults hdefaults hobject').1
    · intro agents hfind defaults hdefaults v hv
      have hfits := hagents agents hfind
      simp only [JsonShape.Fits, FieldsFit, and_true] at hfits ⊢
      exact (hfits (isObject_of_find? hdefaults) defaults hdefaults (isObject_of_find? hv)).2 v hv

end RavBot.Core.Configuration
