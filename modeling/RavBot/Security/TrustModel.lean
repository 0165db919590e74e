import RavBot.Lib.JsonTable

/-!
# Trust settings

`TrustModelManager` keeps the trust levels of tools and senders and the policies of the levels.  `Load` clears a
table and refills it item by item, and goes on with the next, so that a file with a bad item changes what comes in
front of it; and it reads the largest size of contents as an `int`.  `trust_settings_iff` says when a failed load
leaves the tables alone, and when what was saved is loaded again.
-/

namespace RavBot.Security

open RavBot.Lib

inductive TrustLevel where
  | trusted
  | semiTrusted
  | untrusted
  deriving DecidableEq, Repr

def trustLevelToString : TrustLevel → String
  | .trusted => "trusted"
  | .semiTrusted => "semi_trusted"
  | .untrusted => "untrusted"

def stringToTrustLevel (str : String) : Option TrustLevel :=
  if str = "trusted" then some .trusted
  else if str = "semi_trusted" then some .semiTrusted
  else if str = "untrusted" then some .untrusted
  else none

structure SecurityPolicy where
  allowDangerousTools : Bool
  requireApproval : Bool
  enableSandboxing : Bool
  maxContentSize : BitVec 64
  logAllActions : Bool
  deriving DecidableEq, Repr

def SecurityPolicy.toJson (policy : SecurityPolicy) : Json :=
  Json.object
    [("allow_dangerous_tools", .bool policy.allowDangerousTools), ("require_approval", .bool policy.requireApproval),
      ("enable_sandboxing", .bool policy.enableSandboxing), ("max_content_size", .int policy.maxContentSize.toNat),
      ("log_all_actions", .bool policy.logAllActions)]

def SecurityPolicy.fromJson (j : Json) : Option SecurityPolicy := do
  let allowDangerousTools ← j.value Json.getBool "allow_dangerous_tools" false
  let requireApproval ← j.value Json.getBool "require_approval" false
  let enableSandboxing ← j.value Json.getBool "enable_sandboxing" false
  let maxContentSize ← j.value Json.getInt "max_content_size" 0
  let logAllActions ← j.value Json.getBool "log_all_actions" false
  some { allowDangerousTools, requireApproval, enableSandboxing, maxContentSize := BitVec.ofInt 64 maxContentSize,
         logAllActions }

/-- The tables of `TrustModelManager`. -/
structure TrustModelManager where
  toolTrust : Table String TrustLevel
  senderTrust : Table String TrustLevel
  policies : Table TrustLevel SecurityPolicy

inductive TrustFile where
  /-- There is no file. -/
  | missing
  /-- The text does not parse. -/
  | malformed
  | json (config : Json)

namespace TrustModelManager

/-- `InitializeDefaultPolicies`. -/
def defaultPolicies : Table TrustLevel SecurityPolicy :=
  (((∅ : Table TrustLevel SecurityPolicy).insert .trusted ⟨true, false, false, 0, false⟩).insert .semiTrusted
    ⟨true, true, false, 10485760, true⟩).insert .untrusted ⟨false, true, true, 1048576, true⟩

def create : TrustModelManager := ⟨∅, ∅, defaultPolicies⟩

def setToolTrustLevel (m : TrustModelManager) (toolName : String) (level : TrustLevel) : TrustModelManager :=
  { m with toolTrust := m.toolTrust.insert toolName level }

def setSenderTrustLevel (m : TrustModelManager) (senderId : String) (level : TrustLevel) : TrustModelManager :=
  { m with senderTrust := m.senderTrust.insert senderId level }

def setPolicy (m : TrustModelManager) (level : TrustLevel) (policy : SecurityPolicy) : TrustModelManager :=
  { m with policies := m.policies.insert level policy }

def reset (_ : TrustModelManager) : TrustModelManager := ⟨∅, ∅, defaultPolicies⟩

/-! ## Save and load -/

def levelsJson (t : Table String TrustLevel) : Json :=
  JsonTable.ofTable id (fun level => .str (trustLevelToString level)) t

def policiesJson (t : Table TrustLevel SecurityPolicy) : Json :=
  JsonTable.ofTable trustLevelToString SecurityPolicy.toJson t

/-- What `Save` writes. -/
def toJson (m : TrustModelManager) : Json :=
  Json.object
    [("tool_trust", levelsJson m.toolTrust), ("sender_trust", levelsJson m.senderTrust),
      ("policies", policiesJson m.policies)]

/-- `Save`, to a file that can be opened: the file, and whether nothing was thrown.  Opening it truncates it. -/
def save (m : TrustModelManager) : TrustFile × Bool :=
  match m.toJson.dump with
  | some config => (.json config, true)
  | none => (.malformed, false)

def levelItem (item : String × Json) : Option (String × TrustLevel) := do
  let text ← item.2.getString
  let level ← stringToTrustLevel text
  some (item.1, level)

def policyItem (item : String × Json) : Option (TrustLevel × SecurityPolicy) := do
  let level ← stringToTrustLevel item.1
  let policy ← SecurityPolicy.fromJson item.2
  some (level, policy)

def loadLevels (field : Option Json) (t : Table String TrustLevel) : Table String TrustLevel × Bool :=
  match field with
  | some j => JsonTable.fill levelItem j.items ∅
  | none => (t, true)

def loadPolicies (field : Option Json) (t : Table TrustLevel SecurityPolicy) : Table TrustLevel SecurityPolicy × Bool :=
  match field with
  | some j => JsonTable.fill policyItem j.items t
  | none => (t, true)

/-- `Load`, and whether nothing was thrown. -/
def load (m : TrustModelManager) : TrustFile → TrustModelManager × Bool
  | .missing => (m, false)
  | .malformed => (m, false)
  | .json config =>
    let tools := loadLevels (config.find? "tool_trust") m.toolTrust
    let m := { m with toolTrust := tools.1 }
    if tools.2 then
      let senders := loadLevels (config.find? "sender_trust") m.senderTrust
      let m := { m with senderTrust := senders.1 }
      if senders.2 then
        let policies := loadPolicies (config.find? "policies") m.policies
        ({ m with policies := policies.1 }, policies.2)
      else (m, false)
    else (m, false)

/-! ## Runs -/

/-- An operation that changes the tables. -/
inductive TrustOp where
  | setToolTrustLevel (toolName : String) (level : TrustLevel)
  | setSenderTrustLevel (senderId : String) (level : TrustLevel)
  | setPolicy (level : TrustLevel) (policy : SecurityPolicy)
  | load (file : TrustFile)
  | reset

/-- What an operation does. -/
def apply (m : TrustModelManager) : TrustOp → TrustModelManager
  | .setToolTrustLevel toolName level => m.setToolTrustLevel toolName level
  | .setSenderTrustLevel senderId level => m.setSenderTrustLevel senderId level
  | .setPolicy level policy => m.setPolicy level policy
  | .load file => (m.load file).1
  | .reset => m.reset

def Reachable (m : TrustModelManager) : Prop := ∃ ops : List TrustOp, m = ops.foldl apply create

/-! ## What is to hold -/

structure SameTables (m m' : TrustModelManager) : Prop where
  tools : ∀ name, m.toolTrust.lookup name = m'.toolTrust.lookup name
  senders : ∀ name, m.senderTrust.lookup name = m'.senderTrust.lookup name
  policies : ∀ level, m.policies.lookup level = m'.policies.lookup level

def LoadsAtomically (m : TrustModelManager) (file : TrustFile) : Prop :=
  (m.load file).2 = false → SameTables (m.load file).1 m

/-- What is saved can be loaded into a manager, which then has the tables. -/
def SavesExactly (m m' : TrustModelManager) : Prop :=
  m.save.2 = true ∧ (m'.load m.save.1).2 = true ∧ SameTables (m'.load m.save.1).1 m

def Readable {κ α : Type} (read : String × Json → Option (κ × α)) (field : Option Json) : Prop :=
  ∀ j ∈ field, ∀ item ∈ j.items, (read item).isSome

/-- The items of a field up to one that cannot be read are the entries of a table. -/
def Agrees (field : Option Json) (t : Table String TrustLevel) : Prop :=
  ∀ j ∈ field, ∀ name, JsonTable.latest (JsonTable.front levelItem j.items) name = t.lookup name

/-- The items of a field up to one that cannot be read are among the entries of a table. -/
def Among (field : Option Json) (t : Table TrustLevel SecurityPolicy) : Prop :=
  ∀ j ∈ field, ∀ level policy, JsonTable.latest (JsonTable.front policyItem j.items) level = some policy →
    t.lookup level = some policy

/-- All items of a file can be read, or those in front of the first that cannot are in the tables already. -/
def Harmless (m : TrustModelManager) : TrustFile → Prop
  | .missing => True
  | .malformed => True
  | .json config =>
    (Readable levelItem (config.find? "tool_trust") ∧ Readable levelItem (config.find? "sender_trust") ∧
      Readable policyItem (config.find? "policies")) ∨
    (Agrees (config.find? "tool_trust") m.toolTrust ∧
      (Readable levelItem (config.find? "tool_trust") → Agrees (config.find? "sender_trust") m.senderTrust ∧
        (Readable levelItem (config.find? "sender_trust") → Among (config.find? "policies") m.policies)))

/-- The names are UTF-8, and the sizes are those of an `int` that was converted. -/
def Storable (m : TrustModelManager) : Prop :=
  (∀ name level, m.toolTrust.lookup name = some level → Text.validUtf8 name = true) ∧
    (∀ name level, m.senderTrust.lookup name = some level → Text.validUtf8 name = true) ∧
    ∀ level policy, m.policies.lookup level = some policy →
      policy.maxContentSize.toNat < 2 ^ 31 ∨ 2 ^ 64 - 2 ^ 31 ≤ policy.maxContentSize.toNat

/-! ## Loading -/

theorem loadLevels_snd_iff (field : Option Json) (t : Table String TrustLevel) :
    (loadLevels field t).2 = true ↔ Readable levelItem field := by
  rw [Readable]
  cases field with
  | none => exact iff_of_true rfl fun j hj => absurd hj (Option.not_mem_none j)
  | some j =>
    simp only [Option.mem_some_iff, forall_eq', loadLevels]
    exact JsonTable.fill_snd_iff levelItem j.items ∅

theorem loadLevels_same_iff (field : Option Json) (t : Table String TrustLevel) :
    (∀ name, (loadLevels field t).1.lookup name = t.lookup name) ↔ Agrees field t := by
  rw [Agrees]
  cases field with
  | none => exact iff_of_true (fun _ => rfl) fun j hj => absurd hj (Option.not_mem_none j)
  | some j =>
    simp only [Option.mem_some_iff, forall_eq']
    refine forall_congr' fun name => ?_
    rw [loadLevels, JsonTable.lookup_fill, AList.lookup_empty, Option.or_none]

theorem loadPolicies_snd_iff (field : Option Json) (t : Table TrustLevel SecurityPolicy) :
    (loadPolicies field t).2 = true ↔ Readable policyItem field := by
  rw [Readable]
  cases field with
  | none => exact iff_of_true rfl fun j hj => absurd hj (Option.not_mem_none j)
  | some j =>
    simp only [Option.mem_some_iff, forall_eq', loadPolicies]
    exact JsonTable.fill_snd_iff policyItem j.items t

theorem loadPolicies_same_iff (field : Option Json) (t : Table TrustLevel SecurityPolicy) :
    (∀ level, (loadPolicies field t).1.lookup level = t.lookup level) ↔ Among field t := by
  rw [Among]
  cases field with
  | none => exact iff_of_true (fun _ => rfl) fun j hj => absurd hj (Option.not_mem_none j)
  | some j =>
    simp only [Option.mem_some_iff, forall_eq']
    refine forall_congr' fun level => ?_
    rw [loadPolicies, JsonTable.lookup_fill]
    cases JsonTable.latest (JsonTable.front policyItem j.items) level with
    | none => exact iff_of_true rfl fun policy h => by cases h
    | some policy =>
      rw [Option.some_or]
      exact ⟨fun h policy' heq => heq ▸ h.symm, fun h => (h policy rfl).symm⟩

theorem loadsAtomically_iff (m : TrustModelManager) (file : TrustFile) :
    m.LoadsAtomically file ↔ m.Harmless file := by
  cases file with
  | missing => exact iff_of_true (fun _ => ⟨fun _ => rfl, fun _ => rfl, fun _ => rfl⟩) trivial
  | malformed => exact iff_of_true (fun _ => ⟨fun _ => rfl, fun _ => rfl, fun _ => rfl⟩) trivial
  | json config =>
    have htools := loadLevels_same_iff (config.find? "tool_trust") m.toolTrust
    have hsenders := loadLevels_same_iff (config.find? "sender_trust") m.senderTrust
    have hpolicies := loadPolicies_same_iff (config.find? "policies") m.policies
    rw [LoadsAtomically, Harmless, load]
    dsimp only
    rw [← loadLevels_snd_iff _ m.toolTrust, ← loadLevels_snd_iff _ m.senderTrust, ← loadPolicies_snd_iff _ m.policies]
    cases hreadTools : (loadLevels (config.find? "tool_trust") m.toolTrust).2 with
    | false =>
      rw [if_neg Bool.false_ne_true]
      constructor
      · intro h
        exact .inr ⟨htools.1 (h rfl).tools, fun hread => absurd hread Bool.false_ne_true⟩
      · rintro (⟨hread, -⟩ | ⟨hagrees, -⟩) -
        · exact absurd hread Bool.false_ne_true
        · exact ⟨htools.2 hagrees, fun _ => rfl, fun _ => rfl⟩
    | true =>
      rw [if_pos rfl]
      cases hreadSenders : (loadLevels (config.find? "sender_trust") m.senderTrust).2 with
      | false =>
        rw [if_neg Bool.false_ne_true]
        constructor
        · intro h
          exact .inr ⟨htools.1 (h rfl).tools, fun _ => ⟨hsenders.1 (h rfl).senders, fun hread =>
            absurd hread Bool.false_ne_true⟩⟩
        · rintro (⟨-, hread, -⟩ | ⟨hagrees, hrest⟩) -
          · exact absurd hread Bool.false_ne_true
          · exact ⟨htools.2 hagrees, hsenders.2 (hrest rfl).1, fun _ => rfl⟩
      | true =>
        rw [if_pos rfl]
        dsimp only
        cases hreadPolicies : (loadPolicies (config.find? "policies") m.policies).2 with
        | false =>
          constructor
          · intro h
            exact .inr ⟨htools.1 (h rfl).tools, fun _ => ⟨hsenders.1 (h rfl).senders, fun _ =>
              hpolicies.1 (h rfl).policies⟩⟩
          · rintro (⟨-, -, hread⟩ | ⟨hagrees, hrest⟩) -
            · exact absurd hread Bool.false_ne_true
            · exact ⟨htools.2 hagrees, hsenders.2 (hrest rfl).1, hpolicies.2 ((hrest rfl).2 rfl)⟩
        | true => exact iff_of_true (fun h => by cases h) (.inl ⟨rfl, rfl, rfl⟩)

/-! ## Saving -/

theorem trustLevelToString_injective : Function.Injective trustLevelToString := by
  intro a b h
  cases a <;> cases b <;> first | rfl | exact absurd h (by decide)

theorem stringToTrustLevel_toString (level : TrustLevel) :
    stringToTrustLevel (trustLevelToString level) = some level := by
  cases level <;> rfl

theorem fromJson_toJson (policy : SecurityPolicy) :
    SecurityPolicy.fromJson policy.toJson = some { policy with
      maxContentSize := BitVec.ofInt 64 (Json.toInt32 policy.maxContentSize.toNat) } := by
  simp [SecurityPolicy.fromJson, SecurityPolicy.toJson, List.lookup_cons, Json.getBool, Json.getInt]

theorem ofInt_toInt32_eq_iff (size : BitVec 64) :
    BitVec.ofInt 64 (Json.toInt32 size.toNat) = size ↔ size.toNat < 2 ^ 31 ∨ 2 ^ 64 - 2 ^ 31 ≤ size.toNat := by
  have hlt := size.isLt
  rw [← BitVec.toNat_inj, BitVec.toNat_ofInt, Json.toInt32, Int.bmod_def]
  split_ifs <;> omega

def reread (policy : SecurityPolicy) : SecurityPolicy :=
  { policy with maxContentSize := BitVec.ofInt 64 (Json.toInt32 policy.maxContentSize.toNat) }

theorem reread_eq_iff (policy : SecurityPolicy) : reread policy = policy ↔
    policy.maxContentSize.toNat < 2 ^ 31 ∨ 2 ^ 64 - 2 ^ 31 ≤ policy.maxContentSize.toNat := by
  rw [← ofInt_toInt32_eq_iff]
  obtain ⟨allow, approval, sandboxing, size, log⟩ := policy
  simp only [reread, SecurityPolicy.mk.injEq, true_and, and_true]

theorem levelItem_of_level (name : String) (level : TrustLevel) :
    levelItem (id name, .str (trustLevelToString level)) = some (name, id level) := by
  simp [levelItem, Json.getString, stringToTrustLevel_toString]

theorem policyItem_toJson (level : TrustLevel) (policy : SecurityPolicy) :
    policyItem (trustLevelToString level, policy.toJson) = some (level, reread policy) := by
  rw [policyItem, stringToTrustLevel_toString, fromJson_toJson]
  rfl

theorem loadLevels_levelsJson (t t' : Table String TrustLevel) :
    (loadLevels (some (levelsJson t)) t').2 = true ∧
      ∀ name, (loadLevels (some (levelsJson t)) t').1.lookup name = t.lookup name := by
  refine ⟨(loadLevels_snd_iff _ _).2 ?_, fun name => ?_⟩
  · simp only [Readable, Option.mem_some_iff, forall_eq']
    exact JsonTable.readable_ofTable Function.injective_id levelItem_of_level
  · rw [loadLevels, JsonTable.lookup_fill, AList.lookup_empty, Option.or_none, levelsJson,
      JsonTable.latest_ofTable Function.injective_id levelItem_of_level, Option.map_id, id]

theorem loadPolicies_policiesJson (t t' : Table TrustLevel SecurityPolicy) :
    (loadPolicies (some (policiesJson t)) t').2 = true ∧
      ∀ level, (loadPolicies (some (policiesJson t)) t').1.lookup level =
        ((t.lookup level).map reread).or (t'.lookup level) := by
  refine ⟨(loadPolicies_snd_iff _ _).2 ?_, fun level => ?_⟩
  · simp only [Readable, Option.mem_some_iff, forall_eq']
    exact JsonTable.readable_ofTable trustLevelToString_injective policyItem_toJson
  · rw [loadPolicies, JsonTable.lookup_fill, policiesJson,
      JsonTable.latest_ofTable trustLevelToString_injective policyItem_toJson]

theorem isUtf8_toJson (m : TrustModelManager) : m.toJson.isUtf8 = true ↔
    (∀ name level, m.toolTrust.lookup name = some level → Text.validUtf8 name = true) ∧
      ∀ name level, m.senderTrust.lookup name = some level → Text.validUtf8 name = true := by
  have hlevel (level : TrustLevel) : Text.validUtf8 (trustLevelToString level) = true := by cases level <;> decide
  have hlevels (t : Table String TrustLevel) : (levelsJson t).isUtf8 = true ↔
      ∀ name level, t.lookup name = some level → Text.validUtf8 name = true := by
    rw [levelsJson, JsonTable.isUtf8_ofTable Function.injective_id]
    refine forall₂_congr fun name level => imp_congr_right fun _ => ?_
    exact and_iff_left (hlevel level)
  have hpolicies : (policiesJson m.policies).isUtf8 = true := by
    rw [policiesJson, JsonTable.isUtf8_ofTable trustLevelToString_injective]
    intro level policy _
    refine ⟨hlevel level, ?_⟩
    have hkeys : ["allow_dangerous_tools", "require_approval", "enable_sandboxing", "max_content_size",
        "log_all_actions"].all (Text.validUtf8 ·) = true := by decide
    rw [SecurityPolicy.toJson, Json.isUtf8_object (by simp)]
    simpa [Json.isUtf8] using hkeys
  have hkeys : ["tool_trust", "sender_trust", "policies"].all (Text.validUtf8 ·) = true := by decide
  simp only [List.all_cons, List.all_nil, Bool.and_true, Bool.and_eq_true] at hkeys
  obtain ⟨htool, hsender, hpolicy⟩ := hkeys
  rw [toJson, Json.isUtf8_object (by simp)]
  simp only [List.all_cons, List.all_nil, Bool.and_true, Bool.and_eq_true, htool, hsender, hpolicy, hlevels, hpolicies,
    true_and]

/-! ## Every reachable manager -/

variable {m : TrustModelManager}

theorem isSome_policies_apply {level : TrustLevel} (op : TrustOp)
    (h : (m.policies.lookup level).isSome) : ((m.apply op).policies.lookup level).isSome := by
  cases op with
  | setToolTrustLevel toolName level' => exact h
  | setSenderTrustLevel senderId level' => exact h
  | setPolicy level' policy =>
    rw [apply, setPolicy, Table.lookup_insert_ite]
    split_ifs
    · rfl
    · exact h
  | load file =>
    cases file with
    | missing => exact h
    | malformed => exact h
    | json config =>
      rw [apply, load]
      dsimp only
      split_ifs
      · cases config.find? "policies" with
        | none => exact h
        | some j =>
          rw [loadPolicies, JsonTable.lookup_fill, Option.isSome_or, h, Bool.or_true]
      · exact h
      · exact h
  | reset => cases level <;> rfl

theorem Reachable.complete (h : Reachable m) (level : TrustLevel) :
    (m.policies.lookup level).isSome := by
  obtain ⟨ops, rfl⟩ := h
  have hcreate : (create.policies.lookup level).isSome := by cases level <;> rfl
  induction ops using List.reverseRecOn with
  | nil => exact hcreate
  | append_singleton ops op ih =>
    rw [List.foldl_append, List.foldl_cons, List.foldl_nil]
    exact isSome_policies_apply op ih

theorem savesExactly_iff (hm : Reachable m) (m' : TrustModelManager) :
    m.SavesExactly m' ↔ m.Storable := by
  have hstorable : m.Storable ↔ m.toJson.isUtf8 = true ∧ ∀ level policy, m.policies.lookup level = some policy →
      policy.maxContentSize.toNat < 2 ^ 31 ∨ 2 ^ 64 - 2 ^ 31 ≤ policy.maxContentSize.toNat := by
    rw [Storable, ← and_assoc, ← isUtf8_toJson]
  rw [hstorable, SavesExactly, save, Json.dump]
  cases hjson : m.toJson.isUtf8 with
  | false => exact iff_of_false (fun h => absurd h.1 Bool.false_ne_true) fun h => absurd h.1 Bool.false_ne_true
  | true =>
    obtain ⟨htools, htools'⟩ := loadLevels_levelsJson m.toolTrust m'.toolTrust
    obtain ⟨hsenders, hsenders'⟩ := loadLevels_levelsJson m.senderTrust m'.senderTrust
    obtain ⟨hpolicies, hpolicies'⟩ := loadPolicies_policiesJson m.policies m'.policies
    have hload : m'.load (.json m.toJson) =
        (⟨(loadLevels (some (levelsJson m.toolTrust)) m'.toolTrust).1,
          (loadLevels (some (levelsJson m.senderTrust)) m'.senderTrust).1,
          (loadPolicies (some (policiesJson m.policies)) m'.policies).1⟩, true) := by
      have hfindTools : m.toJson.find? "tool_trust" = some (levelsJson m.toolTrust) := by
        rw [toJson, Json.find?_object]
        rfl
      have hfindSenders : m.toJson.find? "sender_trust" = some (levelsJson m.senderTrust) := by
        rw [toJson, Json.find?_object]
        rfl
      have hfindPolicies : m.toJson.find? "policies" = some (policiesJson m.policies) := by
        rw [toJson, Json.find?_object]
        rfl
      rw [load, hfindTools, hfindSenders, hfindPolicies]
      dsimp only
      rw [htools, if_pos rfl, hsenders, if_pos rfl, hpolicies]
    rw [if_pos rfl]
    dsimp only
    rw [hload, and_iff_right rfl, and_iff_right rfl, and_iff_right rfl]
    constructor
    · intro hsame level policy hlookup
      have hlevel := hsame.policies level
      rw [hpolicies', hlookup, Option.map_some, Option.some_or] at hlevel
      exact (reread_eq_iff policy).1 (Option.some.inj hlevel)
    · intro hsizes
      refine ⟨htools', hsenders', fun level => ?_⟩
      obtain ⟨policy, hlookup⟩ := Option.isSome_iff_exists.1 (hm.complete level)
      rw [hpolicies', hlookup, Option.map_some, Option.some_or,
        (reread_eq_iff policy).2 (hsizes level policy hlookup)]

/-- **Trust settings.**  A failed load of a file changes nothing exactly when the file is harmless; and what is saved
of a reachable manager is loaded by any other exactly when it can be stored. -/
theorem trust_settings_iff {m : TrustModelManager} (hm : Reachable m) (file : TrustFile) (m' : TrustModelManager) :
    (m.LoadsAtomically file ↔ m.Harmless file) ∧ (m.SavesExactly m' ↔ m.Storable) :=
  ⟨loadsAtomically_iff m file, savesExactly_iff hm m'⟩

def guarded : TrustModelManager := create.setToolTrustLevel "exec" .untrusted

theorem reachable_guarded : Reachable guarded := ⟨[.setToolTrustLevel "exec" .untrusted], rfl⟩

/-- The settings of a guarded manager are saved and loaded, and a file of senders is loaded. -/
theorem trust_settings_guarded :
    guarded.LoadsAtomically (.json (.obj [("sender_trust", .obj [("alice", .str "trusted")])])) ∧
      guarded.SavesExactly create := by
  have hlaws := trust_settings_iff reachable_guarded (.json (.obj [("sender_trust", .obj [("alice", .str "trusted")])]))
    create
  refine ⟨hlaws.1.2 (.inl ⟨?_, ?_, ?_⟩), hlaws.2.2 ⟨fun name level hlookup => ?_, fun name level hlookup => ?_, ?_⟩⟩
  · intro j hj
    cases hj
  · intro j hj item hitem
    cases hj
    rw [List.mem_singleton.1 hitem]
    rfl
  · intro j hj
    cases hj
  · rw [guarded, setToolTrustLevel, Table.lookup_insert_ite] at hlookup
    split_ifs at hlookup with hname
    · rw [hname]
      decide
    · cases hlookup
  · cases hlookup
  · intro level policy hlookup
    cases level <;> cases hlookup <;> exact .inl (by decide)

/-- A file with a level that is none takes away what was known of the tools. -/
theorem not_trust_settings : ¬ ∀ m file m', Reachable m → m.LoadsAtomically file ∧ m.SavesExactly m' := by
  intro h
  have hsame := (h guarded (.json (.obj [("tool_trust", .obj [("exec", .str "none")])])) create
    reachable_guarded).1 (by decide)
  exact absurd (hsame.tools "exec") (by decide)

end TrustModelManager

end RavBot.Security
