import Mathlib.Data.List.Basic

/-!
# Tool permissions

`ToolPermissionChecker` reads a list of entries that allow tools and one of entries that deny
them.  The two are read by loops of their own.  The one over the denied entries knows neither
`*` nor what `group:all` and `mcp:*` mean in the other list, so that an entry does not deny
everything that it allows (`denyDominates_iff`).
-/

open List

namespace RavBot.Security

structure ToolPermissionConfig where
  allow : List String
  deny : List String
  deriving DecidableEq, Repr

def kGroups : List (String × List String) :=
  [("fs", ["read", "write", "edit"]),
    ("runtime", ["exec"]),
    ("memory", ["memory_search", "memory_get", "memory_write"]),
    ("all", ["read", "write", "edit", "exec", "message", "apply_patch", "process", "web_search",
      "web_fetch", "memory_search", "memory_get", "memory_write", "github_search_repos",
      "github_search_code", "github_get_repo"])]

/-- What comes after a prefix, as `substr` cuts it off. -/
def afterPrefix (pre entry : String) : Option String :=
  if entry.toList.take pre.toList.length = pre.toList then
    some (String.ofList (entry.toList.drop pre.toList.length))
  else none

/-- What an entry is, by the prefixes that both loops look for. -/
inductive PermissionEntry where
  | group (name : String)
  | tool (name : String)
  | mcp (spec : String)
  | other
  deriving DecidableEq, Repr

/-- The prefix of an entry and what comes after it. -/
def permissionEntry (entry : String) : PermissionEntry :=
  match afterPrefix "group:" entry, afterPrefix "tool:" entry, afterPrefix "mcp:" entry with
  | some name, _, _ => .group name
  | none, some name, _ => .tool name
  | none, none, some spec => .mcp spec
  | none, none, none => .other

/-- `ToolPermissionChecker`.  The sets are lists. -/
structure ToolPermissionChecker where
  allowedTools : List String
  deniedTools : List String
  allowedMcp : List String
  deniedMcp : List String
  allowAll : Bool
  mcpAllowAll : Bool
  deriving DecidableEq, Repr

def groupTools (name : String) : List String := (kGroups.lookup name).getD []

namespace ToolPermissionChecker

def empty : ToolPermissionChecker := ⟨[], [], [], [], false, false⟩

/-- An entry of the list that allows. -/
def allowEntry (c : ToolPermissionChecker) (entry : String) : ToolPermissionChecker :=
  if entry = "*" then { c with allowAll := true, mcpAllowAll := true }
  else
    match permissionEntry entry with
    | .group name =>
      { c with
        allowAll := c.allowAll || name == "all"
        allowedTools := c.allowedTools ++ groupTools name }
    | .tool name => { c with allowedTools := c.allowedTools ++ [name] }
    | .mcp spec =>
      if spec = "*" then { c with mcpAllowAll := true }
      else { c with allowedMcp := c.allowedMcp ++ [spec] }
    | .other => c

/-- An entry of the list that denies. -/
def denyEntry (c : ToolPermissionChecker) (entry : String) : ToolPermissionChecker :=
  match permissionEntry entry with
  | .group name => { c with deniedTools := c.deniedTools ++ groupTools name }
  | .tool name => { c with deniedTools := c.deniedTools ++ [name] }
  | .mcp spec => { c with deniedMcp := c.deniedMcp ++ [spec] }
  | .other => c

def ofConfig (config : ToolPermissionConfig) : ToolPermissionChecker :=
  let c := config.deny.foldl denyEntry (config.allow.foldl allowEntry empty)
  if config.allow.isEmpty then { c with allowAll := true, mcpAllowAll := true } else c

def isAllowed (c : ToolPermissionChecker) (toolName : String) : Bool :=
  if toolName ∈ c.deniedTools then false else c.allowAll || toolName ∈ c.allowedTools

def isMcpToolAllowed (c : ToolPermissionChecker) (serverName toolName : String) : Bool :=
  let exact := serverName ++ ":" ++ toolName
  let wildcard := serverName ++ ":*"
  if exact ∈ c.deniedMcp ∨ wildcard ∈ c.deniedMcp then false
  else c.mcpAllowAll || exact ∈ c.allowedMcp || wildcard ∈ c.allowedMcp

end ToolPermissionChecker

/-! ## What a list names -/

/-- An entry names a tool: itself or by its group. -/
def namedTools (entry : String) : List String :=
  match permissionEntry entry with
  | .group name => groupTools name
  | .tool name => [name]
  | _ => []

def namedMcp (entry : String) : List String :=
  match permissionEntry entry with
  | .mcp spec => [spec]
  | _ => []

/-- A list of entries allows every tool: it is empty, or has one of the entries for that. -/
def AllowsAllTools (allow : List String) : Prop := allow = [] ∨ "*" ∈ allow ∨ "group:all" ∈ allow

def AllowsAllMcp (allow : List String) : Prop := allow = [] ∨ "*" ∈ allow ∨ "mcp:*" ∈ allow

theorem afterPrefix_eq_some_iff {pre entry rest : String} :
    afterPrefix pre entry = some rest ↔ entry = pre ++ rest := by
  rw [afterPrefix, ← String.toList_inj, String.toList_append]
  constructor
  · intro h
    split_ifs at h with hpre
    cases h
    conv_lhs => rw [← take_append_drop pre.toList.length entry.toList, hpre]
    rw [String.toList_ofList]
  · intro h
    rw [h, take_left, drop_left, if_pos rfl, String.ofList_toList]

theorem permissionEntry_eq_group_iff {entry name : String} :
    permissionEntry entry = .group name ↔ entry = "group:" ++ name := by
  rw [← afterPrefix_eq_some_iff, permissionEntry]
  split <;> simp_all

theorem permissionEntry_eq_mcp_iff {entry spec : String} :
    permissionEntry entry = .mcp spec ↔ entry = "mcp:" ++ spec := by
  constructor
  · intro h
    rw [← afterPrefix_eq_some_iff]
    rw [permissionEntry] at h
    split at h <;> simp_all
  · rintro rfl
    have hgroup : afterPrefix "group:" ("mcp:" ++ spec) = none := by
      simp [afterPrefix]
    have htool : afterPrefix "tool:" ("mcp:" ++ spec) = none := by
      simp [afterPrefix]
    rw [permissionEntry, hgroup, htool, afterPrefix_eq_some_iff.2 rfl]

theorem permissionEntry_star : permissionEntry "*" = .other := by decide

namespace ToolPermissionChecker

/-! ## What the loops collect -/

theorem allowAll_allowEntry (c : ToolPermissionChecker) (entry : String) :
    (c.allowEntry entry).allowAll = true ↔
      c.allowAll = true ∨ entry = "*" ∨ entry = "group:all" := by
  have hall : entry = "group:all" ↔ permissionEntry entry = .group "all" := by
    rw [permissionEntry_eq_group_iff, show "group:" ++ "all" = "group:all" by decide]
  rw [allowEntry, hall]
  split_ifs with hstar
  · simp [hstar]
  · cases hentry : permissionEntry entry with
    | group name => simp [hstar]
    | tool name => simp [hstar]
    | mcp spec =>
      dsimp only
      split_ifs <;> simp [hstar]
    | other => simp [hstar]

theorem mcpAllowAll_allowEntry (c : ToolPermissionChecker) (entry : String) :
    (c.allowEntry entry).mcpAllowAll = true ↔
      c.mcpAllowAll = true ∨ entry = "*" ∨ entry = "mcp:*" := by
  have hall : entry = "mcp:*" ↔ permissionEntry entry = .mcp "*" := by
    rw [permissionEntry_eq_mcp_iff, show "mcp:" ++ "*" = "mcp:*" by decide]
  rw [allowEntry, hall]
  split_ifs with hstar
  · simp [hstar]
  · cases hentry : permissionEntry entry with
    | group name => simp [hstar]
    | tool name => simp [hstar]
    | mcp spec =>
      dsimp only
      split_ifs with hspec <;> simp [hstar, hspec]
    | other => simp [hstar]

theorem allowedTools_allowEntry (c : ToolPermissionChecker) (entry : String) :
    (c.allowEntry entry).allowedTools = c.allowedTools ++ namedTools entry := by
  rw [allowEntry, namedTools]
  split_ifs with hstar
  · simp [hstar, permissionEntry_star]
  · cases permissionEntry entry with
    | group name => rfl
    | tool name => rfl
    | mcp spec =>
      dsimp only
      split_ifs <;> simp
    | other => simp

theorem allowedMcp_allowEntry (c : ToolPermissionChecker) (entry : String) :
    (c.allowEntry entry).allowedMcp = c.allowedMcp ++ (namedMcp entry).filter (· ≠ "*") := by
  rw [allowEntry, namedMcp]
  split_ifs with hstar
  · simp [hstar, permissionEntry_star]
  · cases permissionEntry entry with
    | group name => simp
    | tool name => simp
    | mcp spec =>
      dsimp only
      split_ifs with hspec <;> simp [hspec]
    | other => simp

theorem denied_allowEntry (c : ToolPermissionChecker) (entry : String) :
    (c.allowEntry entry).deniedTools = c.deniedTools ∧
      (c.allowEntry entry).deniedMcp = c.deniedMcp := by
  rw [allowEntry]
  split_ifs
  · exact ⟨rfl, rfl⟩
  · cases permissionEntry entry with
    | group name => exact ⟨rfl, rfl⟩
    | tool name => exact ⟨rfl, rfl⟩
    | mcp spec =>
      dsimp only
      split_ifs <;> exact ⟨rfl, rfl⟩
    | other => exact ⟨rfl, rfl⟩

theorem denyEntry_eq (c : ToolPermissionChecker) (entry : String) :
    c.denyEntry entry = { c with
      deniedTools := c.deniedTools ++ namedTools entry
      deniedMcp := c.deniedMcp ++ namedMcp entry } := by
  rw [denyEntry, namedTools, namedMcp]
  cases permissionEntry entry <;> simp

theorem allowAll_foldl (allow : List String) (c : ToolPermissionChecker) :
    (allow.foldl allowEntry c).allowAll = true ↔
      c.allowAll = true ∨ "*" ∈ allow ∨ "group:all" ∈ allow := by
  induction allow generalizing c with
  | nil => simp
  | cons entry allow ih =>
    rw [foldl_cons, ih, allowAll_allowEntry, mem_cons, mem_cons,
      @eq_comm _ "*" entry, @eq_comm _ "group:all" entry]
    tauto

theorem mcpAllowAll_foldl (allow : List String) (c : ToolPermissionChecker) :
    (allow.foldl allowEntry c).mcpAllowAll = true ↔
      c.mcpAllowAll = true ∨ "*" ∈ allow ∨ "mcp:*" ∈ allow := by
  induction allow generalizing c with
  | nil => simp
  | cons entry allow ih =>
    rw [foldl_cons, ih, mcpAllowAll_allowEntry, mem_cons, mem_cons,
      @eq_comm _ "*" entry, @eq_comm _ "mcp:*" entry]
    tauto

theorem allowedTools_foldl (allow : List String) (c : ToolPermissionChecker) :
    (allow.foldl allowEntry c).allowedTools = c.allowedTools ++ allow.flatMap namedTools := by
  induction allow generalizing c with
  | nil => simp
  | cons entry allow ih =>
    rw [foldl_cons, ih, allowedTools_allowEntry, flatMap_cons, append_assoc]

theorem allowedMcp_foldl (allow : List String) (c : ToolPermissionChecker) :
    (allow.foldl allowEntry c).allowedMcp =
      c.allowedMcp ++ (allow.flatMap namedMcp).filter (· ≠ "*") := by
  induction allow generalizing c with
  | nil => simp
  | cons entry allow ih =>
    rw [foldl_cons, ih, allowedMcp_allowEntry, flatMap_cons, filter_append, append_assoc]

theorem denied_foldl (allow : List String) (c : ToolPermissionChecker) :
    (allow.foldl allowEntry c).deniedTools = c.deniedTools ∧
      (allow.foldl allowEntry c).deniedMcp = c.deniedMcp := by
  induction allow generalizing c with
  | nil => exact ⟨rfl, rfl⟩
  | cons entry allow ih =>
    obtain ⟨htools, hmcp⟩ := c.denied_allowEntry entry
    rw [foldl_cons, ← htools, ← hmcp]
    exact ih (c.allowEntry entry)

theorem foldl_denyEntry (deny : List String) (c : ToolPermissionChecker) :
    deny.foldl denyEntry c = { c with
      deniedTools := c.deniedTools ++ deny.flatMap namedTools
      deniedMcp := c.deniedMcp ++ deny.flatMap namedMcp } := by
  induction deny generalizing c with
  | nil => simp
  | cons entry deny ih =>
    rw [foldl_cons, ih, denyEntry_eq]
    simp

theorem deniedTools_ofConfig (config : ToolPermissionConfig) :
    (ofConfig config).deniedTools = config.deny.flatMap namedTools := by
  rw [ofConfig, foldl_denyEntry, (denied_foldl config.allow empty).1]
  split_ifs
  · rfl
  · rfl

theorem isAllowed_ofConfig (config : ToolPermissionConfig) (tool : String) :
    (ofConfig config).isAllowed tool = true ↔
      tool ∉ config.deny.flatMap namedTools ∧
        (AllowsAllTools config.allow ∨ tool ∈ config.allow.flatMap namedTools) := by
  have hall := allowAll_foldl config.allow empty
  have htools := allowedTools_foldl config.allow empty
  have hdenied := (denied_foldl config.allow empty).1
  rw [ofConfig, foldl_denyEntry]
  generalize config.allow.foldl allowEntry empty = c at hall htools hdenied ⊢
  by_cases hallow : config.allow = []
  · simp [isAllowed, AllowsAllTools, hallow, hdenied, empty]
  · simp [isAllowed, AllowsAllTools, hallow, hall, htools, hdenied, empty]

theorem ne_star {s : String} (h : ':' ∈ s.toList) : s ≠ "*" := by
  rintro rfl
  revert h
  decide

theorem isMcpToolAllowed_ofConfig (config : ToolPermissionConfig) (server tool : String) :
    (ofConfig config).isMcpToolAllowed server tool = true ↔
      (server ++ ":" ++ tool ∉ config.deny.flatMap namedMcp ∧
        server ++ ":*" ∉ config.deny.flatMap namedMcp) ∧
      (AllowsAllMcp config.allow ∨ server ++ ":" ++ tool ∈ config.allow.flatMap namedMcp ∨
        server ++ ":*" ∈ config.allow.flatMap namedMcp) := by
  have hexact : server ++ ":" ++ tool ≠ "*" := ne_star (by simp)
  have hwildcard : server ++ ":*" ≠ "*" := ne_star (by simp)
  have hall := mcpAllowAll_foldl config.allow empty
  have hmcp := allowedMcp_foldl config.allow empty
  have hdenied := (denied_foldl config.allow empty).2
  rw [ofConfig, foldl_denyEntry]
  generalize config.allow.foldl allowEntry empty = c at hall hmcp hdenied ⊢
  by_cases hallow : config.allow = []
  · simp [isMcpToolAllowed, AllowsAllMcp, hallow, hdenied, empty]
  · simp [isMcpToolAllowed, AllowsAllMcp, hallow, hall, hmcp, hdenied, empty, hexact, hwildcard,
      or_assoc]

end ToolPermissionChecker

/-! ## Whether an entry denies what it allows -/

namespace ToolPermissionConfig

open ToolPermissionChecker

/-- An entry in the list that denies denies at least what it would allow in the other list, and
where an entry denies `exec`, its alias `bash` is not allowed either. -/
structure DenyDominates (c : ToolPermissionConfig) : Prop where
  tools : ∀ entry ∈ c.deny, ∀ tool, (ofConfig ⟨[entry], []⟩).isAllowed tool = true →
    (ofConfig c).isAllowed tool = false
  mcp : ∀ entry ∈ c.deny, ∀ server tool,
    (ofConfig ⟨[entry], []⟩).isMcpToolAllowed server tool = true →
      (ofConfig c).isMcpToolAllowed server tool = false
  bash : "exec" ∈ (ofConfig c).deniedTools → (ofConfig c).isAllowed "bash" = false

/-- The configuration allows tools by their names only, and names all of them in the list that
denies. -/
def AllowsNoTool (c : ToolPermissionConfig) : Prop :=
  ¬ AllowsAllTools c.allow ∧
    ∀ tool ∈ c.allow.flatMap namedTools, tool ∈ c.deny.flatMap namedTools

/-- The same for the tools of servers, each of which may be denied with its server. -/
def AllowsNoMcp (c : ToolPermissionConfig) : Prop :=
  ¬ AllowsAllMcp c.allow ∧
    ∀ spec ∈ c.allow.flatMap namedMcp, ∀ server tool, spec = server ++ ":" ++ tool →
      spec ∈ c.deny.flatMap namedMcp ∨ server ++ ":*" ∈ c.deny.flatMap namedMcp

theorem exists_longer (texts : List String) :
    ∃ s : String, ∀ text ∈ texts, text.toList.length < s.toList.length := by
  induction texts with
  | nil => exact ⟨"", nofun⟩
  | cons text texts ih =>
    obtain ⟨s, hs⟩ := ih
    refine ⟨text ++ s ++ "a", forall_mem_cons.2 ⟨?_, fun text' hmem => ?_⟩⟩
    · simp
    · have hlonger := hs text' hmem
      simp
      omega

theorem allowsNoTool_iff (c : ToolPermissionConfig) :
    (∀ tool, (ofConfig c).isAllowed tool = false) ↔ c.AllowsNoTool := by
  simp only [← Bool.not_eq_true, isAllowed_ofConfig]
  constructor
  · intro h
    constructor
    · intro hall
      obtain ⟨s, hs⟩ := exists_longer (c.deny.flatMap namedTools)
      exact h s ⟨fun hmem => Nat.lt_irrefl _ (hs s hmem), .inl hall⟩
    · rintro tool hmem
      by_contra hdenied
      exact h tool ⟨hdenied, .inr hmem⟩
  · rintro ⟨hall, hnamed⟩ tool ⟨hdenied, hallowed⟩
    rcases hallowed with hallowed | hallowed
    · exact hall hallowed
    · exact hdenied (hnamed tool hallowed)

theorem allowsNoMcp_iff (c : ToolPermissionConfig) :
    (∀ server tool, (ofConfig c).isMcpToolAllowed server tool = false) ↔ c.AllowsNoMcp := by
  simp only [← Bool.not_eq_true, isMcpToolAllowed_ofConfig]
  constructor
  · intro h
    constructor
    · intro hall
      obtain ⟨s, hs⟩ := exists_longer (c.deny.flatMap namedMcp)
      refine h s "" ⟨⟨fun hmem => ?_, fun hmem => ?_⟩, .inl hall⟩
      · have hlonger := hs _ hmem
        simp only [String.toList_append, length_append] at hlonger
        omega
      · have hlonger := hs _ hmem
        simp only [String.toList_append, length_append] at hlonger
        omega
    · rintro spec hmem server tool rfl
      by_contra hdenied
      rw [not_or] at hdenied
      exact h server tool ⟨hdenied, .inr (.inl hmem)⟩
  · rintro ⟨hall, hnamed⟩ server tool ⟨⟨hexact, hwildcard⟩, hallowed⟩
    rcases hallowed with hallowed | hallowed | hallowed
    · exact hall hallowed
    · rcases hnamed _ hallowed server tool rfl with hdenied | hdenied
      · exact hexact hdenied
      · exact hwildcard hdenied
    · rcases hnamed _ hallowed server "*" (by simp [String.append_assoc]) with hdenied | hdenied
      · exact hwildcard hdenied
      · exact hwildcard hdenied

theorem isAllowed_single (entry tool : String) :
    (ofConfig ⟨[entry], []⟩).isAllowed tool = true ↔
      (entry = "*" ∨ entry = "group:all") ∨ tool ∈ namedTools entry := by
  rw [isAllowed_ofConfig, AllowsAllTools]
  simp [eq_comm]

theorem isMcpToolAllowed_single (entry server tool : String) :
    (ofConfig ⟨[entry], []⟩).isMcpToolAllowed server tool = true ↔
      (entry = "*" ∨ entry = "mcp:*") ∨ server ++ ":" ++ tool ∈ namedMcp entry ∨
        server ++ ":*" ∈ namedMcp entry := by
  rw [isMcpToolAllowed_ofConfig, AllowsAllMcp]
  simp [eq_comm]

/-- **An entry denies what it allows** exactly when no star and no `group:all` stands among
the denied entries unless no tool is allowed, no star and no `mcp:*` unless no tool of a server
is, and `bash` is denied or not allowed when `exec` is denied. -/
theorem denyDominates_iff (c : ToolPermissionConfig) :
    c.DenyDominates ↔
      ("*" ∈ c.deny ∨ "group:all" ∈ c.deny → c.AllowsNoTool) ∧
      ("*" ∈ c.deny ∨ "mcp:*" ∈ c.deny → c.AllowsNoMcp) ∧
      ("exec" ∈ c.deny.flatMap namedTools → "bash" ∈ c.deny.flatMap namedTools ∨
        ¬ AllowsAllTools c.allow ∧ "bash" ∉ c.allow.flatMap namedTools) := by
  have hdenied := deniedTools_ofConfig c
  have hbash : (ofConfig c).isAllowed "bash" = false ↔ "bash" ∈ c.deny.flatMap namedTools ∨
      ¬ AllowsAllTools c.allow ∧ "bash" ∉ c.allow.flatMap namedTools := by
    rw [← Bool.not_eq_true, isAllowed_ofConfig]
    tauto
  constructor
  · rintro ⟨htools, hmcp, hexec⟩
    refine ⟨fun hall => ?_, fun hall => ?_, ?_⟩
    · rw [← allowsNoTool_iff]
      rintro tool
      rcases hall with hall | hall
      · exact htools _ hall tool ((isAllowed_single ..).2 (.inl (.inl rfl)))
      · exact htools _ hall tool ((isAllowed_single ..).2 (.inl (.inr rfl)))
    · rw [← allowsNoMcp_iff]
      rintro server tool
      rcases hall with hall | hall
      · exact hmcp _ hall server tool ((isMcpToolAllowed_single ..).2 (.inl (.inl rfl)))
      · exact hmcp _ hall server tool ((isMcpToolAllowed_single ..).2 (.inl (.inr rfl)))
    · rw [← hbash, ← hdenied]
      exact hexec
  · rintro ⟨htools, hmcp, hexec⟩
    constructor
    · rintro entry hentry tool hallowed
      rcases (isAllowed_single ..).1 hallowed with (rfl | rfl) | hnamed
      · exact (allowsNoTool_iff c).2 (htools (.inl hentry)) tool
      · exact (allowsNoTool_iff c).2 (htools (.inr hentry)) tool
      · rw [← Bool.not_eq_true, isAllowed_ofConfig]
        rintro ⟨hdeny, -⟩
        exact hdeny (mem_flatMap.2 ⟨entry, hentry, hnamed⟩)
    · rintro entry hentry server tool hallowed
      rcases (isMcpToolAllowed_single ..).1 hallowed with (rfl | rfl) | hnamed | hnamed
      · exact (allowsNoMcp_iff c).2 (hmcp (.inl hentry)) server tool
      · exact (allowsNoMcp_iff c).2 (hmcp (.inr hentry)) server tool
      · rw [← Bool.not_eq_true, isMcpToolAllowed_ofConfig]
        rintro ⟨⟨hexact, -⟩, -⟩
        exact hexact (mem_flatMap.2 ⟨entry, hentry, hnamed⟩)
      · rw [← Bool.not_eq_true, isMcpToolAllowed_ofConfig]
        rintro ⟨⟨-, hwildcard⟩, -⟩
        exact hwildcard (mem_flatMap.2 ⟨entry, hentry, hnamed⟩)
    · rw [hbash, hdenied]
      exact hexec

/-- A denied star denies nothing. -/
theorem not_denyDominates : ¬ ∀ c : ToolPermissionConfig, c.DenyDominates := by
  intro h
  have hread := (h ⟨[], ["*"]⟩).tools "*" (by simp) "read" (by decide)
  revert hread
  decide

end ToolPermissionConfig

end RavBot.Security
