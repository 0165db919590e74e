import RavBot.Lib.Run
import RavBot.Tools.ToolRegistry

/-!
# Registrations of tools

The tools that a registry advertises and those that it executes.  Handlers, schemas and the names of external
tools are kept apart, and every registration writes all of them; so what is advertised is what is executed,
whichever tools were registered under whichever names (`lawful_of_exec`).

A tool of an MCP server is registered under the name of the server and its own, joined by underscores.  Two tools
may get one name, exactly as underscores can be taken for the joint (`makeQualifiedName_eq_iff`).  The tables of
the manager then keep one of them, and permission is asked for the one that is called (`registration_laws`).

What a schema says of a tool is left out.
-/

open List

namespace RavBot.Tools

open RavBot.Lib RavBot.Security

/-! ## MCP servers -/

/-- `MCPToolManager`, without the clients.  `toolMeta` has the keys of `tool_meta_`. -/
structure MCPToolManager where
  clients : List String := []
  toolToServer : Table String String := ∅
  toolToOriginalName : Table String String := ∅
  toolMeta : Table String Unit := ∅

/-- A configured server, and the names of the tools that it lists, if it answers. -/
structure MCPServer where
  name : String
  url : String
  tools : Option (List String)

namespace MCPToolManager

def makeQualifiedName (serverName toolName : String) : String :=
  "mcp__" ++ serverName ++ "__" ++ toolName

/-- `DiscoverTools`: a tool. -/
def discoverTool (serverName : String) (m : MCPToolManager) (toolName : String) : MCPToolManager :=
  let qualified := makeQualifiedName serverName toolName
  { m with
    toolToServer := m.toolToServer.insert qualified serverName
    toolToOriginalName := m.toolToOriginalName.insert qualified toolName
    toolMeta := m.toolMeta.insert qualified () }

/-- `DiscoverTools`: a server. -/
def discoverServer (m : MCPToolManager) (server : MCPServer) : MCPToolManager :=
  if server.name = "" ∨ server.url = "" then m
  else match server.tools with
    | none => m
    | some tools =>
      tools.foldl (discoverTool server.name) { m with clients := server.name :: m.clients }

def discoverTools (m : MCPToolManager) (servers : List MCPServer) : MCPToolManager :=
  servers.foldl discoverServer m

def getServerName (m : MCPToolManager) (qualifiedName : String) : String :=
  (m.toolToServer.lookup qualifiedName).getD ""

def getOriginalToolName (m : MCPToolManager) (qualifiedName : String) : String :=
  (m.toolToOriginalName.lookup qualifiedName).getD ""

/-- `ExecuteTool`: the server whose client is asked, and the tool that it is asked for. -/
def target (m : MCPToolManager) (qualifiedName : String) : Except String (String × String) :=
  match m.toolToServer.lookup qualifiedName with
  | none => .error ("Unknown MCP tool: " ++ qualifiedName)
  | some server =>
    match m.toolToOriginalName.lookup qualifiedName with
    | none => .error ("Missing original name for MCP tool: " ++ qualifiedName)
    | some original =>
      if server ∈ m.clients then .ok (server, original)
      else .error ("MCP client not found for server: " ++ server)

end MCPToolManager

/-! ## The registry -/

/-- A function that executes a tool. -/
inductive ToolExecutor where
  | builtin (handler : Handler)
  | external
  /-- `MCPToolManager::ExecuteTool` of a manager, for a name. -/
  | mcp (manager : Nat) (qualifiedName : String)

def ToolExecutor.handler : ToolExecutor → Handler
  | builtin handler => handler
  | _ => .other

/-- What is registered, and the managers of MCP tools. -/
structure Registrations where
  tools : Table String ToolExecutor := ∅
  toolSchemas : List String := []
  externalTools : List String := []
  permissionChecker : Option ToolPermissionChecker := none
  mcpToolManager : Option Nat := none
  managers : Table Nat MCPToolManager := ∅

/-- A registration.  Whether a manager or a scheduler is set or null is all that registration looks at; an
unordered map is walked in some order. -/
inductive Registration where
  | registerBuiltinTools
  | registerChainTool
  | setSubagentManager (present : Bool)
  | setCronScheduler (present : Bool)
  | setSessionManager (present : Bool)
  | registerExternalTool (name : String)
  | setPermissionChecker (checker : Option ToolPermissionChecker)
  | setMcpToolManager (manager : Option Nat)
  | discoverTools (manager : Nat) (servers : List MCPServer)
  | registerInto (manager : Nat) (order : List String)

namespace Registrations

/-- `register_tool`, and what the other registrations do to the same effect. -/
def registerTool (s : Registrations) (name : String) (executor : ToolExecutor) : Registrations :=
  { s with
    tools := s.tools.insert name executor
    toolSchemas := s.toolSchemas.filter (· ≠ name) ++ [name] }

/-- `RegisterExternalTool`. -/
def registerExternal (s : Registrations) (name : String) (executor : ToolExecutor) : Registrations :=
  { s.registerTool name executor with externalTools := name :: s.externalTools }

def registerBuiltinTools (s : Registrations) : Registrations :=
  (ToolRegistry.builtinTools.filter (·.1 ≠ "chain")).foldl
    (fun s tool => s.registerTool tool.1 (.builtin tool.2)) s

/-- The manager with a number, which has found nothing yet if it is new. -/
def manager (s : Registrations) (m : Nat) : MCPToolManager := (s.managers.lookup m).getD {}

/-- A registration; `none` when an order is not one of the keys. -/
def step (s : Registrations) : Registration → Option Registrations
  | .registerBuiltinTools => some s.registerBuiltinTools
  | .registerChainTool => some (s.registerTool "chain" (.builtin .chain))
  | .setSubagentManager present =>
    some (if present then s.registerTool "spawn_subagent" (.builtin .other) else s)
  | .setCronScheduler present => some (if present then s.registerTool "cron" (.builtin .other) else s)
  | .setSessionManager present =>
    some (if present then
      ((s.registerTool "sessions_list" (.builtin .other)).registerTool "sessions_history"
        (.builtin .other)).registerTool "sessions_send" (.builtin .other)
    else s)
  | .registerExternalTool name => some (s.registerExternal name .external)
  | .setPermissionChecker checker => some { s with permissionChecker := checker }
  | .setMcpToolManager manager => some { s with mcpToolManager := manager }
  | .discoverTools m servers =>
    some { s with managers := s.managers.insert m ((s.manager m).discoverTools servers) }
  | .registerInto m order =>
    if order.Perm (s.manager m).toolMeta.keys then
      some (order.foldl (fun s name => s.registerExternal name (.mcp m name)) s)
    else none

/-- The registry that executes tools. -/
def toolRegistry (s : Registrations) : ToolRegistry where
  tools := s.tools.image ToolExecutor.handler
  externalTools := s.externalTools
  permissionChecker := s.permissionChecker
  mcpToolManager := s.mcpToolManager.map fun m =>
    ⟨(s.manager m).getServerName, (s.manager m).getOriginalToolName⟩

/-- `GetToolSchemas`: whether a schema passes. -/
def schemaAllowed (s : Registrations) (checker : ToolPermissionChecker) (name : String) : Bool :=
  match s.mcpToolManager with
  | some m =>
    if name ∈ s.externalTools then
      checker.isMcpToolAllowed ((s.manager m).getServerName name) ((s.manager m).getOriginalToolName name)
    else checker.isAllowed name
  | none => checker.isAllowed name

/-- `GetToolSchemas`: the names. -/
def getToolSchemas (s : Registrations) : List String :=
  match s.permissionChecker with
  | none => s.toolSchemas
  | some checker => s.toolSchemas.filter (s.schemaAllowed checker)

end Registrations

namespace ToolRegistry

/-- Every call of a tool logs its parameters and calls its function. -/
def Executes (r : ToolRegistry) (toolName : String) : Prop :=
  ∃ handler, r.tools.lookup toolName = some handler ∧ ∀ outside parameters,
    r.executeTool outside toolName parameters = (do
      let _ ← Effect.ofOption typeError parameters.dump
      emit (.invoked handler parameters)
      call outside (r.executeToolWithin outside parameters.depth) parameters handler)

/-- Every call of a tool fails because it is not found or not permitted, and does nothing. -/
def Refuses (r : ToolRegistry) (toolName : String) : Prop :=
  ∃ what, (what = "Tool not found: " ++ toolName ∨
      what = "Permission denied: tool '" ++ toolName ++ "' is not allowed") ∧
    ∀ outside parameters, r.executeTool outside toolName parameters = throw what

theorem executes_or_refuses (r : ToolRegistry) (toolName : String) :
    if (r.tools.lookup toolName).isSome ∧ r.checkPermission toolName = true then r.Executes toolName
    else r.Refuses toolName := by
  cases hlookup : r.tools.lookup toolName with
  | none =>
    rw [if_neg (fun h => Bool.false_ne_true h.1)]
    refine ⟨_, .inl rfl, fun outside parameters => ?_⟩
    rw [executeTool, executeToolWithin, hlookup]
  | some handler =>
    by_cases hpermission : r.checkPermission toolName = true
    · rw [if_pos ⟨rfl, hpermission⟩]
      refine ⟨handler, hlookup, fun outside parameters => ?_⟩
      rw [executeTool, executeToolWithin, hlookup]
      exact if_pos hpermission
    · rw [if_neg (fun h => hpermission h.2)]
      refine ⟨_, .inr rfl, fun outside parameters => ?_⟩
      rw [executeTool, executeToolWithin, hlookup]
      exact if_neg hpermission

end ToolRegistry

/-! ## What is advertised -/

namespace Registrations

/-- Every tool has one schema, and every schema a tool. -/
structure Matched (s : Registrations) : Prop where
  mem_iff : ∀ name, name ∈ s.toolSchemas ↔ (s.tools.lookup name).isSome
  nodup : s.toolSchemas.Nodup

variable {s : Registrations}

theorem Matched.registerTool (h : s.Matched) (name : String)
    (executor : ToolExecutor) : (s.registerTool name executor).Matched where
  mem_iff other := by
    rw [Registrations.registerTool, mem_append, mem_filter, mem_singleton,
      Table.lookup_insert_ite, h.mem_iff other]
    by_cases hother : other = name
    · simp [hother]
    · simp [hother]
  nodup := by
    refine List.Nodup.append (h.nodup.filter _) (nodup_singleton name) ?_
    intro other hother hname
    rw [mem_filter] at hother
    rw [mem_singleton] at hname
    exact absurd hname (of_decide_eq_true hother.2)

theorem Matched.foldl {α : Type} {register : Registrations → α → Registrations}
    (hregister : ∀ s a, s.Matched → (register s a).Matched) (h : s.Matched)
    (as : List α) : (as.foldl register s).Matched := by
  induction as generalizing s with
  | nil => exact h
  | cons a as ih => exact ih (hregister s a h)

theorem Matched.registerExternal (h : s.Matched) (name : String)
    (executor : ToolExecutor) : (s.registerExternal name executor).Matched :=
  ⟨(h.registerTool name executor).mem_iff, (h.registerTool name executor).nodup⟩

theorem Matched.step {s' : Registrations} (h : s.Matched) {a : Registration}
    (hstep : s.step a = some s') : s'.Matched := by
  cases a with
  | registerBuiltinTools =>
    cases hstep
    exact h.foldl (fun s tool hs => hs.registerTool tool.1 _) _
  | registerChainTool =>
    cases hstep
    exact h.registerTool _ _
  | setSubagentManager present =>
    cases hstep
    cases present
    · exact h
    · exact h.registerTool _ _
  | setCronScheduler present =>
    cases hstep
    cases present
    · exact h
    · exact h.registerTool _ _
  | setSessionManager present =>
    cases hstep
    cases present
    · exact h
    · exact ((h.registerTool _ _).registerTool _ _).registerTool _ _
  | registerExternalTool name =>
    cases hstep
    exact h.registerExternal _ _
  | setPermissionChecker checker =>
    cases hstep
    exact ⟨h.mem_iff, h.nodup⟩
  | setMcpToolManager manager =>
    cases hstep
    exact ⟨h.mem_iff, h.nodup⟩
  | discoverTools m servers =>
    cases hstep
    exact ⟨h.mem_iff, h.nodup⟩
  | registerInto m order =>
    rw [Registrations.step] at hstep
    split_ifs at hstep
    cases hstep
    exact h.foldl (fun s name hs => hs.registerExternal name _) _

theorem schemaAllowed_eq {checker : ToolPermissionChecker}
    (h : s.permissionChecker = some checker) (name : String) :
    s.schemaAllowed checker name = s.toolRegistry.checkPermission name := by
  rw [schemaAllowed, ToolRegistry.checkPermission, toolRegistry]
  dsimp only
  rw [h]
  cases s.mcpToolManager <;> rfl

theorem Matched.mem_getToolSchemas_iff (h : s.Matched) (name : String) :
    name ∈ s.getToolSchemas ↔
      (s.toolRegistry.tools.lookup name).isSome ∧ s.toolRegistry.checkPermission name = true := by
  have hlookup : s.toolRegistry.tools.lookup name = (s.tools.lookup name).map ToolExecutor.handler :=
    Table.lookup_image _ _ _
  rw [hlookup, Option.isSome_map, ← h.mem_iff, getToolSchemas]
  cases hchecker : s.permissionChecker with
  | none =>
    have hall : s.toolRegistry.checkPermission name = true := by
      rw [ToolRegistry.checkPermission, toolRegistry]
      dsimp only
      rw [hchecker]
    exact (and_iff_left hall).symm
  | some checker => rw [mem_filter, schemaAllowed_eq hchecker]

theorem Matched.executed (h : s.Matched) (name : String) :
    if name ∈ s.getToolSchemas then s.toolRegistry.Executes name else s.toolRegistry.Refuses name := by
  have hexecuted := s.toolRegistry.executes_or_refuses name
  by_cases hname : name ∈ s.getToolSchemas
  · rw [if_pos hname]
    rwa [if_pos ((h.mem_getToolSchemas_iff name).1 hname)] at hexecuted
  · rw [if_neg hname]
    rwa [if_neg (fun hfound => hname ((h.mem_getToolSchemas_iff name).2 hfound))] at hexecuted

theorem Matched.nodup_getToolSchemas (h : s.Matched) : s.getToolSchemas.Nodup := by
  rw [getToolSchemas]
  split
  · exact h.nodup
  · exact h.nodup.filter _

end Registrations

/-! ## What the managers know -/

/-- What a manager knows of a name is a tool of a server that it has a client for. -/
structure MCPToolManager.Found (m : MCPToolManager) : Prop where
  server : ∀ name server, m.toolToServer.lookup name = some server →
    server ∈ m.clients ∧ ∃ tool, m.toolToOriginalName.lookup name = some tool ∧
      name = makeQualifiedName server tool
  listed : ∀ name, name ∈ m.toolMeta → (m.toolToServer.lookup name).isSome

namespace MCPToolManager

def Extends (m' m : MCPToolManager) : Prop := ∀ name, name ∈ m.toolMeta → name ∈ m'.toolMeta

theorem found_empty : Found {} where
  server _ _ h := by cases h
  listed _ h := by cases h

variable {m : MCPToolManager}

theorem Found.discoverTool (h : m.Found) {serverName : String}
    (hclient : serverName ∈ m.clients) (toolName : String) : (discoverTool serverName m toolName).Found where
  server name server hserver := by
    rw [MCPToolManager.discoverTool] at hserver ⊢
    dsimp only at hserver ⊢
    rw [Table.lookup_insert_ite] at hserver ⊢
    split_ifs at hserver ⊢ with hname
    · cases hserver
      exact ⟨hclient, toolName, rfl, hname⟩
    · exact h.server name server hserver
  listed name hname := by
    rw [MCPToolManager.discoverTool] at hname ⊢
    dsimp only at hname ⊢
    rw [Table.lookup_insert_ite]
    split_ifs with hsame
    · rfl
    · rw [AList.mem_insert] at hname
      exact h.listed name (hname.resolve_left hsame)

theorem Found.foldl_discoverTool (h : m.Found) {serverName : String}
    (hclient : serverName ∈ m.clients) (tools : List String) :
    (tools.foldl (MCPToolManager.discoverTool serverName) m).Found ∧
      (tools.foldl (MCPToolManager.discoverTool serverName) m).Extends m := by
  induction tools generalizing m with
  | nil => exact ⟨h, fun _ hname => hname⟩
  | cons tool tools ih =>
    obtain ⟨hfound, hextends⟩ := ih (h.discoverTool hclient tool) hclient
    refine ⟨hfound, fun name hname => hextends name ?_⟩
    exact (AList.mem_insert _).2 (.inr hname)

theorem Found.discoverServer (h : m.Found) (server : MCPServer) :
    (m.discoverServer server).Found ∧ (m.discoverServer server).Extends m := by
  rw [MCPToolManager.discoverServer]
  split_ifs
  · exact ⟨h, fun _ hname => hname⟩
  · cases server.tools with
    | none => exact ⟨h, fun _ hname => hname⟩
    | some tools =>
      have hclients : Found { m with clients := server.name :: m.clients } := by
        refine ⟨fun name other hother => ?_, h.listed⟩
        obtain ⟨hclient, htool⟩ := h.server name other hother
        exact ⟨mem_cons_of_mem _ hclient, htool⟩
      exact hclients.foldl_discoverTool mem_cons_self tools

theorem Found.discoverTools (h : m.Found) (servers : List MCPServer) :
    (m.discoverTools servers).Found ∧ (m.discoverTools servers).Extends m := by
  rw [MCPToolManager.discoverTools]
  induction servers generalizing m with
  | nil => exact ⟨h, fun _ hname => hname⟩
  | cons server servers ih =>
    obtain ⟨hfound, hextends⟩ := h.discoverServer server
    obtain ⟨hfound', hextends'⟩ := ih hfound
    exact ⟨hfound', fun name hname => hextends' name (hextends name hname)⟩

theorem Found.target (h : m.Found) {name : String} (hname : name ∈ m.toolMeta) :
    ∃ server tool, m.target name = .ok (server, tool) ∧ name = makeQualifiedName server tool ∧
      m.getServerName name = server ∧ m.getOriginalToolName name = tool := by
  obtain ⟨server, hserver⟩ := Option.isSome_iff_exists.1 (h.listed name hname)
  obtain ⟨hclient, tool, htool, hqualified⟩ := h.server name server hserver
  refine ⟨server, tool, ?_, hqualified, ?_, ?_⟩
  · rw [MCPToolManager.target, hserver]
    dsimp only
    rw [htool]
    exact if_pos hclient
  · rw [getServerName, hserver, Option.getD_some]
  · rw [getOriginalToolName, htool, Option.getD_some]

end MCPToolManager

namespace Registrations

/-- The functions of managers stand under the names that they are called with, which their managers know. -/
structure Bound (s : Registrations) : Prop where
  found : ∀ m, (s.manager m).Found
  known : ∀ name m qualifiedName, s.tools.lookup name = some (.mcp m qualifiedName) →
    qualifiedName = name ∧ name ∈ s.externalTools ∧ name ∈ (s.manager m).toolMeta

variable {s : Registrations}

theorem Bound.registerTool (h : s.Bound) (name : String) {executor : ToolExecutor}
    (hexecutor : ∀ m qualifiedName, executor ≠ .mcp m qualifiedName) :
    (s.registerTool name executor).Bound where
  found := h.found
  known other m qualifiedName hother := by
    rw [Registrations.registerTool] at hother
    dsimp only at hother
    rw [Table.lookup_insert_ite] at hother
    split_ifs at hother with hname
    · exact absurd (Option.some.inj hother) (hexecutor m qualifiedName)
    · exact h.known other m qualifiedName hother

theorem Bound.registerExternal (h : s.Bound) (name : String) {executor : ToolExecutor}
    (hexecutor : ∀ m qualifiedName, executor = .mcp m qualifiedName →
      qualifiedName = name ∧ name ∈ (s.manager m).toolMeta) :
    (s.registerExternal name executor).Bound where
  found := h.found
  known other m qualifiedName hother := by
    rw [Registrations.registerExternal, Registrations.registerTool] at hother ⊢
    dsimp only at hother ⊢
    rw [Table.lookup_insert_ite] at hother
    split_ifs at hother with hname
    · obtain ⟨hqualified, hmeta⟩ := hexecutor m qualifiedName (Option.some.inj hother)
      subst hname
      exact ⟨hqualified, mem_cons_self, hmeta⟩
    · obtain ⟨hqualified, hexternal, hmeta⟩ := h.known other m qualifiedName hother
      exact ⟨hqualified, mem_cons_of_mem _ hexternal, hmeta⟩

theorem Bound.registerInto (h : s.Bound) (m : Nat) {order : List String}
    (horder : ∀ name ∈ order, name ∈ (s.manager m).toolMeta) :
    (order.foldl (fun s name => s.registerExternal name (.mcp m name)) s).Bound := by
  induction order generalizing s with
  | nil => exact h
  | cons name order ih =>
    refine ih (h.registerExternal name ?_) (fun other hother => horder other (mem_cons_of_mem _ hother))
    intro m' qualifiedName hexecutor
    cases hexecutor
    exact ⟨rfl, horder name mem_cons_self⟩

theorem manager_insert (s : Registrations) (m m' : Nat) (found : MCPToolManager) :
    ({ s with managers := s.managers.insert m found } : Registrations).manager m' =
      if m' = m then found else s.manager m' := by
  rw [manager, manager]
  dsimp only
  rw [Table.lookup_insert_ite]
  split_ifs <;> rfl

theorem Bound.step {s' : Registrations} (h : s.Bound) {a : Registration} (hstep : s.step a = some s') :
    s'.Bound := by
  have hbuiltin (handler : Handler) : ∀ m qualifiedName,
      ToolExecutor.builtin handler ≠ .mcp m qualifiedName := nofun
  cases a with
  | registerBuiltinTools =>
    cases hstep
    rw [registerBuiltinTools]
    generalize ToolRegistry.builtinTools.filter (·.1 ≠ "chain") = tools
    induction tools generalizing s with
    | nil => exact h
    | cons tool tools ih => exact ih (h.registerTool tool.1 (hbuiltin _))
  | registerChainTool =>
    cases hstep
    exact h.registerTool _ (hbuiltin _)
  | setSubagentManager present =>
    cases hstep
    cases present
    · exact h
    · exact h.registerTool _ (hbuiltin _)
  | setCronScheduler present =>
    cases hstep
    cases present
    · exact h
    · exact h.registerTool _ (hbuiltin _)
  | setSessionManager present =>
    cases hstep
    cases present
    · exact h
    · exact ((h.registerTool _ (hbuiltin _)).registerTool _ (hbuiltin _)).registerTool _ (hbuiltin _)
  | registerExternalTool name =>
    cases hstep
    exact h.registerExternal name (fun _ _ hexecutor => ToolExecutor.noConfusion hexecutor)
  | setPermissionChecker checker =>
    cases hstep
    exact ⟨h.found, h.known⟩
  | setMcpToolManager manager =>
    cases hstep
    exact ⟨h.found, h.known⟩
  | discoverTools m servers =>
    cases hstep
    obtain ⟨hfound, hextends⟩ := (h.found m).discoverTools servers
    constructor
    · intro m'
      rw [manager_insert]
      split_ifs
      · exact hfound
      · exact h.found m'
    · intro name m' qualifiedName hname
      obtain ⟨hqualified, hexternal, hmeta⟩ := h.known name m' qualifiedName hname
      refine ⟨hqualified, hexternal, ?_⟩
      rw [manager_insert]
      split_ifs with hm
      · exact hextends name (hm ▸ hmeta)
      · exact hmeta
  | registerInto m order =>
    rw [Registrations.step] at hstep
    split_ifs at hstep with horder
    cases hstep
    exact h.registerInto m (fun name hname => AList.mem_keys.2 (horder.mem_iff.1 hname))

theorem Bound.forwards (h : s.Bound) {name : String} {m : Nat} {qualifiedName : String}
    (hname : s.tools.lookup name = some (.mcp m qualifiedName)) :
    ∃ server tool, (s.manager m).target qualifiedName = .ok (server, tool) ∧
      name = MCPToolManager.makeQualifiedName server tool ∧
      (s.mcpToolManager = some m → ∀ checker, s.permissionChecker = some checker →
        s.toolRegistry.checkPermission name = checker.isMcpToolAllowed server tool) := by
  obtain ⟨rfl, hexternal, hmeta⟩ := h.known name m qualifiedName hname
  obtain ⟨server, tool, htarget, hqualified, hserver, htool⟩ := (h.found m).target hmeta
  refine ⟨server, tool, htarget, hqualified, fun hmanager checker hchecker => ?_⟩
  rw [← schemaAllowed_eq hchecker, schemaAllowed, hmanager]
  dsimp only
  rw [if_pos hexternal, hserver, htool]

end Registrations

/-! ## Names that are joined -/

/-- The joint of two names stands in the second server, and in the first tool, too. -/
def Nested (joint server tool server' tool' : String) : Prop :=
  ∃ middle, server' = server ++ joint ++ middle ∧ tool = middle ++ joint ++ tool'

theorem cons_eq_append_cons_iff {c : Char} {t t' rest : List Char} :
    c :: t = rest ++ c :: t' ↔
      rest = [] ∧ t = t' ∨ ∃ middle, rest = c :: middle ∧ t = middle ++ c :: t' := by
  match rest with
  | [] => simp
  | d :: middle =>
    rw [cons_append, List.cons.injEq]
    constructor
    · rintro ⟨rfl, rfl⟩
      exact .inr ⟨middle, rfl, rfl⟩
    · rintro (⟨h, -⟩ | ⟨other, h, rfl⟩)
      · cases h
      · cases h
        exact ⟨rfl, rfl⟩

theorem cons_cons_eq_append_cons_cons_iff {c : Char} {t t' rest : List Char} :
    c :: c :: t = rest ++ c :: c :: t' ↔
      rest = [] ∧ t = t' ∨ rest = [c] ∧ t = c :: t' ∨
        ∃ middle, rest = c :: c :: middle ∧ t = middle ++ c :: c :: t' := by
  rw [cons_eq_append_cons_iff]
  constructor
  · rintro (⟨rfl, h⟩ | ⟨middle, rfl, h⟩)
    · exact .inl ⟨rfl, (List.cons.inj h).2⟩
    · rcases cons_eq_append_cons_iff.1 h with ⟨rfl, rfl⟩ | ⟨middle, rfl, rfl⟩
      · exact .inr (.inl ⟨rfl, rfl⟩)
      · exact .inr (.inr ⟨middle, rfl, rfl⟩)
  · rintro (⟨rfl, rfl⟩ | ⟨rfl, rfl⟩ | ⟨middle, rfl, rfl⟩)
    · exact .inl ⟨rfl, rfl⟩
    · exact .inr ⟨[], rfl, rfl⟩
    · exact .inr ⟨c :: middle, rfl, rfl⟩

theorem exists_rest_colon_iff {server tool server' tool' : String} :
    (∃ rest, server'.toList = server.toList ++ rest ∧ ':' :: tool.toList = rest ++ ':' :: tool'.toList) ↔
      server = server' ∧ tool = tool' ∨ Nested ":" server tool server' tool' := by
  constructor
  · rintro ⟨rest, hserver, htool⟩
    rcases cons_eq_append_cons_iff.1 htool with ⟨rfl, h⟩ | ⟨middle, rfl, h⟩
    · rw [append_nil] at hserver
      exact .inl ⟨String.toList_inj.1 hserver.symm, String.toList_inj.1 h⟩
    · refine .inr ⟨String.ofList middle, ?_, ?_⟩
      · rw [← String.toList_inj, hserver]
        simp
      · rw [← String.toList_inj, h]
        simp
  · rintro (⟨rfl, rfl⟩ | ⟨middle, rfl, rfl⟩)
    · exact ⟨[], (append_nil _).symm, rfl⟩
    · exact ⟨':' :: middle.toList, by simp, by simp⟩

/-- **Two tools of servers have one name in a permission** exactly when they are one, or a colon in a server or
a tool can be taken for the joint. -/
theorem colon_eq_iff {server tool server' tool' : String} :
    server ++ ":" ++ tool = server' ++ ":" ++ tool' ↔
      server = server' ∧ tool = tool' ∨ Nested ":" server tool server' tool' ∨
        Nested ":" server' tool' server tool := by
  have htexts : server ++ ":" ++ tool = server' ++ ":" ++ tool' ↔
      server.toList ++ ':' :: tool.toList = server'.toList ++ ':' :: tool'.toList := by
    rw [← String.toList_inj]
    simp
  rw [htexts, append_eq_append_iff, exists_rest_colon_iff, exists_rest_colon_iff]
  constructor
  · rintro ((h | h) | ⟨rfl, rfl⟩ | h)
    · exact .inl h
    · exact .inr (.inl h)
    · exact .inl ⟨rfl, rfl⟩
    · exact .inr (.inr h)
  · rintro (h | h | h)
    · exact .inl (.inl h)
    · exact .inl (.inr h)
    · exact .inr (.inr h)

namespace MCPToolManager

/-- The second server takes an underscore of the joint, and the first tool begins with one. -/
def Shifted (server tool server' tool' : String) : Prop := server' = server ++ "_" ∧ tool = "_" ++ tool'

/-- Two pairs of which the first server is the shorter get one name though they differ. -/
def Collides (server tool server' tool' : String) : Prop :=
  Nested "__" server tool server' tool' ∨ Shifted server tool server' tool'

theorem exists_rest_underscores_iff {server tool server' tool' : String} :
    (∃ rest, server'.toList = server.toList ++ rest ∧
        '_' :: '_' :: tool.toList = rest ++ '_' :: '_' :: tool'.toList) ↔
      server = server' ∧ tool = tool' ∨ Collides server tool server' tool' := by
  constructor
  · rintro ⟨rest, hserver, htool⟩
    rcases cons_cons_eq_append_cons_cons_iff.1 htool with ⟨rfl, h⟩ | ⟨rfl, h⟩ | ⟨middle, rfl, h⟩
    · rw [append_nil] at hserver
      exact .inl ⟨String.toList_inj.1 hserver.symm, String.toList_inj.1 h⟩
    · refine .inr (.inr ⟨?_, ?_⟩)
      · rw [← String.toList_inj, hserver]
        simp
      · rw [← String.toList_inj, h]
        simp
    · refine .inr (.inl ⟨String.ofList middle, ?_, ?_⟩)
      · rw [← String.toList_inj, hserver]
        simp
      · rw [← String.toList_inj, h]
        simp
  · rintro (⟨rfl, rfl⟩ | ⟨middle, rfl, rfl⟩ | ⟨rfl, rfl⟩)
    · exact ⟨[], (append_nil _).symm, rfl⟩
    · exact ⟨'_' :: '_' :: middle.toList, by simp, by simp⟩
    · exact ⟨['_'], by simp, by simp⟩

/-- **Two tools of servers have one name** exactly when they are one, or underscores between the names of the
servers and of the tools can be taken for the joint in two places. -/
theorem makeQualifiedName_eq_iff {server tool server' tool' : String} :
    makeQualifiedName server tool = makeQualifiedName server' tool' ↔
      server = server' ∧ tool = tool' ∨ Collides server tool server' tool' ∨ Collides server' tool' server tool := by
  have htexts : makeQualifiedName server tool = makeQualifiedName server' tool' ↔
      server.toList ++ '_' :: '_' :: tool.toList = server'.toList ++ '_' :: '_' :: tool'.toList := by
    rw [makeQualifiedName, makeQualifiedName, ← String.toList_inj]
    simp
  rw [htexts, append_eq_append_iff, exists_rest_underscores_iff, exists_rest_underscores_iff]
  constructor
  · rintro ((h | h) | ⟨rfl, rfl⟩ | h)
    · exact .inl h
    · exact .inr (.inl h)
    · exact .inl ⟨rfl, rfl⟩
    · exact .inr (.inr h)
  · rintro (h | h | h)
    · exact .inl (.inl h)
    · exact .inl (.inr h)
    · exact .inr (.inr h)

end MCPToolManager

/-! ## Whether the laws hold -/

namespace Registrations

/-- The checker of a configuration that permits a tool of a server and nothing else. -/
def permits (server tool : String) : ToolPermissionChecker :=
  ToolPermissionChecker.ofConfig ⟨["mcp:" ++ server ++ ":" ++ tool], []⟩

theorem isMcpToolAllowed_permits_iff {server tool server' tool' : String} :
    (permits server tool).isMcpToolAllowed server' tool' = true ↔
      server ++ ":" ++ tool = server' ++ ":" ++ tool' ∨ server ++ ":" ++ tool = server' ++ ":" ++ "*" := by
  have hentry : "mcp:" ++ server ++ ":" ++ tool = "mcp:" ++ (server ++ ":" ++ tool) := by
    rw [← String.toList_inj]
    simp
  have hnamed : namedMcp ("mcp:" ++ server ++ ":" ++ tool) = [server ++ ":" ++ tool] := by
    rw [namedMcp, permissionEntry_eq_mcp_iff.2 hentry]
  have hcolon : ':' ∈ (server ++ ":" ++ tool).toList := by simp
  have hall : ¬ ("mcp:" ++ server ++ ":" ++ tool = "*" ∨ "mcp:" ++ server ++ ":" ++ tool = "mcp:*") := by
    rintro (hstar | hstar)
    · exact ToolPermissionChecker.ne_star (by simp) hstar
    · rw [hentry, show "mcp:*" = "mcp:" ++ "*" by decide, String.append_right_inj] at hstar
      exact ToolPermissionChecker.ne_star hcolon hstar
  have hwildcard : server' ++ ":*" = server' ++ ":" ++ "*" := by
    rw [← String.toList_inj]
    simp
  rw [permits, ToolPermissionConfig.isMcpToolAllowed_single, hnamed, or_iff_right hall, hwildcard,
    mem_singleton, mem_singleton, eq_comm, @eq_comm _ (server' ++ ":" ++ "*")]

/-- Two tools of servers are told apart: by their names, and by a permission of the first. -/
structure Separate (server tool server' tool' : String) : Prop where
  names : MCPToolManager.makeQualifiedName server tool ≠ MCPToolManager.makeQualifiedName server' tool'
  permission : (permits server tool).isMcpToolAllowed server' tool' = false

/-- What a registry advertises is what it executes, and what it executes of a server is what it was permitted. -/
structure Lawful (s : Registrations) : Prop where
  distinct : s.getToolSchemas.Nodup
  executed : ∀ name,
    if name ∈ s.getToolSchemas then s.toolRegistry.Executes name else s.toolRegistry.Refuses name
  forwards : ∀ name m qualifiedName, s.tools.lookup name = some (.mcp m qualifiedName) →
    ∃ server tool, (s.manager m).target qualifiedName = .ok (server, tool) ∧
      name = MCPToolManager.makeQualifiedName server tool ∧
      (s.mcpToolManager = some m → ∀ checker, s.permissionChecker = some checker →
        s.toolRegistry.checkPermission name = checker.isMcpToolAllowed server tool)

/-- Two servers, of which the name of one is the other's and a part of its tool's. -/
def collidingServers : List MCPServer := [⟨"a__b", "http://b", some ["c"]⟩, ⟨"a", "http://a", some ["b__c"]⟩]

/-- Two tools of servers get one name, and the one that is found first is lost. -/
theorem not_separate_collidingServers :
    ¬ Separate "a__b" "c" "a" "b__c" ∧
      (exec step {} [.discoverTools 0 collidingServers, .registerInto 0 ["mcp__a__b__c"]]).map
        (fun s => (s.getToolSchemas, (s.manager 0).target "mcp__a__b__c")) =
          some (["mcp__a__b__c"], .ok ("a", "b__c")) := by
  constructor
  · intro h
    exact h.names (by decide)
  · decide +kernel

theorem lawful_of_exec {as : List Registration} {s : Registrations} (h : exec step {} as = some s) :
    s.Lawful := by
  have hinv : s.Matched ∧ s.Bound := by
    refine exec_invariant' (motive := fun s : Registrations => s.Matched ∧ s.Bound) ?_
      ⟨⟨?_, nodup_nil⟩, ⟨?_, ?_⟩⟩ h
    · rintro s a s' ⟨hmatched, hbound⟩ hstep
      exact ⟨hmatched.step hstep, hbound.step hstep⟩
    · intro name
      simp
    · exact fun m => MCPToolManager.found_empty
    · intro name m qualifiedName hname
      cases hname
  obtain ⟨hmatched, hbound⟩ := hinv
  exact ⟨hmatched.nodup_getToolSchemas, hmatched.executed, fun _ _ _ hname => hbound.forwards hname⟩

theorem not_nested_star {server tool server' : String} : ¬ Nested ":" server "*" server' tool := by
  rintro ⟨middle, -, hstar⟩
  exact ToolPermissionChecker.ne_star (by simp) hstar.symm

theorem separate_iff {server tool server' tool' : String} (hdifferent : (server, tool) ≠ (server', tool')) :
    Separate server tool server' tool' ↔
      (¬ MCPToolManager.Collides server tool server' tool' ∧
        ¬ MCPToolManager.Collides server' tool' server tool) ∧
      (¬ Nested ":" server tool server' tool' ∧ ¬ Nested ":" server' tool' server tool) ∧
      ¬ (server = server' ∧ tool = "*") ∧ ¬ Nested ":" server tool server' "*" := by
  have hpair : ¬ (server = server' ∧ tool = tool') := by
    rintro ⟨rfl, rfl⟩
    exact hdifferent rfl
  have hnames : MCPToolManager.makeQualifiedName server tool ≠ MCPToolManager.makeQualifiedName server' tool' ↔
      ¬ MCPToolManager.Collides server tool server' tool' ∧
        ¬ MCPToolManager.Collides server' tool' server tool := by
    rw [Ne, MCPToolManager.makeQualifiedName_eq_iff, or_iff_right hpair, not_or]
  have hpermission : (permits server tool).isMcpToolAllowed server' tool' = false ↔
      (¬ Nested ":" server tool server' tool' ∧ ¬ Nested ":" server' tool' server tool) ∧
        ¬ (server = server' ∧ tool = "*") ∧ ¬ Nested ":" server tool server' "*" := by
    rw [← Bool.not_eq_true, isMcpToolAllowed_permits_iff, colon_eq_iff, colon_eq_iff, or_iff_right hpair,
      not_or, not_or, not_or, not_or, and_iff_left not_nested_star]
  rw [← hnames, ← hpermission]
  exact ⟨fun h => ⟨h.names, h.permission⟩, fun h => ⟨h.1, h.2⟩⟩

/-- **Advertised tools are the executable tools**, whatever was registered, and two tools of servers are told
apart exactly when neither underscores nor colons can be taken for the joints of their names, and the permission
is not for all tools of the server. -/
theorem registration_laws {as : List Registration} {s : Registrations} (h : exec step {} as = some s)
    {server tool server' tool' : String} (hdifferent : (server, tool) ≠ (server', tool')) :
    s.Lawful ∧ (Separate server tool server' tool' ↔
      (¬ MCPToolManager.Collides server tool server' tool' ∧
        ¬ MCPToolManager.Collides server' tool' server tool) ∧
      (¬ Nested ":" server tool server' tool' ∧ ¬ Nested ":" server' tool' server tool) ∧
      ¬ (server = server' ∧ tool = "*") ∧ ¬ Nested ":" server tool server' "*") :=
  ⟨lawful_of_exec h, separate_iff hdifferent⟩

/-- A built-in tool is registered over, and a server has two tools. -/
def readOver : List Registration :=
  [.registerBuiltinTools, .registerExternalTool "read",
    .discoverTools 0 [⟨"a", "http://a", some ["b", "c"]⟩], .registerInto 0 ["mcp__a__c", "mcp__a__b"],
    .setMcpToolManager (some 0)]

theorem registration_laws_readOver :
    ("a", "b") ≠ ("a", "c") ∧ ∃ s, exec step {} readOver = some s ∧ s.Lawful ∧ Separate "a" "b" "a" "c" := by
  have hdifferent : ("a", "b") ≠ ("a", "c") := by decide
  have hsome : (exec step {} readOver).isSome = true := by decide +kernel
  obtain ⟨s, hs⟩ := Option.isSome_iff_exists.1 hsome
  obtain ⟨hlawful, -⟩ := registration_laws hs hdifferent
  refine ⟨hdifferent, s, hs, hlawful, ⟨by decide, by decide +kernel⟩⟩

end Registrations

end RavBot.Tools
