import RavBot.Tools.ToolRegistry

/-!
# The gate before the shell

Every tool but `process` hands its command to `exec_tool`, which asks `ValidateShellCommand` and the approval
manager first; `process` starts the command of a session at once, and `exec_tool` goes on when the approval
manager leaves the decision open.  `gated_iff` says that these are the only ways around the gate.
-/

namespace RavBot.Tools

open RavBot.Lib
open RavBot.Security

/-! ## The statement -/

/-- The last that happened is that a command was validated and approved. -/
def Cleared (command : String) (events : List ToolEvent) : Prop :=
  ∃ before, events = before ++ [.validated command true, .requested command .approved]

/-- Every command is started right after it was validated and approved. -/
def Gated (events : List ToolEvent) : Prop :=
  ∀ before command timeout after, events = before ++ .executed command timeout :: after →
    Cleared command before

/-- The command of the session that `process` starts. -/
def startedCommand (params : Json) : Option String :=
  (params.value Json.getString "action" "list").bind fun action =>
    (params.value Json.getString "command" "").bind fun command =>
      if action = "start" ∧ command ≠ "" then some command else none

def StartsSession (handler : Handler) (params : Json) : Prop :=
  handler = .process ∧ (startedCommand params).isSome

/-- No call of a tool, those that chains make included, starts a background session, and no approval is left
open. -/
def Harmless (events : List ToolEvent) : Prop :=
  (∀ handler params, .invoked handler params ∈ events → ¬ StartsSession handler params) ∧
    ∀ command, .requested command .pending ∉ events

/-- What holds between the calls of tools, when an approval manager is configured. -/
structure Balanced (s : ToolState) : Prop where
  configured : s.approvalManager.isSome
  gated_iff : Gated s.events ↔ Harmless s.events

/-! ## One more event -/

theorem gated_append_singleton (events : List ToolEvent) (e : ToolEvent) :
    Gated (events ++ [e]) ↔
      Gated events ∧ ∀ command timeout, e = .executed command timeout → Cleared command events := by
  constructor
  · intro h
    refine ⟨fun before command timeout after heq => ?_, fun command timeout he => ?_⟩
    · exact h before command timeout (after ++ [e]) (by rw [heq]; simp)
    · exact h events command timeout [] (by rw [he])
  · rintro ⟨hevents, hlast⟩ before command timeout after heq
    rcases List.eq_nil_or_concat after with rfl | ⟨after, last, rfl⟩
    · obtain ⟨rfl, he⟩ := List.append_inj' heq rfl
      exact hlast command timeout (List.singleton_inj.1 he)
    · rw [List.concat_eq_append, ← List.cons_append, ← List.append_assoc] at heq
      obtain ⟨hsplit, -⟩ := List.append_inj' heq rfl
      exact hevents before command timeout after hsplit

theorem Balanced.append {s : ToolState} (h : Balanced s) {e : ToolEvent} {manager : ExecApprovalManager}
    (hexecuted : ∀ command timeout, e ≠ .executed command timeout)
    (hinvoked : ∀ handler params, e = .invoked handler params → ¬ StartsSession handler params)
    (hrequested : ∀ command, e ≠ .requested command .pending) :
    Balanced ⟨some manager, s.events ++ [e]⟩ where
  configured := rfl
  gated_iff := by
    rw [gated_append_singleton, h.gated_iff]
    constructor
    · rintro ⟨⟨hsessions, hopen⟩, -⟩
      refine ⟨fun handler params hmem => ?_, fun command hmem => ?_⟩
      · rcases List.mem_append.1 hmem with hmem | hmem
        · exact hsessions handler params hmem
        · exact hinvoked handler params (List.mem_singleton.1 hmem).symm
      · rcases List.mem_append.1 hmem with hmem | hmem
        · exact hopen command hmem
        · exact hrequested command (List.mem_singleton.1 hmem).symm
    · rintro ⟨hsessions, hopen⟩
      refine ⟨⟨fun handler params hmem => ?_, fun command hmem => ?_⟩, fun command timeout he => ?_⟩
      · exact hsessions handler params (List.mem_append_left _ hmem)
      · exact hopen command (List.mem_append_left _ hmem)
      · exact absurd he (hexecuted command timeout)

/-! ## The tools -/

theorem outcome_otherTool (outside : Outside) (s : ToolState) : ((otherTool outside).outcome s).2 = s := rfl

theorem outcome_validateCommand (command : String) (s : ToolState) :
    (validateCommand command).outcome s =
      (if Sandbox.validateShellCommand command then .ok ()
        else .error ("Command not allowed: " ++ command),
      { s with events := s.events ++ [.validated command (Sandbox.validateShellCommand command)] }) := by
  rw [validateCommand, Effect.outcome_bind]
  cases h : Sandbox.validateShellCommand command <;> rfl

theorem outcome_approveCommand (outside : Outside) (command : String) (m : ExecApprovalManager)
    (events : List ToolEvent) :
    ∃ decision m', (approveCommand outside command).outcome ⟨some m, events⟩ =
      (approvalResult command decision, ⟨some m', events ++ [.requested command decision]⟩) :=
  ⟨_, _, rfl⟩

theorem harmless_append_executed (events : List ToolEvent) (command : String) (timeout : Int) :
    Harmless (events ++ [.executed command timeout]) ↔ Harmless events := by
  simp [Harmless]

theorem Balanced.execute_approved {m : ExecApprovalManager} {events : List ToolEvent} {command : String}
    (h : Balanced ⟨some m, events ++ [.validated command true] ++ [.requested command .approved]⟩)
    (timeout : Int) :
    Balanced ⟨some m, events ++ [.validated command true] ++ [.requested command .approved] ++
      [.executed command timeout]⟩ where
  configured := rfl
  gated_iff := by
    rw [gated_append_singleton, harmless_append_executed, ← h.gated_iff]
    refine and_iff_left fun command' timeout' he => ⟨events, ?_⟩
    cases he
    exact List.append_assoc _ _ _

theorem balanced_execute_pending (m : ExecApprovalManager) (events : List ToolEvent) (command : String)
    (timeout : Int) :
    Balanced ⟨some m, events ++ [.requested command .pending] ++ [.executed command timeout]⟩ where
  configured := rfl
  gated_iff := by
    refine iff_of_false (fun h => ?_) fun h => h.2 command (by simp)
    obtain ⟨before, heq⟩ := ((gated_append_singleton _ _).1 h).2 command timeout rfl
    have hlast := congrArg List.getLast? heq
    simp at hlast

theorem preserves_gatedRun (outside : Outside) (command : String) (timeout : Int) :
    Effect.Preserves Balanced (do
      validateCommand command
      approveCommand outside command
      runCommand outside command timeout) := by
  intro s hs
  obtain ⟨m, hm⟩ := Option.isSome_iff_exists.1 hs.configured
  obtain ⟨manager, events⟩ := s
  cases hm
  have hvalidated (allowed : Bool) :
      Balanced ⟨some m, events ++ [.validated command allowed]⟩ :=
    hs.append nofun nofun nofun
  rw [Effect.outcome_bind, outcome_validateCommand]
  generalize Sandbox.validateShellCommand command = allowed
  cases allowed with
  | false => exact hvalidated false
  | true =>
    obtain ⟨decision, m', hrequest⟩ :=
      outcome_approveCommand outside command m (events ++ [.validated command true])
    rw [if_pos rfl]
    dsimp only
    rw [Effect.outcome_bind, hrequest]
    cases decision with
    | denied => exact (hvalidated true).append nofun nofun nofun
    | timeout => exact (hvalidated true).append nofun nofun nofun
    | approved =>
      have hrequested : Balanced ⟨some m', events ++ [.validated command true] ++
          [.requested command .approved]⟩ := (hvalidated true).append nofun nofun nofun
      exact hrequested.execute_approved timeout
    | pending => exact balanced_execute_pending m' _ command timeout

theorem preserves_execTool (outside : Outside) (params : Json) :
    Effect.Preserves Balanced (execTool outside params) := by
  rw [execTool]
  cases params.find? "command" with
  | none => exact .throw _
  | some v =>
    refine (Effect.Preserves.ofOption _ _).bind fun command => ?_
    refine (Effect.Preserves.ofOption _ _).bind fun timeout => ?_
    exact preserves_gatedRun outside command timeout

theorem preserves_githubTool (outside : Outside) (handler : Handler) (buildCommand : Json → Option String)
    (onError : String → String) (params : Json) :
    Effect.Preserves Balanced (githubTool outside handler buildCommand onError params) := by
  rw [githubTool]
  refine (Effect.Preserves.ofOption _ _).bind fun command => ?_
  refine (preserves_execTool outside _).attempt.bind fun result => ?_
  cases result with
  | ok result => exact .pure _
  | error error => exact .pure _

theorem outcome_processTool (outside : Outside) (params : Json) (s : ToolState) :
    ((processTool outside params).outcome s).2 =
      match startedCommand params with
      | some command => { s with events := s.events ++ [.executed command 300] }
      | none => s := by
  rw [processTool, startedCommand, Effect.outcome_bind]
  cases params.value Json.getString "action" "list" with
  | none => rfl
  | some action =>
    show (Effect.outcome (if action = "list" then otherTool outside else _) s).2 = _
    rw [Option.bind_some]
    by_cases hlist : action = "list"
    · subst hlist
      rw [if_pos rfl, outcome_otherTool]
      cases params.value Json.getString "command" "" <;> rfl
    · rw [if_neg hlist]
      by_cases hstart : action = "start"
      · subst hstart
        rw [if_pos rfl, Effect.outcome_bind]
        cases params.value Json.getString "command" "" with
        | none => rfl
        | some command =>
          show (Effect.outcome (if command = "" then _ else _) s).2 = _
          rw [Option.bind_some]
          by_cases hempty : command = ""
          · rw [if_pos hempty, if_neg fun h => h.2 hempty]
            rfl
          · rw [if_neg hempty, if_pos ⟨rfl, hempty⟩]
            rfl
      · rw [if_neg hstart, Effect.outcome_bind]
        have hnone : (params.value Json.getString "command" "").bind (fun command =>
            if action = "start" ∧ command ≠ "" then some command else none) = none := by
          cases params.value Json.getString "command" "" with
          | none => rfl
          | some command => exact if_neg fun h => hstart h.1
        rw [hnone]
        cases params.value Json.getString "id" "" with
        | none => rfl
        | some id =>
          show (Effect.outcome (if id = "" then _ else _) s).2 = s
          split <;> rfl

/-! ## The registry -/

theorem Balanced.startSession {m : ExecApprovalManager} {events : List ToolEvent} {params : Json}
    {command : String} (h : startedCommand params = some command) :
    Balanced ⟨some m, events ++ [.invoked .process params] ++ [.executed command 300]⟩ where
  configured := rfl
  gated_iff := by
    refine iff_of_false (fun hgated => ?_) fun hharmless => ?_
    · obtain ⟨before, heq⟩ := ((gated_append_singleton _ _).1 hgated).2 command 300 rfl
      have hlast := congrArg List.getLast? heq
      simp at hlast
    · exact hharmless.1 .process params (by simp) ⟨rfl, by rw [h]; rfl⟩

theorem preserves_call (outside : Outside) {executor : String → Json → Effect ToolState String}
    (hexecutor : ∀ toolName args, Effect.Preserves Balanced (executor toolName args)) (params : Json)
    (handler : Handler) :
    Effect.Preserves Balanced (do
      emit (.invoked handler params)
      ToolRegistry.call outside executor params handler) := by
  intro s hs
  obtain ⟨m, hm⟩ := Option.isSome_iff_exists.1 hs.configured
  obtain ⟨manager, events⟩ := s
  cases hm
  show Balanced ((ToolRegistry.call outside executor params handler).outcome
    ⟨some m, events ++ [.invoked handler params]⟩).2
  -- Only `process` is dangerous by the call alone.
  have hinvoked (hhandler : ¬ StartsSession handler params) :
      Balanced ⟨some m, events ++ [.invoked handler params]⟩ :=
    hs.append nofun (fun _ _ heq => by cases heq; exact hhandler) nofun
  cases handler with
  | exec => exact preserves_execTool outside params _ (hinvoked nofun)
  | githubSearchRepos => exact preserves_githubTool outside _ _ _ params _ (hinvoked nofun)
  | githubSearchCode => exact preserves_githubTool outside _ _ _ params _ (hinvoked nofun)
  | githubGetRepo => exact preserves_githubTool outside _ _ _ params _ (hinvoked nofun)
  | other => exact hinvoked nofun
  | chain =>
    refine Effect.Preserves.bind (.ofOption _ _) (fun chainDef => ?_) _ (hinvoked nofun)
    refine (ToolChainExecutor.preserves_execute hexecutor chainDef).bind fun result => ?_
    exact .ofOption _ _
  | process =>
    rw [ToolRegistry.call, outcome_processTool]
    cases hstarted : startedCommand params with
    | none =>
      refine hinvoked fun h => ?_
      have hsome := h.2
      rw [hstarted] at hsome
      cases hsome
    | some command => exact Balanced.startSession hstarted

theorem preserves_executeTool (r : ToolRegistry) (outside : Outside) (toolName : String) (parameters : Json) :
    Effect.Preserves Balanced (r.executeTool outside toolName parameters) := by
  have hwithin (depth : Nat) : ∀ toolName parameters,
      Effect.Preserves Balanced (r.executeToolWithin outside depth toolName parameters) := by
    induction depth with
    | zero => exact fun _ _ => .throw _
    | succ depth ih =>
      intro toolName parameters
      rw [ToolRegistry.executeToolWithin]
      cases r.tools.lookup toolName with
      | none => exact .throw _
      | some handler =>
        dsimp only
        split
        · refine (Effect.Preserves.ofOption _ _).bind fun _ => ?_
          exact preserves_call outside ih parameters handler
        · exact .throw _
  exact hwithin _ toolName parameters

/-- **The gate.**  With an approval manager, whatever tools are called with whatever parameters, every command
is started right after it was validated and approved if and only if no call of a tool, those of chains
included, starts a background session, and no approval is left open. -/
theorem gated_iff (r : ToolRegistry) (outside : Outside) (m : ExecApprovalManager)
    (calls : List (String × Json)) :
    Gated (r.executeTools outside calls ⟨some m, []⟩).events ↔
      Harmless (r.executeTools outside calls ⟨some m, []⟩).events := by
  have hstart : Balanced ⟨some m, []⟩ :=
    ⟨rfl, iff_of_true (fun before _ _ _ h => by simp at h) ⟨nofun, nofun⟩⟩
  have hrun (calls : List (String × Json)) : ∀ s, Balanced s → Balanced (r.executeTools outside calls s) := by
    induction calls with
    | nil => exact fun _ h => h
    | cons call calls ih => exact fun s h => ih _ (preserves_executeTool r outside call.1 call.2 s h)
  exact (hrun calls _ hstart).gated_iff

/-! ## A session -/

/-- A world in which nobody answers, and every command returns at once. -/
def quiet : Outside where
  approval := fun _ => ⟨"req_1", 0, none, 0⟩
  execCapture := fun _ => ⟨0, ""⟩
  answer := fun _ => .ok ""
  generateId := fun _ => "proc_1"
  dump := fun _ => ""
  report := fun _ result => result

/-- An approval manager that asks for every command, and denies those that nobody answers for. -/
def strict : ExecApprovalManager := ⟨⟨.always, 120, .denied, []⟩, ∅, []⟩

def startSession : Json := .object [("action", .str "start"), ("command", .str "rm -rf /")]

/-- The command of a session is started without validation and approval. -/
theorem not_gated :
    ¬ ∀ (r : ToolRegistry) (outside : Outside) (m : ExecApprovalManager) (calls : List (String × Json)),
      Gated (r.executeTools outside calls ⟨some m, []⟩).events := by
  intro h
  obtain ⟨before, hbefore⟩ := h .builtin quiet strict [("process", startSession)]
    [.invoked .process startSession] "rm -rf /" 300 [] rfl
  have hlast := congrArg List.getLast? hbefore
  simp at hlast

end RavBot.Tools
