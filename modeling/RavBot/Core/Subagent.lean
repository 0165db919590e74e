import RavBot.Lib.Run
import RavBot.Lib.Table

/-!
# Subagents

`Spawn` counts the active children of a parent in one critical section and inserts the new run in another,
and `CompleteRun` and `FailRun` do not look at the state of the run.  `lawful_iff` says along which runs of
the manager no parent has more active children than the limit, and no run that has ended is changed.

A call of `Spawn` is a thread: it checks the limits, inserts its run, and waits for the agent runner.
-/

namespace RavBot.Core

open RavBot.Lib

inductive SpawnMode where
  | run
  | session
deriving DecidableEq, Repr

/-- What `Spawn` reads of its parameters. -/
structure SpawnParams where
  task : String
  label : String := ""
  agentId : String := ""
  model : String := ""
  mode : SpawnMode := .run
  cleanup : Bool := true

inductive SpawnStatus where
  | accepted
  | forbidden
  | error
deriving DecidableEq, Repr

structure SpawnResult where
  status : SpawnStatus := .error
  childSessionKey : String := ""
  runId : String := ""
  mode : SpawnMode := .run
  note : String := ""
  error : String := ""

inductive RunState where
  | running
  | completed
  | failed
  | cancelled
deriving DecidableEq, Repr

structure SubagentRun where
  runId : String
  childSessionKey : String
  parentSessionKey : String
  label : String
  model : String
  mode : SpawnMode
  cleanup : Bool
  state : RunState := .running
  resultSummary : String := ""

/-- `SubagentConfig`, and whether an agent runner is set. -/
structure SubagentConfig where
  maxDepth : Int := 5
  maxChildren : Int := 5
  allowedAgents : List String := []
  agentRunner : Bool := true

/-- What the agent runner is called with. -/
structure RunnerCall where
  sessionKey : String
  task : String
  model : String
  extraSystemPrompt : String

/-- How far a call of `Spawn` is. -/
inductive SpawnThread where
  /-- It has checked the limits. -/
  | checked (params : SpawnParams) (parent : String) (depth : Int)
  /-- Its run is inserted, and the agent runner is called. -/
  | running (runId : String) (mode : SpawnMode) (call : RunnerCall)

/-- The manager, its threads, and what calls of `Spawn` have returned. -/
structure SubagentManager where
  runs : Table String SubagentRun
  parentChildren : Table String (List String)
  threads : Table Nat SpawnThread
  returned : List (Nat × SpawnResult)

inductive SubagentAction where
  /-- `Spawn` is called, and checks the limits. -/
  | check (thread : Nat) (params : SpawnParams) (parent : String) (depth : Int)
  /-- `Spawn` inserts a run with the ids it has generated, and calls the agent runner. -/
  | insert (thread : Nat) (runId childKey : String)
  /-- The agent runner returns or throws. -/
  | finish (thread : Nat) (outcome : Except String String)
  | completeRun (runId resultSummary : String)
  | failRun (runId error : String)
  | cancelRun (runId : String)
  | cleanupCompleted

namespace SubagentManager

def init : SubagentManager := ⟨∅, ∅, ∅, []⟩

/-! ## The operations -/

def active (m : SubagentManager) (children : List String) : Nat :=
  children.countP fun id => ((m.runs.lookup id).map SubagentRun.state) = some .running

def limited (cfg : SubagentConfig) (m : SubagentManager) (parent : String) : Bool :=
  match m.parentChildren.lookup parent with
  | some children => cfg.maxChildren ≤ m.active children
  | none => false

def targetAgent (params : SpawnParams) : String :=
  if params.agentId = "" then "default" else params.agentId

/-- The error of a call of `Spawn` that is forbidden. -/
def forbidden (cfg : SubagentConfig) (m : SubagentManager) (params : SpawnParams) (parent : String)
    (depth : Int) : Option String :=
  if cfg.maxDepth ≤ depth then some ("Max spawn depth (" ++ toString cfg.maxDepth ++ ") exceeded")
  else if limited cfg m parent then
    some ("Max active children (" ++ toString cfg.maxChildren ++ ") exceeded")
  else if cfg.allowedAgents ≠ [] ∧ targetAgent params ∉ cfg.allowedAgents then
    some ("Agent '" ++ targetAgent params ++ "' not in allowed list")
  else none

/-- A thread returns from `Spawn`. -/
def returnFrom (m : SubagentManager) (t : Nat) (result : SpawnResult) : SubagentManager :=
  { m with threads := m.threads.erase t, returned := m.returned ++ [(t, result)] }

/-- The result of a call of `Spawn` that is accepted. -/
def accepted (runId childKey : String) (mode : SpawnMode) : SpawnResult :=
  { status := .accepted, childSessionKey := childKey, runId, mode
    note := "Subagent spawned successfully" }

def firstBytes (s : String) (n : Nat) : String := .ofList (s.toList.take n)

/-- The run of a call of `Spawn`. -/
def newRun (params : SpawnParams) (parent runId childKey : String) : SubagentRun where
  runId
  childSessionKey := childKey
  parentSessionKey := parent
  label := if params.label = "" then firstBytes params.task 50 else params.label
  model := params.model
  mode := params.mode
  cleanup := params.cleanup

/-- What the agent runner is called with. -/
def runnerCall (cfg : SubagentConfig) (params : SpawnParams) (depth : Int) (childKey : String) :
    RunnerCall where
  sessionKey := childKey
  task := params.task
  model := params.model
  extraSystemPrompt := "You are a subagent (depth " ++ toString (depth + 1) ++ "/" ++
    toString cfg.maxDepth ++ "). Your task: " ++ params.task

/-- The second critical section of `Spawn`. -/
def insertRun (m : SubagentManager) (run : SubagentRun) : SubagentManager :=
  { m with
    runs := m.runs.insert run.runId run
    parentChildren := m.parentChildren.insert run.parentSessionKey
      (((m.parentChildren.lookup run.parentSessionKey).getD []) ++ [run.runId]) }

/-- Set the state of a run and its summary. -/
def setState (m : SubagentManager) (runId : String) (state : RunState) (resultSummary : String) :
    SubagentManager :=
  match m.runs.lookup runId with
  | some run => { m with runs := m.runs.insert runId { run with state, resultSummary } }
  | none => m

def completeRun (m : SubagentManager) (runId resultSummary : String) : SubagentManager :=
  m.setState runId .completed resultSummary

def failRun (m : SubagentManager) (runId error : String) : SubagentManager :=
  m.setState runId .failed ("Error: " ++ error)

def cancelRun (m : SubagentManager) (runId : String) : SubagentManager × Bool :=
  match m.runs.lookup runId with
  | some run =>
    if run.state = .running then
      ({ m with runs := m.runs.insert runId { run with state := .cancelled } }, true)
    else (m, false)
  | none => (m, false)

/-- Remove a run from the runs and from the children of its parent. -/
def removeRun (m : SubagentManager) (runId : String) : SubagentManager :=
  match m.runs.lookup runId with
  | some run =>
    { m with
      runs := m.runs.erase runId
      parentChildren := match m.parentChildren.lookup run.parentSessionKey with
        | some children => m.parentChildren.insert run.parentSessionKey (children.filter (· ≠ runId))
        | none => m.parentChildren }
  | none => m

/-- Whether `CleanupCompleted` removes a run. -/
def removable (run : SubagentRun) : Bool := run.cleanup && run.state ≠ .running

def cleanupCompleted (m : SubagentManager) : SubagentManager :=
  (m.runs.entries.filter fun e => removable e.2).foldl (fun m e => m.removeRun e.1) m

/-- The end of a call of `Spawn`, after the agent runner. -/
def finish (m : SubagentManager) (runId : String) : Except String String → SubagentManager
  | .ok summary => if summary = "" then m else m.completeRun runId summary
  | .error what => m.failRun runId what

/-- What a call of `Spawn` returns after the agent runner. -/
def finishResult (runId childKey : String) (mode : SpawnMode) : Except String String → SpawnResult
  | .ok _ => accepted runId childKey mode
  | .error what => { status := .error, error := what }

/-- What an action does; `none` when it cannot be taken. -/
def step (cfg : SubagentConfig) (m : SubagentManager) : SubagentAction → Option SubagentManager
  | .check t params parent depth =>
    match m.threads.lookup t with
    | some _ => none
    | none =>
      match forbidden cfg m params parent depth with
      | some error => some (m.returnFrom t { status := .forbidden, error })
      | none => some { m with threads := m.threads.insert t (.checked params parent depth) }
  | .insert t runId childKey =>
    match m.threads.lookup t with
    | some (.checked params parent depth) =>
      let m := m.insertRun (newRun params parent runId childKey)
      if cfg.agentRunner then
        some { m with threads :=
          m.threads.insert t (.running runId params.mode (runnerCall cfg params depth childKey)) }
      else some (m.returnFrom t (accepted runId childKey params.mode))
    | _ => none
  | .finish t outcome =>
    match m.threads.lookup t with
    | some (.running runId mode call) =>
      some ((m.finish runId outcome).returnFrom t (finishResult runId call.sessionKey mode outcome))
    | _ => none
  | .completeRun runId resultSummary => some (m.completeRun runId resultSummary)
  | .failRun runId error => some (m.failRun runId error)
  | .cancelRun runId => some (m.cancelRun runId).1
  | .cleanupCompleted => some m.cleanupCompleted

/-! ## The statement -/

def counts (parent : String) (run : SubagentRun) : Nat :=
  if run.parentSessionKey = parent ∧ run.state = .running then 1 else 0

def running (runs : Table String SubagentRun) (parent : String) : Nat := Table.total (counts parent) runs

def WithinLimit (cfg : SubagentConfig) (m : SubagentManager) : Prop :=
  ∀ parent, (running m.runs parent : Int) ≤ cfg.maxChildren

def KeepsEnded (m m' : SubagentManager) : Prop :=
  ∀ id run run', m.runs.lookup id = some run → run.state ≠ .running → m'.runs.lookup id = some run' →
    run'.state = run.state ∧ run'.resultSummary = run.resultSummary

/-- A step stays within the limit, and keeps the runs that have ended. -/
def Lawful (cfg : SubagentConfig) (m m' : SubagentManager) : Prop := WithinLimit cfg m' ∧ KeepsEnded m m'

/-- A run that is to end in a state is running, or has ended in it with the same summary. -/
def Ends (m : SubagentManager) (runId : String) (state : RunState) (resultSummary : String) : Prop :=
  ∀ run, m.runs.lookup runId = some run →
    run.state = .running ∨ run.state = state ∧ run.resultSummary = resultSummary

/-- A run is inserted while its parent has fewer running runs beside it than the limit, and under an id
that no run has which has ended; and a run is completed or failed only while it is running, or once more as
it has ended. -/
def Timely (cfg : SubagentConfig) (m : SubagentManager) : SubagentAction → Prop
  | .insert t runId _ => ∀ params parent depth, m.threads.lookup t = some (.checked params parent depth) →
      (running (m.runs.erase runId) parent : Int) < cfg.maxChildren ∧
        ∀ run, m.runs.lookup runId = some run → run.state = .running
  | .finish t outcome => ∀ runId mode call, m.threads.lookup t = some (.running runId mode call) →
      match outcome with
      | .ok summary => summary = "" ∨ Ends m runId .completed summary
      | .error what => Ends m runId .failed ("Error: " ++ what)
  | .completeRun runId resultSummary => Ends m runId .completed resultSummary
  | .failRun runId error => Ends m runId .failed ("Error: " ++ error)
  | _ => True

/-! ## What the operations do -/

variable {cfg : SubagentConfig} {m : SubagentManager}

theorem lawful_of_runs_eq {m' : SubagentManager} (h : WithinLimit cfg m)
    (hruns : m'.runs = m.runs) : Lawful cfg m m' := by
  refine ⟨fun parent => ?_, fun id run run' hrun _ hrun' => ?_⟩
  · rw [hruns]
    exact h parent
  · rw [hruns, hrun] at hrun'
    obtain rfl := Option.some.inj hrun'
    exact ⟨rfl, rfl⟩

theorem lawful_congr {m' m'' : SubagentManager} (hruns : m'.runs = m''.runs) :
    Lawful cfg m m' ↔ Lawful cfg m m'' := by
  rw [Lawful, Lawful, WithinLimit, WithinLimit, KeepsEnded, KeepsEnded, hruns]

theorem counts_newRun (params : SpawnParams) (parent runId childKey parent' : String) :
    counts parent' (newRun params parent runId childKey) = if parent = parent' then 1 else 0 := by
  simp [counts, newRun]

theorem lawful_insertRun_iff (h : WithinLimit cfg m)
    (params : SpawnParams) (parent runId childKey : String) :
    Lawful cfg m (m.insertRun (newRun params parent runId childKey)) ↔
      (running (m.runs.erase runId) parent : Int) < cfg.maxChildren ∧
        ∀ run, m.runs.lookup runId = some run → run.state = .running := by
  have hruns : (m.insertRun (newRun params parent runId childKey)).runs =
      m.runs.insert runId (newRun params parent runId childKey) := rfl
  have htotal : ∀ parent', running (m.insertRun (newRun params parent runId childKey)).runs parent' =
      (if parent = parent' then 1 else 0) + running (m.runs.erase runId) parent' := by
    intro parent'
    rw [hruns, running, Table.total_insert_eq, counts_newRun]
    rfl
  refine and_congr ⟨fun hlimit => ?_, fun hlimit parent' => ?_⟩ ⟨fun hkeeps run hrun => ?_, fun hrunning => ?_⟩
  · have hparent := hlimit parent
    rw [htotal, if_pos rfl] at hparent
    omega
  · rw [htotal]
    by_cases heq : parent = parent'
    · subst heq
      rw [if_pos rfl]
      omega
    · have hle : running (m.runs.erase runId) parent' ≤ running m.runs parent' :=
        Table.total_erase_le _ _ _
      have hparent := h parent'
      rw [if_neg heq]
      omega
  · by_contra hended
    obtain ⟨hstate, -⟩ := hkeeps runId run _ hrun hended (by rw [hruns, AList.lookup_insert])
    exact hended hstate.symm
  · intro id run run' hrun hended hrun'
    rw [hruns, Table.lookup_insert_ite] at hrun'
    by_cases hid : id = runId
    · subst hid
      exact absurd (hrunning run hrun) hended
    · rw [if_neg hid, hrun] at hrun'
      obtain rfl := Option.some.inj hrun'
      exact ⟨rfl, rfl⟩

theorem withinLimit_insert (h : WithinLimit cfg m)
    {runId : String} {run : SubagentRun} (hrun : run.state ≠ .running) :
    WithinLimit cfg { m with runs := m.runs.insert runId run } := by
  intro parent
  have hcounts : counts parent run = 0 := if_neg fun h => hrun h.2
  have hle : running (m.runs.erase runId) parent ≤ running m.runs parent := Table.total_erase_le _ _ _
  have htotal : running (m.runs.insert runId run) parent = running (m.runs.erase runId) parent := by
    rw [running, Table.total_insert_eq, hcounts, Nat.zero_add]
    rfl
  have hparent := h parent
  rw [htotal]
  omega

theorem lawful_setState_iff (h : WithinLimit cfg m)
    (runId : String) {state : RunState} (hstate : state ≠ .running) (resultSummary : String) :
    Lawful cfg m (m.setState runId state resultSummary) ↔ Ends m runId state resultSummary := by
  rw [setState, Ends]
  cases hrun : m.runs.lookup runId with
  | none => exact iff_of_true (lawful_of_runs_eq h rfl) nofun
  | some run =>
    constructor
    · rintro ⟨-, hkeeps⟩ run' heq
      obtain rfl := Option.some.inj heq
      refine or_iff_not_imp_left.2 fun hended => ?_
      obtain ⟨hs, hr⟩ := hkeeps runId run _ hrun hended (AList.lookup_insert _)
      exact ⟨hs.symm, hr.symm⟩
    · intro hends
      refine ⟨withinLimit_insert h hstate, fun id run₁ run₂ hrun₁ hended hrun₂ => ?_⟩
      rw [Table.lookup_insert_ite] at hrun₂
      by_cases hid : id = runId
      · subst hid
        rw [hrun] at hrun₁
        obtain rfl := Option.some.inj hrun₁
        rw [if_pos rfl] at hrun₂
        obtain rfl := Option.some.inj hrun₂
        obtain ⟨hs, hr⟩ := (hends run rfl).resolve_left hended
        exact ⟨hs.symm, hr.symm⟩
      · rw [if_neg hid, hrun₁] at hrun₂
        obtain rfl := Option.some.inj hrun₂
        exact ⟨rfl, rfl⟩

theorem lawful_cancelRun (h : WithinLimit cfg m)
    (runId : String) : Lawful cfg m (m.cancelRun runId).1 := by
  rw [cancelRun]
  cases hrun : m.runs.lookup runId with
  | none => exact lawful_of_runs_eq h rfl
  | some run =>
    by_cases hstate : run.state = .running
    · simp only [hstate, if_true]
      refine ⟨withinLimit_insert h (by simp), fun id run₁ run₂ hrun₁ hended hrun₂ => ?_⟩
      rw [Table.lookup_insert_ite] at hrun₂
      by_cases hid : id = runId
      · subst hid
        rw [hrun] at hrun₁
        obtain rfl := Option.some.inj hrun₁
        exact absurd hstate hended
      · rw [if_neg hid, hrun₁] at hrun₂
        obtain rfl := Option.some.inj hrun₂
        exact ⟨rfl, rfl⟩
    · simp only [hstate, if_false]
      exact lawful_of_runs_eq h rfl

theorem removeRun_runs (m : SubagentManager) (runId : String) :
    (m.removeRun runId).runs = m.runs.erase runId := by
  rw [removeRun]
  cases h : m.runs.lookup runId with
  | none =>
    refine AList.ext ?_
    exact (List.kerase_of_notMem_keys (AList.lookup_eq_none.1 h)).symm
  | some run => rfl

theorem lawful_cleanupCompleted (h : WithinLimit cfg m) : Lawful cfg m m.cleanupCompleted := by
  have hall : ∀ (ids : List (Sigma fun _ : String => SubagentRun)) (m' : SubagentManager),
      WithinLimit cfg m' → (∀ id run, m'.runs.lookup id = some run → m.runs.lookup id = some run) →
      Lawful cfg m (ids.foldl (fun m e => m.removeRun e.1) m') := by
    intro ids
    induction ids with
    | nil =>
      refine fun m' hlimit hsub => ⟨hlimit, fun id run run' hrun _ hrun' => ?_⟩
      rw [List.foldl_nil] at hrun'
      rw [hsub id run' hrun'] at hrun
      obtain rfl := Option.some.inj hrun
      exact ⟨rfl, rfl⟩
    | cons e ids ih =>
      intro m' hlimit hsub
      refine ih (m'.removeRun e.1) (fun parent => ?_) fun id run hrun => ?_
      · have hle : running (m'.runs.erase e.1) parent ≤ running m'.runs parent :=
          Table.total_erase_le _ _ _
        have hparent := hlimit parent
        rw [removeRun_runs]
        omega
      · rw [removeRun_runs, Table.lookup_erase_ite] at hrun
        by_cases hid : id = e.1
        · rw [if_pos hid] at hrun
          cases hrun
        · rw [if_neg hid] at hrun
          exact hsub id run hrun
  exact hall _ m h fun id run hrun => hrun

/-! ## Runs -/

theorem lawful_some_iff {m₁ m₂ : SubagentManager} {a : SubagentAction}
    (hstep : step cfg m a = some m₁) (hruns : m₁.runs = m₂.runs) :
    (∀ m' ∈ step cfg m a, Lawful cfg m m') ↔ Lawful cfg m m₂ := by
  rw [hstep, ← lawful_congr hruns]
  simp

theorem lawful_insert_iff (h : WithinLimit cfg m)
    (t : Nat) (runId childKey : String) :
    (∀ m' ∈ step cfg m (.insert t runId childKey), Lawful cfg m m') ↔
      Timely cfg m (.insert t runId childKey) := by
  cases ht : m.threads.lookup t with
  | none => simp [step, Timely, ht]
  | some th =>
    cases th with
    | running runId mode call => simp [step, Timely, ht]
    | checked params parent depth =>
      obtain ⟨m₁, hstep, hruns⟩ : ∃ m₁, step cfg m (.insert t runId childKey) = some m₁ ∧
          m₁.runs = (m.insertRun (newRun params parent runId childKey)).runs := by
        rw [step, ht]
        cases cfg.agentRunner with
        | true => exact ⟨_, rfl, rfl⟩
        | false => exact ⟨_, rfl, rfl⟩
      rw [lawful_some_iff hstep hruns, lawful_insertRun_iff h, Timely, ht]
      constructor
      · intro htimely params' parent' depth' heq
        cases heq
        exact htimely
      · exact fun htimely => htimely params parent depth rfl

theorem lawful_finish_run_iff (h : WithinLimit cfg m)
    (runId : String) (outcome : Except String String) :
    Lawful cfg m (m.finish runId outcome) ↔
      match outcome with
      | .ok summary => summary = "" ∨ Ends m runId .completed summary
      | .error what => Ends m runId .failed ("Error: " ++ what) := by
  cases outcome with
  | ok summary =>
    rw [finish]
    by_cases hempty : summary = ""
    · rw [if_pos hempty]
      exact iff_of_true (lawful_of_runs_eq h rfl) (.inl hempty)
    · rw [if_neg hempty]
      exact (lawful_setState_iff h runId (by simp) summary).trans (or_iff_right hempty).symm
  | error what => exact lawful_setState_iff h runId (by simp) _

theorem lawful_finish_iff (h : WithinLimit cfg m)
    (t : Nat) (outcome : Except String String) :
    (∀ m' ∈ step cfg m (.finish t outcome), Lawful cfg m m') ↔ Timely cfg m (.finish t outcome) := by
  cases ht : m.threads.lookup t with
  | none => simp [step, Timely, ht]
  | some th =>
    cases th with
    | checked params parent depth => simp [step, Timely, ht]
    | running runId mode call =>
      have hstep : step cfg m (.finish t outcome) = some ((m.finish runId outcome).returnFrom t
          (finishResult runId call.sessionKey mode outcome)) := by
        rw [step, ht]
      have hruns : ((m.finish runId outcome).returnFrom t
          (finishResult runId call.sessionKey mode outcome)).runs = (m.finish runId outcome).runs := rfl
      rw [lawful_some_iff hstep hruns, lawful_finish_run_iff h, Timely, ht]
      constructor
      · intro htimely runId' mode' call' heq
        cases heq
        exact htimely
      · exact fun htimely => htimely runId mode call rfl

theorem lawful_step_iff (h : WithinLimit cfg m)
    (a : SubagentAction) : (∀ m' ∈ step cfg m a, Lawful cfg m m') ↔ Timely cfg m a := by
  have hone : ∀ m', Lawful cfg m m' ↔ ∀ m'' ∈ some m', Lawful cfg m m'' := by simp
  cases a with
  | check t params parent depth =>
    refine iff_of_true (fun m' hm' => lawful_of_runs_eq h ?_) trivial
    rw [step] at hm'
    cases ht : m.threads.lookup t with
    | some th =>
      rw [ht] at hm'
      cases hm'
    | none =>
      cases hforbidden : forbidden cfg m params parent depth with
      | some error =>
        simp only [ht, hforbidden, Option.mem_some_iff] at hm'
        rw [← hm']
        rfl
      | none =>
        simp only [ht, hforbidden, Option.mem_some_iff] at hm'
        rw [← hm']
  | insert t runId childKey => exact lawful_insert_iff h t runId childKey
  | finish t outcome => exact lawful_finish_iff h t outcome
  | completeRun runId summary => exact (hone _).symm.trans (lawful_setState_iff h runId (by simp) summary)
  | failRun runId error => exact (hone _).symm.trans (lawful_setState_iff h runId (by simp) _)
  | cancelRun runId => exact iff_of_true ((hone _).1 (lawful_cancelRun h runId)) trivial
  | cleanupCompleted => exact iff_of_true ((hone _).1 (lawful_cleanupCompleted h)) trivial

theorem withinLimit_init_iff : WithinLimit cfg init ↔ 0 ≤ cfg.maxChildren :=
  ⟨fun h => h "", fun h _ => h⟩

/-- **Limits and final states.**  Along a run of a new manager no parent ever has more running children
than the limit, and no run that has ended is changed, exactly when the limit is not negative and every step
is timely. -/
theorem lawful_iff (cfg : SubagentConfig) (actions : List SubagentAction) :
    (WithinLimit cfg init ∧
      Along (step cfg) (fun m a => ∀ m' ∈ step cfg m a, Lawful cfg m m') init actions) ↔
    0 ≤ cfg.maxChildren ∧ Along (step cfg) (Timely cfg) init actions := by
  rw [withinLimit_init_iff]
  refine and_congr_right fun hmax => along_congr (motive := WithinLimit cfg) ?_
    (fun m a h => lawful_step_iff h a) (withinLimit_init_iff.2 hmax)
  intro m a m' h htimely hstep
  exact ((lawful_step_iff h a).2 htimely m' hstep).1

/-- Two threads spawn a child of one parent at a time; both count before the other has inserted its run. -/
def twoSpawns : List SubagentAction :=
  [.check 0 { task := "a" } "main" 0, .check 1 { task := "b" } "main" 0, .insert 0 "sub_1" "s1",
    .insert 1 "sub_2" "s2"]

/-- The limit does not always hold: two threads get past it at a time. -/
theorem not_lawful :
    ¬ ∀ (cfg : SubagentConfig) (actions : List SubagentAction), 0 ≤ cfg.maxChildren →
      WithinLimit cfg init ∧
        Along (step cfg) (fun m a => ∀ m' ∈ step cfg m a, Lawful cfg m m') init actions := by
  intro h
  obtain ⟨-, -, hrest⟩ := h { maxChildren := 1 } twoSpawns (by decide)
  obtain ⟨-, hrest⟩ := hrest _ rfl
  obtain ⟨-, hrest⟩ := hrest _ rfl
  obtain ⟨hlawful, -⟩ := hrest _ rfl
  obtain ⟨hlimit, -⟩ := hlawful _ rfl
  have hcount := hlimit "main"
  revert hcount
  decide +kernel

end SubagentManager

end RavBot.Core
