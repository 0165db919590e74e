import RavBot.Tools.ToolChain

/-!
# The account of a chain

`Execute` is to return an account of a chain: an entry for each step that was attempted (`IsAccount`).  How
often a tool was called cannot be told from the entries, so the executor is given a record of its calls
(`recorded`), which changes nothing else (`simulates_execute`).

`Reaches` says how far a chain comes and with which results, in terms of what the tools do.  The templates
of the next step are resolved outside the `try`, and whether that goes well is all that matters there
(`account_iff`).
-/

open List

namespace RavBot.Tools.ToolChainExecutor

open RavBot.Lib

variable {σ : Type}

/-! ## Calls -/

/-- A call of a tool and what came of it. -/
structure Call where
  toolName : String
  args : Json
  outcome : Except String String

def recorded (executor : String → Json → Effect σ String) (toolName : String) (args : Json) :
    Effect (σ × List Call) String := fun (s, calls) =>
  match (executor toolName args).outcome s with
  | (outcome, s') => (outcome, (s', calls ++ [⟨toolName, args, outcome⟩]))

theorem outcome_recorded (executor : String → Json → Effect σ String) (toolName : String) (args : Json)
    (s : σ) (calls : List Call) :
    (recorded executor toolName args).outcome (s, calls) =
      (((executor toolName args).outcome s).1, (((executor toolName args).outcome s).2,
        calls ++ [⟨toolName, args, ((executor toolName args).outcome s).1⟩])) := rfl

theorem simulates_execute {τ : Type} {f : τ → σ} {executor' : String → Json → Effect τ String}
    {executor : String → Json → Effect σ String}
    (h : ∀ toolName args, Effect.Simulates f (executor' toolName args) (executor toolName args))
    (chain : ToolChainDef) : Effect.Simulates f (execute executor' chain) (execute executor chain) := by
  have htry (toolName : String) (args : Json) (n : Nat) : ∀ error, Effect.Simulates f
      (tryStep executor' toolName args n error) (tryStep executor toolName args n error) := by
    induction n with
    | zero => exact fun error => .pure _
    | succ n ih =>
      intro error
      rw [tryStep, tryStep]
      refine (h toolName args).attempt.bind fun result => ?_
      cases result with
      | ok result => exact .pure _
      | error error => exact ih error
  have hsteps (steps : List ChainStep) : ∀ results success, Effect.Simulates f
      (executeSteps executor' chain steps results success)
      (executeSteps executor chain steps results success) := by
    induction steps with
    | nil => exact fun _ _ => .pure _
    | cons step steps ih =>
      intro results success
      rw [executeSteps, executeSteps]
      refine (Effect.Simulates.ofOption _ _).bind fun args => ?_
      refine (Effect.Simulates.ofOption _ _).bind fun _ => ?_
      refine (htry step.toolName args _ "").bind fun result => ?_
      cases result with
      | ok result => exact ih _ _
      | error error =>
        dsimp only
        split
        · exact .pure _
        · exact ih _ _
  exact hsteps chain.steps [] true

def callsOf (executor : String → Json → Effect σ String) (chain : ToolChainDef) (s : σ) : List Call :=
  ((execute (recorded executor) chain).outcome (s, [])).2.2

theorem outcome_execute_recorded (executor : String → Json → Effect σ String) (chain : ToolChainDef)
    (s : σ) :
    ((execute (recorded executor) chain).outcome (s, [])).1 = ((execute executor chain).outcome s).1 :=
  (simulates_execute (fun _ _ => fun _ => ⟨rfl, rfl⟩ :
    ∀ toolName args, Effect.Simulates Prod.fst (recorded executor toolName args)
      (executor toolName args)) chain (s, [])).1

/-! ## What an account is -/

/-- A step that was attempted: its entry, and the calls that were made for it. -/
structure Attempted where
  result : ChainStepResult
  calls : List Call

/-- The entry of the `i`-th step tells what came of it. -/
structure IsEntry (chain : ToolChainDef) (i : Nat) (step : ChainStep) (attempted : Attempted) : Prop where
  stepIndex : attempted.result.stepIndex = i
  toolName : attempted.result.toolName = step.toolName
  called : 1 ≤ attempted.calls.length
  calls_le : (attempted.calls.length : Int) ≤ max 1 chain.maxRetries
  tool : ∀ call ∈ attempted.calls, call.toolName = step.toolName
  last : ∃ call, attempted.calls.getLast? = some call ∧ call.outcome =
    if attempted.result.success then .ok attempted.result.result else .error attempted.result.error

/-- The steps that were attempted are the first ones of the chain, one entry for each. -/
def AreEntries (chain : ToolChainDef) (attempted : List Attempted) : Prop :=
  ∀ i a, attempted[i]? = some a → ∃ step, chain.steps[i]? = some step ∧ IsEntry chain i step a

/-- The result of a chain and the calls that were made are an account of it. -/
structure IsAccount (chain : ToolChainDef) (result : ChainResult) (calls : List Call) : Prop where
  entries : ∃ attempted : List Attempted, result.stepResults = attempted.map (·.result) ∧
    calls = attempted.flatMap (·.calls) ∧ AreEntries chain attempted
  success_iff : result.success = true ↔
    result.stepResults.length = chain.steps.length ∧ ∀ r ∈ result.stepResults, r.success = true
  stops : chain.errorPolicy ≠ .continueOnError → ∀ r ∈ result.stepResults.dropLast, r.success = true
  finalResult : result.success = true →
    result.finalResult = result.stepResults.getLast?.elim "" (·.result)

/-- `Execute` does not throw and returns an account. -/
def Accounted (executor : String → Json → Effect σ String) (chain : ToolChainDef) (s : σ) : Prop :=
  ∃ result, ((execute executor chain).outcome s).1 = .ok result ∧
    IsAccount chain result (callsOf executor chain s)

/-! ## How far a chain comes -/

/-- Calling a tool until it succeeds, so many times at most. -/
inductive Attempts (executor : String → Json → Effect σ String) (toolName : String) (args : Json) :
    Nat → σ → List Call → Except String String → σ → Prop
  | success {n : Nat} {s s' : σ} {result : String}
      (hcall : (executor toolName args).outcome s = (.ok result, s')) :
      Attempts executor toolName args (n + 1) s [⟨toolName, args, .ok result⟩] (.ok result) s'
  | last {s s' : σ} {error : String} (hcall : (executor toolName args).outcome s = (.error error, s')) :
      Attempts executor toolName args 1 s [⟨toolName, args, .error error⟩] (.error error) s'
  | again {n : Nat} {s s₁ s' : σ} {error : String} {calls : List Call} {outcome : Except String String}
      (hcall : (executor toolName args).outcome s = (.error error, s₁))
      (hrest : Attempts executor toolName args (n + 1) s₁ calls outcome s') :
      Attempts executor toolName args (n + 2) s (⟨toolName, args, .error error⟩ :: calls) outcome s'

def entryOf (i : Nat) (toolName : String) : Except String String → ChainStepResult
  | .ok result => ⟨i, toolName, result, "", true⟩
  | .error error => ⟨i, toolName, "", error, false⟩

def maxAttempts (chain : ToolChainDef) : Nat :=
  (if chain.errorPolicy = .retry then chain.maxRetries else 1).toNat

/-- The arguments with which a step is called after such results: its templates can be resolved, and what
comes of them is UTF-8. -/
def IsReady (results : List ChainStepResult) (step : ChainStep) (args : Json) : Prop :=
  ChainTemplateEngine.resolve results step.arguments = some args ∧ args.isUtf8 = true

/-- A chain comes so far: these steps have been attempted, and it goes on after each of them. -/
inductive Reaches (executor : String → Json → Effect σ String) (chain : ToolChainDef) (s : σ) :
    List Attempted → σ → Prop
  | start : Reaches executor chain s [] s
  | step {attempted : List Attempted} {s₁ s₂ : σ} {step : ChainStep} {args : Json} {calls : List Call}
      {outcome : Except String String} (hreaches : Reaches executor chain s attempted s₁)
      (hstep : chain.steps[attempted.length]? = some step)
      (hready : IsReady (attempted.map (·.result)) step args)
      (hattempts : Attempts executor step.toolName args (maxAttempts chain) s₁ calls outcome s₂)
      (hgoes : outcome.isOk = true ∨ chain.errorPolicy = .continueOnError) :
      Reaches executor chain s
        (attempted ++ [⟨entryOf attempted.length step.toolName outcome, calls⟩]) s₂

/-- Where a chain comes to a step, the step is ready, and it may be tried. -/
structure Runnable (executor : String → Json → Effect σ String) (chain : ToolChainDef) (s : σ) :
    Prop where
  maxRetries : chain.steps ≠ [] → chain.errorPolicy = .retry → 1 ≤ chain.maxRetries
  ready : ∀ attempted s₁, Reaches executor chain s attempted s₁ →
    ∀ step, chain.steps[attempted.length]? = some step →
      ∃ args, IsReady (attempted.map (·.result)) step args

/-! ## The attempts of a step -/

namespace Attempts

variable {executor : String → Json → Effect σ String} {toolName : String} {args : Json} {n : Nat}
  {s s' : σ} {calls : List Call} {outcome : Except String String}

theorem exists_attempts (executor : String → Json → Effect σ String) (toolName : String) (args : Json)
    (n : Nat) (s : σ) :
    ∃ calls outcome s', Attempts executor toolName args (n + 1) s calls outcome s' := by
  induction n generalizing s with
  | zero =>
    rcases hcall : (executor toolName args).outcome s with ⟨error | result, s'⟩
    · exact ⟨_, _, _, .last hcall⟩
    · exact ⟨_, _, _, .success hcall⟩
  | succ n ih =>
    rcases hcall : (executor toolName args).outcome s with ⟨error | result, s₁⟩
    · obtain ⟨calls, outcome, s', hrest⟩ := ih s₁
      exact ⟨_, _, _, .again hcall hrest⟩
    · exact ⟨_, _, _, .success hcall⟩

theorem outcome_tryStep (h : Attempts executor toolName args n s calls outcome s') (before : List Call)
    (error : String) :
    (tryStep (recorded executor) toolName args n error).outcome (s, before) =
      (.ok outcome, (s', before ++ calls)) := by
  induction h generalizing before error with
  | success hcall =>
    rw [tryStep, Effect.outcome_bind, Effect.outcome_attempt, outcome_recorded, hcall]
    rfl
  | last hcall =>
    rw [tryStep, Effect.outcome_bind, Effect.outcome_attempt, outcome_recorded, hcall]
    rfl
  | again hcall _ ih =>
    rw [tryStep, Effect.outcome_bind, Effect.outcome_attempt, outcome_recorded, hcall]
    refine (ih _ _).trans ?_
    rw [append_assoc]
    rfl

theorem length_pos (h : Attempts executor toolName args n s calls outcome s') : 1 ≤ calls.length := by
  cases h <;> exact Nat.le_add_left 1 _

theorem length_le (h : Attempts executor toolName args n s calls outcome s') : calls.length ≤ n := by
  induction h with
  | success => exact Nat.le_add_left 1 _
  | last => exact Nat.le_refl 1
  | again _ _ ih => exact Nat.succ_le_succ ih

theorem toolName_eq (h : Attempts executor toolName args n s calls outcome s') :
    ∀ call ∈ calls, call.toolName = toolName := by
  induction h with
  | success => simp
  | last => simp
  | again _ _ ih => exact forall_mem_cons.2 ⟨rfl, ih⟩

theorem exists_getLast? (h : Attempts executor toolName args n s calls outcome s') :
    ∃ call, calls.getLast? = some call ∧ call.outcome = outcome := by
  induction h with
  | success => exact ⟨_, rfl, rfl⟩
  | last => exact ⟨_, rfl, rfl⟩
  | again _ _ ih =>
    obtain ⟨call, hlast, houtcome⟩ := ih
    refine ⟨call, ?_, houtcome⟩
    rw [getLast?_cons, hlast]
    rfl

theorem isEntry {chain : ToolChainDef} {step : ChainStep}
    (h : Attempts executor step.toolName args (maxAttempts chain) s calls outcome s') (i : Nat) :
    IsEntry chain i step ⟨entryOf i step.toolName outcome, calls⟩ where
  stepIndex := by cases outcome <;> rfl
  toolName := by cases outcome <;> rfl
  called := h.length_pos
  calls_le := by
    have hpos := h.length_pos
    have hle := h.length_le
    rw [maxAttempts] at hle
    dsimp only
    split at hle <;> omega
  tool := h.toolName_eq
  last := by
    obtain ⟨call, hlast, houtcome⟩ := h.exists_getLast?
    refine ⟨call, hlast, houtcome.trans ?_⟩
    cases outcome <;> rfl

end Attempts

/-! ## The steps -/

section

variable {executor : String → Json → Effect σ String} {chain : ToolChainDef} {s s₁ s₂ : σ}
  {attempted : List Attempted} {step : ChainStep} {steps : List ChainStep} {args : Json}
  {calls before : List Call} {outcome : Except String String} {results : List ChainStepResult}
  {success : Bool}

theorem ready_of_executeSteps {result : ChainResult}
    (h : ((executeSteps (recorded executor) chain (step :: steps) results success).outcome
      (s, before)).1 = .ok result) : ∃ args, IsReady results step args := by
  rw [executeSteps, Effect.outcome_bind] at h
  cases hresolve : ChainTemplateEngine.resolve results step.arguments with
  | none =>
    rw [hresolve] at h
    cases h
  | some args =>
    refine ⟨args, hresolve, ?_⟩
    by_contra hutf8
    have hdump : args.dump = none := by rw [Json.dump, if_neg hutf8]
    rw [hresolve] at h
    change (Effect.outcome (Effect.ofOption typeError args.dump >>= _) (s, before)).1 = _ at h
    rw [Effect.outcome_bind, hdump] at h
    cases h

theorem executeSteps_of_ready (h : IsReady results step args) :
    (executeSteps (recorded executor) chain (step :: steps) results success).outcome (s, before) =
      (tryStep (recorded executor) step.toolName args (maxAttempts chain) "" >>= fun
        | .ok result => executeSteps (recorded executor) chain steps
            (results ++ [⟨results.length, step.toolName, result, "", true⟩]) success
        | .error error =>
          if chain.errorPolicy = .stopOnError ∨ chain.errorPolicy = .retry then
            pure ⟨chain.name, results ++ [⟨results.length, step.toolName, "", error, false⟩], false,
              "Chain stopped at step " ++ toString results.length ++ ": " ++ error⟩
          else executeSteps (recorded executor) chain steps
            (results ++ [⟨results.length, step.toolName, "", error, false⟩]) false).outcome
        (s, before) := by
  obtain ⟨hresolve, hutf8⟩ := h
  rw [executeSteps, hresolve]
  show (Effect.outcome (Effect.ofOption typeError args.dump >>= _) (s, before)) = _
  rw [Json.dump, if_pos hutf8]
  rfl

theorem executeSteps_cons (hready : IsReady results step args)
    (hattempts : Attempts executor step.toolName args (maxAttempts chain) s calls outcome s₂) :
    (executeSteps (recorded executor) chain (step :: steps) results success).outcome (s, before) =
      (if outcome.isOk = true ∨ chain.errorPolicy = .continueOnError then
        executeSteps (recorded executor) chain steps
          (results ++ [entryOf results.length step.toolName outcome]) (success && outcome.isOk)
      else pure ⟨chain.name, results ++ [entryOf results.length step.toolName outcome], false,
        "Chain stopped at step " ++ toString results.length ++ ": " ++
          (entryOf results.length step.toolName outcome).error⟩).outcome
        (s₂, before ++ calls) := by
  rw [executeSteps_of_ready hready, Effect.outcome_bind, hattempts.outcome_tryStep]
  cases outcome with
  | ok result =>
    rw [if_pos (.inl rfl), show (Except.ok result : Except String String).isOk = true from rfl,
      Bool.and_true]
    rfl
  | error error =>
    rw [show (Except.error error : Except String String).isOk = false from rfl, Bool.and_false]
    cases hpolicy : chain.errorPolicy with
    | stopOnError => rfl
    | continueOnError => rfl
    | retry => rfl

theorem execute_of_reaches (h : Reaches executor chain s attempted s₁) :
    (execute (recorded executor) chain).outcome (s, []) =
      (executeSteps (recorded executor) chain (chain.steps.drop attempted.length)
        (attempted.map (·.result)) (attempted.all (·.result.success))).outcome
        (s₁, attempted.flatMap (·.calls)) := by
  induction h with
  | start => rfl
  | @step attempted s₁ s₂ step args calls outcome _ hstep hready hattempts hgoes ih =>
    obtain ⟨hlt, hget⟩ := List.getElem?_eq_some_iff.1 hstep
    have hsuccess : (entryOf attempted.length step.toolName outcome).success = outcome.isOk := by
      cases outcome <;> rfl
    rw [ih, drop_eq_getElem_cons hlt, hget, executeSteps_cons hready hattempts, if_pos hgoes,
      length_map, map_append, all_append, flatMap_append, length_append]
    simp only [map_cons, map_nil, all_cons, all_nil, flatMap_cons,
      flatMap_nil, append_nil, length_cons, length_nil, Bool.and_true, hsuccess,
      Nat.zero_add]

theorem AreEntries.concat (h : AreEntries chain attempted)
    (hstep : chain.steps[attempted.length]? = some step) {a : Attempted}
    (ha : IsEntry chain attempted.length step a) : AreEntries chain (attempted ++ [a]) := by
  intro i a' hget
  rcases Nat.lt_trichotomy i attempted.length with hlt | rfl | hgt
  · rw [getElem?_append_left hlt] at hget
    exact h i a' hget
  · rw [getElem?_concat_length] at hget
    cases hget
    exact ⟨step, hstep, ha⟩
  · rw [getElem?_eq_none] at hget
    · cases hget
    · rw [length_append, length_singleton]
      exact hgt

theorem Reaches.areEntries (h : Reaches executor chain s attempted s₁) : AreEntries chain attempted := by
  induction h with
  | start => exact fun i a hget => by cases hget
  | step _ hstep _ hattempts _ ih => exact ih.concat hstep (hattempts.isEntry _)

theorem Reaches.succeeded (h : Reaches executor chain s attempted s₁)
    (hpolicy : chain.errorPolicy ≠ .continueOnError) : ∀ a ∈ attempted, a.result.success = true := by
  induction h with
  | start => exact fun a ha => absurd ha not_mem_nil
  | @step _ _ _ _ _ _ outcome _ _ _ _ hgoes ih =>
    refine forall_mem_append.2 ⟨ih, forall_mem_singleton.2 ?_⟩
    cases outcome with
    | ok result => rfl
    | error error => exact absurd (hgoes.resolve_left Bool.false_ne_true) hpolicy

theorem AreEntries.length_le (h : AreEntries chain attempted) : attempted.length ≤ chain.steps.length := by
  cases hlength : attempted.length with
  | zero => exact Nat.zero_le _
  | succ n =>
    have hlt : n < attempted.length := hlength ▸ Nat.lt_succ_self n
    obtain ⟨step, hstep, -⟩ := h n attempted[n] (getElem?_eq_getElem hlt)
    exact (List.getElem?_eq_some_iff.1 hstep).1

/-! ## The account -/

theorem finalResult_of_success (h : ∀ r ∈ results, r.success = true) :
    finalResult results = results.getLast?.elim "" (·.result) := by
  rw [finalResult, ← head?_reverse]
  have hreverse : ∀ r ∈ results.reverse, r.success = true := fun r hr => h r (mem_reverse.1 hr)
  cases hlist : results.reverse with
  | nil => rfl
  | cons r rest =>
    rw [hlist] at hreverse
    rw [find?_cons_of_pos (hreverse r mem_cons_self)]
    rfl

theorem Reaches.isAccount (h : Reaches executor chain s attempted s₁)
    (hend : chain.steps.length ≤ attempted.length) :
    IsAccount chain ⟨chain.name, attempted.map (·.result), attempted.all (·.result.success),
      finalResult (attempted.map (·.result))⟩ (attempted.flatMap (·.calls)) where
  entries := ⟨attempted, rfl, rfl, h.areEntries⟩
  success_iff := by
    have hlength := le_antisymm h.areEntries.length_le hend
    simp [hlength]
  stops := by
    intro hpolicy r hr
    obtain ⟨a, ha, rfl⟩ := mem_map.1 (mem_of_mem_dropLast hr)
    exact h.succeeded hpolicy a ha
  finalResult := by
    intro hsuccess
    refine finalResult_of_success fun r hr => ?_
    obtain ⟨a, ha, rfl⟩ := mem_map.1 hr
    exact all_eq_true.1 hsuccess a ha

theorem Reaches.isAccount_of_error {error finalText : String}
    (h : Reaches executor chain s attempted s₁)
    (hstep : chain.steps[attempted.length]? = some step)
    (hattempts : Attempts executor step.toolName args (maxAttempts chain) s₁ calls (.error error) s₂)
    (hpolicy : chain.errorPolicy ≠ .continueOnError) :
    IsAccount chain ⟨chain.name, attempted.map (·.result) ++
        [entryOf attempted.length step.toolName (.error error)], false, finalText⟩
      (attempted.flatMap (·.calls) ++ calls) where
  entries := by
    refine ⟨attempted ++ [⟨entryOf attempted.length step.toolName (.error error), calls⟩], ?_, ?_,
      h.areEntries.concat hstep (hattempts.isEntry _)⟩
    · rw [map_append, map_singleton]
    · rw [flatMap_append, flatMap_singleton]
  success_iff := by
    refine iff_of_false Bool.false_ne_true fun hall => ?_
    have hfailed := hall.2 _ (mem_append_right _ (mem_singleton_self _))
    exact Bool.false_ne_true hfailed
  stops := by
    intro _ r hr
    rw [dropLast_concat] at hr
    obtain ⟨a, ha, rfl⟩ := mem_map.1 hr
    exact h.succeeded hpolicy a ha
  finalResult := fun hsuccess => absurd hsuccess Bool.false_ne_true

theorem Runnable.exists_account (h : Runnable executor chain s)
    (hreaches : Reaches executor chain s attempted s₁) :
    ∃ result s' calls, (execute (recorded executor) chain).outcome (s, []) = (.ok result, (s', calls)) ∧
      IsAccount chain result calls := by
  induction hleft : chain.steps.length - attempted.length generalizing attempted s₁ with
  | zero =>
    have hend : chain.steps.length ≤ attempted.length := Nat.le_of_sub_eq_zero hleft
    refine ⟨_, s₁, attempted.flatMap (·.calls), ?_, hreaches.isAccount hend⟩
    rw [execute_of_reaches hreaches, drop_eq_nil_of_le hend]
    rfl
  | succ n ih =>
    have hlt : attempted.length < chain.steps.length := by omega
    have hstep := getElem?_eq_getElem hlt
    obtain ⟨args, hready⟩ := h.ready _ _ hreaches _ hstep
    obtain ⟨tries, htries⟩ : ∃ tries, maxAttempts chain = tries + 1 := by
      refine Nat.exists_eq_succ_of_ne_zero fun hzero => ?_
      rw [maxAttempts] at hzero
      split at hzero
      · next hpolicy =>
          have hpos := h.maxRetries (ne_nil_of_length_pos (by omega)) hpolicy
          omega
      · cases hzero
    obtain ⟨calls, outcome, s₂, hattempts⟩ :=
      Attempts.exists_attempts executor chain.steps[attempted.length].toolName args tries s₁
    rw [← htries] at hattempts
    by_cases hgoes : outcome.isOk = true ∨ chain.errorPolicy = .continueOnError
    · refine ih (.step hreaches hstep hready hattempts hgoes) ?_
      rw [length_append, length_singleton]
      omega
    · rw [execute_of_reaches hreaches, drop_eq_getElem_cons hlt,
        executeSteps_cons hready hattempts, if_neg hgoes, length_map]
      rw [not_or] at hgoes
      cases outcome with
      | ok result => exact absurd rfl hgoes.1
      | error error => exact ⟨_, _, _, rfl, hreaches.isAccount_of_error hstep hattempts hgoes.2⟩

theorem not_isAccount_of_maxAttempts (hsteps : chain.steps ≠ []) (hmax : maxAttempts chain = 0)
    {result : ChainResult} (hresult : ((execute executor chain).outcome s).1 = .ok result) :
    ¬ IsAccount chain result (callsOf executor chain s) := by
  obtain ⟨step, steps, hcons⟩ := exists_cons_of_ne_nil hsteps
  intro haccount
  obtain ⟨attempted, hentries, hcalls, hare⟩ := haccount.entries
  rw [← outcome_execute_recorded, execute, hcons] at hresult
  rw [callsOf, execute, hcons] at hcalls
  obtain ⟨args, hready⟩ := ready_of_executeSteps hresult
  have hpolicy : chain.errorPolicy = .retry := by
    by_contra hpolicy
    rw [maxAttempts, if_neg hpolicy] at hmax
    cases hmax
  rw [executeSteps_of_ready hready, hmax, hpolicy] at hresult hcalls
  cases hresult
  cases attempted with
  | nil => cases hentries
  | cons a attempted =>
    obtain ⟨step', -, hentry⟩ := hare 0 a rfl
    have hcalled := hentry.called
    rw [flatMap_cons] at hcalls
    have hnil : a.calls = [] := (append_eq_nil_iff.1 hcalls.symm).1
    rw [hnil] at hcalled
    cases hcalled

end

/-- **`Execute` returns an account of the chain** exactly when every step that the chain comes to is ready
and, where steps are retried, they may be tried at all. -/
theorem account_iff (executor : String → Json → Effect σ String) (chain : ToolChainDef) (s : σ) :
    Accounted executor chain s ↔ Runnable executor chain s := by
  constructor
  · rintro ⟨result, hresult, haccount⟩
    refine ⟨fun hsteps hpolicy => ?_, fun attempted s₁ hreaches step hstep => ?_⟩
    · by_contra hmax
      refine not_isAccount_of_maxAttempts hsteps ?_ hresult haccount
      rw [maxAttempts, if_pos hpolicy]
      omega
    · obtain ⟨hlt, rfl⟩ := List.getElem?_eq_some_iff.1 hstep
      rw [← outcome_execute_recorded, execute_of_reaches hreaches, drop_eq_getElem_cons hlt] at hresult
      exact ready_of_executeSteps hresult
  · intro hrunnable
    obtain ⟨result, s', calls, hexecute, haccount⟩ := hrunnable.exists_account .start
    refine ⟨result, ?_, ?_⟩
    · rw [← outcome_execute_recorded, hexecute]
    · rw [callsOf, hexecute]
      exact haccount

def untried : ToolChainDef :=
  ⟨"demo", "", [⟨"echo", .obj []⟩], .retry, 0⟩

/-- The tool is not called, and the step has an entry all the same. -/
theorem not_accounted : ¬ Accounted (fun _ _ => pure "ok" : String → Json → Effect Unit String) untried () := by
  rintro ⟨result, hresult, haccount⟩
  exact not_isAccount_of_maxAttempts (cons_ne_nil _ _) rfl hresult haccount

end RavBot.Tools.ToolChainExecutor
