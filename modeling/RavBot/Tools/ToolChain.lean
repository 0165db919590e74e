import RavBot.Lib.Effect
import RavBot.Lib.Json
import RavBot.Lib.Replacement

/-!
# Chains of tools

A chain calls tools one after the other.  The strings in the arguments of a call may name results of the
calls before it.  What calls a tool is an argument, as it is in the code.

The tool of `ToolRegistry` that runs a chain calls itself when a step names it.  The arguments of a step lie
deeper in the parameters than the chain does, and what is put into their strings does not change that
(`depth_resolve`, `depth_lt_of_parseChain`), so that these calls come to an end.
-/

namespace RavBot.Tools

open RavBot.Lib

def typeError : String := "type_error"

structure ChainStep where
  toolName : String
  arguments : Json

inductive ChainErrorPolicy where
  | stopOnError
  | continueOnError
  | retry
deriving DecidableEq, Repr

structure ToolChainDef where
  name : String
  description : String
  steps : List ChainStep
  errorPolicy : ChainErrorPolicy
  maxRetries : Int

structure ChainStepResult where
  stepIndex : Nat
  toolName : String
  result : String
  error : String
  success : Bool
deriving DecidableEq, Repr

structure ChainResult where
  chainName : String
  stepResults : List ChainStepResult
  success : Bool
  finalResult : String
deriving DecidableEq, Repr

/-! ## Templates -/

namespace ChainTemplateEngine

def prevToken : List Char := "\x7b\x7bprev.result\x7d\x7d".toList

/-- The number in a text that stands for the result of a call, where a text begins with one, and how long
that is. -/
def stepToken? (s : List Char) : Option (List Char × Nat) :=
  let opening := "\x7b\x7bsteps[".toList
  let closing := "].result\x7d\x7d".toList
  let digits := (s.drop opening.length).takeWhile Char.isDigit
  if opening.isPrefixOf s ∧ digits ≠ [] ∧ closing.isPrefixOf (s.drop (opening.length + digits.length)) then
    some (digits, opening.length + digits.length + closing.length)
  else none

/-- The second loop, where `k` characters of what was replaced are still to be skipped.  A number that is no
`int` makes it throw. -/
def resolveSteps (previousResults : List ChainStepResult) : Nat → List Char → Option (List Char)
  | _, [] => some []
  | k + 1, _ :: s => resolveSteps previousResults k s
  | 0, c :: s =>
    match stepToken? (c :: s) with
    | some (digits, length) =>
      (Text.stoi digits).bind fun index =>
        (resolveSteps previousResults (length - 1) s).map fun rest =>
          (if 0 ≤ index ∧ index < previousResults.length then
            (previousResults[index.toNat]?.elim "" (·.result)).toList else []) ++ rest
    | none => (resolveSteps previousResults 0 s).map (c :: ·)

def resolveString (tmpl : String) (previousResults : List ChainStepResult) : Option String :=
  let replacement := (previousResults.getLast?.elim "" (·.result)).toList
  let result := replaceAll
    (fun s => if prevToken.isPrefixOf s then some prevToken.length else none) replacement tmpl.toList
  (resolveSteps previousResults 0 result).map String.ofList

mutual

def resolve (previousResults : List ChainStepResult) : Json → Option Json
  | .str s => (resolveString s previousResults).map .str
  | .obj fields => (resolveFields previousResults fields).map .obj
  | .arr items => (resolveItems previousResults items).map .arr
  | value => some value

/-- The loop over the fields of an object. -/
def resolveFields (previousResults : List ChainStepResult) :
    List (String × Json) → Option (List (String × Json))
  | [] => some []
  | (key, val) :: fields =>
    (resolve previousResults val).bind fun resolved =>
      (resolveFields previousResults fields).map ((key, resolved) :: ·)

/-- The loop over the items of an array. -/
def resolveItems (previousResults : List ChainStepResult) : List Json → Option (List Json)
  | [] => some []
  | item :: items =>
    (resolve previousResults item).bind fun resolved =>
      (resolveItems previousResults items).map (resolved :: ·)

end

end ChainTemplateEngine

/-! ## Execution -/

namespace ToolChainExecutor

variable {σ : Type}

/-- The loop over the attempts of a step, of which so many are left.  It ends with the result of the call or
with what was thrown last. -/
def tryStep (executor : String → Json → Effect σ String) (toolName : String) (args : Json) :
    Nat → String → Effect σ (Except String String)
  | 0, error => return .error error
  | n + 1, _ => do
      match ← (executor toolName args).attempt with
      | .ok result => return .ok result
      | .error error => tryStep executor toolName args n error

def finalResult (results : List ChainStepResult) : String :=
  (results.reverse.find? (·.success)).elim "" (·.result)

/-- The loop over the steps that are left. -/
def executeSteps (executor : String → Json → Effect σ String) (chain : ToolChainDef) :
    List ChainStep → List ChainStepResult → Bool → Effect σ ChainResult
  | [], results, success => return ⟨chain.name, results, success, finalResult results⟩
  | step :: steps, results, success => do
      let resolvedArgs ← Effect.ofOption "stoi" (ChainTemplateEngine.resolve results step.arguments)
      -- The arguments are dumped for the log.
      let _ ← Effect.ofOption typeError resolvedArgs.dump
      let maxAttempts := if chain.errorPolicy = .retry then chain.maxRetries else 1
      match ← tryStep executor step.toolName resolvedArgs maxAttempts.toNat "" with
      | .ok result =>
        executeSteps executor chain steps
          (results ++ [⟨results.length, step.toolName, result, "", true⟩]) success
      | .error error =>
        let results' := results ++ [⟨results.length, step.toolName, "", error, false⟩]
        if chain.errorPolicy = .stopOnError ∨ chain.errorPolicy = .retry then
          return ⟨chain.name, results', false,
            "Chain stopped at step " ++ toString results.length ++ ": " ++ error⟩
        else executeSteps executor chain steps results' false

def execute (executor : String → Json → Effect σ String) (chain : ToolChainDef) : Effect σ ChainResult :=
  executeSteps executor chain chain.steps [] true

/-- A step of `ParseChain`. -/
def parseStep (j : Json) : Option ChainStep := do
  let toolName ← j.value Json.getString "tool" ""
  let arguments ← j.value some "arguments" (.obj [])
  return ⟨toolName, arguments⟩

/-- What `ParseChain` makes of the steps. -/
def parseSteps (j : Json) : Option (List ChainStep) :=
  match j.find? "steps" with
  | some (.arr items) => items.mapM parseStep
  | _ => some []

/-- `none` when an access throws. -/
def parseChain (j : Json) : Option ToolChainDef := do
  let name ← j.value Json.getString "name" "unnamed-chain"
  let description ← j.value Json.getString "description" ""
  let policyStr ← j.value Json.getString "error_policy" "stop_on_error"
  let errorPolicy :=
    if policyStr = "continue_on_error" then ChainErrorPolicy.continueOnError
    else if policyStr = "retry" then .retry
    else .stopOnError
  let maxRetries ← j.value Json.getInt "max_retries" 1
  let steps ← parseSteps j
  return ⟨name, description, steps, errorPolicy, maxRetries⟩

def stepToJson (r : ChainStepResult) : Json :=
  .object ([("step", .int r.stepIndex), ("tool", .str r.toolName), ("success", .bool r.success),
    ("result", .str r.result)] ++ if r.error ≠ "" then [("error", .str r.error)] else [])

def resultToJson (r : ChainResult) : Json :=
  .object [("chain_name", .str r.chainName), ("success", .bool r.success),
    ("final_result", .str r.finalResult), ("steps", .arr (r.stepResults.map stepToJson))]

end ToolChainExecutor

/-! ## How deep arguments lie -/

namespace ChainTemplateEngine

mutual

theorem depth_resolve {results : List ChainStepResult} :
    ∀ {j j' : Json}, resolve results j = some j' → j'.depth = j.depth
  | .str s, _, h => by
      rw [resolve, Option.map_eq_some_iff] at h
      rcases h with ⟨s', -, rfl⟩
      rfl
  | .obj fields, _, h => by
      rw [resolve, Option.map_eq_some_iff] at h
      rcases h with ⟨fields', hfields, rfl⟩
      rw [Json.depth, Json.depth, depth_resolveFields hfields]
  | .arr items, _, h => by
      rw [resolve, Option.map_eq_some_iff] at h
      rcases h with ⟨items', hitems, rfl⟩
      rw [Json.depth, Json.depth, depth_resolveItems hitems]
  | .null, _, h => by cases h; rfl
  | .bool _, _, h => by cases h; rfl
  | .int _, _, h => by cases h; rfl
  | .real _, _, h => by cases h; rfl

theorem depth_resolveFields {results : List ChainStepResult} :
    ∀ {fields fields' : List (String × Json)}, resolveFields results fields = some fields' →
      Json.fieldsDepth fields' = Json.fieldsDepth fields
  | [], _, h => by cases h; rfl
  | (key, val) :: fields, _, h => by
      rw [resolveFields, Option.bind_eq_some_iff] at h
      rcases h with ⟨resolved, hresolved, h⟩
      rw [Option.map_eq_some_iff] at h
      rcases h with ⟨rest, hrest, rfl⟩
      rw [Json.fieldsDepth, Json.fieldsDepth, depth_resolve hresolved, depth_resolveFields hrest]

theorem depth_resolveItems {results : List ChainStepResult} :
    ∀ {items items' : List Json}, resolveItems results items = some items' →
      Json.itemsDepth items' = Json.itemsDepth items
  | [], _, h => by cases h; rfl
  | item :: items, _, h => by
      rw [resolveItems, Option.bind_eq_some_iff] at h
      rcases h with ⟨resolved, hresolved, h⟩
      rw [Option.map_eq_some_iff] at h
      rcases h with ⟨rest, hrest, rfl⟩
      rw [Json.itemsDepth, Json.itemsDepth, depth_resolve hresolved, depth_resolveItems hrest]

end

end ChainTemplateEngine

namespace ToolChainExecutor

variable {σ : Type}

theorem depth_le_of_parseStep {j : Json} {step : ChainStep} (h : parseStep j = some step) :
    step.arguments.depth ≤ j.depth := by
  simp only [parseStep, Option.bind_eq_bind, Option.bind_eq_some_iff, Option.pure_def,
    Option.some.injEq] at h
  rcases h with ⟨toolName, -, arguments, harguments, rfl⟩
  cases j with
  | obj fields =>
    rw [Json.value] at harguments
    cases hfind : (Json.obj fields).find? "arguments" with
    | none =>
      rw [hfind] at harguments
      cases harguments
      exact Nat.le_add_left 1 _
    | some v =>
      rw [hfind] at harguments
      cases harguments
      exact (Json.depth_lt_of_find? hfind).le
  | _ => cases harguments

theorem depth_lt_of_parseChain {j : Json} {chain : ToolChainDef} (h : parseChain j = some chain) :
    ∀ step ∈ chain.steps, step.arguments.depth < j.depth := by
  simp only [parseChain, Option.bind_eq_bind, Option.bind_eq_some_iff, Option.pure_def,
    Option.some.injEq] at h
  rcases h with ⟨name, -, description, -, policyStr, -, maxRetries, -, steps, hsteps, rfl⟩
  intro step hstep
  rw [parseSteps] at hsteps
  split at hsteps
  · rename_i items hfind
    rw [mapM_eq_some_iff] at hsteps
    obtain ⟨item, hitem, hparse⟩ := exists_of_forall₂ hsteps.flip step hstep
    calc step.arguments.depth ≤ item.depth := depth_le_of_parseStep hparse
      _ < (Json.arr items).depth := Json.depth_lt_of_mem hitem
      _ < j.depth := Json.depth_lt_of_find? hfind
  · cases hsteps
    cases hstep

theorem tryStep_congr {executor executor' : String → Json → Effect σ String} {toolName : String} {args : Json}
    (h : executor toolName args = executor' toolName args) (n : Nat) (error : String) :
    tryStep executor toolName args n error = tryStep executor' toolName args n error := by
  induction n generalizing error with
  | zero => rfl
  | succ n ih =>
    rw [tryStep, tryStep, h]
    refine congrArg _ (funext fun result => ?_)
    cases result with
    | ok result => rfl
    | error error => exact ih error

theorem execute_congr {executor executor' : String → Json → Effect σ String} {depth : Nat}
    (h : ∀ toolName args, args.depth < depth → executor toolName args = executor' toolName args)
    {chain : ToolChainDef} (hchain : ∀ step ∈ chain.steps, step.arguments.depth < depth) :
    execute executor chain = execute executor' chain := by
  have hsteps (steps : List ChainStep) (hsub : ∀ step ∈ steps, step.arguments.depth < depth) :
      ∀ results success, executeSteps executor chain steps results success =
        executeSteps executor' chain steps results success := by
    induction steps with
    | nil => exact fun _ _ => rfl
    | cons step steps ih =>
      rw [List.forall_mem_cons] at hsub
      intro results success
      rw [executeSteps, executeSteps]
      refine Effect.ofOption_bind_congr fun args hresolve => ?_
      have hargs := h step.toolName args (by
        rw [ChainTemplateEngine.depth_resolve hresolve]
        exact hsub.1)
      refine Effect.ofOption_bind_congr fun _ _ => ?_
      dsimp only
      rw [tryStep_congr hargs]
      refine congrArg _ (funext fun result => ?_)
      cases result with
      | ok result => exact ih hsub.2 _ _
      | error error =>
        dsimp only
        split
        · rfl
        · exact ih hsub.2 _ _
  exact hsteps chain.steps hchain [] true

/-! ## Invariants -/

theorem preserves_execute {P : σ → Prop} {executor : String → Json → Effect σ String}
    (h : ∀ toolName args, Effect.Preserves P (executor toolName args)) (chain : ToolChainDef) :
    Effect.Preserves P (execute executor chain) := by
  have htry (toolName : String) (args : Json) (n : Nat) :
      ∀ error, Effect.Preserves P (tryStep executor toolName args n error) := by
    induction n with
    | zero => exact fun error => .pure _
    | succ n ih =>
      intro error
      rw [tryStep]
      refine (h toolName args).attempt.bind fun result => ?_
      cases result with
      | ok result => exact .pure _
      | error error => exact ih error
  have hsteps (steps : List ChainStep) :
      ∀ results success, Effect.Preserves P (executeSteps executor chain steps results success) := by
    induction steps with
    | nil => exact fun _ _ => .pure _
    | cons step steps ih =>
      intro results success
      rw [executeSteps]
      refine (Effect.Preserves.ofOption _ _).bind fun args => ?_
      refine (Effect.Preserves.ofOption _ _).bind fun _ => ?_
      refine (htry step.toolName args _ "").bind fun result => ?_
      cases result with
      | ok result => exact ih _ _
      | error error =>
        dsimp only
        split
        · exact .pure _
        · exact ih _ _
  exact hsteps chain.steps [] true

end ToolChainExecutor

end RavBot.Tools
