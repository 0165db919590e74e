import RavBot.Lib.MergePatch
import RavBot.Lib.StableSort
import RavBot.Lib.Table

/-!
# Hooks

A hook has handlers in the gateway (`HookManager`) and in the sidecar (`HookDispatcher`).  Both run those of a
modifying hook one after the other, the greatest priority first, and put their results together, the gateway
with `merge_patch` and the sidecar with a spread; and then the gateway merges what the sidecar answers.  In
the gateway a handler can stop this with `stop_propagation`.

`std::sort` may put handlers with the same priority in any order (`Sorter`).
-/

namespace RavBot.Plugins

open RavBot.Lib Json

/-! ## Modes -/

inductive HookMode where
  | void
  | modifying
  | sync
  deriving DecidableEq, Repr

def kHookModes : List (String × HookMode) :=
  [("before_model_resolve", .modifying), ("before_prompt_build", .modifying), ("before_agent_start", .modifying),
    ("message_sending", .modifying), ("before_tool_call", .modifying), ("subagent_spawning", .modifying),
    ("subagent_delivery_target", .modifying), ("tool_result_persist", .sync), ("before_message_write", .sync),
    ("llm_input", .void), ("llm_output", .void), ("agent_end", .void), ("before_compaction", .void),
    ("after_compaction", .void), ("before_reset", .void), ("message_received", .void), ("message_sent", .void),
    ("after_tool_call", .void), ("session_start", .void), ("session_end", .void), ("subagent_spawned", .void),
    ("subagent_ended", .void), ("gateway_start", .void), ("gateway_stop", .void)]

def getHookMode (hookName : String) : HookMode := (kHookModes.lookup hookName).getD .void

/-- `HOOK_MODES` of the sidecar. -/
def sidecarHookModes : List (String × HookMode) :=
  [("before_model_resolve", .modifying), ("before_prompt_build", .modifying), ("before_agent_start", .modifying),
    ("llm_input", .void), ("llm_output", .void), ("agent_end", .void), ("before_compaction", .void),
    ("after_compaction", .void), ("before_reset", .void), ("message_received", .void),
    ("message_sending", .modifying), ("message_sent", .void), ("before_tool_call", .modifying),
    ("after_tool_call", .void), ("tool_result_persist", .sync), ("before_message_write", .sync),
    ("session_start", .void), ("session_end", .void), ("subagent_spawning", .modifying),
    ("subagent_delivery_target", .modifying), ("subagent_spawned", .void), ("subagent_ended", .void),
    ("gateway_start", .void), ("gateway_stop", .void)]

/-- `getMode` of the sidecar. -/
def getMode (hookName : String) : HookMode := (sidecarHookModes.lookup hookName).getD .void

structure ModifyingHook where
  name : String
  modifying : getHookMode name = .modifying

theorem getMode_eq (hookName : String) : getMode hookName = getHookMode hookName := by
  have hgateway : ∀ e ∈ kHookModes, getMode e.1 = e.2 := by decide +kernel
  have hsidecar : ∀ e ∈ sidecarHookModes, getHookMode e.1 = e.2 := by decide +kernel
  cases h : kHookModes.lookup hookName with
  | some mode =>
    obtain ⟨before, after, htable, -⟩ := List.lookup_eq_some_iff.1 h
    rw [hgateway (hookName, mode) (by rw [htable]; simp), getHookMode, h]
    rfl
  | none =>
    cases h' : sidecarHookModes.lookup hookName with
    | some mode =>
      obtain ⟨before, after, htable, -⟩ := List.lookup_eq_some_iff.1 h'
      rw [hsidecar (hookName, mode) (by rw [htable]; simp), getMode, h']
      rfl
    | none => rw [getMode, getHookMode, h, h']

/-! ## Handlers -/

/-- What a handler does with the event: it returns an object, or nothing, or throws. -/
inductive HookOutcome where
  | object (result : Object)
  | nothing
  | throws

structure HookRegistration where
  pluginId : String
  hookName : String
  outcome : HookOutcome
  priority : Int

namespace HookRegistration

def result? (reg : HookRegistration) : Option Object :=
  match reg.outcome with
  | .object result => some result
  | _ => none

/-- A handler asks to stop when it returns an object whose `stop_propagation` is true. -/
def stops (reg : HookRegistration) : Bool :=
  match reg.outcome with
  | .object result =>
    match result.lookup "stop_propagation" with
    | some (.bool true) => true
    | _ => false
  | _ => false

end HookRegistration

/-- `std::sort` by the priority, the greatest first. -/
structure Sorter where
  sort : List HookRegistration → List HookRegistration
  perm : ∀ handlers, (sort handlers).Perm handlers
  sorted : ∀ handlers, StableSort.Sorted HookRegistration.priority (sort handlers)

/-! ## The gateway -/

/-- `HookManager`: the handlers of each hook. -/
structure HookManager where
  hooks : Table String (List HookRegistration)

namespace HookManager

def init : HookManager := ⟨∅⟩

def handlers (m : HookManager) (hookName : String) : List HookRegistration := (m.hooks.lookup hookName).getD []

def registerHook (std : Sorter) (m : HookManager) (reg : HookRegistration) : HookManager :=
  ⟨m.hooks.insert reg.hookName (std.sort (m.handlers reg.hookName ++ [reg]))⟩

/-- `FireModifying`: the handlers that are run, and what is returned.  `sidecar` are those that are run in the
sidecar, and its answer. -/
def fireModifying (sidecar : List HookRegistration × Object) :
    Object → List HookRegistration → List HookRegistration × Object
  | merged, [] => (sidecar.1, merged.merge sidecar.2)
  | merged, reg :: handlers =>
    match reg.outcome with
    | .object result =>
      if reg.stops then ([reg], merged.merge (result.erase "stop_propagation"))
      else
        let (runs, final) := fireModifying sidecar (merged.merge result) handlers
        (reg :: runs, final)
    | _ =>
      let (runs, final) := fireModifying sidecar merged handlers
      (reg :: runs, final)

/-- `FireSync`, which does not stop. -/
def fireSync (sidecar : List HookRegistration × Object) (handlers : List HookRegistration) :
    List HookRegistration × Object :=
  (handlers ++ sidecar.1, (Object.mergeAll .empty (handlers.filterMap HookRegistration.result?)).merge sidecar.2)

/-- `FireVoid`, whose handlers are run at the same time. -/
def fireVoid (sidecar : List HookRegistration × Object) (handlers : List HookRegistration) :
    List HookRegistration × Object :=
  (handlers ++ sidecar.1, .empty)

def fire (m : HookManager) (sidecar : List HookRegistration × Object) (hookName : String) :
    List HookRegistration × Object :=
  match getHookMode hookName with
  | .void => fireVoid sidecar (m.handlers hookName)
  | .modifying => fireModifying sidecar .empty (m.handlers hookName)
  | .sync => fireSync sidecar (m.handlers hookName)

end HookManager

/-! ## The sidecar -/

/-- `HookDispatcher`: the handlers of all hooks. -/
structure HookDispatcher where
  hooks : List HookRegistration

namespace HookDispatcher

def init : HookDispatcher := ⟨[]⟩

/-- `register`, whose `sort` is stable. -/
def register (d : HookDispatcher) (reg : HookRegistration) : HookDispatcher :=
  ⟨StableSort.sortDesc HookRegistration.priority (d.hooks ++ [reg])⟩

/-- `fireModifying`, and `fireSync`, for which a promise is nothing. -/
def fireModifying : Option Object → List HookRegistration → List HookRegistration × Option Object
  | result, [] => ([], result)
  | result, reg :: handlers =>
    let next := match reg.outcome with
      | .object out => some ((result.map (·.spread out)).getD out)
      | _ => result
    let (runs, final) := fireModifying next handlers
    (reg :: runs, final)

def fire (d : HookDispatcher) (hookName : String) : List HookRegistration × Option Object :=
  let handlers := d.hooks.filter (·.hookName = hookName)
  if handlers.length = 0 then ([], none)
  else match getMode hookName with
    | .void => (handlers, none)
    | _ => fireModifying none handlers

/-- What the gateway is answered (`plugin.hooks`). -/
def answer (d : HookDispatcher) (hookName : String) : List HookRegistration × Object :=
  ((d.fire hookName).1, (d.fire hookName).2.getD .empty)

end HookDispatcher

end RavBot.Plugins
