import RavBot.Plugins.HookManager

/-!
# Hooks of the gateway and of the sidecar

The handlers of a modifying hook may be registered in the gateway, in the sidecar, or some of them here and
the others, with less priority, there (`Split`).  All of this runs the same handlers in the same order with
the same result (`Agrees`) exactly when `std::sort` leaves handlers with the same priority in their order, no
handler asks to stop, the last `stop_propagation` is null, and the last value under each key overrides what
the gateway merged before (`agrees_iff`).
-/

open List

namespace RavBot.Plugins

open RavBot.Lib Json

namespace HookRegistration

/-- The handlers in the order of their priorities, those with the same one in the order in which they were
registered. -/
def inOrder (handlers : List HookRegistration) : List HookRegistration := StableSort.sortDesc priority handlers

def results (handlers : List HookRegistration) : List Object := handlers.filterMap result?

theorem results_append (handlers others : List HookRegistration) :
    results (handlers ++ others) = results handlers ++ results others := filterMap_append

theorem exists_of_stops {reg : HookRegistration} (h : reg.stops = true) :
    ∃ result, reg.outcome = .object result ∧ result.lookup "stop_propagation" = some (.bool true) := by
  rw [stops] at h
  split at h
  · next result hresult =>
      split at h
      · next hlookup => exact ⟨result, hresult, hlookup⟩
      · cases h
  · cases h

end HookRegistration

open HookRegistration

/-! ## The order of the handlers -/

/-- The handlers of a hook after others were registered, one after the other. -/
def sortedBy (std : Sorter) (handlers : List HookRegistration) : List HookRegistration :=
  handlers.foldl (fun hooks reg => std.sort (hooks ++ [reg])) []

/-- `std::sort` leaves handlers with the same priority in the order in which they were registered. -/
def KeepsTies (std : Sorter) (handlers : List HookRegistration) : Prop :=
  ∀ priority, (sortedBy std handlers).filter (·.priority = priority) = handlers.filter (·.priority = priority)

theorem sortedBy_append_singleton (std : Sorter) (handlers : List HookRegistration) (reg : HookRegistration) :
    sortedBy std (handlers ++ [reg]) = std.sort (sortedBy std handlers ++ [reg]) := by
  rw [sortedBy, foldl_append]
  rfl

theorem perm_sortedBy (std : Sorter) (handlers : List HookRegistration) : (sortedBy std handlers).Perm handlers := by
  induction handlers using List.reverseRecOn with
  | nil => exact .nil
  | append_singleton handlers reg ih =>
    rw [sortedBy_append_singleton]
    exact (std.perm _).trans (ih.append_right [reg])

theorem sorted_sortedBy (std : Sorter) (handlers : List HookRegistration) :
    StableSort.Sorted priority (sortedBy std handlers) := by
  induction handlers using List.reverseRecOn with
  | nil => exact .nil
  | append_singleton handlers reg ih =>
    rw [sortedBy_append_singleton]
    exact std.sorted _

theorem sortedBy_eq_iff (std : Sorter) (handlers : List HookRegistration) :
    sortedBy std handlers = inOrder handlers ↔ KeepsTies std handlers := by
  constructor
  · intro h p
    rw [h]
    exact StableSort.filter_key_sortDesc priority p handlers
  · intro h
    refine StableSort.eq_of_sorted priority (sorted_sortedBy std handlers)
      (StableSort.sorted_sortDesc priority handlers) fun p => ?_
    rw [h p]
    exact (StableSort.filter_key_sortDesc priority p handlers).symm

theorem handlers_registered (std : Sorter) (regs : List HookRegistration) (hookName : String) :
    (regs.foldl (HookManager.registerHook std) .init).handlers hookName =
      sortedBy std (regs.filter (·.hookName = hookName)) := by
  induction regs using List.reverseRecOn with
  | nil => rfl
  | append_singleton regs reg ih =>
    rw [foldl_append, foldl_cons, foldl_nil, HookManager.registerHook, HookManager.handlers,
      Table.lookup_insert_ite, filter_append, filter_singleton]
    by_cases h : hookName = reg.hookName
    · subst h
      rw [if_pos rfl, decide_eq_true rfl, ih, cond_true, sortedBy_append_singleton]
      rfl
    · rw [if_neg h, decide_eq_false (Ne.symm h), cond_false, append_nil]
      exact ih

theorem hooks_registered (regs : List HookRegistration) :
    (regs.foldl HookDispatcher.register .init).hooks = inOrder regs := by
  induction regs using List.reverseRecOn with
  | nil => rfl
  | append_singleton regs reg ih =>
    rw [foldl_append, foldl_cons, foldl_nil, HookDispatcher.register, ih]
    exact StableSort.sortDesc_append_singleton priority regs reg

/-! ## Runs -/

theorem sidecar_fireModifying (merged : Option Object) (handlers : List HookRegistration) :
    (HookDispatcher.fireModifying merged handlers).1 = handlers ∧
      (HookDispatcher.fireModifying merged handlers).2.getD .empty =
        Object.spreadAll (merged.getD .empty) (results handlers) := by
  induction handlers generalizing merged with
  | nil => exact ⟨rfl, rfl⟩
  | cons reg handlers ih =>
    rw [HookDispatcher.fireModifying, results, filterMap_cons, result?]
    cases reg.outcome with
    | object out =>
      obtain ⟨hruns, hresult⟩ := ih (some ((merged.map (·.spread out)).getD out))
      refine ⟨congrArg (reg :: ·) hruns, hresult.trans ?_⟩
      cases merged with
      | none =>
        change _ = Object.spreadAll (Object.empty.spread out) (results handlers)
        rw [Object.spread_empty]
        rfl
      | some merged => rfl
    | nothing =>
      obtain ⟨hruns, hresult⟩ := ih merged
      exact ⟨congrArg (reg :: ·) hruns, hresult⟩
    | throws =>
      obtain ⟨hruns, hresult⟩ := ih merged
      exact ⟨congrArg (reg :: ·) hruns, hresult⟩

theorem answer_registered (hook : ModifyingHook) (regs : List HookRegistration) :
    (regs.foldl HookDispatcher.register .init).answer hook.name =
      (inOrder (regs.filter (·.hookName = hook.name)),
        Object.spreadAll .empty (results (inOrder (regs.filter (·.hookName = hook.name))))) := by
  rw [HookDispatcher.answer, HookDispatcher.fire, hooks_registered, inOrder, StableSort.filter_sortDesc, ← inOrder,
    getMode_eq, hook.modifying]
  generalize inOrder (regs.filter (·.hookName = hook.name)) = handlers
  obtain ⟨hruns, hresult⟩ := sidecar_fireModifying none handlers
  by_cases hnone : handlers = []
  · subst hnone
    rfl
  · rw [if_neg (by rwa [length_eq_zero_iff])]
    dsimp only
    rw [hruns, hresult]
    rfl

theorem gateway_fireModifying (sidecar : List HookRegistration × Object) (merged : Object)
    {handlers : List HookRegistration} (h : ∀ reg ∈ handlers, reg.stops = false) :
    HookManager.fireModifying sidecar merged handlers =
      (handlers ++ sidecar.1, (Object.mergeAll merged (results handlers)).merge sidecar.2) := by
  induction handlers generalizing merged with
  | nil => rfl
  | cons reg handlers ih =>
    rw [forall_mem_cons] at h
    rw [HookManager.fireModifying, results, filterMap_cons, result?, h.1]
    cases reg.outcome with
    | object result =>
      dsimp only
      rw [if_neg Bool.false_ne_true, ih _ h.2]
      rfl
    | nothing =>
      dsimp only
      rw [ih _ h.2]
      rfl
    | throws =>
      dsimp only
      rw [ih _ h.2]
      rfl

theorem gateway_stops (sidecar : List HookRegistration × Object) (merged : Object)
    {before after : List HookRegistration} {reg : HookRegistration} (h : ∀ r ∈ before, r.stops = false)
    (hreg : reg.stops = true) :
    (HookManager.fireModifying sidecar merged (before ++ reg :: after)).1 = before ++ [reg] := by
  induction before generalizing merged with
  | nil =>
    obtain ⟨result, hresult, -⟩ := exists_of_stops hreg
    rw [nil_append, HookManager.fireModifying, hresult]
    dsimp only
    rw [if_pos hreg]
    rfl
  | cons r before ih =>
    rw [forall_mem_cons] at h
    rw [cons_append, HookManager.fireModifying, h.1]
    cases r.outcome with
    | object result =>
      dsimp only
      rw [if_neg Bool.false_ne_true, ih _ h.2]
      rfl
    | nothing =>
      dsimp only
      rw [ih _ h.2]
      rfl
    | throws =>
      dsimp only
      rw [ih _ h.2]
      rfl

/-! ## Agreement -/

section

variable (std : Sorter) (hook : ModifyingHook) (regs : List HookRegistration)

def ofHook : List HookRegistration := regs.filter (·.hookName = hook.name)

/-- A split of the handlers: those of the hook that are in the gateway have greater priorities than those in
the sidecar. -/
def Split (native : HookRegistration → Bool) : Prop :=
  ∀ a ∈ ofHook hook regs, ∀ b ∈ ofHook hook regs, native a → ¬ native b → b.priority < a.priority

/-- The handlers are registered, some in the gateway and the others in the sidecar, and the hook is fired:
the handlers that are run, and what is returned. -/
def fireSplit (native : HookRegistration → Bool) : List HookRegistration × Object :=
  let manager := (regs.filter native).foldl (HookManager.registerHook std) .init
  let dispatcher := (regs.filter (!native ·)).foldl HookDispatcher.register .init
  manager.fire (dispatcher.answer hook.name) hook.name

/-- In all splits, of which one has all handlers in the gateway and one has all in the sidecar, the same
handlers are run in the same order, and the same is returned, without `stop_propagation`. -/
def Agrees : Prop :=
  ∃ runs result, Object.lookup result "stop_propagation" = none ∧
    ∀ native, Split hook regs native → fireSplit std hook regs native = (runs, result)

def nativePart (native : HookRegistration → Bool) : List HookRegistration := inOrder ((ofHook hook regs).filter native)

def sidecarPart (native : HookRegistration → Bool) : List HookRegistration :=
  inOrder ((ofHook hook regs).filter (!native ·))

variable {std hook regs}

theorem Split.append {native : HookRegistration → Bool} (h : Split hook regs native) :
    nativePart hook regs native ++ sidecarPart hook regs native = inOrder (ofHook hook regs) :=
  StableSort.sortDesc_append priority native h

theorem fireSplit_eq (native : HookRegistration → Bool) :
    fireSplit std hook regs native =
      HookManager.fireModifying (sidecarPart hook regs native,
          Object.spreadAll .empty (results (sidecarPart hook regs native))) .empty
        (sortedBy std ((ofHook hook regs).filter native)) := by
  rw [fireSplit, answer_registered, HookManager.fire, hook.modifying]
  have hcomm (p : HookRegistration → Bool) :
      (regs.filter p).filter (·.hookName = hook.name) = (ofHook hook regs).filter p := filter_comm _ _ _
  dsimp only
  rw [handlers_registered, hcomm, hcomm]
  rfl

theorem fireSplit_of_not_stops (h : ∀ reg ∈ ofHook hook regs, reg.stops = false) (native : HookRegistration → Bool) :
    fireSplit std hook regs native =
      (sortedBy std ((ofHook hook regs).filter native) ++ sidecarPart hook regs native,
        (Object.mergeAll .empty (results (sortedBy std ((ofHook hook regs).filter native)))).merge
          (Object.spreadAll .empty (results (sidecarPart hook regs native)))) := by
  rw [fireSplit_eq, gateway_fireModifying]
  intro reg hreg
  exact h reg (mem_of_mem_filter ((perm_sortedBy std _).mem_iff.1 hreg))

theorem fireSplit_sidecar :
    fireSplit std hook regs (fun _ => false) =
      (inOrder (ofHook hook regs),
        Object.empty.merge (Object.spreadAll .empty (results (inOrder (ofHook hook regs))))) := by
  have hall : (ofHook hook regs).filter (fun _ => !false) = ofHook hook regs := filter_eq_self.2 fun _ _ => rfl
  rw [fireSplit_eq, sidecarPart, hall, filter_false]
  rfl

theorem split_const (native : Bool) : Split hook regs fun _ => native := fun _ _ _ _ ha hb => absurd ha hb

theorem fireSplit_eq_sidecar_iff (h : ∀ reg ∈ ofHook hook regs, reg.stops = false)
    {native : HookRegistration → Bool} (hsplit : Split hook regs native) :
    fireSplit std hook regs native = fireSplit std hook regs (fun _ => false) ↔
      KeepsTies std ((ofHook hook regs).filter native) ∧
        Object.Overrides (results (nativePart hook regs native)) (results (sidecarPart hook regs native)) := by
  rw [fireSplit_of_not_stops h, fireSplit_sidecar, Prod.mk.injEq, ← hsplit.append, append_cancel_right_eq,
    nativePart, sortedBy_eq_iff]
  refine and_congr_right fun hties => ?_
  rw [(sortedBy_eq_iff std _).2 hties, results_append]
  exact Object.merge_spreadAll_iff _ _

theorem Agrees.not_stops (h : Agrees std hook regs) : ∀ reg ∈ ofHook hook regs, reg.stops = false := by
  obtain ⟨runs, result, hnone, hfire⟩ := h
  have hsidecar := (hfire _ (split_const false)).symm.trans fireSplit_sidecar
  have hgateway := (hfire _ (split_const true)).symm.trans (fireSplit_eq fun _ => true)
  rw [filter_true] at hgateway
  intro reg hreg
  by_contra hstops
  obtain ⟨first, hfirst⟩ : ∃ first, (sortedBy std (ofHook hook regs)).find? stops = some first := by
    rw [← Option.isSome_iff_exists, find?_isSome]
    exact ⟨reg, (perm_sortedBy std _).mem_iff.2 hreg, by simpa using hstops⟩
  obtain ⟨hstops, before, after, hsplit, hbefore⟩ := find?_eq_some_iff_append.1 hfirst
  have hruns := (congrArg Prod.fst hsidecar).symm.trans (congrArg Prod.fst hgateway)
  rw [hsplit, gateway_stops _ _ (fun r hr => by simpa using hbefore r hr) hstops] at hruns
  -- all handlers are run, so that none is behind the one that asks to stop
  dsimp only at hruns
  obtain ⟨object, hobject, hlookup⟩ := exists_of_stops hstops
  have hlast : Object.last "stop_propagation" (results (inOrder (ofHook hook regs))) = some (.bool true) := by
    have hresult : results [first] = [object] := by
      rw [results, filterMap_cons, result?, hobject]
      rfl
    rw [hruns, results_append, hresult]
    exact Object.last_of_split hlookup nofun
  rw [(Prod.mk.inj hsidecar).2, Object.lookup_merge, Object.lookup_spreadAll, hlast] at hnone
  cases hnone

theorem lookup_stop_eq_none_iff {handlers : List HookRegistration} :
    (Object.empty.merge (Object.spreadAll .empty (results handlers))).lookup "stop_propagation" = none ↔
      ∀ v, Object.last "stop_propagation" (results handlers) = some v → v.isNull = true := by
  rw [Object.lookup_merge, Object.lookup_spreadAll, Object.lookup_empty, Option.or_none]
  cases Object.last "stop_propagation" (results handlers) with
  | none => exact iff_of_true rfl nofun
  | some v =>
    simp only [Option.some.injEq, forall_eq']
    split_ifs with hnull
    · exact iff_of_true rfl hnull
    · exact iff_of_false nofun hnull

end

/-- **When the hooks of the gateway and of the sidecar agree**: no handler asks to stop, and the last
`stop_propagation` is null; and in each split `std::sort` keeps ties, and the last value under each key
overrides what the gateway merged under it before. -/
theorem agrees_iff (std : Sorter) (hook : ModifyingHook) (regs : List HookRegistration) :
    Agrees std hook regs ↔
      (∀ reg ∈ ofHook hook regs, reg.stops = false) ∧
      (∀ v, Object.last "stop_propagation" (results (inOrder (ofHook hook regs))) = some v → v.isNull = true) ∧
      ∀ native, Split hook regs native → KeepsTies std ((ofHook hook regs).filter native) ∧
        Object.Overrides (results (nativePart hook regs native)) (results (sidecarPart hook regs native)) := by
  constructor
  · intro h
    have hstops := h.not_stops
    obtain ⟨runs, result, hnone, hfire⟩ := h
    have hsidecar := hfire _ (split_const false)
    refine ⟨hstops, ?_, fun native hsplit => ?_⟩
    · rw [fireSplit_sidecar] at hsidecar
      rw [← lookup_stop_eq_none_iff, (Prod.mk.inj hsidecar).2]
      exact hnone
    · exact (fireSplit_eq_sidecar_iff hstops hsplit).1 ((hfire native hsplit).trans hsidecar.symm)
  · rintro ⟨hstops, hnull, hsplits⟩
    refine ⟨inOrder (ofHook hook regs), _, lookup_stop_eq_none_iff.2 hnull, fun native hsplit => ?_⟩
    rw [← fireSplit_sidecar]
    exact (fireSplit_eq_sidecar_iff hstops hsplit).2 (hsplits native hsplit)

def stableSorter : Sorter where
  sort := inOrder
  perm handlers := perm_insertionSort _ handlers
  sorted := StableSort.sorted_sortDesc priority

def singleField (key : String) (value : Json) (h : OrderedMap.Ordered value) : Object :=
  ⟨[(key, value)], .obj (pairwise_singleton _ _) (forall_mem_singleton.2 h)⟩

/-- Two handlers that return `{"a": {"x": 1}}` and `{"a": {"y": 2}}`. -/
def nestedResults : List HookRegistration :=
  [⟨"first", "before_tool_call", .object (singleField "a" _ (singleField "x" (.int 1) (.int 1)).ordered), 2⟩,
    ⟨"second", "before_tool_call", .object (singleField "a" _ (singleField "y" (.int 2) (.int 2)).ordered), 1⟩]

/-- The hooks do not always agree: the gateway returns both nested fields, and the sidecar the last. -/
theorem not_agrees : ¬ Agrees stableSorter ⟨"before_tool_call", by decide +kernel⟩ nestedResults := by
  rintro ⟨runs, result, -, hfire⟩
  have hgateway : (result.lookup "a").map (·.fields.length) = some 2 := by
    rw [← (Prod.mk.inj (hfire _ (split_const true))).2]
    decide +kernel
  have hsidecar : (result.lookup "a").map (·.fields.length) = some 1 := by
    rw [← (Prod.mk.inj (hfire _ (split_const false))).2]
    decide +kernel
  rw [hgateway] at hsidecar
  cases hsidecar

end RavBot.Plugins
