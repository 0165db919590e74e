import RavBot.Gateway.CommandQueue.System

/-!
# The concurrency bound and the order of activation

`active_count_` counts the workers in flight, whatever happens to the lanes, and a pass
activates a lane only while it is below the limit (`Counted`).  In each lane, what was
activated followed by what waits is a sublist of what was submitted (`InOrder`): commands enter
at the end of the queue and are activated from its front, and everything else that happens to
the queue only takes commands out of it.
-/

open List

namespace RavBot.Gateway

open RavBot.Lib

/-! ## Only submissions add to a queue -/

namespace SessionLane

theorem overflowTurn_sublist (lane : SessionLane) :
    lane.overflowTurn.1.requests.Sublist lane.requests := by
  obtain ⟨key, mode, debounceMs, cap, drop, pending, activeCommand⟩ := lane
  cases drop with
  | summarize =>
    match pending with
    | [] => exact .refl _
    | [_] => exact .refl _
    | oldest :: second :: rest =>
      simp only [overflowTurn, requests, map_cons, request_update]
      exact .cons_cons _ (sublist_cons_self _ _)
  | dropOldest =>
    cases pending with
    | nil => exact .refl _
    | cons front rest => exact sublist_cons_self _ _
  | reject =>
    rcases eq_nil_or_concat pending with rfl | ⟨rest, back, rfl⟩
    · exact .refl _
    · simp [overflowTurn, requests]

theorem overflowLoop_sublist (fuel : Nat) (lane : SessionLane) :
    (lane.overflowLoop fuel).1.requests.Sublist lane.requests := by
  induction fuel generalizing lane with
  | zero => exact .refl _
  | succ fuel ih =>
    simp only [overflowLoop]
    split
    · exact .refl _
    · split
      · exact overflowTurn_sublist lane
      · exact (ih _).trans (overflowTurn_sublist lane)

theorem keepNewest_sublist (cmds : List QueuedCommand) : (keepNewest cmds).Sublist cmds := by
  conv_rhs => rw [← dropLast_append_keepNewest cmds]
  exact sublist_append_right _ _

theorem interruptActive_sublist (lane : SessionLane) :
    lane.interruptActive.1.requests.Sublist lane.requests :=
  (keepNewest_sublist lane.pending).map _

theorem submit_sublist (lane : SessionLane) (cmd : QueuedCommand) :
    (lane.submit cmd).1.requests.Sublist (lane.requests ++ [cmd.request]) := by
  rw [submit]
  split_ifs
  · rw [requests_enqueue]
    exact (interruptActive_sublist lane).append_right _
  · refine (overflowLoop_sublist _ _).trans ?_
    rw [requests_enqueue]
    exact (interruptActive_sublist lane).append_right _
  · rw [requests_enqueue]
  · refine (overflowLoop_sublist _ _).trans ?_
    rw [requests_enqueue]

theorem unbatched_sublist (mode : QueueMode) (pending : List QueuedCommand) :
    (unbatched mode pending).Sublist pending := by
  cases mode with
  | collect => exact nil_sublist _
  | followup =>
    rw [unbatched]
    split_ifs
    · exact nil_sublist _
    · exact .refl _
  | _ => exact .refl _

end SessionLane

namespace CommandQueue

theorem pendingOf_submit (q : CommandQueue) (cmdId : String) (now : Int) (s : Submission) :
    ((q.submit cmdId now s).1.pendingOf s.sessionKey).Sublist
      (q.pendingOf s.sessionKey ++ [(q.makeCommand cmdId now s).request]) := by
  have hlanes : (q.submit cmdId now s).1.lanes = q.lanes.insert s.sessionKey
      ((q.getLane s.sessionKey).submit (q.makeCommand cmdId now s)).1 := by
    rw [submit]
    dsimp only
    split <;> rfl
  rw [pendingOf_insert hlanes, if_pos rfl, ← requests_getLane]
  exact SessionLane.submit_sublist _ _

theorem pendingOf_cancel (q : CommandQueue) (commandId : String) (k : String) :
    ((q.cancel commandId).1.pendingOf k).Sublist (q.pendingOf k) := by
  rcases q.cancel_spec commandId with ⟨-, heq⟩ | ⟨key, -, -, hother, -, -, -, hlane⟩
  · rw [heq]
  · by_cases hk : k = key
    · subst hk
      rcases hlane with ⟨front, r, rest, hbefore, -, hafter, -⟩ | ⟨-, hsame, -⟩
      · rw [hbefore, hafter]
        exact (sublist_cons_self r rest).append_left front
      · rw [hsame]
    · rw [hother k hk]

theorem cancel_count (q : CommandQueue) (commandId : String) :
    (q.cancel commandId).1.config = q.config ∧
      (q.cancel commandId).1.activeCount = q.activeCount := by
  rcases q.cancel_spec commandId with ⟨-, heq⟩ | ⟨-, -, -, -, -, hcount, hconfig, -⟩
  · rw [heq]
    exact ⟨rfl, rfl⟩
  · exact ⟨hconfig, hcount⟩

theorem pendingOf_abortSession (q : CommandQueue) (sessionKey k : String) :
    ((q.abortSession sessionKey).1.pendingOf k).Sublist (q.pendingOf k) := by
  obtain ⟨hbefore, hother, -⟩ := q.abortSession_spec sessionKey
  by_cases hk : k = sessionKey
  · subst hk
    rw [hbefore]
    exact sublist_append_right _ _
  · rw [hother k hk]

end CommandQueue

namespace System

/-! ## The number of workers -/

/-- `active_count_` is the number of workers in flight and below the limit. -/
structure Counted (config : QueueConfig) (q : CommandQueue) (workers : List Worker) : Prop where
  fixed : q.config = config
  count : q.activeCount = workers.length
  bound : (workers.length : Int) ≤ max 0 config.maxConcurrent

theorem Counted.congr {config : QueueConfig} {q q' : CommandQueue} {workers workers' : List Worker}
    (h : Counted config q workers) (hconfig : q'.config = q.config)
    (hcount : q'.activeCount = q.activeCount) (hworkers : workers'.length = workers.length) :
    Counted config q' workers' where
  fixed := hconfig.trans h.fixed
  count := by rw [hcount, h.count, hworkers]
  bound := by
    rw [hworkers]
    exact h.bound

theorem Counted.activate {config : QueueConfig} {q q' : CommandQueue} {key : String}
    {lane : SessionLane} {front command : QueuedCommand} {rest : List QueuedCommand}
    {workers : List Worker} (hact : Activation q key lane front rest q' command)
    (h : Counted config q workers) :
    Counted config q' (workers ++ [⟨command, .dispatched⟩]) := by
  have hroom := hact.room
  have hqueue := hact.queue
  rw [h.fixed, h.count] at hroom
  constructor
  · rw [hqueue]
    exact h.fixed
  · rw [hqueue, length_append]
    push_cast
    rw [← h.count]
    rfl
  · rw [length_append]
    push_cast
    exact le_max_of_le_right (Int.add_one_le_iff.2 hroom)

theorem counted_step {config : QueueConfig} (sys : System) (a : Action) (sys' : System)
    (h : Counted config sys.queue sys.workers) (hfixed : ∀ c, a ≠ .setConfig c)
    (hstep : sys.step a = some sys') : Counted config sys'.queue sys'.workers := by
  cases a with
  | submit cmdId now s =>
    obtain ⟨-, rfl⟩ := step_submit hstep
    obtain ⟨-, -, -, -, -, -, hcount, hconfig⟩ := sys.queue.submit_spec cmdId now s
    exact h.congr hconfig hcount rfl
  | cancel commandId =>
    cases hstep
    obtain ⟨hconfig, hcount⟩ := sys.queue.cancel_count commandId
    exact h.congr hconfig hcount rfl
  | abortSession sessionKey =>
    cases hstep
    obtain ⟨-, -, -, -, hcount, hconfig⟩ := sys.queue.abortSession_spec sessionKey
    exact h.congr hconfig hcount rfl
  | configureSession sessionKey mode debounceMs cap drop =>
    cases hstep
    exact h.congr rfl rfl rfl
  | setConfig config => exact absurd rfl (hfixed config)
  | dispatch now order =>
    obtain ⟨-, q, out, hkeys, rfl⟩ := step_dispatch hstep
    have hpass : Counted config q (sys.workers ++ out.map (⟨·, .dispatched⟩)) := by
      refine CommandQueue.dispatchKeys_induction (P := fun _ _ => True)
        (motive := fun q out => Counted config q (sys.workers ++ out.map (⟨·, .dispatched⟩)))
        (fun hact _ hcounted => ?_) (CommandQueue.eachActivation_true ..) hkeys (by simpa using h)
      rw [map_append, ← append_assoc]
      exact hcounted.activate hact
    exact hpass.congr rfl rfl rfl
  | start i =>
    obtain ⟨l₁, command, l₂, hw, rfl⟩ := step_start hstep
    exact h.congr rfl rfl (by simp [hw])
  | respond i outcome =>
    obtain ⟨l₁, command, l₂, hw, rfl⟩ := step_respond hstep
    exact h.congr rfl rfl (by simp [hw])
  | complete i =>
    obtain ⟨l₁, command, l₂, hw, rfl⟩ := step_complete hstep
    obtain ⟨hconfig, hcount, hbound⟩ := h
    rw [hw, length_append, length_cons] at hcount hbound
    constructor
    · exact hconfig
    · show sys.queue.activeCount - 1 = _
      rw [hcount, length_append]
      push_cast
      omega
    · rw [length_append]
      push_cast at hbound ⊢
      omega

/-! ## The order of activation -/

def activates (sys : System) : Action → List Request
  | .dispatch now order =>
    ((sys.queue.dispatcherPass now order).elim [] Prod.snd).map QueuedCommand.request
  | _ => []

def activated (config : QueueConfig) (as : List Action) : List Request :=
  outputs step activates (init config) as

def ofSession (key : String) (requests : List Request) : List Request :=
  requests.filter (·.sessionKey = key)

/-- In each session, what was activated followed by what waits is in the order of
submission. -/
def InOrder (q : CommandQueue) (activated submitted : List Request) : Prop :=
  ∀ key, (ofSession key activated ++ q.pendingOf key).Sublist (ofSession key submitted)

theorem InOrder.sublist {q q' : CommandQueue} {activated submitted : List Request}
    (h : InOrder q activated submitted)
    (hp : ∀ key, (q'.pendingOf key).Sublist (q.pendingOf key)) :
    InOrder q' activated submitted :=
  fun key => ((hp key).append_left _).trans (h key)

theorem InOrder.submit {q : CommandQueue} {activated submitted : List Request}
    (h : InOrder q activated submitted) (cmdId : String) (now : Int) (s : Submission) :
    InOrder (q.submit cmdId now s).1 activated
      (submitted ++ [(q.makeCommand cmdId now s).request]) := by
  intro key
  obtain ⟨-, -, -, hother, -⟩ := q.submit_spec cmdId now s
  rw [ofSession, ofSession, filter_append]
  by_cases hk : key = s.sessionKey
  · subst hk
    have hnew : List.filter (·.sessionKey = s.sessionKey)
        [(q.makeCommand cmdId now s).request] = [(q.makeCommand cmdId now s).request] :=
      filter_eq_self.2 (by simp [CommandQueue.makeCommand, QueuedCommand.request])
    rw [hnew]
    refine ((q.pendingOf_submit cmdId now s).append_left _).trans ?_
    rw [← append_assoc]
    exact (h s.sessionKey).append_right _
  · rw [hother key hk]
    exact (h key).trans (sublist_append_left _ _)

theorem InOrder.activate {q q' : CommandQueue} {key : String} {lane : SessionLane}
    {front command : QueuedCommand} {rest : List QueuedCommand} {activated submitted : List Request}
    (hact : Activation q key lane front rest q' command) (h : InOrder q activated submitted) :
    InOrder q' (activated ++ [command.request]) submitted := by
  have hhome : command.request.sessionKey = key := by
    have hmem : front.request ∈ ofSession key submitted := by
      refine (h key).subset (mem_append_right _ ?_)
      rw [hact.pendingOf_before]
      exact mem_cons_self
    rw [hact.request_eq]
    simpa using (mem_filter.1 hmem).2
  intro k
  rw [ofSession, filter_append, hact.pendingOf_after]
  by_cases hk : k = key
  · subst hk
    have hnew : List.filter (·.sessionKey = k) [command.request] = [command.request] :=
      filter_eq_self.2 (by simpa using hhome)
    rw [hnew, if_pos rfl, append_assoc, hact.request_eq]
    refine List.Sublist.trans ?_ (h k)
    rw [hact.pendingOf_before]
    exact (((SessionLane.unbatched_sublist front.mode rest).map _).cons_cons _).append_left _
  · have hnew : List.filter (·.sessionKey = k) [command.request] = [] :=
      filter_eq_nil_iff.2 (by simpa [hhome] using Ne.symm hk)
    rw [hnew, if_neg hk, append_nil]
    exact h k

def submits (sys : System) : Action → List Request
  | .submit cmdId now s => [(sys.queue.makeCommand cmdId now s).request]
  | _ => []

theorem submitted_step {sys sys' : System} {a : Action} (hstep : sys.step a = some sys') :
    sys'.submitted = sys.submitted ++ submits sys a := by
  cases a with
  | submit cmdId now s =>
    obtain ⟨-, rfl⟩ := step_submit hstep
    rfl
  | dispatch now order =>
    obtain ⟨-, q, out, -, rfl⟩ := step_dispatch hstep
    exact (append_nil _).symm
  | start i =>
    obtain ⟨l₁, command, l₂, -, rfl⟩ := step_start hstep
    exact (append_nil _).symm
  | respond i outcome =>
    obtain ⟨l₁, command, l₂, -, rfl⟩ := step_respond hstep
    exact (append_nil _).symm
  | complete i =>
    obtain ⟨l₁, command, l₂, -, rfl⟩ := step_complete hstep
    exact (append_nil _).symm
  | _ =>
    cases hstep
    exact (append_nil _).symm

/-- A step keeps the order: of any list of requests that the queues follow, with what the step
submits behind it. -/
theorem InOrder.stay {q : CommandQueue} {activated base : List Request} (h : InOrder q activated base) :
    InOrder q (activated ++ []) (base ++ []) := by
  rwa [append_nil, append_nil]

theorem inOrder_step (sys : System) (a : Action) (sys' : System) (activated base : List Request)
    (h : InOrder sys.queue activated base) (hstep : sys.step a = some sys') :
    InOrder sys'.queue (activated ++ activates sys a) (base ++ submits sys a) := by
  cases a with
  | submit cmdId now s =>
    obtain ⟨-, rfl⟩ := step_submit hstep
    show InOrder _ (activated ++ []) _
    rw [append_nil]
    exact h.submit cmdId now s
  | cancel commandId =>
    cases hstep
    exact (h.sublist (sys.queue.pendingOf_cancel commandId)).stay
  | abortSession sessionKey =>
    cases hstep
    exact (h.sublist (sys.queue.pendingOf_abortSession sessionKey)).stay
  | configureSession sessionKey mode debounceMs cap drop =>
    cases hstep
    refine InOrder.stay (h.sublist fun k => ?_)
    rw [(sys.queue.configureSession_spec sessionKey mode debounceMs cap drop k).1]
  | setConfig config =>
    cases hstep
    exact h.stay
  | dispatch now order =>
    obtain ⟨-, q, out, hkeys, rfl⟩ := step_dispatch hstep
    have hpass : InOrder q (activated ++ out.map QueuedCommand.request) base := by
      refine CommandQueue.dispatchKeys_induction (P := fun _ _ => True)
        (motive := fun q out => InOrder q (activated ++ out.map QueuedCommand.request) base)
        (fun hact _ horder => ?_) (CommandQueue.eachActivation_true ..) hkeys (by simpa using h)
      rw [map_append, ← append_assoc]
      exact horder.activate hact
    have hactivates : activates sys (.dispatch now order) = out.map QueuedCommand.request := by
      rw [activates, CommandQueue.dispatcherPass, hkeys]
      rfl
    show InOrder _ _ (base ++ [])
    rw [hactivates, append_nil]
    refine hpass.sublist fun k => ?_
    rw [q.pendingOf_cleanUpIdle k]
  | start i =>
    obtain ⟨l₁, command, l₂, hw, rfl⟩ := step_start hstep
    exact h.stay
  | respond i outcome =>
    obtain ⟨l₁, command, l₂, hw, rfl⟩ := step_respond hstep
    exact h.stay
  | complete i =>
    obtain ⟨l₁, command, l₂, hw, rfl⟩ := step_complete hstep
    refine InOrder.stay (h.sublist fun k => ?_)
    rw [(sys.queue.finish_spec command k).1]

theorem inOrder_exec {sys sys' : System} {base : List Request} (h : InOrder sys.queue [] base)
    {bs : List Action} (hrun : exec step sys bs = some sys') :
    ∃ later, sys'.submitted = sys.submitted ++ later ∧
      InOrder sys'.queue (outputs step activates sys bs) (base ++ later) := by
  have hexec : ∃ later, sys'.submitted = sys.submitted ++ later ∧
      InOrder sys'.queue ([] ++ outputs step activates sys bs) (base ++ later) := by
    refine exec_outputs_invariant
      (motive := fun s out => ∃ later, s.submitted = sys.submitted ++ later ∧
        InOrder s.queue out (base ++ later)) ?_ ?_ (along_of_forall (fun _ _ => trivial) _) hrun
    · rintro s a s' out ⟨later, hlater, horder⟩ - hstep
      refine ⟨later ++ submits s a, ?_, ?_⟩
      · rw [submitted_step hstep, hlater, append_assoc]
      · rw [← append_assoc]
        exact inOrder_step s a s' out _ horder hstep
    · exact ⟨[], (append_nil _).symm, by rwa [append_nil]⟩
  rwa [nil_append] at hexec

theorem inOrder_of_reaches {config : QueueConfig} {as : List Action} {sys : System}
    (hrun : Reaches config as sys) : InOrder sys.queue (activated config as) sys.submitted := by
  have hstart : InOrder (init config).queue [] [] := fun _ => .refl _
  obtain ⟨later, hlater, horder⟩ := inOrder_exec hstart hrun
  rw [hlater]
  exact horder

theorem nodup_submitted_step (sys : System) (a : Action) (sys' : System)
    (h : (sys.submitted.map Request.id).Nodup) (hstep : sys.step a = some sys') :
    (sys'.submitted.map Request.id).Nodup := by
  cases a with
  | submit cmdId now s =>
    obtain ⟨hfresh, rfl⟩ := step_submit hstep
    rw [map_append, map_singleton, nodup_append]
    refine ⟨h, nodup_singleton _, fun x hx y hy heq => ?_⟩
    rw [heq, mem_singleton.1 hy] at hx
    exact hfresh hx
  | dispatch now order =>
    obtain ⟨-, q, out, -, rfl⟩ := step_dispatch hstep
    exact h
  | start i =>
    obtain ⟨l₁, command, l₂, -, rfl⟩ := step_start hstep
    exact h
  | respond i outcome =>
    obtain ⟨l₁, command, l₂, -, rfl⟩ := step_respond hstep
    exact h
  | complete i =>
    obtain ⟨l₁, command, l₂, -, rfl⟩ := step_complete hstep
    exact h
  | _ =>
    cases hstep
    exact h

theorem nodup_submitted {config : QueueConfig} {as : List Action} {sys : System}
    (hrun : Reaches config as sys) : (sys.submitted.map Request.id).Nodup :=
  exec_invariant' (motive := fun sys => (sys.submitted.map Request.id).Nodup)
    nodup_submitted_step nodup_nil hrun

section Pending

variable {config : QueueConfig} {as : List Action} {sys : System}

theorem Reaches.pendingOf_sublist (hrun : Reaches config as sys) (key : String) :
    (sys.queue.pendingOf key).Sublist (ofSession key sys.submitted) :=
  (sublist_append_right _ _).trans (inOrder_of_reaches hrun key)

theorem Reaches.request_mem (hrun : Reaches config as sys) {key : String} {c : QueuedCommand}
    (hc : c ∈ (sys.queue.getLane key).pending) : c.request ∈ ofSession key sys.submitted := by
  have hmem : c.request ∈ sys.queue.pendingOf key := by
    rw [← CommandQueue.requests_getLane]
    exact mem_map_of_mem hc
  exact (hrun.pendingOf_sublist key).subset hmem

theorem Reaches.id_mem_submitted (hrun : Reaches config as sys) {key : String} {c : QueuedCommand}
    (hc : c ∈ (sys.queue.getLane key).pending) : c.id ∈ sys.submitted.map Request.id :=
  mem_map_of_mem (mem_filter.1 (hrun.request_mem hc)).1

theorem Reaches.nodup_ids (hrun : Reaches config as sys) (key : String) :
    ((sys.queue.getLane key).pending.map (·.id)).Nodup := by
  have hsub : ((sys.queue.getLane key).pending.map (·.id)).Sublist
      (sys.submitted.map Request.id) := by
    have hpending := ((hrun.pendingOf_sublist key).trans filter_sublist).map Request.id
    rw [← CommandQueue.requests_getLane, SessionLane.requests, map_map] at hpending
    exact hpending
  exact (nodup_submitted hrun).sublist hsub

theorem Reaches.session_eq (hrun : Reaches config as sys) {key key' : String}
    {c c' : QueuedCommand} (hc : c ∈ (sys.queue.getLane key).pending)
    (hc' : c' ∈ (sys.queue.getLane key').pending) (hid : c.id = c'.id) : key = key' := by
  have hmem := mem_filter.1 (hrun.request_mem hc)
  have hmem' := mem_filter.1 (hrun.request_mem hc')
  have heq : c.request = c'.request :=
    inj_on_of_nodup_map (nodup_submitted hrun) hmem.1 hmem'.1 hid
  rw [← of_decide_eq_true hmem.2, ← of_decide_eq_true hmem'.2, heq]

end Pending

/-! ## The bound and the order along runs -/

/-- **Concurrency and order.**  In every run that does not replace the configuration,
`active_count_` is the number of workers in flight and at most the limit, and the requests of
a session are activated in the order in which they were submitted. -/
theorem bounded_in_order {config : QueueConfig} {as : List Action} {sys : System}
    (hfixed : ∀ a ∈ as, ∀ c, a ≠ .setConfig c) (hrun : Reaches config as sys) :
    (sys.queue.activeCount = sys.workers.length ∧
      (sys.workers.length : Int) ≤ max 0 config.maxConcurrent) ∧
      (sys.submitted.map Request.id).Nodup ∧
        ∀ key, (ofSession key (activated config as)).Sublist (ofSession key sys.submitted) := by
  have hcounted : Counted config sys.queue sys.workers := by
    refine exec_invariant (motive := fun sys => Counted config sys.queue sys.workers)
      counted_step ⟨rfl, rfl, le_max_left _ _⟩ ?_ hrun
    exact along_of_forall hfixed _
  have hnodup : (sys.submitted.map Request.id).Nodup := nodup_submitted hrun
  have horder : InOrder sys.queue (activated config as) sys.submitted := inOrder_of_reaches hrun
  exact ⟨⟨hcounted.count, hcounted.bound⟩, hnodup,
    fun key => (sublist_append_left _ _).trans (horder key)⟩

/-- A run in which an abort frees a lane before its worker ends: both workers are counted. -/
theorem bounded_in_order_abort :
    ∃ sys, Reaches { maxConcurrent := 2 }
      [.submit "a" 0 { sessionKey := "s", message := "one", mode := .steer },
        .submit "b" 0 { sessionKey := "s", message := "two", mode := .steer },
        .dispatch 2000000000 ["s"], .start 0, .abortSession "s", .dispatch 4000000000 ["s"]] sys ∧
      sys.workers.length = 2 ∧ sys.queue.activeCount = sys.workers.length := by
  refine ⟨_, (Option.some_get (by decide)).symm, by decide, ?_⟩
  exact (bounded_in_order (by simp) (Option.some_get (by decide)).symm).1.1

end System

end RavBot.Gateway
