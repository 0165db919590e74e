import RavBot.Gateway.CommandQueue.Order

/-!
# Progress

Whatever interrupts and aborts a run has had, a full slot has a worker of its session and `active_count_` is the
number of the workers (`manned`), so where no worker can go on nothing counts as active (`free_of_quiet`).  A pass
leaves no lane idle without need: where it leaves the slot of a lane empty, none waits there, the debounce time of
the first goes on, or the limit is reached (`busy_of_pass`).
-/

open List

namespace RavBot.Gateway

open RavBot.Lib

/-! ## Slots and workers -/

namespace System

/-- Every worker counts as active, a full slot has a worker of its session, and the requests that wait in a lane
are those of its session. -/
structure Manned (q : CommandQueue) (workers : List Worker) : Prop where
  count : q.activeCount = workers.length
  slot : ∀ key, (q.activeOf key).isSome → ∃ w ∈ workers, w.command.sessionKey = key
  home : ∀ key, ∀ r ∈ q.pendingOf key, r.sessionKey = key

namespace Manned

variable {q q' : CommandQueue} {workers l₁ l₂ : List Worker} {command : QueuedCommand} {phase : WorkerPhase}

theorem weaken (h : Manned q workers) (hcount : q'.activeCount = q.activeCount)
    (hactive : ∀ key, (q'.activeOf key).isSome → (q.activeOf key).isSome)
    (hhome : ∀ key, ∀ r ∈ q'.pendingOf key, r ∈ q.pendingOf key ∨ r.sessionKey = key) : Manned q' workers where
  count := hcount.trans h.count
  slot key hsome := h.slot key (hactive key hsome)
  home key r hr := (hhome key r hr).elim (h.home key r) id

theorem restage (h : Manned q (l₁ ++ ⟨command, phase⟩ :: l₂)) (phase' : WorkerPhase) :
    Manned q (l₁ ++ ⟨command, phase'⟩ :: l₂) where
  count := by
    rw [h.count, length_append, length_append]
    rfl
  slot key hsome := by
    obtain ⟨w, hw, hkey⟩ := h.slot key hsome
    rw [mem_append, mem_cons] at hw
    rcases hw with hw | rfl | hw
    · exact ⟨w, mem_append_left _ hw, hkey⟩
    · exact ⟨_, mem_append_right _ mem_cons_self, hkey⟩
    · exact ⟨w, mem_append_right _ (mem_cons_of_mem _ hw), hkey⟩
  home := h.home

theorem activate {key : String} {lane : SessionLane} {front : QueuedCommand} {rest : List QueuedCommand}
    (hact : Activation q key lane front rest q' command) (h : Manned q workers) :
    Manned q' (workers ++ [⟨command, .dispatched⟩]) := by
  have hfront : front.request.sessionKey = key := by
    apply h.home key
    rw [hact.pendingOf_before]
    exact mem_cons_self
  constructor
  · rw [hact.queue, length_append]
    push_cast
    rw [← h.count]
    rfl
  · intro k hsome
    rw [hact.activeOf_after] at hsome
    by_cases hk : k = key
    · refine ⟨_, mem_append_right _ mem_cons_self, ?_⟩
      rw [hk, ← hfront, ← hact.request_eq]
      rfl
    · rw [if_neg hk] at hsome
      obtain ⟨w, hw, hkey⟩ := h.slot k hsome
      exact ⟨w, mem_append_left _ hw, hkey⟩
  · intro k r hr
    apply h.home k
    rw [hact.pendingOf_after] at hr
    by_cases hk : k = key
    · subst hk
      rw [if_pos rfl] at hr
      rw [hact.pendingOf_before]
      exact mem_cons_of_mem _ (((SessionLane.unbatched_sublist _ _).map _).subset hr)
    · rw [if_neg hk] at hr
      exact hr

theorem finish (h : Manned q (l₁ ++ ⟨command, phase⟩ :: l₂)) : Manned (q.finish command) (l₁ ++ l₂) where
  count := by
    show q.activeCount - 1 = _
    rw [h.count, length_append, length_append, length_cons]
    push_cast
    omega
  slot key hsome := by
    rw [(q.finish_spec command key).2] at hsome
    split_ifs at hsome with hkey
    · cases hsome
    · obtain ⟨w, hw, hw'⟩ := h.slot key hsome
      rw [mem_append, mem_cons] at hw
      rcases hw with hw | rfl | hw
      · exact ⟨w, mem_append_left _ hw, hw'⟩
      · exact absurd hw'.symm hkey
      · exact ⟨w, mem_append_right _ hw, hw'⟩
  home key r hr := h.home key r ((q.finish_spec command key).1 ▸ hr)

end Manned

theorem manned_step (sys : System) (a : Action) (sys' : System) (h : Manned sys.queue sys.workers)
    (hstep : sys.step a = some sys') : Manned sys'.queue sys'.workers := by
  cases a with
  | submit cmdId now s =>
    obtain ⟨-, rfl⟩ := step_submit hstep
    obtain ⟨-, -, -, hother, hactive, -, hcount, -⟩ := sys.queue.submit_spec cmdId now s
    refine h.weaken hcount (fun key hsome => ?_) fun key r hr => ?_
    · rw [hactive] at hsome
      split_ifs at hsome
      · cases hsome
      · exact hsome
    · by_cases hkey : key = s.sessionKey
      · subst hkey
        rcases mem_append.1 ((sys.queue.pendingOf_submit cmdId now s).subset hr) with hr | hr
        · exact .inl hr
        · exact .inr (mem_singleton.1 hr ▸ rfl)
      · exact .inl (hother key hkey ▸ hr)
  | cancel commandId =>
    cases hstep
    have hactive (key : String) : (sys.queue.cancel commandId).1.activeOf key = sys.queue.activeOf key := by
      rcases sys.queue.cancel_spec commandId with ⟨-, heq⟩ | ⟨-, -, -, -, hactive, -⟩
      · rw [heq]
      · exact hactive key
    exact h.weaken (sys.queue.cancel_count commandId).2 (fun key hsome => (congrArg Option.isSome (hactive key)) ▸ hsome)
      fun key r hr => .inl ((sys.queue.pendingOf_cancel commandId key).subset hr)
  | abortSession sessionKey =>
    cases hstep
    obtain ⟨-, -, hactive, -, hcount, -⟩ := sys.queue.abortSession_spec sessionKey
    refine h.weaken hcount (fun key hsome => ?_) fun key r hr =>
      .inl ((sys.queue.pendingOf_abortSession sessionKey key).subset hr)
    rw [hactive] at hsome
    split_ifs at hsome
    · cases hsome
    · exact hsome
  | configureSession sessionKey mode debounceMs cap drop =>
    cases hstep
    have hspec := sys.queue.configureSession_spec sessionKey mode debounceMs cap drop
    exact h.weaken rfl (fun key hsome => (hspec key).2 ▸ hsome) fun key r hr => .inl ((hspec key).1 ▸ hr)
  | setConfig config =>
    cases hstep
    exact h.weaken rfl (fun _ => id) fun _ _ => .inl
  | dispatch now order =>
    obtain ⟨-, q, out, hkeys, rfl⟩ := step_dispatch hstep
    have hpass : Manned q (sys.workers ++ out.map (⟨·, .dispatched⟩)) := by
      refine CommandQueue.dispatchKeys_induction (P := fun _ _ => True)
        (motive := fun q out => Manned q (sys.workers ++ out.map (⟨·, .dispatched⟩)))
        (fun hact _ hmanned => ?_) (CommandQueue.eachActivation_true ..) hkeys (by simpa using h)
      rw [map_append, ← append_assoc]
      exact hmanned.activate hact
    exact hpass.weaken rfl (fun key hsome => q.activeOf_cleanUpIdle key ▸ hsome) fun key r hr =>
      .inl (q.pendingOf_cleanUpIdle key ▸ hr)
  | start i =>
    obtain ⟨l₁, command, l₂, hw, rfl⟩ := step_start hstep
    rw [hw] at h
    exact h.restage _
  | respond i outcome =>
    obtain ⟨l₁, command, l₂, hw, rfl⟩ := step_respond hstep
    rw [hw] at h
    exact h.restage _
  | complete i =>
    obtain ⟨l₁, command, l₂, hw, rfl⟩ := step_complete hstep
    rw [hw] at h
    exact h.finish

theorem manned {config : QueueConfig} {as : List Action} {sys : System} (hrun : Reaches config as sys) :
    Manned sys.queue sys.workers := by
  have hinit : Manned (init config).queue (init config).workers := by
    refine ⟨rfl, fun key hsome => ?_, fun _ _ hr => absurd hr not_mem_nil⟩
    have hnone : (init config).queue.activeOf key = none := rfl
    rw [hnone] at hsome
    cases hsome
  exact exec_invariant' (motive := fun sys => Manned sys.queue sys.workers) manned_step hinit hrun

/-- No worker can take a step. -/
def Quiet (sys : System) : Prop :=
  ∀ i outcome, sys.step (.start i) = none ∧ sys.step (.respond i outcome) = none ∧ sys.step (.complete i) = none

/-- **No dead slots.**  After every run, interrupted or not, there is no worker that waits for anything: where none
can take a step there is none, nothing counts as active, and every slot is empty. -/
theorem free_of_quiet {config : QueueConfig} {as : List Action} {sys : System} (hrun : Reaches config as sys)
    (hquiet : sys.Quiet) :
    sys.workers = [] ∧ sys.queue.activeCount = 0 ∧ ∀ key, sys.queue.activeOf key = none := by
  have hmanned := manned hrun
  have hnone : sys.workers = [] := by
    by_contra hne
    obtain ⟨⟨command, phase⟩, rest, hw⟩ := exists_cons_of_ne_nil hne
    have hfirst : sys.workers[0]? = some ⟨command, phase⟩ := by rw [hw]; rfl
    obtain ⟨hstart, hrespond, hcomplete⟩ := hquiet 0 (.returned .null)
    cases phase with
    | dispatched => simp [step, hfirst] at hstart
    | running => simp [step, hfirst] at hrespond
    | responded => simp [step, hfirst] at hcomplete
  refine ⟨hnone, by rw [hmanned.count, hnone]; rfl, fun key => ?_⟩
  by_contra hsome
  obtain ⟨w, hw, -⟩ := hmanned.slot key (Option.isSome_iff_ne_none.2 hsome)
  rw [hnone] at hw
  cases hw

/-- A message of a session. -/
def plainSubmission : Submission := { sessionKey := "s", message := "m" }

theorem free_of_quiet_aborted : ∃ sys, Reaches {} [.submit "a" 0 plainSubmission, .abortSession "s"] sys ∧
    sys.workers = [] ∧ sys.queue.activeCount = 0 ∧ ∀ key, sys.queue.activeOf key = none :=
  ⟨_, rfl, @free_of_quiet {} [.submit "a" 0 plainSubmission, .abortSession "s"] _ rfl
    fun _ _ => ⟨rfl, rfl, rfl⟩⟩

end System

/-! ## What a pass leaves -/

namespace CommandQueue

variable {now : Int} {q q' : CommandQueue} {key k : String}

/-- The limit is reached, or if the slot of the lane is empty and a command waits, its debounce time goes on. -/
def Busy (now : Int) (q : CommandQueue) (key : String) : Prop :=
  q.config.maxConcurrent ≤ q.activeCount ∨ ∀ lane, q.lanes.lookup key = some lane →
    lane.hasActive ∨ ∀ front ∈ lane.pending.head?, (now - front.enqueuedAt).tdiv 1000000 < lane.debounceMs

theorem debouncing_of_tryActivate {lane : SessionLane} (hidle : ¬lane.hasActive)
    (h : lane.tryActivate now = none) :
    ∀ front ∈ lane.pending.head?, (now - front.enqueuedAt).tdiv 1000000 < lane.debounceMs := by
  intro front hfront
  by_contra hready
  obtain ⟨rest, hpending⟩ := head?_eq_some_iff.1 hfront
  rw [SessionLane.hasActive, Option.not_isSome_iff_eq_none] at hidle
  simp [SessionLane.tryActivate, hpending, hidle, hready] at h

theorem Busy.activate {lane : SessionLane} {front command : QueuedCommand} {rest : List QueuedCommand}
    (hact : Activation q key lane front rest q' command) (h : k = key ∨ Busy now q k) : Busy now q' k := by
  by_cases hk : k = key
  · right
    intro lane' hlane'
    rw [hact.lanes_after, Table.lookup_insert_ite, if_pos hk] at hlane'
    cases hlane'
    exact .inl rfl
  · rcases h.resolve_left hk with hfull | hlane
    · left
      rw [hact.queue]
      exact hfull.trans (Int.le_add_one le_rfl)
    · right
      intro lane' hlane'
      rw [hact.lanes_after, Table.lookup_insert_ite, if_neg hk] at hlane'
      exact hlane lane' hlane'

/-- A walk leaves every lane busy that it comes to, or that was busy. -/
theorem busy_dispatchKeys {keys : List String} {out out' : List QueuedCommand}
    (h : dispatchKeys now keys q out = some (q', out')) (hk : k ∈ keys ∨ Busy now q k) : Busy now q' k := by
  induction keys generalizing q out with
  | nil =>
    cases h
    exact hk.resolve_left not_mem_nil
  | cons key keys ih =>
    have hnext (hkey : Busy now q key) : k ∈ keys ∨ Busy now q k := by
      rcases hk with hk | hbusy
      · exact (mem_cons.1 hk).elim (fun heq => .inr (heq ▸ hkey)) .inl
      · exact .inr hbusy
    rw [dispatchKeys] at h
    cases hl : q.lanes.lookup key with
    | none =>
      rw [hl] at h
      exact ih h (hnext (.inr fun lane hlane => absurd (hl.symm.trans hlane) (by simp)))
    | some lane =>
      have hkey (hlane : lane.hasActive ∨ ∀ front ∈ lane.pending.head?,
          (now - front.enqueuedAt).tdiv 1000000 < lane.debounceMs) : Busy now q key :=
        .inr fun lane' hlane' => Option.some.inj (hl.symm.trans hlane') ▸ hlane
      rw [hl] at h
      dsimp only at h
      split_ifs at h with ha hm
      · exact ih h (hnext (hkey (.inl ha)))
      · cases h
        exact .inl hm
      · cases ht : lane.tryActivate now with
        | none =>
          rw [ht] at h
          exact ih h (hnext (hkey (.inr (debouncing_of_tryActivate ha ht))))
        | some r =>
          obtain ⟨lane₁, command₁⟩ := r
          rw [ht] at h
          dsimp only at h
          cases hv : q.activate key lane₁ command₁ with
          | none =>
            rw [hv] at h
            cases h
          | some r =>
            obtain ⟨q₁, command⟩ := r
            rw [hv] at h
            obtain ⟨front, -, hact⟩ := activation_of_activate hl hm ht hv
            refine ih h ?_
            rcases hk with hk | hbusy
            · exact (mem_cons.1 hk).elim (fun heq => .inr (.activate hact (.inl heq))) .inl
            · exact .inr (.activate hact (.inr hbusy))

end CommandQueue

/-- **Work conservation.**  After every run that ends with a pass, each lane has an active command, or none at its
front whose debounce time is over, or the limit is reached. -/
theorem System.busy_of_pass {config : QueueConfig} {as : List Action} {now : Int} {order : List String}
    {sys : System} (hrun : Reaches config (as ++ [.dispatch now order]) sys) (key : String) :
    sys.queue.Busy now key := by
  obtain ⟨sys₀, -, hrun⟩ := exec_append.1 hrun
  obtain ⟨sys₁, hstep, hrun⟩ := exec_cons.1 hrun
  cases hrun
  obtain ⟨hperm, q, out, hkeys, rfl⟩ := step_dispatch hstep
  have hbusy : q.Busy now key := by
    refine CommandQueue.busy_dispatchKeys hkeys ?_
    by_cases hkey : key ∈ order
    · exact .inl hkey
    · refine .inr (.inr fun lane hlane => absurd ?_ hkey)
      rw [hperm.mem_iff]
      exact AList.mem_keys.1 (AList.lookup_isSome.1 (Option.isSome_of_eq_some hlane))
  refine hbusy.imp_right fun hlane lane hlookup => hlane lane ?_
  exact (Option.filter_eq_some_iff.1 ((Table.lookup_filterValues _ _ _).symm.trans hlookup)).1

theorem System.busy_of_pass_one : ∃ sys, Reaches {} ([.submit "a" 0 plainSubmission] ++
    [.dispatch 2000000000 ["s"]]) sys ∧ sys.queue.Busy 2000000000 "s" := by
  have hsome : (exec step (init {}) ([.submit "a" 0 plainSubmission] ++ [.dispatch 2000000000 ["s"]])).isSome := by
    decide
  obtain ⟨sys, hrun⟩ := Option.isSome_iff_exists.1 hsome
  exact ⟨sys, hrun, busy_of_pass hrun "s"⟩

end RavBot.Gateway
