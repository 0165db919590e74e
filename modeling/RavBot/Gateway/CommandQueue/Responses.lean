import RavBot.Gateway.CommandQueue.Discards

/-!
# Every request is answered once

A client that submits a command with an RPC request id waits for one final notification:
the response of its worker, the word of a caller that cancelled it, or an overflow event
that reports it dropped.  The invariant behind this is a ledger.  At any time, for every
request that was ever submitted with an RPC request id,

  (how often it waits) + (how many workers still owe it a response) + (how often it was
  finally notified) = 1

and each operation moves the one between the three places.  A silent discard takes it out
of the first place and puts it nowhere, so the ledger is kept along the runs that discard
only commands without an RPC request id.
-/

open List

namespace RavBot.Gateway

open RavBot.Lib

/-- How many times a notice is final for a request. -/
def Notice.finalFor (r : Request) : Notice → Nat
  | .response commandId connectionId rpcRequestId _ _ =>
    if commandId = r.id ∧ connectionId = r.connectionId ∧ rpcRequestId = r.rpcRequestId then 1
    else 0
  | .cancelled commandId => if commandId = r.id then 1 else 0
  | .overflow event => event.droppedIds.count r.id
  | .queueEvent .. => 0

def finalNotices (r : Request) (notices : List Notice) : Nat :=
  (notices.map (Notice.finalFor r)).sum

def owing (r : Request) (workers : List Worker) : Nat :=
  workers.countP fun w => w.phase ≠ .responded ∧ w.command.request = r

@[simp] theorem finalNotices_append (r : Request) (ns ns' : List Notice) :
    finalNotices r (ns ++ ns') = finalNotices r ns + finalNotices r ns' := by
  simp [finalNotices]

@[simp] theorem finalNotices_emitQueueEvent (r : Request) (c : QueuedCommand) (e : String) :
    finalNotices r [emitQueueEvent c e] = 0 := rfl

theorem count_id_eq_count {rs : List Request} {r : Request}
    (h : ∀ r' ∈ rs, r'.id = r.id → r' = r) : (rs.map Request.id).count r.id = rs.count r := by
  induction rs with
  | nil => rfl
  | cons hd tl ih =>
    rw [map_cons, count_cons, count_cons, ih fun r' hr' => h r' (mem_cons_of_mem _ hr')]
    by_cases heq : hd = r
    · simp [heq]
    · have hid : hd.id ≠ r.id := fun hid => heq (h hd (mem_cons_self ..) hid)
      simp [heq, hid]

theorem count_request_eq_zero {cmds : List QueuedCommand} {r : Request}
    (h : ∀ c ∈ cmds, c.rpcRequestId = "") (hr : r.rpcRequestId ≠ "") :
    (cmds.map QueuedCommand.request).count r = 0 := by
  rw [count_eq_zero]
  intro hmem
  obtain ⟨c, hc, rfl⟩ := mem_map.1 hmem
  exact hr (h c hc)

/-! ## The ledger -/

/-- Ids identify the submitted requests, whatever waits or is in flight was submitted, and
every submitted request with an RPC request id is in exactly one of the three places.
`waiting` lists the requests that wait in each session. -/
structure Ledger (waiting : String → List Request) (workers : List Worker)
    (submitted : List Request) (notices : List Notice) : Prop where
  ids : (submitted.map Request.id).Nodup
  pending : ∀ key, ∀ r ∈ waiting key, r ∈ submitted ∧ r.sessionKey = key
  working : ∀ w ∈ workers, w.command.request ∈ submitted
  unknown : ∀ r : Request, r.id ∉ submitted.map Request.id → finalNotices r notices = 0
  balance : ∀ r ∈ submitted, r.rpcRequestId ≠ "" →
    (waiting r.sessionKey).count r + owing r workers + finalNotices r notices = 1

namespace Ledger

variable {waiting waiting' : String → List Request} {workers : List Worker}
  {submitted : List Request} {notices : List Notice}

theorem eq_of_id (h : Ledger waiting workers submitted notices) {r r' : Request}
    (hr : r ∈ submitted) (hr' : r' ∈ submitted) (hid : r.id = r'.id) : r = r' :=
  inj_on_of_nodup_map h.ids hr hr' hid

/-- Waiting requests that leave the queue of one session, each with one final notice if it
has an RPC request id, keep the ledger. -/
theorem leave (h : Ledger waiting workers submitted notices) (key : String)
    (gone : List Request) {ns : List Notice}
    (hkey : (waiting key).Perm (waiting' key ++ gone))
    (hother : ∀ k ≠ key, waiting' k = waiting k)
    (hns : ∀ r : Request, (∀ r' ∈ gone, r'.id = r.id → r' = r) → r.rpcRequestId ≠ "" →
      finalNotices r ns = gone.count r)
    (hunknown : ∀ r : Request, (∀ r' ∈ gone, r'.id ≠ r.id) → finalNotices r ns = 0) :
    Ledger waiting' workers submitted (notices ++ ns) := by
  have hgone : ∀ r ∈ gone, r ∈ submitted ∧ r.sessionKey = key := fun r hr =>
    h.pending key r (hkey.symm.subset (mem_append_right _ hr))
  constructor
  · exact h.ids
  · intro k r hr
    by_cases hk : k = key
    · subst hk
      exact h.pending _ r (hkey.symm.subset (mem_append_left _ hr))
    · exact h.pending k r (hother k hk ▸ hr)
  · exact h.working
  · intro r hr
    rw [finalNotices_append, h.unknown r hr, hunknown r]
    exact fun r' hr' hid => hr (hid ▸ mem_map_of_mem (hgone r' hr').1)
  · intro r hr hrpc
    have hbalance := h.balance r hr hrpc
    rw [finalNotices_append, hns r (fun r' hr' hid => h.eq_of_id (hgone r' hr').1 hr hid) hrpc]
    by_cases hk : r.sessionKey = key
    · have hcount := hkey.count_eq r
      rw [count_append] at hcount
      rw [hk] at hbalance ⊢
      omega
    · have : gone.count r = 0 := count_eq_zero.2 fun hmem => hk (hgone r hmem).2
      rw [hother _ hk]
      omega

theorem join (h : Ledger waiting workers submitted notices) {r : Request}
    (hfresh : r.id ∉ submitted.map Request.id) :
    Ledger (fun k => if k = r.sessionKey then waiting k ++ [r] else waiting k) workers
      (submitted ++ [r]) notices := by
  have hnot : r ∉ submitted := fun hr => hfresh (mem_map_of_mem hr)
  constructor
  · rw [map_append, map_singleton, ← concat_eq_append]
    exact (nodup_concat _ _).2 ⟨hfresh, h.ids⟩
  · intro k r' hr'
    by_cases hk : k = r.sessionKey
    · rw [if_pos hk] at hr'
      rcases mem_append.1 hr' with hold | hnew
      · exact (h.pending k r' hold).imp_left (mem_append_left _)
      · obtain rfl := mem_singleton.1 hnew
        exact ⟨mem_append_right _ hnew, hk.symm⟩
    · rw [if_neg hk] at hr'
      exact (h.pending k r' hr').imp_left (mem_append_left _)
  · exact fun w hw => mem_append_left _ (h.working w hw)
  · intro r' hr'
    refine h.unknown r' fun hmem => hr' ?_
    rw [map_append]
    exact mem_append_left _ hmem
  · intro r' hr' hrpc
    rcases mem_append.1 hr' with hold | hnew
    · have hbalance := h.balance r' hold hrpc
      have hne : r ≠ r' := fun heq => hnot (heq ▸ hold)
      by_cases hk : r'.sessionKey = r.sessionKey
      · rw [if_pos hk, count_append, count_singleton]
        simpa [hne] using hbalance
      · rw [if_neg hk]
        exact hbalance
    · obtain rfl := mem_singleton.1 hnew
      have hpending : (waiting r'.sessionKey).count r' = 0 :=
        count_eq_zero.2 fun hmem => hnot (h.pending _ r' hmem).1
      have howing : owing r' workers = 0 := by
        rw [owing, countP_eq_zero]
        intro w hw hw'
        exact hnot ((of_decide_eq_true hw').2 ▸ h.working w hw)
      rw [if_pos rfl, count_append, hpending, howing, h.unknown r' hfresh]
      simp

/-- A step of a worker that changes what its request is owed and notified by the same
amount keeps the ledger. -/
theorem work (h : Ledger waiting workers submitted notices) {workers' : List Worker}
    {ns : List Notice}
    (hworkers : workers'.map Worker.command ⊆ workers.map Worker.command)
    (hbalance : ∀ r ∈ submitted, r.rpcRequestId ≠ "" →
      owing r workers' + finalNotices r ns = owing r workers)
    (hunknown : ∀ r : Request, r.id ∉ submitted.map Request.id → finalNotices r ns = 0) :
    Ledger waiting workers' submitted (notices ++ ns) where
  ids := h.ids
  pending := h.pending
  working w hw := by
    obtain ⟨w₀, hw₀, heq⟩ := mem_map.1 (hworkers (mem_map_of_mem hw))
    exact heq ▸ h.working w₀ hw₀
  unknown r hr := by rw [finalNotices_append, h.unknown r hr, hunknown r hr]
  balance r hr hrpc := by
    have h₁ := h.balance r hr hrpc
    have h₂ := hbalance r hr hrpc
    rw [finalNotices_append]
    omega

/-- An activation moves a request from its queue to a worker, and whatever else leaves the
queue has no RPC request id. -/
theorem activate (h : Ledger waiting workers submitted notices) (key : String)
    {command : QueuedCommand} {batch : List QueuedCommand}
    (hkey : (waiting key).Perm
      (waiting' key ++ command.request :: batch.map QueuedCommand.request))
    (hother : ∀ k ≠ key, waiting' k = waiting k) (hbatch : ∀ c ∈ batch, c.rpcRequestId = "") :
    Ledger waiting' (workers ++ [⟨command, .dispatched⟩]) submitted notices := by
  have hcommand := h.pending key command.request
    (hkey.symm.subset (mem_append_right _ (mem_cons_self ..)))
  constructor
  · exact h.ids
  · intro k r hr
    by_cases hk : k = key
    · subst hk
      exact h.pending _ r (hkey.symm.subset (mem_append_left _ hr))
    · exact h.pending k r (hother k hk ▸ hr)
  · intro w hw
    rcases mem_append.1 hw with hw | hw
    · exact h.working w hw
    · obtain rfl := mem_singleton.1 hw
      exact hcommand.1
  · exact h.unknown
  · intro r hr hrpc
    have hbalance := h.balance r hr hrpc
    have howing : owing r (workers ++ [⟨command, .dispatched⟩]) =
        owing r workers + if command.request = r then 1 else 0 := by
      simp [owing, countP_append, countP_singleton]
    rw [howing]
    by_cases hk : r.sessionKey = key
    · have hcount := hkey.count_eq r
      rw [count_append, count_cons, count_request_eq_zero hbatch hrpc] at hcount
      simp only [beq_iff_eq] at hcount
      rw [hk] at hbalance ⊢
      omega
    · have hne : command.request ≠ r := fun heq => hk (heq ▸ hcommand.2)
      rw [hother _ hk, if_neg hne]
      omega

end Ledger

namespace System

/-! ## The ledger along runs -/

/-- The condition under which no request is lost: the commands that a step throws away
without reporting them have no RPC request id. -/
abbrev DiscardsNoRequest : System → Action → Prop := DiscardsOnly fun c => c.rpcRequestId = ""

abbrev Balanced (sys : System) : Prop :=
  Ledger sys.queue.pendingOf sys.workers sys.submitted sys.notices

theorem finalNotices_overflow (r : Request) (overflow : Option QueueOverflow) :
    finalNotices r (overflow.toList.map Notice.overflow) =
      (CommandQueue.overflowIds overflow).count r.id := by
  cases overflow with
  | none => rfl
  | some event => simp [finalNotices, Notice.finalFor, CommandQueue.overflowIds]

theorem finalNotices_respond {r : Request} {command : QueuedCommand}
    (h : command.id = r.id → command.request = r) (outcome : Outcome) :
    finalNotices r (RavBot.Gateway.respond command outcome) =
      if command.request = r ∧ r.rpcRequestId ≠ "" then 1 else 0 := by
  by_cases hid : command.id = r.id
  · obtain rfl := h hid
    by_cases hrpc : command.rpcRequestId = ""
    · simp [RavBot.Gateway.respond, hrpc, finalNotices, QueuedCommand.request]
    · cases outcome <;>
        simp [RavBot.Gateway.respond, hrpc, finalNotices, Notice.finalFor, QueuedCommand.request]
  · have hne : command.request ≠ r := fun heq => hid (heq ▸ rfl)
    rw [if_neg fun hh => hne hh.1]
    by_cases hrpc : command.rpcRequestId = ""
    · simp [RavBot.Gateway.respond, hrpc, finalNotices]
    · cases outcome <;>
        simp [RavBot.Gateway.respond, hrpc, finalNotices, Notice.finalFor, hid]

variable {sys : System}

theorem balanced_submit (h : sys.Balanced) {cmdId : String} (now : Int)
    (s : Submission) (hfresh : cmdId ∉ sys.submitted.map Request.id)
    (hno : DiscardsNoRequest sys (.submit cmdId now s)) :
    Ledger (sys.queue.submit cmdId now s).1.pendingOf sys.workers
      (sys.submitted ++ [(sys.queue.makeCommand cmdId now s).request])
      (sys.notices ++ (sys.queue.submit cmdId now s).2.toList.map .overflow) := by
  obtain ⟨lost, hperm, hids, hother, -⟩ := sys.queue.submit_spec cmdId now s
  set discarded := (sys.queue.getLane s.sessionKey).discardedBySubmit
    ((sys.queue.getLane s.sessionKey).effectiveMode s.mode)
  refine (h.join (r := (sys.queue.makeCommand cmdId now s).request) hfresh).leave
    s.sessionKey (lost ++ discarded.map QueuedCommand.request) ?_ ?_ ?_ ?_
  · rw [← append_assoc]
    exact (if_pos rfl).symm ▸ hperm
  · intro k hk
    rw [hother k hk]
    exact (if_neg hk).symm
  · intro r hr hrpc
    rw [finalNotices_overflow, hids, count_append, count_request_eq_zero hno hrpc,
      count_id_eq_count fun r' hr' => hr r' (mem_append_left _ hr'), Nat.add_zero]
  · intro r hr
    rw [finalNotices_overflow, hids, count_eq_zero]
    intro hmem
    obtain ⟨r', hr', hid⟩ := mem_map.1 hmem
    exact hr r' (mem_append_left _ hr') hid

theorem balanced_cancel (h : sys.Balanced) (commandId : String) :
    Ledger (sys.queue.cancel commandId).1.pendingOf sys.workers sys.submitted
      (sys.notices ++
        if (sys.queue.cancel commandId).2 then [.cancelled commandId] else []) := by
  rcases sys.queue.cancel_spec commandId with
    ⟨-, heq⟩ | ⟨key, -, -, hother, -, -, -, hlane⟩
  · simpa [heq] using h
  · rcases hlane with ⟨front, r₀, rest, hbefore, hid, hafter, htrue⟩ | ⟨-, hsame, hfalse⟩
    · rw [htrue, if_pos rfl, ← hid]
      refine h.leave key [r₀] ?_ (hid.symm ▸ hother) ?_ ?_
      · rw [hbefore, hid, hafter]
        exact perm_middle.trans (perm_append_singleton _ _).symm
      · intro r hr _
        by_cases heq : r₀ = r
        · simp [finalNotices, Notice.finalFor, heq]
        · have hne : r₀.id ≠ r.id := fun hid' =>
            heq (hr r₀ (mem_singleton_self _) hid')
          simp [finalNotices, Notice.finalFor, heq, hne]
      · intro r hr
        have hne := hr r₀ (mem_singleton_self _)
        simp [finalNotices, Notice.finalFor, hne]
    · have hall : (sys.queue.cancel commandId).1.pendingOf = sys.queue.pendingOf := by
        funext k
        by_cases hk : k = key
        · rw [hk, hsame]
        · exact hother k hk
      rw [hall, hfalse]
      simpa using h

theorem balanced_abortSession (h : sys.Balanced) (sessionKey : String)
    (hno : DiscardsNoRequest sys (.abortSession sessionKey)) :
    Ledger (sys.queue.abortSession sessionKey).1.pendingOf sys.workers sys.submitted
      sys.notices := by
  obtain ⟨hbefore, hother, -⟩ := sys.queue.abortSession_spec sessionKey
  set discarded := (sys.queue.getLane sessionKey).pending.dropLast
  rw [← append_nil sys.notices]
  refine h.leave sessionKey (discarded.map QueuedCommand.request) ?_ hother ?_ (fun _ _ => rfl)
  · rw [hbefore]
    exact perm_append_comm
  · exact fun r _ hrpc => (count_request_eq_zero hno hrpc).symm

theorem balanced_activate {q q' : CommandQueue} {key : String} {lane : SessionLane}
    {front command : QueuedCommand} {rest : List QueuedCommand} {workers : List Worker}
    {submitted : List Request} {notices : List Notice}
    (hact : Activation q key lane front rest q' command)
    (hbatch : ∀ c ∈ SessionLane.batched front.mode rest, c.rpcRequestId = "")
    (h : Ledger q.pendingOf workers submitted notices) :
    Ledger q'.pendingOf (workers ++ [⟨command, .dispatched⟩]) submitted notices := by
  refine h.activate key ?_ (fun k hk => ?_) hbatch
  · rw [hact.pendingOf_before, hact.pendingOf_after, if_pos rfl, hact.request_eq]
    refine .trans (.cons _ ?_) perm_middle.symm
    have := (SessionLane.batched_perm front.mode rest).symm.map QueuedCommand.request
    rwa [map_append] at this
  · rw [hact.pendingOf_after, if_neg hk]

theorem balanced_step (sys : System) (a : Action) (sys' : System) (h : sys.Balanced)
    (hno : DiscardsNoRequest sys a) (hstep : sys.step a = some sys') : sys'.Balanced := by
  cases a with
  | submit cmdId now s =>
    obtain ⟨hfresh, rfl⟩ := step_submit hstep
    exact balanced_submit h now s hfresh hno
  | cancel commandId =>
    cases hstep
    exact balanced_cancel h commandId
  | abortSession sessionKey =>
    cases hstep
    exact balanced_abortSession h sessionKey hno
  | configureSession sessionKey mode debounceMs cap drop =>
    cases hstep
    have hsame : (sys.queue.configureSession sessionKey mode debounceMs cap drop).pendingOf =
        sys.queue.pendingOf := funext fun k =>
      (sys.queue.configureSession_spec sessionKey mode debounceMs cap drop k).1
    rw [Balanced, hsame]
    exact h
  | setConfig config =>
    cases hstep
    exact h
  | dispatch now order =>
    obtain ⟨-, q, out, hkeys, rfl⟩ := step_dispatch hstep
    have hpass : Ledger q.pendingOf (sys.workers ++ out.map (⟨·, .dispatched⟩)) sys.submitted
        sys.notices := by
      refine CommandQueue.dispatchKeys_induction
        (motive := fun q out => Ledger q.pendingOf
          (sys.workers ++ out.map (⟨·, .dispatched⟩)) sys.submitted sys.notices)
        (fun hact hbatch hledger => ?_) hno hkeys (by simpa using h)
      rw [map_append, ← append_assoc]
      exact balanced_activate hact hbatch hledger
    have hsame : q.cleanUpIdle.pendingOf = q.pendingOf := funext q.pendingOf_cleanUpIdle
    rw [Balanced, hsame]
    exact hpass
  | start i =>
    obtain ⟨l₁, command, l₂, hw, rfl⟩ := step_start hstep
    refine h.work ?_ (fun r _ _ => ?_) (fun r _ => by simp)
    · simp [hw]
    · simp [hw, owing, countP_append, countP_cons]
  | respond i outcome =>
    obtain ⟨l₁, command, l₂, hw, rfl⟩ := step_respond hstep
    have hin : command.request ∈ sys.submitted :=
      h.working ⟨command, .running⟩ (by simp [hw])
    refine h.work ?_ (fun r hr hrpc => ?_) (fun r hr => ?_)
    · simp [hw]
    · rw [finalNotices_respond (h.eq_of_id hin hr) outcome]
      simp [hw, owing, countP_append, countP_cons, hrpc]
      omega
    · have hne : command.id ≠ r.id := fun hid => hr (hid ▸ mem_map_of_mem hin)
      rw [finalNotices_respond (fun hid => (hne hid).elim) outcome,
        if_neg fun (hh : command.request = r ∧ _) => hne (congrArg Request.id hh.1)]
  | complete i =>
    obtain ⟨l₁, command, l₂, hw, rfl⟩ := step_complete hstep
    have hsame : (sys.queue.finish command).pendingOf = sys.queue.pendingOf :=
      funext fun k => (sys.queue.finish_spec command k).1
    rw [Balanced, hsame]
    refine h.work ?_ (fun r _ _ => ?_) (fun r _ => by simp)
    · rw [hw, map_append, map_append, map_cons]
      exact append_subset.2 ⟨subset_append_left .., fun x hx =>
        mem_append_right _ (mem_cons_of_mem _ hx)⟩
    · simp [hw, owing, countP_append]

theorem balanced_init (config : QueueConfig) : (init config).Balanced where
  ids := nodup_nil
  pending _ _ hr := by cases hr
  working _ hw := by cases hw
  unknown _ _ := rfl
  balance _ hr := by cases hr

def NothingPending (sys : System) : Prop :=
  ∀ e ∈ sys.queue.lanes.entries, e.2.pending = []

/-- **Every request is answered once.**  In every run in which the commands that are thrown
away silently have no RPC request id, once no command waits and no worker is in flight,
every request that was submitted with an RPC request id has had exactly one final notice. -/
theorem answered_once {config : QueueConfig} {as : List Action} {sys : System}
    (hok : Along step DiscardsNoRequest (init config) as) (hrun : Reaches config as sys)
    (hpending : sys.NothingPending) (hworkers : sys.workers = []) {r : Request}
    (hr : r ∈ sys.submitted) (hrpc : r.rpcRequestId ≠ "") :
    finalNotices r sys.notices = 1 := by
  have h : sys.Balanced :=
    exec_invariant (motive := Balanced) balanced_step (balanced_init config) hok hrun
  have hempty : sys.queue.pendingOf r.sessionKey = [] := by
    cases hl : sys.queue.lanes.lookup r.sessionKey with
    | none => simp [CommandQueue.pendingOf, hl]
    | some lane =>
      have : lane.pending = [] := hpending _ (AList.mem_lookup_iff.1 hl)
      simp [CommandQueue.pendingOf, hl, SessionLane.requests, this]
  have hbalance := h.balance r hr hrpc
  rw [hempty, hworkers] at hbalance
  simpa [owing] using hbalance

/-- A run in which one request is answered, one is cancelled, one is dropped by an overflow,
and a message that nobody waits for is collected. -/
theorem answered_once_three_ways :
    ∃ sys, Reaches { cap := 1, drop := .dropOldest }
      [.submit "a" 0 { sessionKey := "s", message := "one", rpcRequestId := "1" },
        .submit "b" 0 { sessionKey := "s", message := "two", rpcRequestId := "2" },
        .submit "c" 0 { sessionKey := "t", message := "three", rpcRequestId := "3" },
        .cancel "c", .configureSession "s" .collect 0 5 "",
        .submit "d" 0 { sessionKey := "s", message := "four" },
        .dispatch 2000000000 ["s", "t"], .start 0, .respond 0 (.threw "no"), .complete 0] sys ∧
      ∃ r ∈ sys.submitted, r.id = "a" ∧ finalNotices r sys.notices = 1 := by
  refine ⟨_, (Option.some_get (by decide)).symm, ⟨"a", "s", "", "1"⟩, by decide, rfl, ?_⟩
  exact answered_once (by decide) (Option.some_get _).symm (by unfold NothingPending; decide)
    (by rfl) (by decide) (by decide)

/-- A request that is collected into the parameters of another one is never answered. -/
theorem not_answered_once : ¬ ∀ config as sys, Reaches config as sys → sys.NothingPending →
    sys.workers = [] → ∀ r ∈ sys.submitted, r.rpcRequestId ≠ "" →
      finalNotices r sys.notices = 1 := by
  intro h
  have := h {}
    [.submit "a" 0 { sessionKey := "s", message := "one", rpcRequestId := "1" },
      .submit "b" 0 { sessionKey := "s", message := "two", rpcRequestId := "2" },
      .dispatch 2000000000 ["s"], .start 0, .respond 0 (.returned .null), .complete 0]
    _ (Option.some_get (by decide)).symm (by unfold NothingPending; decide) (by rfl)
    ⟨"b", "s", "", "2"⟩ (by decide) (by decide)
  revert this
  decide

end System

end RavBot.Gateway
