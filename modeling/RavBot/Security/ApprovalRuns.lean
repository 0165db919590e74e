import RavBot.Lib.Run
import RavBot.Security.ExecApproval

/-!
# Approvals from several threads

Calls of `RequestApproval` make a request, decide on it and resolve it, each in a critical
section of its own, while other threads resolve requests and prune the expired ones.  Each
request is decided once.  A call returns the decision that it has come to, also when another
thread came first with another one, so it returns the recorded decision when nobody decides
otherwise in between (`one_decision`).
-/

open List

namespace RavBot.Security

open RavBot.Lib

/-- How far a call of `RequestApproval` has come. -/
inductive ApprovalPhase where
  /-- Its request waits in the table. -/
  | requested (req : ApprovalRequest)
  /-- It has come to a decision. -/
  | decided (req : ApprovalRequest) (decision : ApprovalDecision)
  /-- It has returned, with the request that it has made, if any. -/
  | returned (req : Option ApprovalRequest) (decision : ApprovalDecision)

def ApprovalPhase.req : ApprovalPhase → Option ApprovalRequest
  | .requested req => some req
  | .decided req _ => some req
  | .returned req _ => req

/-- The manager and the calls that have come in. -/
structure Approvals where
  manager : ExecApprovalManager
  calls : List ApprovalPhase

inductive ApprovalAction where
  /-- A call comes in, and draws an id if it has to ask. -/
  | request (id command cwd agentId sessionKey : String) (now : Int)
  /-- A call asks the handler, which answers unless there is none. -/
  | decide (i : Nat) (answer : Option ApprovalDecision)
  /-- A call resolves its request and returns. -/
  | finish (i : Nat) (now : Int)
  /-- Another thread calls `Resolve`. -/
  | resolve (id : String) (decision : ApprovalDecision) (resolvedBy : String) (now : Int)
  /-- Another thread calls `PruneExpired`. -/
  | prune (now : Int) (order : List String)

namespace Approvals

def start (config : ExecApprovalConfig) : Approvals := ⟨⟨config, ∅, []⟩, []⟩

def ids (s : Approvals) : List String := s.calls.filterMap fun call => call.req.map (·.id)

/-- A critical section of a call, or a call from another thread.  The id of a request is new. -/
def step (s : Approvals) : ApprovalAction → Option Approvals
  | .request id command cwd agentId sessionKey now =>
    if s.manager.isFree command then
      some { s with calls := s.calls ++ [.returned none .approved] }
    else if id ∈ s.ids then none
    else
      let req := s.manager.makeRequest id command cwd agentId sessionKey now
      some ⟨s.manager.addRequest req, s.calls ++ [.requested req]⟩
  | .decide i answer =>
    match s.calls[i]? with
    | some (.requested req) =>
      some { s with calls := s.calls.set i (.decided req (s.manager.decide answer)) }
    | _ => none
  | .finish i now =>
    match s.calls[i]? with
    | some (.decided req decision) =>
      some ⟨(s.manager.resolve req.id decision "auto" now).1,
        s.calls.set i (.returned (some req) decision)⟩
    | _ => none
  | .resolve id decision resolvedBy now =>
    some { s with manager := (s.manager.resolve id decision resolvedBy now).1 }
  | .prune now order =>
    (s.manager.pruneExpired now order).map fun manager => { s with manager }

/-- Nobody decides on a request otherwise than its own call: a decision of another thread on a
request that its call has decided on is the same, and a call that comes to a decision on a
request that is not pending any more comes to the recorded one. -/
def Unanimous (s : Approvals) : ApprovalAction → Prop
  | .decide i answer => ∀ req, s.calls[i]? = some (.requested req) →
      ∀ res ∈ s.manager.resolved, res.id = req.id → s.manager.decide answer = res.decision
  | .resolve id decision _ _ => ∀ req own, .decided req own ∈ s.calls → req.id = id →
      (s.manager.pending.lookup id).isSome → own = decision
  | .prune now _ => ∀ req own, .decided req own ∈ s.calls →
      req.id ∈ s.manager.expiredIds now → own = .timeout
  | _ => True

/-! ## Every request is decided once -/

/-- The requests of the calls, each with an id of its own, are pending or resolved, and not
both; and none is resolved twice. -/
structure Once (s : Approvals) : Prop where
  ids : s.ids.Nodup
  pending : ∀ id, (s.manager.pending.lookup id).isSome → id ∈ s.ids
  resolved : ∀ res ∈ s.manager.resolved,
    res.id ∈ s.ids ∧ s.manager.pending.lookup res.id = none
  once : (s.manager.resolved.map (·.id)).Nodup
  /-- A request is not lost. -/
  kept : ∀ id ∈ s.ids, (s.manager.pending.lookup id).isSome ∨
    ∃ res ∈ s.manager.resolved, res.id = id
  /-- A call resolves its request before it returns. -/
  returned : ∀ req decision, .returned (some req) decision ∈ s.calls →
    s.manager.pending.lookup req.id = none

variable {s : Approvals} {call : ApprovalPhase} {req : ApprovalRequest}

theorem mem_ids
    (hcall : call ∈ s.calls) (hreq : call.req = some req) : req.id ∈ s.ids :=
  mem_filterMap.2 ⟨call, hcall, by rw [hreq]; rfl⟩

variable {call' : ApprovalPhase}

theorem ids_set {i : Nat}
    (hi : s.calls[i]? = some call) (hreq : call'.req = call.req) (m : ExecApprovalManager) :
    ids ⟨m, s.calls.set i call'⟩ = s.ids := by
  have hmap : (s.calls.set i call').map ApprovalPhase.req = s.calls.map ApprovalPhase.req := by
    rw [map_set, hreq]
    apply ext_getElem?
    intro j
    rw [getElem?_set]
    split_ifs with hij hlt
    · rw [getElem?_map, ← hij, hi]
      rfl
    · rw [getElem?_eq_none (by omega)]
    · rfl
  have hids (calls : List ApprovalPhase) :
      (calls.filterMap fun call => call.req.map (·.id)) =
        (calls.map ApprovalPhase.req).filterMap fun req => req.map (·.id) := by
    rw [filterMap_map]
    rfl
  rw [ids, ids, hids, hids, hmap]

variable {order : List String}

theorem Once.settle (h : s.Once) (hnodup : order.Nodup)
    (hpending : ∀ id ∈ order, (s.manager.pending.lookup id).isSome)
    {entry : String → ApprovalResolved} (hentry : ∀ id, (entry id).id = id) :
    Once ⟨{ s.manager with
      pending := s.manager.pending.eraseAll order
      resolved := s.manager.resolved ++ order.map entry }, s.calls⟩ where
  ids := h.ids
  pending id hid := by
    dsimp only at hid
    rw [Table.lookup_eraseAll] at hid
    split_ifs at hid
    · cases hid
    · exact h.pending id hid
  resolved := by
    rintro res hres
    dsimp only at hres ⊢
    rw [Table.lookup_eraseAll]
    rcases mem_append.1 hres with hold | hnew
    · obtain ⟨hid, hnone⟩ := h.resolved res hold
      refine ⟨hid, ?_⟩
      rw [hnone, ite_self]
    · obtain ⟨id, hid, rfl⟩ := mem_map.1 hnew
      rw [hentry, if_pos hid]
      exact ⟨h.pending id (hpending id hid), rfl⟩
  once := by
    have hmap : (order.map entry).map (·.id) = order := by
      rw [map_map, ← map_id order]
      simp [Function.comp_def, hentry]
    dsimp only
    rw [map_append, hmap, nodup_append]
    refine ⟨h.once, hnodup, ?_⟩
    rintro _ hold id hid rfl
    obtain ⟨res, hres, rfl⟩ := mem_map.1 hold
    have hsome := hpending _ hid
    rw [(h.resolved res hres).2] at hsome
    cases hsome
  kept id hid := by
    dsimp only
    rw [Table.lookup_eraseAll]
    by_cases hmem : id ∈ order
    · exact .inr ⟨entry id, mem_append_right _ (mem_map_of_mem hmem), hentry id⟩
    · rw [if_neg hmem]
      refine (h.kept id hid).imp_right ?_
      rintro ⟨res, hres, hresid⟩
      exact ⟨res, mem_append_left _ hres, hresid⟩
  returned req decision hcall := by
    dsimp only
    rw [Table.lookup_eraseAll, h.returned req decision hcall, ite_self]

theorem Once.resolve (h : s.Once) (id : String) (decision : ApprovalDecision)
    (resolvedBy : String) (now : Int) :
    Once { s with manager := (s.manager.resolve id decision resolvedBy now).1 } := by
  rw [ExecApprovalManager.resolve]
  cases hlookup : s.manager.pending.lookup id with
  | none => exact h
  | some req =>
    refine h.settle (nodup_singleton id) ?_
      (fun id => (rfl : (ApprovalResolved.mk id decision resolvedBy now).id = id))
    rintro id' hid'
    rw [mem_singleton.1 hid', hlookup]
    rfl

theorem isSome_of_mem_expiredIds {m : ExecApprovalManager} {now : Int} {id : String}
    (h : id ∈ m.expiredIds now) : (m.pending.lookup id).isSome := by
  obtain ⟨⟨id, req⟩, hmem, rfl⟩ := mem_map.1 h
  rw [Option.isSome_iff_exists]
  exact ⟨req, AList.mem_lookup_iff.2 (mem_filter.1 hmem).1⟩

theorem nodup_expiredIds (m : ExecApprovalManager) (now : Int) : (m.expiredIds now).Nodup :=
  Table.nodupKeys_filter _ m.pending.nodupKeys

theorem Once.prune (h : s.Once) {now : Int}
    {m : ExecApprovalManager} (hprune : s.manager.pruneExpired now order = some m) :
    Once { s with manager := m } := by
  rw [ExecApprovalManager.pruneExpired] at hprune
  split_ifs at hprune with horder
  cases hprune
  rw [isPerm_iff] at horder
  refine h.settle (horder.nodup_iff.2 (nodup_expiredIds ..)) ?_ fun _ => rfl
  rintro id hid
  exact isSome_of_mem_expiredIds (horder.mem_iff.1 hid)

theorem Once.set (h : s.Once) {i : Nat}
    (hi : s.calls[i]? = some call) (hreq : call'.req = call.req)
    (hreturned : ∀ req decision, call' = .returned (some req) decision →
      s.manager.pending.lookup req.id = none) :
    Once { s with calls := s.calls.set i call' } := by
  have hids : Approvals.ids { s with calls := s.calls.set i call' } = s.ids := ids_set hi hreq s.manager
  refine ⟨?_, ?_, ?_, h.once, ?_, ?_⟩
  · rw [hids]
    exact h.ids
  · rw [hids]
    exact h.pending
  · rw [hids]
    exact h.resolved
  · rw [hids]
    exact h.kept
  · rintro req decision hcall
    rcases mem_or_eq_of_mem_set hcall with hold | hnew
    · exact h.returned req decision hold
    · exact hreturned req decision hnew.symm

theorem Once.addRequest (h : s.Once)
    (hfresh : req.id ∉ s.ids) :
    Once ⟨s.manager.addRequest req, s.calls ++ [.requested req]⟩ := by
  have hids : Approvals.ids ⟨s.manager.addRequest req, s.calls ++ [.requested req]⟩ =
      s.ids ++ [req.id] := by
    simp [Approvals.ids, ApprovalPhase.req]
  have hlookup (id : String) : (s.manager.addRequest req).pending.lookup id =
      if id = req.id then some req else s.manager.pending.lookup id :=
    Table.lookup_insert_ite ..
  constructor
  · rw [hids, nodup_append]
    refine ⟨h.ids, nodup_singleton _, ?_⟩
    rintro id hid id' hid' rfl
    rw [mem_singleton.1 hid'] at hid
    exact hfresh hid
  · rintro id hid
    rw [hids]
    rw [hlookup] at hid
    split_ifs at hid with hnew
    · rw [hnew]
      exact mem_append_right _ (mem_singleton_self _)
    · exact mem_append_left _ (h.pending id hid)
  · rintro res hres
    obtain ⟨hid, hnone⟩ := h.resolved res hres
    rw [hids, hlookup, if_neg (ne_of_mem_of_not_mem hid hfresh)]
    exact ⟨mem_append_left _ hid, hnone⟩
  · exact h.once
  · rintro id hid
    rw [hlookup]
    rw [hids] at hid
    split_ifs with hnew
    · exact .inl rfl
    · rcases mem_append.1 hid with hold | hlast
      · exact h.kept id hold
      · exact absurd (mem_singleton.1 hlast) hnew
  · rintro req' decision hcall
    rcases mem_append.1 hcall with hold | hlast
    · rw [hlookup, if_neg (ne_of_mem_of_not_mem (mem_ids hold rfl) hfresh)]
      exact h.returned req' decision hold
    · cases mem_singleton.1 hlast

theorem Once.step {s' : Approvals} {a : ApprovalAction} (h : s.Once)
    (hstep : step s a = some s') : s'.Once := by
  cases a with
  | request id command cwd agentId sessionKey now =>
    rw [Approvals.step] at hstep
    split_ifs at hstep with hfree hfresh
    · cases hstep
      have hids :
          Approvals.ids { s with calls := s.calls ++ [.returned none .approved] } = s.ids := by
        simp [Approvals.ids, ApprovalPhase.req]
      refine ⟨?_, ?_, ?_, h.once, ?_, ?_⟩
      · rw [hids]
        exact h.ids
      · rw [hids]
        exact h.pending
      · rw [hids]
        exact h.resolved
      · rw [hids]
        exact h.kept
      · rintro req decision hcall
        rcases mem_append.1 hcall with hold | hlast
        · exact h.returned req decision hold
        · cases mem_singleton.1 hlast
    · cases hstep
      exact h.addRequest hfresh
  | decide i answer =>
    rw [Approvals.step] at hstep
    split at hstep
    · next hi =>
        cases hstep
        exact h.set hi rfl nofun
    · cases hstep
  | finish i now =>
    rw [Approvals.step] at hstep
    split at hstep
    · next req decision hi =>
        cases hstep
        refine (h.resolve req.id decision "auto" now).set hi rfl ?_
        rintro req' decision' ⟨⟩
        rw [ExecApprovalManager.resolve]
        cases hlookup : s.manager.pending.lookup req.id with
        | none => exact hlookup
        | some _ => exact AList.lookup_erase _ _
    · cases hstep
  | resolve id decision resolvedBy now =>
    cases hstep
    exact h.resolve id decision resolvedBy now
  | prune now order =>
    obtain ⟨m, hprune, rfl⟩ := Option.map_eq_some_iff.1 hstep
    exact h.prune hprune

/-! ## The recorded decision is the returned one -/

/-- The recorded decision on a request is the one that its call has come to. -/
def Agreed (s : Approvals) : Prop :=
  ∀ call ∈ s.calls, ∀ req own, call = .decided req own ∨ call = .returned (some req) own →
    ∀ res ∈ s.manager.resolved, res.id = req.id → res.decision = own

theorem Once.unique (h : s.Once) {i j : Nat}
    {req' : ApprovalRequest} (hi : s.calls[i]? = some call) (hj : s.calls[j]? = some call')
    (hreq : call.req = some req) (hreq' : call'.req = some req') (hid : req.id = req'.id) :
    i = j := by
  have hpairwise := pairwise_filterMap.1 h.ids
  rw [pairwise_iff_getElem] at hpairwise
  obtain ⟨hilt, rfl⟩ := List.getElem?_eq_some_iff.1 hi
  obtain ⟨hjlt, rfl⟩ := List.getElem?_eq_some_iff.1 hj
  rcases Nat.lt_trichotomy i j with hlt | heq | hlt
  · exact absurd hid (hpairwise i j hilt hjlt hlt _ (by rw [hreq]; rfl) _ (by rw [hreq']; rfl))
  · exact heq
  · exact absurd hid.symm
      (hpairwise j i hjlt hilt hlt _ (by rw [hreq']; rfl) _ (by rw [hreq]; rfl))

/-- Deciding on pending requests keeps the decisions agreed when the calls that have come to one
have come to the same. -/
theorem Agreed.settle (hagreed : s.Agreed) (h : s.Once)
    (hpending : ∀ id ∈ order, (s.manager.pending.lookup id).isSome)
    {decision : ApprovalDecision} {entry : String → ApprovalResolved}
    (hentry : ∀ id, (entry id).id = id) (hdecision : ∀ id, (entry id).decision = decision)
    (hown : ∀ req own, .decided req own ∈ s.calls → req.id ∈ order → own = decision) :
    Agreed ⟨{ s.manager with
      pending := s.manager.pending.eraseAll order
      resolved := s.manager.resolved ++ order.map entry }, s.calls⟩ := by
  rintro call hcall req own hcome res hres hid
  rcases mem_append.1 hres with hold | hnew
  · exact hagreed call hcall req own hcome res hold hid
  · obtain ⟨id, hmem, rfl⟩ := mem_map.1 hnew
    rw [hentry] at hid
    subst hid
    rw [hdecision]
    rcases hcome with rfl | rfl
    · exact (hown req own hcall hmem).symm
    · have hsome := hpending _ hmem
      rw [h.returned req own hcall] at hsome
      cases hsome

theorem Agreed.resolve (hagreed : s.Agreed) (h : s.Once) {id : String}
    {decision : ApprovalDecision} (resolvedBy : String) (now : Int)
    (hown : ∀ req own, .decided req own ∈ s.calls → req.id = id →
      (s.manager.pending.lookup id).isSome → own = decision) :
    Agreed { s with manager := (s.manager.resolve id decision resolvedBy now).1 } := by
  rw [ExecApprovalManager.resolve]
  cases hlookup : s.manager.pending.lookup id with
  | none => exact hagreed
  | some req =>
    rw [hlookup] at hown
    have hpending : ∀ id' ∈ [id], (s.manager.pending.lookup id').isSome := by
      rintro id' hid'
      rw [mem_singleton.1 hid', hlookup]
      rfl
    refine hagreed.settle h hpending
      (fun id => (rfl : (ApprovalResolved.mk id decision resolvedBy now).id = id)) (fun _ => rfl)
      ?_
    rintro req own hcall hmem
    exact hown req own hcall (mem_singleton.1 hmem) rfl

theorem Agreed.step {s' : Approvals} {a : ApprovalAction} (hagreed : s.Agreed) (h : s.Once)
    (hok : s.Unanimous a) (hstep : step s a = some s') : s'.Agreed := by
  cases a with
  | request id command cwd agentId sessionKey now =>
    rw [Approvals.step] at hstep
    split_ifs at hstep
    · cases hstep
      rintro call hcall req own hcome
      rcases mem_append.1 hcall with hold | hlast
      · exact hagreed call hold req own hcome
      · rw [mem_singleton.1 hlast] at hcome
        cases hcome with
        | inl h => cases h
        | inr h => cases h
    · cases hstep
      rintro call hcall req own hcome
      rcases mem_append.1 hcall with hold | hlast
      · exact hagreed call hold req own hcome
      · rw [mem_singleton.1 hlast] at hcome
        cases hcome with
        | inl h => cases h
        | inr h => cases h
  | decide i answer =>
    rw [Approvals.step] at hstep
    split at hstep
    · next req hi =>
        cases hstep
        rintro call hcall req' own hcome res hres hid
        rcases mem_or_eq_of_mem_set hcall with hold | hnew
        · exact hagreed call hold req' own hcome res hres hid
        · rw [hnew] at hcome
          cases hcome with
          | inl h =>
            cases h
            exact (hok req hi res hres hid).symm
          | inr h => cases h
    · cases hstep
  | finish i now =>
    rw [Approvals.step] at hstep
    split at hstep
    · next req decision hi =>
        cases hstep
        -- the call itself is the only one with its request
        have hown (req' : ApprovalRequest) (own : ApprovalDecision)
            (hcall : .decided req' own ∈ s.calls) (hid : req'.id = req.id)
            (_ : (s.manager.pending.lookup req.id).isSome) : own = decision := by
          obtain ⟨j, hj⟩ := mem_iff_getElem?.1 hcall
          obtain rfl := h.unique hi hj rfl rfl hid.symm
          rw [hi] at hj
          cases hj
          rfl
        have hresolved := hagreed.resolve h "auto" now hown
        rintro call hcall req' own hcome
        rcases mem_or_eq_of_mem_set hcall with hold | hnew
        · exact hresolved call hold req' own hcome
        · rw [hnew] at hcome
          cases hcome with
          | inl h => cases h
          | inr h =>
            cases h
            exact hresolved _ (mem_of_getElem? hi) req decision (.inl rfl)
    · cases hstep
  | resolve id decision resolvedBy now =>
    cases hstep
    exact hagreed.resolve h resolvedBy now hok
  | prune now order =>
    obtain ⟨m, hprune, rfl⟩ := Option.map_eq_some_iff.1 hstep
    rw [ExecApprovalManager.pruneExpired] at hprune
    split_ifs at hprune with horder
    cases hprune
    rw [isPerm_iff] at horder
    refine hagreed.settle h ?_ (fun _ => rfl) (fun _ => rfl) ?_
    · rintro id hid
      exact isSome_of_mem_expiredIds (horder.mem_iff.1 hid)
    · rintro req own hcall hmem
      exact hok req own hcall (horder.mem_iff.1 hmem)

/-- **One decision per approval.**  In every run no request is resolved twice, or pending and
resolved.  When nobody decides otherwise in between, a call that has returned with a request
has its decision in the history, and the history has no other one. -/
theorem one_decision {config : ExecApprovalConfig} {as : List ApprovalAction} {s : Approvals}
    (hrun : exec step (start config) as = some s) :
    (s.manager.resolved.map (·.id)).Nodup ∧
      (∀ res ∈ s.manager.resolved, s.manager.pending.lookup res.id = none) ∧
      (Along step Unanimous (start config) as →
        ∀ req decision, .returned (some req) decision ∈ s.calls →
          (∃ res ∈ s.manager.resolved, res.id = req.id ∧ res.decision = decision) ∧
            ∀ res ∈ s.manager.resolved, res.id = req.id → res.decision = decision) := by
  have hstart : (start config).Once := by
    refine ⟨nodup_nil, ?_, nofun, nodup_nil, nofun, nofun⟩
    rintro id hid
    cases hid
  have honce : s.Once := exec_invariant' (fun _ _ _ h hstep => h.step hstep) hstart hrun
  refine ⟨honce.once, fun res hres => (honce.resolved res hres).2, ?_⟩
  rintro hok req decision hcall
  have hagreed : s.Once ∧ s.Agreed :=
    exec_invariant (motive := fun s => s.Once ∧ s.Agreed)
      (fun _ _ _ h hok hstep => ⟨h.1.step hstep, h.2.step h.1 hok hstep⟩) ⟨hstart, nofun⟩ hok hrun
  have hall := hagreed.2 _ hcall req decision (.inr rfl)
  refine ⟨?_, hall⟩
  rcases honce.kept _ (mem_ids hcall rfl) with hpending | ⟨res, hres, hid⟩
  · rw [honce.returned req decision hcall] at hpending
    cases hpending
  · exact ⟨res, hres, hid, hall res hres hid⟩

/-- Every command is asked for, and what nobody decides on is approved. -/
def alwaysAsk : ExecApprovalConfig := ⟨.always, 120, .approved, []⟩

def deniedByHandler : List ApprovalAction :=
  [.request "req_1" "ls" "" "" "" 0, .decide 0 (some .denied), .finish 0 1]

/-- The denial of the handler is what the history has. -/
theorem one_decision_deniedByHandler :
    ∃ s, exec step (start alwaysAsk) deniedByHandler = some s ∧
      (s.manager.resolved.map (·.id)).Nodup ∧
      (∀ res ∈ s.manager.resolved, s.manager.pending.lookup res.id = none) ∧
      (Along step Unanimous (start alwaysAsk) deniedByHandler →
        ∀ req decision, .returned (some req) decision ∈ s.calls →
          (∃ res ∈ s.manager.resolved, res.id = req.id ∧ res.decision = decision) ∧
            ∀ res ∈ s.manager.resolved, res.id = req.id → res.decision = decision) :=
  ⟨_, rfl, one_decision rfl⟩

/-- The operator denies while the call waits, and the call returns that it is approved. -/
def deniedInBetween : List ApprovalAction :=
  [.request "req_1" "ls" "" "" "" 0, .resolve "req_1" .denied "operator" 1, .decide 0 none,
    .finish 0 2]

/-- The call returns another decision than the recorded one. -/
theorem not_one_decision :
    ¬ ∀ (config : ExecApprovalConfig) (as : List ApprovalAction) (s : Approvals),
      exec step (start config) as = some s →
        ∀ req decision, .returned (some req) decision ∈ s.calls →
          ∀ res ∈ s.manager.resolved, res.id = req.id → res.decision = decision := by
  intro h
  have happroved := h alwaysAsk deniedInBetween _ rfl _ .approved (.head _) _ (.head _) rfl
  cases happroved

end Approvals

end RavBot.Security
