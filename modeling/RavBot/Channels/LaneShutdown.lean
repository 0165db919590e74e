import RavBot.Channels.LaneProcessor

/-!
# Shutting lanes down

A worker tests the flag of its lane before it looks at the queue, so what is queued when `Shutdown` clears
the flag may stay there; a worker that has tested the flag and not begun to wait misses the notification of
`Shutdown`; and a call of `Submit` that has passed its check creates a lane after all lanes were destroyed.
`delivers` says that nothing is lost, and `Shutdown` does not wait in vain, along runs in which none of this
meets the shutdown.
-/

open List

namespace RavBot.Channels

open RavBot.Lib

namespace SubmitPhase

def isChecked : SubmitPhase → Bool
  | checked _ => true
  | _ => false

def isLocated (id : String) : SubmitPhase → Bool
  | located id' _ => id' = id
  | _ => false

def isPushed : SubmitPhase → Bool
  | pushed _ _ => true
  | _ => false

end SubmitPhase

namespace LaneProcessor

/-! ## The statement -/

/-- `Shutdown` meets no call of `Submit` on its way, no handlers that the worker will not take, and no worker
that is about to wait. -/
def Orderly (s : LaneProcessor) : LaneAction → Prop
  | .shutdown =>
    match s.shutdownPhase with
    | .flagged => ∀ t id, s.submits.lookup t ≠ some (.checked id)
    | .sweeping [] => ∀ t id late, s.submits.lookup t ≠ some (.pushed id late)
    | .sweeping (id :: _) => (∀ t late, s.submits.lookup t ≠ some (.located id late)) ∧
        ∀ lane, s.lanes.lookup id = some lane →
          lane.queue = [] ∨ lane.worker.taking = true ∧ ∃ h, lane.queue = [h]
    | .stopping id _ => ∀ lane, s.lanes.lookup id = some lane → lane.worker ≠ .blocking
    | _ => True
  | _ => True

theorem forall_submits_iff (s : LaneProcessor) (p : SubmitPhase → Bool) :
    (∀ t phase, s.submits.lookup t = some phase → p phase = false) ↔
      ∀ e ∈ s.submits.entries, p e.2 = false := by
  constructor
  · exact fun h e he => h e.1 e.2 (AList.mem_lookup_iff.2 he)
  · exact fun h t phase ht => h ⟨t, phase⟩ (AList.mem_lookup_iff.1 ht)

/-- Whether a step is orderly can be computed. -/
instance Orderly.instDecidable (s : LaneProcessor) : ∀ a, Decidable (s.Orderly a)
  | .shutdown =>
    match hphase : s.shutdownPhase with
    | .flagged =>
      decidable_of_iff (∀ e ∈ s.submits.entries, e.2.isChecked = false) (by
        rw [Orderly, hphase, ← s.forall_submits_iff]
        refine ⟨fun h t id ht => Bool.noConfusion (h t _ ht), fun h t phase ht => ?_⟩
        cases phase with
        | checked id => exact absurd ht (h t id)
        | _ => rfl)
    | .sweeping [] =>
      decidable_of_iff (∀ e ∈ s.submits.entries, e.2.isPushed = false) (by
        rw [Orderly, hphase, ← s.forall_submits_iff]
        refine ⟨fun h t id late ht => Bool.noConfusion (h t _ ht), fun h t phase ht => ?_⟩
        cases phase with
        | pushed id late => exact absurd ht (h t id late)
        | _ => rfl)
    | .sweeping (id :: left) =>
      decidable_of_iff ((∀ e ∈ s.submits.entries, e.2.isLocated id = false) ∧
          (s.lanes.lookup id).all fun lane => lane.queue.isEmpty ||
            (lane.worker.taking && lane.queue.length == 1)) (by
        rw [Orderly, hphase, ← s.forall_submits_iff]
        refine and_congr ⟨fun h t late ht => ?_, fun h t phase ht => ?_⟩ ?_
        · have hlocated := h t _ ht
          simp [SubmitPhase.isLocated] at hlocated
        · cases phase with
          | located id' late =>
            refine decide_eq_false ?_
            rintro rfl
            exact h t late ht
          | _ => rfl
        · cases s.lanes.lookup id with
          | none => simp
          | some lane => simp [length_eq_one_iff])
    | .stopping id left =>
      decidable_of_iff ((s.lanes.lookup id).all fun lane => lane.worker ≠ .blocking) (by
        rw [Orderly, hphase]
        cases hlane : s.lanes.lookup id <;> simp [hlane])
    | .idle => .isTrue (by rw [Orderly, hphase]; trivial)
    | .joining id left => .isTrue (by rw [Orderly, hphase]; trivial)
    | .returned => .isTrue (by rw [Orderly, hphase]; trivial)
  | .check _ _ => .isTrue trivial
  | .locate _ => .isTrue trivial
  | .push _ => .isTrue trivial
  | .notify _ => .isTrue trivial
  | .report _ => .isTrue trivial
  | .worker _ => .isTrue trivial
  | .wake _ => .isTrue trivial

/-- No call of `Submit` is about to use a lane that was destroyed. -/
def Defined (s : LaneProcessor) : Prop :=
  ∀ t id late, s.submits.lookup t = some (.located id late) ∨ s.submits.lookup t = some (.pushed id late) →
    late = s.cleared ∧ (s.lanes.lookup id).isSome

/-! ## What orderly runs keep -/

/-- What holds of the threads in every orderly run. -/
structure Calm (s : LaneProcessor) : Prop where
  /-- Nothing comes to a lane that is stopped, and its worker takes what is there. -/
  stopped : ∀ id lane, s.lanes.lookup id = some lane → lane.running = false →
    (∀ t late, s.submits.lookup t ≠ some (.located id late)) ∧
      (lane.queue = [] ∨ lane.worker.taking = true ∧ ∃ h, lane.queue = [h])
  swept : ∀ left, s.shutdownPhase.left = some left → ∀ id lane, s.lanes.lookup id = some lane →
    id ∈ left ∨ lane.running = false
  current : ∀ id left lane, s.shutdownPhase = .stopping id left ∨ s.shutdownPhase = .joining id left →
    s.lanes.lookup id = some lane → lane.running = false
  awake : ∀ id left lane, s.shutdownPhase = .joining id left → s.lanes.lookup id = some lane →
    lane.worker ≠ .blocking ∧ lane.worker ≠ .waiting
  unstopped : s.shutdownPhase.left = none → ∀ id lane, s.lanes.lookup id = some lane → lane.running = true
  unchecked : s.shutdownPhase.left.isSome ∨ s.shutdownPhase = .returned →
    ∀ t id, s.submits.lookup t ≠ some (.checked id)
  flag : s.shutdownPhase ≠ .idle → s.shutdown = true
  present : ∀ t id late,
    s.submits.lookup t = some (.located id late) ∨ s.submits.lookup t = some (.pushed id late) →
      late = false ∧ (s.lanes.lookup id).isSome
  empty : s.shutdownPhase = .returned → s.lanes = ∅

/-- What holds in every orderly run: nothing that was queued is lost. -/
structure Kept (s : LaneProcessor) : Prop where
  inv : s.Inv
  complete : ∀ id, ofLane s.queued id = ofLane s.started id ++ s.queueOf id
  calm : s.Calm

theorem kept_init : Kept {} := by
  refine ⟨inv_init, fun _ => rfl, nofun, nofun, fun _ _ _ h => ?_, nofun, nofun, fun h => ?_,
    fun h => absurd rfl h, fun _ _ _ h => ?_, nofun⟩
  · rcases h with h | h <;> cases h
  · rcases h with h | h <;> cases h
  · rcases h with h | h <;> cases h

theorem lookup_setSubmit (s : LaneProcessor) (t t' : Nat) (phase : SubmitPhase) :
    (s.setSubmit t phase).submits.lookup t' = if t' = t then some phase else s.submits.lookup t' :=
  Table.lookup_insert_ite _ _ _ _

variable {s s' : LaneProcessor} {id : String}

theorem isSome_lookup_setLane (lane : Lane) {id' : String}
    (h : (s.lanes.lookup id').isSome) : ((s.setLane id lane).lanes.lookup id').isSome := by
  rw [lookup_setLane]
  split_ifs
  · rfl
  · exact h

theorem isSome_lookup_setLane_self (s : LaneProcessor) (id : String) (lane : Lane) :
    ((s.setLane id lane).lanes.lookup id).isSome := by
  rw [lookup_setLane, if_pos rfl]
  rfl

theorem Calm.congr (h : s.Calm) (hlanes : s'.lanes = s.lanes)
    (hsubmits : s'.submits = s.submits) (hphase : s'.shutdownPhase = s.shutdownPhase)
    (hflag : s'.shutdown = s.shutdown) : s'.Calm := by
  obtain ⟨flag, lanes, submits, phase, queued, started, finished⟩ := s
  obtain ⟨flag', lanes', submits', phase', queued', started', finished'⟩ := s'
  subst hlanes hsubmits hphase hflag
  exact ⟨h.stopped, h.swept, h.current, h.awake, h.unstopped, h.unchecked, h.flag, h.present, h.empty⟩

variable {lane : Lane}

theorem lookup_setLane_cases {id' : String} {lane₁ : Lane}
    (h : (s.setLane id lane).lanes.lookup id' = some lane₁) :
    id' = id ∧ lane₁ = lane ∨ s.lanes.lookup id' = some lane₁ := by
  rw [lookup_setLane] at h
  split_ifs at h with hid
  · exact .inl ⟨hid, (Option.some.inj h).symm⟩
  · exact .inr h

theorem Calm.setLane (h : s.Calm) {lane' : Lane}
    (hlane : s.lanes.lookup id = some lane) (hrunning : lane'.running = lane.running)
    (hqueue : lane.running = false →
      lane'.queue = [] ∨ lane'.worker.taking = true ∧ ∃ h, lane'.queue = [h])
    (hawake : lane.running = false → lane.worker ≠ .blocking ∧ lane.worker ≠ .waiting →
      lane'.worker ≠ .blocking ∧ lane'.worker ≠ .waiting) : (s.setLane id lane').Calm := by
  refine ⟨fun id' lane₁ hlane₁ hstop => ?_, fun left hleft id' lane₁ hlane₁ => ?_,
    fun id' left lane₁ hphase hlane₁ => ?_, fun id' left lane₁ hphase hlane₁ => ?_,
    fun hleft id' lane₁ hlane₁ => ?_, h.unchecked, h.flag,
    fun t id' late hsubmit => (h.present t id' late hsubmit).imp_right (isSome_lookup_setLane lane'),
    fun hphase => ?_⟩
  · rcases lookup_setLane_cases hlane₁ with ⟨rfl, rfl⟩ | hold
    · rw [hrunning] at hstop
      exact ⟨(h.stopped id' lane hlane hstop).1, hqueue hstop⟩
    · exact h.stopped id' lane₁ hold hstop
  · rcases lookup_setLane_cases hlane₁ with ⟨rfl, rfl⟩ | hold
    · rw [hrunning]
      exact h.swept left hleft id' lane hlane
    · exact h.swept left hleft id' lane₁ hold
  · rcases lookup_setLane_cases hlane₁ with ⟨rfl, rfl⟩ | hold
    · rw [hrunning]
      exact h.current id' left lane hphase hlane
    · exact h.current id' left lane₁ hphase hold
  · rcases lookup_setLane_cases hlane₁ with ⟨rfl, rfl⟩ | hold
    · exact hawake (h.current id' left lane (.inr hphase) hlane) (h.awake id' left lane hphase hlane)
    · exact h.awake id' left lane₁ hphase hold
  · rcases lookup_setLane_cases hlane₁ with ⟨rfl, rfl⟩ | hold
    · rw [hrunning]
      exact h.unstopped hleft id' lane hlane
    · exact h.unstopped hleft id' lane₁ hold
  · rw [h.empty hphase] at hlane
    cases hlane

theorem Calm.create (h : s.Calm) (id : String) (hleft : s.shutdownPhase.left = none)
    (hphase : s.shutdownPhase ≠ .returned) : (s.setLane id {}).Calm := by
  have hrunning : ∀ id' lane, (s.setLane id {}).lanes.lookup id' = some lane → lane.running = true := by
    intro id' lane hlane
    rcases lookup_setLane_cases hlane with ⟨-, rfl⟩ | hold
    · rfl
    · exact h.unstopped hleft id' lane hold
  refine ⟨fun id' lane hlane hstop => ?_, fun left hleft' => ?_, fun id' left lane hcurrent => ?_,
    fun id' left lane hjoining => ?_, fun _ => hrunning, h.unchecked, h.flag,
    fun t id' late hsubmit => (h.present t id' late hsubmit).imp_right (isSome_lookup_setLane {}),
    fun hreturned => absurd hreturned hphase⟩
  · rw [hrunning id' lane hlane] at hstop
    cases hstop
  · exact absurd (hleft.symm.trans hleft') nofun
  · rcases hcurrent with hcurrent | hcurrent
    · exact absurd (hleft.symm.trans (congrArg ShutdownPhase.left hcurrent)) nofun
    · exact absurd (hleft.symm.trans (congrArg ShutdownPhase.left hcurrent)) nofun
  · exact absurd (hleft.symm.trans (congrArg ShutdownPhase.left hjoining)) nofun

/-- A call of `Submit` gets on.  It comes to the mutex of the lanes or to a lane only while no lane is
stopped, and uses a lane that is there. -/
theorem Calm.setSubmit (h : s.Calm) {t : Nat} {phase : SubmitPhase}
    (hchecked : ∀ id, phase = .checked id → s.shutdownPhase.left = none ∧ s.shutdownPhase ≠ .returned)
    (hlocated : ∀ id late, phase = .located id late → s.shutdownPhase.left = none)
    (hpresent : ∀ id late, phase = .located id late ∨ phase = .pushed id late →
      late = false ∧ (s.lanes.lookup id).isSome) : (s.setSubmit t phase).Calm := by
  refine ⟨fun id lane hlane hstop => ⟨fun t' late => ?_, (h.stopped id lane hlane hstop).2⟩, h.swept, h.current,
    h.awake, h.unstopped, fun hphase t' id => ?_, h.flag, fun t' id late hsubmit => ?_, h.empty⟩
  · rw [lookup_setSubmit]
    split_ifs
    · intro heq
      rw [h.unstopped (hlocated id late (Option.some.inj heq)) id lane hlane] at hstop
      cases hstop
    · exact (h.stopped id lane hlane hstop).1 t' late
  · rw [lookup_setSubmit]
    split_ifs
    · intro heq
      obtain ⟨hleft, hreturned⟩ := hchecked id (Option.some.inj heq)
      rcases hphase with hsome | hphase
      · exact Option.not_isSome_iff_eq_none.2 hleft hsome
      · exact hreturned hphase
    · exact h.unchecked hphase t' id
  · rw [lookup_setSubmit] at hsubmit
    split_ifs at hsubmit
    · exact hpresent id late (hsubmit.imp Option.some.inj Option.some.inj)
    · exact h.present t' id late hsubmit

theorem Calm.notify (h : s.Calm)
    (hlane : s.lanes.lookup id = some lane) : (s.setLane id lane.notify).Calm := by
  obtain ⟨hqueue, hrunning, -, -⟩ := notify_spec lane
  refine h.setLane hlane hrunning (fun hstop => ?_) fun _ hawake => ?_
  · rw [hqueue]
    refine (h.stopped id lane hlane hstop).2.imp_right (And.imp_left fun htaking => ?_)
    rw [Lane.notify]
    split_ifs
    · rfl
    · exact htaking
  · rw [Lane.notify, if_neg hawake.2]
    exact hawake

theorem Kept.complete_setLane (h : s.Kept) {lane' : Lane}
    (hlane : s.lanes.lookup id = some lane) (hqueue : lane'.queue = lane.queue) (id' : String) :
    ofLane s.queued id' = ofLane s.started id' ++ (s.setLane id lane').queueOf id' := by
  rw [queueOf_setLane]
  split_ifs with hid
  · have hcomplete := h.complete id
    rw [queueOf, hlane] at hcomplete
    rw [hqueue, hid]
    exact hcomplete
  · exact h.complete id'

/-! ## The steps of orderly runs -/

theorem Kept.submitStep (h : s.Kept) {t : Nat} {phase : SubmitPhase}
    (ht : s.submits.lookup t = some phase) (hstep : s.submitStep t phase = some s') : s'.Kept := by
  have hinv := h.inv.submitStep ht hstep
  cases phase with
  | rejected => cases hstep
  | returned => cases hstep
  | checked id =>
    have hphase : ¬ (s.shutdownPhase.left.isSome ∨ s.shutdownPhase = .returned) :=
      fun hphase => h.calm.unchecked hphase t id ht
    rw [not_or, Option.not_isSome_iff_eq_none] at hphase
    have hcleared : s.cleared = false := decide_eq_false hphase.2
    rw [LaneProcessor.submitStep, hphase.1, hcleared] at hstep
    obtain rfl := Option.some.inj hstep
    by_cases hid : (s.lanes.lookup id).isSome
    · rw [if_pos hid] at hinv ⊢
      refine ⟨hinv, h.complete, h.calm.setSubmit (by rintro _ ⟨⟩) (fun _ _ _ => hphase.1) fun id' late heq => ?_⟩
      rcases heq with heq | heq <;> cases heq
      exact ⟨rfl, hid⟩
    · rw [if_neg hid] at hinv ⊢
      have hnone := Option.not_isSome_iff_eq_none.1 hid
      refine ⟨hinv, fun id' => ?_, (h.calm.create id hphase.1 hphase.2).setSubmit (by rintro _ ⟨⟩)
        (fun _ _ _ => hphase.1) fun id' late heq => ?_⟩
      · have hqueue : (s.setLane id {}).queueOf id' = s.queueOf id' := by
          rw [queueOf_setLane]
          split_ifs with heq
          · rw [heq, queueOf, hnone]
            rfl
          · rfl
        exact (h.complete id').trans (congrArg _ hqueue.symm)
      · rcases heq with heq | heq <;> cases heq
        exact ⟨rfl, isSome_lookup_setLane_self s id {}⟩
  | located id late =>
    rw [LaneProcessor.submitStep] at hstep
    split_ifs at hstep
    cases hlane : s.lanes.lookup id with
    | none =>
      rw [hlane] at hstep
      cases hstep
    | some lane =>
      simp only [hlane] at hstep
      split_ifs at hstep
      obtain rfl := Option.some.inj hstep
      have hrunning : lane.running ≠ false :=
        fun hstop => (h.calm.stopped id lane hlane hstop).1 t late ht
      have hcalm : (s.setLane id { lane with queue := lane.queue ++ [t] }).Calm :=
        h.calm.setLane hlane rfl (fun hstop => absurd hstop hrunning) fun hstop => absurd hstop hrunning
      have hcalm' : (s.enqueue id lane t).Calm := hcalm.congr rfl rfl rfl rfl
      refine ⟨hinv, fun id' => ?_, hcalm'.setSubmit (by rintro _ ⟨⟩) (by rintro _ _ ⟨⟩) fun id' late' heq => ?_⟩
      · have hqueue : ((s.enqueue id lane t).setSubmit t (.pushed id late)).queueOf id' =
            if id' = id then lane.queue ++ [t] else s.queueOf id' :=
          queueOf_setLane s id id' { lane with queue := lane.queue ++ [t] }
        have hcomplete := h.complete id'
        rw [hqueue]
        split_ifs with hid
        · subst hid
          rw [queueOf, hlane] at hcomplete
          have hsame : ofLane (s.queued ++ [(id', t)]) id' = ofLane s.queued id' ++ [t] := by simp
          rw [← append_assoc]
          exact hsame.trans (congrArg (· ++ [t]) hcomplete)
        · exact (ofLane_append_of_ne _ (Ne.symm hid) t).trans hcomplete
      · rcases heq with heq | heq <;> cases heq
        obtain ⟨hlate, -⟩ := h.calm.present t id late (.inl ht)
        exact ⟨hlate, isSome_lookup_setLane_self s id { lane with queue := lane.queue ++ [t] }⟩
  | pushed id late =>
    rw [LaneProcessor.submitStep] at hstep
    split_ifs at hstep
    cases hlane : s.lanes.lookup id with
    | none =>
      rw [hlane] at hstep
      cases hstep
    | some lane =>
      simp only [hlane, Option.some_inj] at hstep
      subst hstep
      refine ⟨hinv, h.complete_setLane hlane (notify_spec lane).1,
        (h.calm.notify hlane).setSubmit (by rintro _ ⟨⟩) (by rintro _ _ ⟨⟩) fun id' late' heq => ?_⟩
      rcases heq with heq | heq
      · cases heq
      · cases heq
  | notified id =>
    rw [LaneProcessor.submitStep] at hstep
    split_ifs at hstep
    obtain rfl := Option.some.inj hstep
    refine ⟨hinv, h.complete, h.calm.setSubmit (by rintro _ ⟨⟩) (by rintro _ _ ⟨⟩) fun id' late' heq => ?_⟩
    rcases heq with heq | heq <;> cases heq

theorem Kept.workerStep (h : s.Kept)
    (hlane : s.lanes.lookup id = some lane) (hstep : s.workerStep id lane = some s') : s'.Kept := by
  have hinv := h.inv.workerStep hlane hstep
  -- what is in the queue of a lane that is stopped
  have hstopped := fun hstop => (h.calm.stopped id lane hlane hstop).2
  rw [LaneProcessor.workerStep] at hstep
  cases hworker : lane.worker with
  | starting =>
    simp only [hworker, Option.some_inj] at hstep
    subst hstep
    refine ⟨hinv, h.complete_setLane hlane rfl, h.calm.setLane hlane rfl (fun hstop => ?_) fun hstop _ => ?_⟩
    · rcases hstopped hstop with hempty | ⟨htaking, -⟩
      · exact .inl hempty
      · rw [hworker] at htaking
        cases htaking
    · simp [hstop]
  | entering =>
    simp only [hworker, Option.some_inj] at hstep
    subst hstep
    refine ⟨hinv, h.complete_setLane hlane rfl, h.calm.setLane hlane rfl (fun hstop => ?_) fun hstop _ => ?_⟩
    · refine (hstopped hstop).imp_right (And.imp_left fun _ => ?_)
      simp [hstop, WorkerPhase.taking]
    · simp [hstop]
  | blocking =>
    simp only [hworker, Option.some_inj] at hstep
    subst hstep
    refine ⟨hinv, h.complete_setLane hlane rfl, h.calm.setLane hlane rfl (fun hstop => ?_)
      fun _ hawake => absurd hworker hawake.1⟩
    exact (hstopped hstop).imp_right (And.imp_left fun _ => rfl)
  | waiting =>
    rw [hworker] at hstep
    cases hstep
  | ready =>
    cases hqueue : lane.queue with
    | nil =>
      simp only [hworker, hqueue, Option.some_inj] at hstep
      subst hstep
      refine ⟨hinv, h.complete_setLane hlane hqueue.symm,
        h.calm.setLane hlane rfl (fun _ => .inl rfl) fun hstop _ => ?_⟩
      simp [hstop]
    | cons handler queue =>
      simp only [hworker, hqueue, Option.some_inj] at hstep
      subst hstep
      have hcalm : (s.setLane id { lane with queue, worker := .busy handler }).Calm := by
        refine h.calm.setLane hlane rfl (fun hstop => .inl ?_) fun _ _ => ⟨by rintro ⟨⟩, by rintro ⟨⟩⟩
        -- the queue held this handler alone
        rcases hstopped hstop with hempty | ⟨-, handler', hone⟩
        · rw [hqueue] at hempty
          cases hempty
        · rw [hqueue] at hone
          exact (List.cons.inj hone).2
      refine ⟨hinv, fun id' => ?_, hcalm.congr rfl rfl rfl rfl⟩
      have hcomplete := h.complete id'
      have hqueues : (s.take id lane handler queue).queueOf id' =
          if id' = id then queue else s.queueOf id' :=
        queueOf_setLane s id id' { lane with queue, worker := .busy handler }
      rw [hqueues]
      split_ifs with hid
      · subst hid
        rw [queueOf, hlane, Option.map_some, Option.getD_some, hqueue] at hcomplete
        have hstarted : ofLane (s.take id' lane handler queue).started id' =
            ofLane s.started id' ++ [handler] := ofLane_append_same _ _ _
        rw [hstarted, append_assoc]
        exact hcomplete
      · have hstarted : ofLane (s.take id lane handler queue).started id' = ofLane s.started id' :=
          ofLane_append_of_ne _ (Ne.symm hid) _
        rw [hstarted]
        exact hcomplete
  | busy handler =>
    simp only [hworker, Option.some_inj] at hstep
    subst hstep
    have hcalm : (s.setLane id { lane with worker := .starting }).Calm := by
      refine h.calm.setLane hlane rfl (fun hstop => ?_) fun _ _ => ⟨by rintro ⟨⟩, by rintro ⟨⟩⟩
      rcases hstopped hstop with hempty | ⟨htaking, -⟩
      · exact .inl hempty
      · rw [hworker] at htaking
        cases htaking
    have hcomplete : ∀ id', ofLane s.queued id' = ofLane s.started id' ++
        (s.setLane id { lane with worker := .starting }).queueOf id' := h.complete_setLane hlane rfl
    exact ⟨hinv, hcomplete, hcalm.congr rfl rfl rfl rfl⟩
  | stopped =>
    rw [hworker] at hstep
    cases hstep

variable {left : List String}

theorem Calm.stop (h : s.Calm)
    (hphase : s.shutdownPhase = .sweeping (id :: left))
    (hnone : ∀ t late, s.submits.lookup t ≠ some (.located id late))
    (hqueue : lane.queue = [] ∨ lane.worker.taking = true ∧ ∃ h, lane.queue = [h]) :
    ((s.setLane id { lane with running := false }).setShutdown (.stopping id left)).Calm := by
  have hswept := h.swept (id :: left) (by rw [hphase]; rfl)
  refine ⟨fun id' lane₁ hlane₁ hstop => ?_, fun left' hleft' id' lane₁ hlane₁ => ?_,
    fun id' left' lane₁ hcurrent hlane₁ => ?_, fun _ _ _ hjoining => (nomatch hjoining),
    fun hleft => (nomatch hleft), fun _ => h.unchecked (.inl (by rw [hphase]; rfl)),
    fun _ => h.flag (by rw [hphase]; nofun),
    fun t id' late hsubmit => (h.present t id' late hsubmit).imp_right (isSome_lookup_setLane _),
    fun hreturned => (nomatch hreturned)⟩
  · rcases lookup_setLane_cases hlane₁ with ⟨rfl, rfl⟩ | hold
    · exact ⟨hnone, hqueue⟩
    · exact h.stopped id' lane₁ hold hstop
  · obtain rfl := Option.some.inj hleft'
    rcases lookup_setLane_cases hlane₁ with ⟨rfl, rfl⟩ | hold
    · exact .inr rfl
    · exact hswept id' lane₁ hold
  · rcases hcurrent with heq | heq <;> cases heq
    have hlane₂ := (lookup_setLane s id id { lane with running := false }).symm.trans hlane₁
    rw [if_pos rfl] at hlane₂
    exact Option.some.inj hlane₂ ▸ rfl

theorem Calm.join (h : s.Calm)
    (hphase : s.shutdownPhase = .stopping id left) (hlane : s.lanes.lookup id = some lane)
    (hworker : lane.worker ≠ .blocking) :
    ((s.setLane id lane.notify).setShutdown (.joining id left)).Calm := by
  have hset := h.notify hlane
  have hnotify : (s.setLane id lane.notify).shutdownPhase = .stopping id left := hphase
  refine ⟨hset.stopped, fun left' hleft' => hset.swept left' ((congrArg ShutdownPhase.left hnotify).trans hleft'),
    fun id' left' lane₁ hcurrent => ?_, fun id' left' lane₁ hjoining hlane₁ => ?_, fun hleft => (by cases hleft),
    fun _ => hset.unchecked (.inl (by rw [hnotify]; rfl)), fun _ => hset.flag (by rw [hnotify]; nofun),
    hset.present, fun hreturned => (by cases hreturned)⟩
  · rcases hcurrent with heq | heq <;> cases heq
    exact hset.current id left lane₁ (.inl hnotify)
  · cases hjoining
    have hlane₂ := (lookup_setLane s id id lane.notify).symm.trans hlane₁
    rw [if_pos rfl] at hlane₂
    obtain rfl := Option.some.inj hlane₂
    rw [Lane.notify]
    split_ifs with hwaiting
    · exact ⟨by rintro ⟨⟩, by rintro ⟨⟩⟩
    · exact ⟨hworker, hwaiting⟩

theorem Calm.joined (h : s.Calm)
    (hphase : s.shutdownPhase = .joining id left) : (s.setShutdown (.sweeping left)).Calm := by
  refine ⟨h.stopped, fun left' hleft' id' lane hlane => ?_, fun _ _ _ hcurrent => ?_,
    fun _ _ _ hjoining => (nomatch hjoining), fun hleft => (nomatch hleft),
    fun _ => h.unchecked (.inl (by rw [hphase]; rfl)), fun _ => h.flag (by rw [hphase]; nofun), h.present,
    fun hreturned => (nomatch hreturned)⟩
  · obtain rfl := Option.some.inj hleft'
    rcases h.swept (id :: left) (by rw [hphase]; rfl) id' lane hlane with hmem | hstop
    · rcases mem_cons.1 hmem with rfl | hmem
      · exact .inr (h.current id' left lane (.inr hphase) hlane)
      · exact .inl hmem
    · exact .inr hstop
  · rcases hcurrent with heq | heq <;> cases heq

theorem Kept.swept (h : s.Kept) (hphase : s.shutdownPhase = .sweeping []) (hlane : s.lanes.lookup id = some lane) :
    lane.running = false ∧ lane.queue = [] := by
  have hleft : s.shutdownPhase.left = some [] := by rw [hphase]; rfl
  have hstop := (h.calm.swept [] hleft id lane hlane).resolve_left not_mem_nil
  have hworker := (h.inv.swept [] hleft id lane hlane).resolve_left not_mem_nil
  refine ⟨hstop, ((h.calm.stopped id lane hlane hstop).2).resolve_right fun htaking => ?_⟩
  rw [hworker] at htaking
  cases htaking.1

theorem Kept.clear (h : s.Kept) (hphase : s.shutdownPhase = .sweeping [])
    (hpushed : ∀ t id late, s.submits.lookup t ≠ some (.pushed id late)) :
    Kept { s with lanes := ∅, shutdownPhase := .returned } := by
  refine ⟨h.inv.clear hphase, fun id => ?_, nofun, nofun, fun _ _ _ hcurrent => ?_,
    fun _ _ _ hjoining => (nomatch hjoining), fun _ _ _ hlane => (nomatch hlane),
    fun _ => h.calm.unchecked (.inl (by rw [hphase]; rfl)), fun _ => h.calm.flag (by rw [hphase]; nofun),
    fun t id late hsubmit => ?_, fun _ => rfl⟩
  · have hempty : s.queueOf id = [] := by
      rw [queueOf]
      cases hlane : s.lanes.lookup id with
      | none => rfl
      | some lane => exact (h.swept hphase hlane).2
    have hcomplete := h.complete id
    rw [hempty] at hcomplete
    exact hcomplete
  · rcases hcurrent with heq | heq <;> cases heq
  · rcases hsubmit with hlocated | hsubmit
    · -- its lane was stopped while it was on its way
      obtain ⟨-, hsome⟩ := h.calm.present t id late (.inl hlocated)
      obtain ⟨lane, hlane⟩ := Option.isSome_iff_exists.1 hsome
      exact absurd hlocated ((h.calm.stopped id lane hlane (h.swept hphase hlane).1).1 t late)
    · exact absurd hsubmit (hpushed t id late)

theorem Kept.shutdownStep (h : s.Kept) (horderly : s.Orderly .shutdown)
    (hstep : s.shutdownStep = some s') : s'.Kept := by
  have hinv := h.inv.shutdownStep hstep
  rw [LaneProcessor.shutdownStep] at hstep
  rw [Orderly] at horderly
  cases hphase : s.shutdownPhase with
  | idle =>
    simp only [hphase, Option.some_inj] at hstep
    subst hstep
    have hleft : s.shutdownPhase.left = none := by rw [hphase]; rfl
    refine ⟨hinv, h.complete, h.calm.stopped, by rintro _ ⟨⟩, fun _ _ _ hcurrent => ?_,
      fun _ _ _ hjoining => (by cases hjoining), fun _ => h.calm.unstopped hleft, fun hsome => ?_, fun _ => rfl,
      h.calm.present, fun hreturned => (by cases hreturned)⟩
    · rcases hcurrent with heq | heq <;> cases heq
    · rcases hsome with hsome | hsome <;> cases hsome
  | flagged =>
    rw [hphase] at horderly
    simp only [hphase, Option.some_inj] at hstep
    subst hstep
    refine ⟨hinv, h.complete, h.calm.stopped, fun left hleft id lane hlane => .inl ?_,
      fun _ _ _ hcurrent => ?_, fun _ _ _ hjoining => (by cases hjoining), fun hleft => (by cases hleft),
      fun _ => horderly, fun _ => h.calm.flag (by rw [hphase]; rintro ⟨⟩), h.calm.present,
      fun hreturned => (by cases hreturned)⟩
    · obtain rfl := Option.some.inj hleft
      rw [mem_insertionSort]
      exact AList.lookup_isSome.1 (Option.isSome_iff_exists.2 ⟨lane, hlane⟩)
    · rcases hcurrent with heq | heq <;> cases heq
  | sweeping left =>
    cases left with
    | nil =>
      rw [hphase] at horderly
      simp only [hphase, Option.some_inj] at hstep
      subst hstep
      exact h.clear hphase horderly
    | cons id left =>
      rw [hphase] at horderly
      cases hlane : s.lanes.lookup id with
      | none =>
        simp only [hphase, hlane] at hstep
        cases hstep
      | some lane =>
        simp only [hphase, hlane, Option.some_inj] at hstep
        subst hstep
        have hcomplete : ∀ id', ofLane s.queued id' = ofLane s.started id' ++
            (s.setLane id { lane with running := false }).queueOf id' := h.complete_setLane hlane rfl
        exact ⟨hinv, hcomplete, h.calm.stop hphase horderly.1 (horderly.2 lane hlane)⟩
  | stopping id left =>
    rw [hphase] at horderly
    cases hlane : s.lanes.lookup id with
    | none =>
      simp only [hphase, hlane] at hstep
      cases hstep
    | some lane =>
      simp only [hphase, hlane, Option.some_inj] at hstep
      subst hstep
      exact ⟨hinv, h.complete_setLane hlane (notify_spec lane).1,
        h.calm.join hphase hlane (horderly lane hlane)⟩
  | joining id left =>
    cases hlane : s.lanes.lookup id with
    | none =>
      simp only [hphase, hlane] at hstep
      cases hstep
    | some lane =>
      simp only [hphase, hlane] at hstep
      split_ifs at hstep
      obtain rfl := Option.some.inj hstep
      exact ⟨hinv, h.complete, h.calm.joined hphase⟩
  | returned =>
    rw [hphase] at hstep
    cases hstep

theorem Kept.step (h : s.Kept) {a : LaneAction} (horderly : s.Orderly a)
    (hstep : step s a = some s') : s'.Kept := by
  have hinv := h.inv.step hstep
  cases a with
  | check t id =>
    rw [LaneProcessor.step] at hstep
    split_ifs at hstep with hsome hshutdown
    · obtain rfl := Option.some.inj hstep
      refine ⟨hinv, h.complete, h.calm.setSubmit (by rintro _ ⟨⟩) (by rintro _ _ ⟨⟩) fun id' late heq => ?_⟩
      rcases heq with heq | heq <;> cases heq
    · -- it passes its check only before the shutdown
      have hidle : s.shutdownPhase = .idle := by
        by_contra hphase
        exact hshutdown (h.calm.flag hphase)
      obtain rfl := Option.some.inj hstep
      refine ⟨hinv, h.complete, h.calm.setSubmit (fun id' _ => ?_) (by rintro _ _ ⟨⟩) fun id' late heq => ?_⟩
      · rw [hidle]
        exact ⟨rfl, by rintro ⟨⟩⟩
      · rcases heq with heq | heq <;> cases heq
  | locate t | push t | notify t | report t =>
    rw [LaneProcessor.step] at hstep
    split at hstep
    · rename_i hphase
      exact h.submitStep hphase hstep
    · cases hstep
  | worker id =>
    obtain ⟨lane, hlane, hworker⟩ := Option.bind_eq_some_iff.1 hstep
    exact h.workerStep hlane hworker
  | wake id =>
    obtain ⟨lane, hlane, hwake⟩ := Option.bind_eq_some_iff.1 hstep
    split_ifs at hwake
    obtain rfl := Option.some.inj hwake
    exact ⟨hinv, h.complete_setLane hlane (notify_spec lane).1, h.calm.notify hlane⟩
  | shutdown => exact h.shutdownStep horderly hstep

/-! ## Every run, and orderly runs -/

theorem count_ofLane (history : List (String × Nat)) (id : String) (t : Nat) :
    (ofLane history id).count t = history.count (id, t) := by
  induction history with
  | nil => rfl
  | cons e history ih =>
    obtain ⟨id', t'⟩ := e
    rw [count_cons, ← ih, ofLane, filter_cons]
    by_cases hid : id' = id
    · simp [hid, ofLane, count_cons]
    · simp [hid, ofLane]

theorem Inv.nodup_finished (h : s.Inv) : (s.finished.map Prod.snd).Nodup := by
  have hsub : s.finished.Subperm s.queued := by
    rw [subperm_ext_iff]
    rintro ⟨id, t⟩ -
    have hfinished : (ofLane s.finished id).Sublist (ofLane s.queued id) := by
      refine List.Sublist.trans ?_ (h.inOrder.2 id)
      rw [h.busy id]
      exact sublist_append_left _ _
    rw [← count_ofLane, ← count_ofLane]
    exact hfinished.count_le t
  obtain ⟨finished, hperm, hsublist⟩ := hsub
  exact (hperm.map Prod.snd).nodup_iff.1 (h.nodup.sublist (hsublist.map Prod.snd))

theorem Kept.delivered (h : s.Kept) : s.Delivered := by
  intro hreturned t phase ht hrejected
  have hlanes := h.calm.empty hreturned
  have hpushed : phase.hasPushed = true := by
    cases phase with
    | rejected => exact absurd rfl hrejected
    | checked id => exact absurd ht (h.calm.unchecked (.inr hreturned) t id)
    | located id late =>
      obtain ⟨-, hsome⟩ := h.calm.present t id late (.inl ht)
      rw [hlanes] at hsome
      cases hsome
    | _ => rfl
  obtain ⟨⟨id, t'⟩, hqueued, rfl⟩ := mem_map.1 ((h.inv.pushed t).2 ⟨phase, ht, hpushed⟩)
  have hmem : t' ∈ ofLane s.queued id := by
    refine mem_map.2 ⟨(id, t'), mem_filter.2 ⟨hqueued, ?_⟩, rfl⟩
    exact decide_eq_true rfl
  -- no lane is left, so what was queued was started and finished
  have hqueue : s.queueOf id = [] := by rw [queueOf, hlanes]; rfl
  have hbusy : s.busyOf id = [] := by rw [busyOf, hlanes]; rfl
  rw [h.complete id, h.inv.busy id, hqueue, hbusy, append_nil, append_nil] at hmem
  obtain ⟨e, he, hsnd⟩ := mem_map.1 hmem
  refine count_eq_one_of_mem h.inv.nodup_finished (mem_map.2 ⟨e, ?_, hsnd⟩)
  exact (mem_filter.1 he).1

theorem Kept.notStuck (h : s.Kept) : s.NotStuck :=
  fun id left lane hphase hlane _ => (h.calm.awake id left lane hphase hlane).2

theorem Kept.defined (h : s.Kept) : s.Defined := by
  intro t id late hsubmit
  obtain ⟨rfl, hsome⟩ := h.calm.present t id late hsubmit
  refine ⟨?_, hsome⟩
  by_contra hcleared
  rw [h.calm.empty (of_decide_eq_true (Bool.not_eq_false _ ▸ Ne.symm hcleared))] at hsome
  cases hsome

/-- **Order and delivery.**  In every run, handlers of a lane run one at a time and in the order in which
they were queued.  In an orderly run every handler was run once when `Shutdown` has returned, `Shutdown` does
not wait for a worker that waits, and no destroyed lane is used. -/
theorem delivers {actions : List LaneAction} {s : LaneProcessor} (hrun : exec step {} actions = some s) :
    (s.OneAtATime ∧ s.InOrder) ∧
      (Along step Orderly {} actions → s.Delivered ∧ s.NotStuck ∧ s.Defined) := by
  refine ⟨?_, fun horderly => ?_⟩
  · have hinv : s.Inv := exec_invariant' (fun _ _ _ h hstep => h.step hstep) inv_init hrun
    exact ⟨hinv.oneAtATime, hinv.inOrder⟩
  · have hkept : s.Kept :=
      exec_invariant (fun _ _ _ h hok hstep => h.step hok hstep) kept_init horderly hrun
    exact ⟨hkept.delivered, hkept.notStuck, hkept.defined⟩

/-- A handler comes while the worker waits, and is still in the queue when its lane is stopped. -/
def stoppedWhileQueued : List LaneAction :=
  [.check 0 "a", .locate 0, .worker "a", .worker "a", .worker "a", .push 0, .notify 0, .report 0,
    .shutdown, .shutdown, .shutdown, .shutdown, .worker "a", .worker "a", .worker "a", .worker "a",
    .shutdown, .shutdown]

/-- How a run of one handler ends: where `Shutdown` and its call of `Submit` are, and how often it was run. -/
def outcome (actions : List LaneAction) : Option (ShutdownPhase × Option SubmitPhase × Nat) :=
  (exec step {} actions).map fun s =>
    (s.shutdownPhase, s.submits.lookup 0, (s.finished.map Prod.snd).count 0)

/-- That run is orderly, and the handler was run. -/
theorem delivers_stoppedWhileQueued :
    ∃ s, exec step {} stoppedWhileQueued = some s ∧ s.shutdownPhase = .returned ∧
      (s.finished.map Prod.snd).count 0 = 1 := by
  have horderly : Along step Orderly {} stoppedWhileQueued := by decide +kernel
  have houtcome : outcome stoppedWhileQueued = some (.returned, some .returned, 1) := by decide +kernel
  obtain ⟨s, hrun, heq⟩ := Option.map_eq_some_iff.1 houtcome
  simp only [Prod.mk.injEq] at heq
  obtain ⟨-, hkept⟩ := delivers hrun
  exact ⟨s, hrun, heq.1, (hkept horderly).1 heq.1 0 .returned heq.2.1 nofun⟩

/-- A lane is stopped before its worker looks at the queue for the first time. -/
def stoppedAtOnce : List LaneAction :=
  [.check 0 "a", .locate 0, .push 0, .notify 0, .report 0, .shutdown, .shutdown, .shutdown, .shutdown,
    .worker "a", .shutdown, .shutdown]

/-- A handler is lost when the lane is stopped before its worker looks at the queue. -/
theorem not_delivers :
    ¬ ∀ (actions : List LaneAction) (s : LaneProcessor), exec step {} actions = some s →
      s.OneAtATime ∧ s.InOrder ∧ s.Delivered ∧ s.NotStuck := by
  intro h
  have houtcome : outcome stoppedAtOnce = some (.returned, some .returned, 0) := by decide +kernel
  obtain ⟨s, hrun, heq⟩ := Option.map_eq_some_iff.1 houtcome
  simp only [Prod.mk.injEq] at heq
  obtain ⟨-, -, hdelivered, -⟩ := h stoppedAtOnce s hrun
  have hcount := hdelivered heq.1 0 .returned heq.2.1 nofun
  rw [heq.2.2] at hcount
  cases hcount

end LaneProcessor

end RavBot.Channels
