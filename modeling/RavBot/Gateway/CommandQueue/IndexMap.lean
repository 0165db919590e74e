import RavBot.Gateway.CommandQueue.Discards
import RavBot.Lib.Index

/-!
# The id map

`Cancel` looks a command id up in `command_to_session_`.  `Indexed` says what the map is
for: it lists exactly the ids of the waiting commands, each under the session whose lane the
command waits in.  Ids are fresh when they are submitted and the ids of active commands have
been forgotten; these two facts carry the invariant through `Submit` and `AbortSession`.

Every operation that takes a command out of a lane forgets its id, except those that
discard commands silently.  So the invariant holds along every run that discards none.
-/

open List

namespace RavBot.Gateway

open RavBot.Lib

namespace CommandQueue

def pendingIds (q : CommandQueue) (key : String) : List String :=
  (q.pendingOf key).map Request.id

/-- A command with this id is in the queue of the lane stored under this key. -/
def IsPending (q : CommandQueue) (id key : String) : Prop :=
  ∃ lane, q.lanes.lookup key = some lane ∧ ∃ c ∈ lane.pending, c.id = id

variable {q : CommandQueue}

theorem mem_pendingIds {id key : String} : id ∈ q.pendingIds key ↔ q.IsPending id key := by
  cases h : q.lanes.lookup key with
  | none => simp [pendingIds, pendingOf, IsPending, h]
  | some lane => simp [pendingIds, pendingOf, IsPending, h, SessionLane.requests]

/-- The map lists exactly the waiting ids, each under its session; every id that waits or is
active was issued by a `Submit`, and the map has forgotten the active ones. -/
structure Indexed (q : CommandQueue) (issued : List String) : Prop where
  exact : ExactIndex q.commandToSession.lookup q.pendingIds
  pendingIssued : ∀ key, ∀ id ∈ q.pendingIds key, id ∈ issued
  activeIssued : ∀ key c, q.activeOf key = some c → c.id ∈ issued
  activeForgotten : ∀ key c, q.activeOf key = some c → q.commandToSession.lookup c.id = none

variable {issued : List String}

variable {q' : CommandQueue}

theorem Indexed.congr (h : Indexed q issued)
    (hp : ∀ key, q'.pendingOf key = q.pendingOf key)
    (ha : ∀ key c, q'.activeOf key = some c → q.activeOf key = some c)
    (hm : ∀ id, q'.commandToSession.lookup id = q.commandToSession.lookup id) :
    Indexed q' issued := by
  have hids : q'.pendingIds = q.pendingIds := funext fun key => by simp [pendingIds, hp]
  have hmap : (q'.commandToSession.lookup ·) = (q.commandToSession.lookup ·) := funext hm
  exact {
    exact := by rw [hids]; exact hmap ▸ h.exact
    pendingIssued := hids ▸ h.pendingIssued
    activeIssued := fun key c hc => h.activeIssued key c (ha key c hc)
    activeForgotten := fun key c hc => by rw [hm]; exact h.activeForgotten key c (ha key c hc) }

theorem Indexed.forget (h : Indexed q issued)
    (key : String) (gone : List String)
    (hkey : (q.pendingIds key).Perm (q'.pendingIds key ++ gone))
    (hsame : ∀ k ≠ key, q'.pendingOf k = q.pendingOf k)
    (hmap : ∀ id, q'.commandToSession.lookup id =
      if id ∈ gone then none else q.commandToSession.lookup id)
    (hactive : ∀ k c, q'.activeOf k = some c → q.activeOf k = some c ∨ c.id ∈ gone) :
    Indexed q' issued := by
  have hsame' : ∀ k ≠ key, q'.pendingIds k = q.pendingIds k := fun k hk => by
    rw [pendingIds, hsame k hk, pendingIds]
  have hgone : ∀ id ∈ gone, id ∈ q.pendingIds key := fun id hid =>
    hkey.symm.subset (mem_append_right _ hid)
  constructor
  · exact h.exact.forget key gone hkey hsame' hmap
  · intro k id hid
    by_cases hk : k = key
    · subst hk
      exact h.pendingIssued _ id (hkey.symm.subset (mem_append_left _ hid))
    · exact h.pendingIssued k id (hsame' k hk ▸ hid)
  · intro k c hc
    rcases hactive k c hc with hold | hin
    · exact h.activeIssued k c hold
    · exact h.pendingIssued key c.id (hgone c.id hin)
  · intro k c hc
    rw [hmap]
    split
    · rfl
    · next hnot =>
        exact h.activeForgotten k c ((hactive k c hc).resolve_right hnot)

theorem Indexed.submit (h : Indexed q issued)
    {cmdId : String} (hfresh : cmdId ∉ issued) (now : Int) (s : Submission)
    (hno : (q.getLane s.sessionKey).discardedBySubmit
      ((q.getLane s.sessionKey).effectiveMode s.mode) = []) :
    Indexed (q.submit cmdId now s).1 (issued ++ [cmdId]) := by
  obtain ⟨lost, hperm, -, hother, hactive, hmap, -⟩ := q.submit_spec cmdId now s
  rw [hno, map_nil, append_nil] at hperm
  set q' := (q.submit cmdId now s).1
  -- the ids of the session before, with the new one, are those after and the dropped ones
  have hids : (q.pendingIds s.sessionKey ++ [cmdId]).Perm
      (q'.pendingIds s.sessionKey ++ lost.map Request.id) := by
    have := hperm.map Request.id
    rwa [map_append, map_append] at this
  have hnew : ∀ key, cmdId ∉ q.pendingIds key := fun key hc =>
    hfresh (h.pendingIssued key cmdId hc)
  have hsame : ∀ k ≠ s.sessionKey, q'.pendingIds k = q.pendingIds k := fun k hk => by
    rw [pendingIds, hother k hk, pendingIds]
  have hold : ∀ key c, q'.activeOf key = some c → q.activeOf key = some c := by
    intro key c hc
    rw [hactive] at hc
    split at hc
    · cases hc
    · exact hc
  constructor
  · -- the new id comes in, and then the dropped ones go
    refine (h.exact.add s.sessionKey hnew).forget s.sessionKey
      (lost.map Request.id) ?_ ?_ ?_
    · rw [if_pos rfl]
      exact hids
    · intro k hk
      rw [if_neg hk, hsame k hk]
    · intro id
      rw [hmap, Table.lookup_eraseAll, Table.lookup_insert_ite]
  · intro key id hid
    by_cases hk : key = s.sessionKey
    · subst hk
      have hmem := hids.symm.subset (mem_append_left _ hid)
      rw [mem_append] at hmem ⊢
      exact hmem.imp_left (h.pendingIssued _ id)
    · rw [hsame key hk] at hid
      exact mem_append_left _ (h.pendingIssued key id hid)
  · exact fun key c hc => mem_append_left _ (h.activeIssued key c (hold key c hc))
  · intro key c hc
    have hc := hold key c hc
    have hne : c.id ≠ cmdId := fun heq => hfresh (heq ▸ h.activeIssued key c hc)
    rw [hmap, Table.lookup_eraseAll, Table.lookup_insert_ite, if_neg hne,
      h.activeForgotten key c hc, ite_self]

theorem Indexed.cancel (h : Indexed q issued)
    (commandId : String) : Indexed (q.cancel commandId).1 issued := by
  rcases q.cancel_spec commandId with
    ⟨-, heq⟩ | ⟨key, hl, hmap, hother, hactive, -, -, hlane⟩
  · rw [heq]
    exact h
  · obtain ⟨front, r, rest, hbefore, hid, hafter, -⟩ | ⟨hnone, -⟩ := hlane
    · refine h.forget key [commandId] ?_ hother ?_ ?_
      · rw [pendingIds, hbefore, pendingIds, hafter, ← hid, map_append, map_append, map_cons]
        exact perm_middle.trans (perm_append_singleton _ _).symm
      · intro id
        rw [hmap, Table.lookup_erase_ite]
        simp
      · exact fun k c hc => .inl (hactive k ▸ hc)
    · obtain ⟨r, hr, hid⟩ := mem_map.1 ((h.exact.map commandId key).1 hl)
      exact (hnone r hr hid).elim

theorem Indexed.cancel_iff (h : Indexed q issued)
    (commandId : String) :
    (q.cancel commandId).2 = true ↔ ∃ key, commandId ∈ q.pendingIds key := by
  rcases q.cancel_spec commandId with
    ⟨hl, heq⟩ | ⟨key, hl, -, -, -, -, -, hlane⟩
  · rw [heq]
    refine ⟨fun hf => Bool.noConfusion hf, fun ⟨key, hin⟩ => ?_⟩
    rw [(h.exact.map commandId key).2 hin] at hl
    cases hl
  · have hin := (h.exact.map commandId key).1 hl
    obtain ⟨-, -, -, -, -, -, htrue⟩ | ⟨hnone, -⟩ := hlane
    · exact ⟨fun _ => ⟨key, hin⟩, fun _ => htrue⟩
    · obtain ⟨r, hr, hid⟩ := mem_map.1 hin
      exact (hnone r hr hid).elim

/-- `AbortSession` keeps the map exact when it discards nothing: the id it forgets is that
of the active command, which the map had forgotten before. -/
theorem Indexed.abortSession (h : Indexed q issued)
    (sessionKey : String) (hno : (q.getLane sessionKey).pending.dropLast = []) :
    Indexed (q.abortSession sessionKey).1 issued := by
  obtain ⟨hbefore, hother, hactive, hmap, -⟩ := q.abortSession_spec sessionKey
  rw [hno, map_nil, nil_append] at hbefore
  refine h.congr (fun key => ?_) (fun key c hc => ?_) (fun id => ?_)
  · by_cases hk : key = sessionKey
    · rw [hk, ← hbefore]
    · exact hother key hk
  · rw [hactive] at hc
    split at hc
    · cases hc
    · exact hc
  · rw [hmap]
    cases ha : q.activeOf sessionKey with
    | none => rfl
    | some c =>
      rw [Option.elim_some, Table.lookup_erase_ite]
      split
      · next heq => rw [heq, h.activeForgotten sessionKey c ha]
      · rfl

theorem Indexed.activate {key : String} {lane : SessionLane}
    {front command : QueuedCommand} {rest : List QueuedCommand}
    (hact : Activation q key lane front rest q' command)
    (hno : SessionLane.batched front.mode rest = []) (h : Indexed q issued) :
    Indexed q' issued := by
  have hperm := SessionLane.batched_perm front.mode rest
  rw [hno, append_nil] at hperm
  refine h.forget key [front.id] ?_ (fun k hk => ?_) (fun id => ?_)
    (fun k c hc => ?_)
  · rw [pendingIds, hact.pendingOf_before, pendingIds, hact.pendingOf_after, if_pos rfl]
    refine .trans (.cons _ ?_) (perm_append_singleton _ _).symm
    exact (hperm.symm.map QueuedCommand.request).map Request.id
  · rw [hact.pendingOf_after, if_neg hk]
  · rw [hact.commandToSession_after, Table.lookup_erase_ite]
    simp
  · rw [hact.activeOf_after] at hc
    split at hc
    · cases hc
      exact .inr (mem_singleton_self _)
    · exact .inl hc

end CommandQueue

namespace System

/-! ## The map along runs -/

/-- The condition under which the map stays exact: a step throws no waiting command away
without reporting it. -/
abbrev DiscardsNothing : System → Action → Prop := DiscardsOnly fun _ => False

def issued (sys : System) : List String := sys.submitted.map Request.id

theorem indexed_step (sys : System) (a : Action) (sys' : System)
    (h : sys.queue.Indexed sys.issued) (hno : DiscardsNothing sys a)
    (hstep : sys.step a = some sys') : sys'.queue.Indexed sys'.issued := by
  cases a with
  | submit cmdId now s =>
    obtain ⟨hfresh, rfl⟩ := step_submit hstep
    have := h.submit hfresh now s (eq_nil_iff_forall_not_mem.2 hno)
    simpa [issued, CommandQueue.makeCommand] using this
  | cancel commandId =>
    cases hstep
    exact h.cancel commandId
  | abortSession sessionKey =>
    cases hstep
    exact h.abortSession sessionKey (eq_nil_iff_forall_not_mem.2 hno)
  | configureSession sessionKey mode debounceMs cap drop =>
    cases hstep
    have hsame := sys.queue.configureSession_spec sessionKey mode debounceMs cap drop
    exact h.congr (fun k => (hsame k).1) (fun k c hc => (hsame k).2 ▸ hc) (fun _ => rfl)
  | setConfig config =>
    cases hstep
    exact h.congr (fun _ => rfl) (fun _ _ hc => hc) (fun _ => rfl)
  | dispatch now order =>
    obtain ⟨-, q, out, hkeys, rfl⟩ := step_dispatch hstep
    have hpass : q.Indexed sys.issued :=
      CommandQueue.dispatchKeys_induction (motive := fun q _ => q.Indexed sys.issued)
        (fun hact hbatch hq => hq.activate hact (eq_nil_iff_forall_not_mem.2 hbatch))
        hno hkeys h
    exact hpass.congr (fun k => q.pendingOf_cleanUpIdle k)
      (fun k c hc => q.activeOf_cleanUpIdle k ▸ hc) (fun _ => rfl)
  | start i =>
    obtain ⟨l₁, command, l₂, -, rfl⟩ := step_start hstep
    exact h
  | respond i outcome =>
    obtain ⟨l₁, command, l₂, -, rfl⟩ := step_respond hstep
    exact h
  | complete i =>
    obtain ⟨l₁, command, l₂, -, rfl⟩ := step_complete hstep
    have hsame := sys.queue.finish_spec command
    refine h.congr (fun k => (hsame k).1) (fun k c hc => ?_) (fun _ => rfl)
    rw [(hsame k).2] at hc
    split at hc
    · cases hc
    · exact hc

theorem indexed_init (config : QueueConfig) : (init config).queue.Indexed (init config).issued where
  exact := ⟨fun _ _ => ⟨fun h => (by cases h), fun h => (by cases h)⟩, fun _ => nodup_nil⟩
  pendingIssued _ _ h := by cases h
  activeIssued _ _ h := by cases h
  activeForgotten _ _ h := by cases h

/-- **The id map is exact.**  In every run in which no step discards a waiting command
silently, the map sends an id to a session exactly when a command with that id waits in the
session's lane, and `Cancel` is true exactly for the ids that wait. -/
theorem commandToSession_exact {config : QueueConfig} {as : List Action} {sys : System}
    (hok : Along step DiscardsNothing (init config) as) (hrun : Reaches config as sys) :
    (∀ id key, sys.queue.commandToSession.lookup id = some key ↔ sys.queue.IsPending id key) ∧
      ∀ id, (sys.queue.cancel id).2 = true ↔ ∃ key, sys.queue.IsPending id key := by
  have h : sys.queue.Indexed sys.issued :=
    exec_invariant (motive := fun sys => sys.queue.Indexed sys.issued) indexed_step
      (indexed_init config) hok hrun
  constructor
  · intro id key
    rw [h.exact.map, CommandQueue.mem_pendingIds]
  · intro id
    rw [h.cancel_iff]
    exact exists_congr fun key => CommandQueue.mem_pendingIds

/-- A run with a cancellation, an overflow and an abort of a session that waits. -/
theorem commandToSession_exact_overflow :
    ∃ sys, Reaches { cap := 1, drop := .dropOldest }
      [.submit "a" 0 { sessionKey := "s", message := "one" },
        .submit "b" 0 { sessionKey := "s", message := "two" }, .abortSession "s",
        .submit "c" 0 { sessionKey := "t", message := "three" }, .cancel "c",
        .dispatch 2000000000 ["t", "s"]] sys ∧
      (sys.queue.commandToSession.lookup "b" = some "s" ↔ sys.queue.IsPending "b" "s") := by
  refine ⟨_, (Option.some_get (by decide)).symm, ?_⟩
  exact (commandToSession_exact (by decide) (Option.some_get _).symm).1 "b" "s"

/-- A collected command stays in the map although it waits nowhere. -/
theorem not_commandToSession_exact : ¬ ∀ config as sys, Reaches config as sys → ∀ id,
    (∃ key, sys.queue.commandToSession.lookup id = some key) ↔
      ∃ key, sys.queue.commandToSession.lookup id = some key ∧ sys.queue.IsPending id key := by
  intro h
  have := (h {}
    [.submit "a" 0 { sessionKey := "s", message := "one" },
      .submit "b" 0 { sessionKey := "s", message := "two" },
      .dispatch 2000000000 ["s"]] _ (Option.some_get (by decide)).symm "b").1 ⟨"s", by decide⟩
  obtain ⟨key, hkey, hpending⟩ := this
  obtain rfl : key = "s" := Option.some.inj (hkey.symm.trans (by decide))
  rw [← CommandQueue.mem_pendingIds] at hpending
  revert hpending
  decide

end System

end RavBot.Gateway
