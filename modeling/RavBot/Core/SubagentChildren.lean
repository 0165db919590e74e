import RavBot.Core.Subagent

/-!
# The children of a session

The manager keeps the ids of the runs of every parent beside the runs, and both the limit in `Spawn` and
`ActiveChildren` go by these lists.  As long as ids are new when runs are inserted, the lists are exact in every
interleaving (`indexed`), so what is counted are the active children (`activeChildren_perm`).
-/

open List

namespace RavBot.Core

open RavBot.Lib

namespace SubagentManager

def childrenOf (m : SubagentManager) (parent : String) : List String := (m.parentChildren.lookup parent).getD []

def activeChildren (m : SubagentManager) (parent : String) : List SubagentRun :=
  (m.childrenOf parent).filterMap fun id => (m.runs.lookup id).filter (·.state = .running)

def Fresh (m : SubagentManager) : SubagentAction → Prop
  | .insert _ runId _ => m.runs.lookup runId = none
  | _ => True

/-- The runs have their ids, and the lists of children hold those of each parent once. -/
structure Indexed (m : SubagentManager) : Prop where
  id : ∀ id run, m.runs.lookup id = some run → run.runId = id
  nodup : ∀ parent, (m.childrenOf parent).Nodup
  children : ∀ parent id, id ∈ m.childrenOf parent ↔
    ∃ run, m.runs.lookup id = some run ∧ run.parentSessionKey = parent

namespace Indexed

variable {cfg : SubagentConfig} {m m' : SubagentManager}

theorem congr (h : Indexed m) (hruns : m'.runs = m.runs) (hchildren : m'.parentChildren = m.parentChildren) :
    Indexed m' := by
  have hof : m'.childrenOf = m.childrenOf := by
    funext parent
    rw [childrenOf, childrenOf, hchildren]
  exact ⟨hruns ▸ h.id, hof ▸ h.nodup, by rw [hruns, hof]; exact h.children⟩

/-- A run may be changed, if its id and its parent stay. -/
theorem change (h : Indexed m) {runId : String} {run run' : SubagentRun} (hrun : m.runs.lookup runId = some run)
    (hid : run'.runId = run.runId) (hparent : run'.parentSessionKey = run.parentSessionKey) :
    Indexed { m with runs := m.runs.insert runId run' } where
  id id run₁ hrun₁ := by
    rw [Table.lookup_insert_ite] at hrun₁
    split_ifs at hrun₁ with heq
    · cases hrun₁
      rw [hid, heq, h.id _ _ hrun]
    · exact h.id id run₁ hrun₁
  nodup := h.nodup
  children parent id := by
    refine (h.children parent id).trans ?_
    show _ ↔ ∃ run₁, (m.runs.insert runId run').lookup id = some run₁ ∧ run₁.parentSessionKey = parent
    rw [Table.lookup_insert_ite]
    split_ifs with heq
    · rw [heq, hrun]
      simp only [Option.some.injEq, exists_eq_left', hparent]
    · rfl

theorem insertRun (h : Indexed m) {run : SubagentRun} (hnew : m.runs.lookup run.runId = none) :
    Indexed (m.insertRun run) := by
  have hof (parent : String) : (m.insertRun run).childrenOf parent =
      if parent = run.parentSessionKey then m.childrenOf parent ++ [run.runId] else m.childrenOf parent := by
    rw [childrenOf, SubagentManager.insertRun, Table.lookup_insert_ite]
    split_ifs with hparent
    · rw [hparent]
      rfl
    · rfl
  have hnot (parent : String) : run.runId ∉ m.childrenOf parent := by
    intro hmem
    obtain ⟨run', hrun', -⟩ := (h.children _ _).1 hmem
    rw [hnew] at hrun'
    cases hrun'
  constructor
  · intro id run' hrun'
    rw [SubagentManager.insertRun, Table.lookup_insert_ite] at hrun'
    split_ifs at hrun' with hid
    · cases hrun'
      exact hid.symm
    · exact h.id id run' hrun'
  · intro parent
    rw [hof]
    split_ifs
    · exact nodup_append_comm.1 (nodup_cons.2 ⟨hnot parent, h.nodup parent⟩)
    · exact h.nodup parent
  · intro parent id
    rw [hof, SubagentManager.insertRun, Table.lookup_insert_ite]
    by_cases hid : id = run.runId
    · rw [if_pos hid, hid]
      by_cases hparent : parent = run.parentSessionKey
      · simp [hparent]
      · simp [hparent, hnot parent, Ne.symm hparent]
    · rw [if_neg hid, ← h.children]
      split_ifs <;> simp [hid]

theorem setState (h : Indexed m) (runId : String) (state : RunState) (resultSummary : String) :
    Indexed (m.setState runId state resultSummary) := by
  rw [SubagentManager.setState]
  cases hrun : m.runs.lookup runId with
  | none => exact h
  | some run => exact h.change hrun rfl rfl

theorem filter_childrenOf (h : Indexed m) {runId parent : String}
    (hother : ∀ run, m.runs.lookup runId = some run → run.parentSessionKey ≠ parent) :
    (m.childrenOf parent).filter (· ≠ runId) = m.childrenOf parent := by
  refine filter_eq_self.2 fun id hid => decide_eq_true ?_
  rintro rfl
  obtain ⟨run, hrun, heq⟩ := (h.children _ _).1 hid
  exact hother run hrun heq

theorem childrenOf_removeRun (h : Indexed m) (runId parent : String) :
    (m.removeRun runId).childrenOf parent = (m.childrenOf parent).filter (· ≠ runId) := by
  rw [SubagentManager.removeRun]
  cases hrun : m.runs.lookup runId with
  | none => exact (h.filter_childrenOf fun run hrun' => by rw [hrun] at hrun'; cases hrun').symm
  | some run =>
    by_cases hparent : parent = run.parentSessionKey
    · subst hparent
      rw [childrenOf, childrenOf]
      dsimp only
      cases hchildren : m.parentChildren.lookup run.parentSessionKey with
      | none => simp [hchildren]
      | some children => simp
    · rw [h.filter_childrenOf, childrenOf, childrenOf]
      · dsimp only
        split
        · rw [Table.lookup_insert_ite, if_neg hparent]
        · rfl
      · intro run' hrun'
        rw [hrun] at hrun'
        cases hrun'
        exact Ne.symm hparent

theorem removeRun (h : Indexed m) (runId : String) : Indexed (m.removeRun runId) where
  id id run hrun := by
    rw [removeRun_runs, Table.lookup_erase_ite] at hrun
    split_ifs at hrun
    exact h.id id run hrun
  nodup parent := by
    rw [h.childrenOf_removeRun]
    exact (h.nodup parent).filter _
  children parent id := by
    rw [h.childrenOf_removeRun, removeRun_runs, mem_filter, h.children, Table.lookup_erase_ite]
    by_cases hid : id = runId <;> simp [hid]

theorem cleanupCompleted (h : Indexed m) : Indexed m.cleanupCompleted := by
  rw [SubagentManager.cleanupCompleted]
  generalize m.runs.entries.filter _ = entries
  induction entries generalizing m with
  | nil => exact h
  | cons e entries ih => exact ih (h.removeRun e.1)

theorem step (m : SubagentManager) (a : SubagentAction) (m' : SubagentManager) (h : Indexed m) (hfresh : Fresh m a)
    (hstep : m.step cfg a = some m') : Indexed m' := by
  cases a with
  | check t params parent depth =>
    rw [SubagentManager.step] at hstep
    split at hstep
    · cases hstep
    · split at hstep <;> cases hstep
      · exact h.congr rfl rfl
      · exact h.congr rfl rfl
  | insert t runId childKey =>
    rw [SubagentManager.step] at hstep
    split at hstep
    · dsimp only at hstep
      split_ifs at hstep <;> cases hstep
      · exact (@insertRun m h (newRun _ _ runId childKey) hfresh).congr rfl rfl
      · exact (@insertRun m h (newRun _ _ runId childKey) hfresh).congr rfl rfl
    · cases hstep
  | finish t outcome =>
    rw [SubagentManager.step] at hstep
    split at hstep
    · next runId mode call _ =>
      cases hstep
      refine congr (m := m.finish runId outcome) ?_ rfl rfl
      cases outcome with
      | ok summary =>
        rw [finish]
        split_ifs
        · exact h
        · exact h.setState ..
      | error what => exact h.setState ..
    · cases hstep
  | completeRun runId summary =>
    cases hstep
    exact h.setState ..
  | failRun runId error =>
    cases hstep
    exact h.setState ..
  | cancelRun runId =>
    cases hstep
    rw [SubagentManager.cancelRun]
    cases hrun : m.runs.lookup runId with
    | none => exact h
    | some run =>
      dsimp only
      split_ifs
      · exact h.change hrun rfl rfl
      · exact h
  | cleanupCompleted =>
    cases hstep
    exact h.cleanupCompleted

end Indexed

def runningRuns (m : SubagentManager) (parent : String) : List SubagentRun :=
  (m.runs.entries.map Sigma.snd).filter fun run => run.parentSessionKey = parent ∧ run.state = .running

/-- **The children are those that run.**  After every run of a new manager in which the ids that are generated are
new, `ActiveChildren` gives the runs of the parent that go on, each once; and as many are counted for the limit. -/
theorem activeChildren_perm (cfg : SubagentConfig) (actions : List SubagentAction) (m : SubagentManager)
    (hrun : exec (step cfg) init actions = some m) (hfresh : Along (step cfg) Fresh init actions)
    (parent : String) :
    m.activeChildren parent ~ m.runningRuns parent ∧
      m.active (m.childrenOf parent) = (m.runningRuns parent).length := by
  have h : Indexed m := by
    refine exec_invariant (motive := Indexed) Indexed.step ?_ hfresh hrun
    refine ⟨fun _ _ hnone => ?_, fun _ => nodup_nil, fun _ _ => iff_of_false not_mem_nil ?_⟩
    · cases hnone
    · rintro ⟨_, hnone, -⟩
      cases hnone
  have hmem (run : SubagentRun) : run ∈ m.activeChildren parent ↔
      m.runs.lookup run.runId = some run ∧ run.parentSessionKey = parent ∧ run.state = .running := by
    rw [activeChildren, mem_filterMap]
    constructor
    · rintro ⟨id, hid, hlookup⟩
      obtain ⟨hlookup, hstate⟩ := Option.filter_eq_some_iff.1 hlookup
      obtain ⟨run', hrun', hparent⟩ := (h.children parent id).1 hid
      rw [hlookup] at hrun'
      cases hrun'
      rw [h.id id run hlookup]
      exact ⟨hlookup, hparent, of_decide_eq_true hstate⟩
    · rintro ⟨hlookup, hparent, hstate⟩
      exact ⟨run.runId, (h.children _ _).2 ⟨run, hlookup, hparent⟩,
        Option.filter_eq_some_iff.2 ⟨hlookup, decide_eq_true hstate⟩⟩
  have hperm : m.activeChildren parent ~ m.runningRuns parent := by
    refine (perm_ext_iff_of_nodup ?_ ?_).2 fun run => ?_
    · refine (h.nodup parent).filterMap fun id id' run hlookup hlookup' => ?_
      rw [← h.id id run (Option.filter_eq_some_iff.1 hlookup).1, h.id id' run (Option.filter_eq_some_iff.1 hlookup').1]
    · refine Nodup.filter _ (Nodup.of_map SubagentRun.runId ?_)
      have hkeys : (m.runs.entries.map Sigma.snd).map SubagentRun.runId = m.runs.keys := by
        rw [map_map]
        exact map_congr_left fun e he => h.id e.1 e.2 (AList.mem_lookup_iff.2 he)
      rw [hkeys]
      exact m.runs.keys_nodup
    · rw [hmem, runningRuns, mem_filter, mem_map, decide_eq_true_eq]
      refine and_congr_left fun _ => ⟨fun hlookup => ⟨_, AList.mem_lookup_iff.1 hlookup, rfl⟩, ?_⟩
      rintro ⟨e, he, rfl⟩
      have hlookup := AList.mem_lookup_iff.2 he
      rwa [h.id e.1 e.2 hlookup]
  refine ⟨hperm, ?_⟩
  rw [← hperm.length_eq, activeChildren, length_filterMap_eq_countP, active]
  refine countP_congr fun id _ => ?_
  cases m.runs.lookup id with
  | none => simp
  | some run => simp [Option.filter]

def cancelledChild : List SubagentAction :=
  [.check 0 { task := "a" } "main" 0, .insert 0 "sub_1" "s1", .cancelRun "sub_1"]

theorem activeChildren_perm_cancelled : ∃ m, exec (step {}) init cancelledChild = some m ∧
    m.activeChildren "main" ~ m.runningRuns "main" ∧
      m.active (m.childrenOf "main") = (m.runningRuns "main").length := by
  refine ⟨_, rfl, activeChildren_perm {} cancelledChild _ rfl ⟨trivial, fun m hm => ?_⟩ "main"⟩
  cases hm
  refine ⟨rfl, fun m hm => ?_⟩
  cases hm
  exact ⟨trivial, fun _ _ => trivial⟩

end SubagentManager

end RavBot.Core
