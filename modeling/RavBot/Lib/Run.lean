import Mathlib.Data.List.Basic

/-!
# Runs of a deterministic system

A system is given by its step function `step : σ → α → Option σ`: an action either
cannot be taken in a state, or leads to exactly one next state.  Whatever freedom the
system has (which thread moves next, what the clock says, in which order a table is
walked) is part of the action, so that a run is determined by its list of actions and
quantifying over action lists quantifies over every interleaving.

`exec` executes a list of actions.  `Along` says that every step of such an execution
meets a condition on the state before the step and the action taken.  The rule that the
rest of the development uses is `exec_invariant`: what holds initially and survives every
step that meets the condition holds after every run whose steps meet it.  `follow` is the run of
a strategy, which picks the next action itself.
-/

namespace RavBot.Lib

universe u v

variable {σ : Type u} {α : Type v}

/-- Execute a list of actions, stopping at the first one that cannot be taken. -/
def exec (step : σ → α → Option σ) : σ → List α → Option σ
  | s, [] => some s
  | s, a :: as => (step s a).bind fun s' => exec step s' as

/-- Every step of the execution of `as` from `s` meets `ok`. -/
def Along (step : σ → α → Option σ) (ok : σ → α → Prop) : σ → List α → Prop
  | _, [] => True
  | s, a :: as => ok s a ∧ ∀ s' ∈ step s a, Along step ok s' as

/-- Whether every step of a run meets a decidable condition can be computed. -/
instance Along.instDecidable (step : σ → α → Option σ) (ok : σ → α → Prop)
    [∀ s a, Decidable (ok s a)] : ∀ s as, Decidable (Along step ok s as)
  | _, [] => .isTrue trivial
  | s, a :: as =>
    match h : step s a with
    | none => decidable_of_iff (ok s a) (by simp [Along, h])
    | some s' =>
      have := Along.instDecidable step ok s' as
      decidable_of_iff (ok s a ∧ Along step ok s' as) (by simp [Along, h])

variable {step : σ → α → Option σ}

@[simp] theorem exec_nil (s : σ) : exec step s [] = some s := rfl

theorem exec_cons {s s' : σ} {a : α} {as : List α} :
    exec step s (a :: as) = some s' ↔
      ∃ s₁, step s a = some s₁ ∧ exec step s₁ as = some s' := by
  simp [exec, Option.bind_eq_some_iff]

theorem exec_append {s s' : σ} {as bs : List α} :
    exec step s (as ++ bs) = some s' ↔
      ∃ s₁, exec step s as = some s₁ ∧ exec step s₁ bs = some s' := by
  induction as generalizing s with
  | nil => simp
  | cons a as ih =>
    simp only [List.cons_append, exec_cons, ih]
    constructor
    · rintro ⟨s₁, h₁, s₂, h₂, h₃⟩
      exact ⟨s₂, ⟨s₁, h₁, h₂⟩, h₃⟩
    · rintro ⟨s₂, ⟨s₁, h₁, h₂⟩, h₃⟩
      exact ⟨s₁, h₁, s₂, h₂, h₃⟩

theorem along_iff {ok : σ → α → Prop} {s : σ} {as : List α} :
    Along step ok s as ↔ ∀ before a after s₁, as = before ++ a :: after →
      exec step s before = some s₁ → ok s₁ a := by
  induction as generalizing s with
  | nil => exact iff_of_true trivial fun _ _ _ _ h => by simp at h
  | cons a as ih =>
    constructor
    · rintro ⟨hok, hrest⟩ before b after s₁ heq hrun
      cases before with
      | nil =>
        cases heq
        cases hrun
        exact hok
      | cons c before =>
        cases heq
        obtain ⟨s₂, hs₂, hrun⟩ := exec_cons.1 hrun
        exact ih.1 (hrest s₂ hs₂) before b after s₁ rfl hrun
    · intro h
      refine ⟨h [] a as s rfl rfl, fun s₂ hs₂ => ih.2 fun before b after s₁ heq hrun => ?_⟩
      exact h (a :: before) b after s₁ (by rw [heq]; rfl) (exec_cons.2 ⟨s₂, hs₂, hrun⟩)

theorem Along.mono {ok ok' : σ → α → Prop} (h : ∀ s a, ok s a → ok' s a) {s : σ}
    {as : List α} (hok : Along step ok s as) : Along step ok' s as := by
  induction as generalizing s with
  | nil => trivial
  | cons a as ih => exact ⟨h s a hok.1, fun s' hs' => ih (hok.2 s' hs')⟩

theorem Along.and {ok ok' : σ → α → Prop} {s : σ} {as : List α} (hok : Along step ok s as)
    (hok' : Along step ok' s as) : Along step (fun s a => ok s a ∧ ok' s a) s as := by
  induction as generalizing s with
  | nil => trivial
  | cons a as ih => exact ⟨⟨hok.1, hok'.1⟩, fun s' hs' => ih (hok.2 s' hs') (hok'.2 s' hs')⟩

theorem Along.imp {ok ok' : σ → α → Prop} {motive : σ → Prop} {s : σ} {as : List α}
    (hok : Along step ok s as)
    (hstep : ∀ s a s', motive s → ok s a → step s a = some s' → motive s')
    (h : ∀ s a, motive s → ok s a → ok' s a) (hs : motive s) : Along step ok' s as := by
  induction as generalizing s with
  | nil => trivial
  | cons a as ih =>
    exact ⟨h s a hs hok.1, fun s' hs' => ih (hok.2 s' hs') (hstep s a s' hs hok.1 hs')⟩

/-- Two conditions that agree wherever an invariant holds are met along the same runs, if the
invariant survives the steps that meet them. -/
theorem along_congr {ok ok' : σ → α → Prop} {motive : σ → Prop}
    (hstep : ∀ s a s', motive s → ok' s a → step s a = some s' → motive s')
    (h : ∀ s a, motive s → (ok s a ↔ ok' s a)) {s : σ} {as : List α} (hs : motive s) :
    Along step ok s as ↔ Along step ok' s as := by
  induction as generalizing s with
  | nil => exact Iff.rfl
  | cons a as ih =>
    have hrest (hok' : ok' s a) (s' : σ) (hs' : s' ∈ step s a) :
        Along step ok s' as ↔ Along step ok' s' as := ih (hstep s a s' hs hok' hs')
    constructor
    · rintro ⟨hok, halong⟩
      have hok' := (h s a hs).1 hok
      exact ⟨hok', fun s' hs' => (hrest hok' s' hs').1 (halong s' hs')⟩
    · rintro ⟨hok', halong⟩
      exact ⟨(h s a hs).2 hok', fun s' hs' => (hrest hok' s' hs').2 (halong s' hs')⟩

theorem along_of_forall {ok : α → Prop} {as : List α} (h : ∀ a ∈ as, ok a) (s : σ) :
    Along step (fun _ a => ok a) s as := by
  induction as generalizing s with
  | nil => trivial
  | cons a as ih =>
    rw [List.forall_mem_cons] at h
    exact ⟨h.1, fun s' _ => ih h.2 s'⟩

/-- **The invariant rule.**  A property that survives every step that meets `ok` survives
every run whose steps all meet it. -/
theorem exec_invariant {ok : σ → α → Prop} {motive : σ → Prop}
    (hstep : ∀ s a s', motive s → ok s a → step s a = some s' → motive s')
    {s s' : σ} {as : List α} (hs : motive s) (hok : Along step ok s as)
    (hrun : exec step s as = some s') : motive s' := by
  induction as generalizing s with
  | nil =>
    cases hrun
    exact hs
  | cons a as ih =>
    obtain ⟨s₁, h₁, hrun⟩ := exec_cons.1 hrun
    exact ih (hstep s a s₁ hs hok.1 h₁) (hok.2 s₁ h₁) hrun

theorem exec_invariant' {motive : σ → Prop}
    (hstep : ∀ s a s', motive s → step s a = some s' → motive s')
    {s s' : σ} {as : List α} (hs : motive s) (hrun : exec step s as = some s') : motive s' := by
  induction as generalizing s with
  | nil =>
    cases hrun
    exact hs
  | cons a as ih =>
    obtain ⟨s₁, h₁, hrun⟩ := exec_cons.1 hrun
    exact ih (hstep s a s₁ hs h₁) hrun

/-! ## What a run puts out -/

section Outputs

universe w

variable {β : Type w}

/-- What the steps of a run put out, in order. -/
def outputs (step : σ → α → Option σ) (out : σ → α → List β) : σ → List α → List β
  | _, [] => []
  | s, a :: as => out s a ++ (step s a).elim [] fun s' => outputs step out s' as

variable {out : σ → α → List β}

/-- **The invariant rule for outputs.**  A property of the state and of what was put out so far
that survives every step that meets `ok` survives every run whose steps all meet it. -/
theorem exec_outputs_invariant {ok : σ → α → Prop} {motive : σ → List β → Prop}
    (hstep : ∀ s a s' bs, motive s bs → ok s a → step s a = some s' → motive s' (bs ++ out s a))
    {s s' : σ} {as : List α} {bs : List β} (hs : motive s bs) (hok : Along step ok s as)
    (hrun : exec step s as = some s') : motive s' (bs ++ outputs step out s as) := by
  induction as generalizing s bs with
  | nil =>
    cases hrun
    rw [outputs, List.append_nil]
    exact hs
  | cons a as ih =>
    obtain ⟨s₁, h₁, hrun⟩ := exec_cons.1 hrun
    rw [outputs, h₁, ← List.append_assoc]
    exact ih (hstep s a s₁ bs hs hok.1 h₁) (hok.2 s₁ h₁) hrun

/-- **The rule for simulations.**  Two systems that are related, where a step keeps them related for one action
less and puts out the same in both, put out the same in a run. -/
theorem outputs_congr {τ : Type*} {step' : τ → α → Option τ} {out' : τ → α → List β} {R : Nat → σ → τ → Prop}
    (h : ∀ n s t a, R (n + 1) s t → out s a = out' t a ∧ Option.Rel (R n) (step s a) (step' t a))
    {s : σ} {t : τ} {as : List α} (hR : R as.length s t) :
    outputs step out s as = outputs step' out' t as := by
  induction as generalizing s t with
  | nil => rfl
  | cons a as ih =>
    obtain ⟨hout, hstep⟩ := h as.length s t a hR
    rw [outputs, outputs, hout]
    generalize step s a = s', step' t a = t' at hstep
    cases hstep with
    | none => rfl
    | some hR => exact congrArg (out' t a ++ ·) (ih hR)

end Outputs

/-! ## Runs that follow a strategy -/

section Strategies

/-- Take the actions that a strategy picks, the `k`-th and those after it, until the state is final.
`none` when one of them cannot be taken, or when they are more than `fuel`. -/
def follow (step : σ → α → Option σ) (pick : Nat → σ → α) (final : σ → Bool) :
    Nat → Nat → σ → Option σ
  | 0, _, s => if final s then some s else none
  | fuel + 1, k, s =>
    if final s then some s else (step s (pick k s)).bind (follow step pick final fuel (k + 1))

variable {pick : Nat → σ → α} {final : σ → Bool}

theorem follow_of_final {s : σ} (h : final s) (fuel k : Nat) :
    follow step pick final fuel k s = some s := by
  cases fuel <;> exact if_pos h

theorem follow_of_step {s s' : σ} {k : Nat} (h : ¬ final s) (hstep : step s (pick k s) = some s')
    (fuel : Nat) :
    follow step pick final (fuel + 1) k s = follow step pick final fuel (k + 1) s' := by
  rw [follow, if_neg h, hstep, Option.bind_some]

theorem follow_last {s s' : σ} {k : Nat} (h : ¬ final s) (hstep : step s (pick k s) = some s')
    (hlast : final s') (fuel : Nat) : follow step pick final (fuel + 1) k s = some s' := by
  rw [follow_of_step h hstep, follow_of_final hlast]

theorem follow_steps {motive : Nat → σ → Prop} {n : Nat}
    (hstep : ∀ k s, k < n → motive k s → ¬ final s ∧
      ∃ s', step s (pick k s) = some s' ∧ motive (k + 1) s') {s : σ} (hs : motive 0 s)
    (fuel : Nat) :
    ∃ s', motive n s' ∧ follow step pick final (n + fuel) 0 s = follow step pick final fuel n s' := by
  induction n generalizing fuel with
  | zero => exact ⟨s, hs, by rw [Nat.zero_add]⟩
  | succ n ih =>
    obtain ⟨s₁, hs₁, hrun⟩ := ih (fun k s hk => hstep k s (Nat.lt_succ_of_lt hk)) (fuel + 1)
    obtain ⟨hfinal, s', hs', hmotive⟩ := hstep n s₁ n.lt_succ_self hs₁
    refine ⟨s', hmotive, ?_⟩
    rw [Nat.add_assoc, Nat.add_comm 1, hrun, follow_of_step hfinal hs']

/-- **The rule for strategies.**  A property that tells how many actions are left at most, and that
survives the actions that the strategy picks, holds in the final state, and that is reached. -/
theorem follow_rule {motive : Nat → σ → Prop} (hfinal : ∀ s, motive 0 s → final s)
    (hstep : ∀ fuel k s, motive (fuel + 1) s → ¬ final s →
      ∃ s', step s (pick k s) = some s' ∧ motive fuel s') {fuel : Nat} (k : Nat) {s : σ}
    (hs : motive fuel s) :
    ∃ s', follow step pick final fuel k s = some s' ∧ final s' ∧ ∃ left, motive left s' := by
  induction fuel generalizing k s with
  | zero => exact ⟨s, if_pos (hfinal s hs), hfinal s hs, 0, hs⟩
  | succ fuel ih =>
    by_cases h : final s
    · exact ⟨s, follow_of_final h _ _, h, _, hs⟩
    · obtain ⟨s₁, hs₁, hmotive⟩ := hstep fuel k s hs h
      rw [follow_of_step h hs₁]
      exact ih (k + 1) hmotive

end Strategies

end RavBot.Lib
