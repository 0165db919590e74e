import Mathlib.Logic.Basic

/-!
# Programs that change a state and may throw

What such a program did to the state before it throws stays done.  `attempt` is `try` with a handler that
catches everything; `Preserves` is the rule for invariants, and `Simulates` the rule for a program that does
the same on a larger state.
-/

namespace RavBot.Lib

/-- A program that changes a state and may throw a text. -/
abbrev Effect (σ α : Type) := ExceptT String (StateM σ) α

namespace Effect

variable {σ α β : Type}

/-- What a program returns or throws, and the state that it leaves. -/
def outcome (x : Effect σ α) (s : σ) : Except String α × σ := x.run.run s

/-- Run a program and catch what it throws. -/
def attempt (x : Effect σ α) : Effect σ (Except String α) := fun s =>
  match x.outcome s with
  | (result, s') => (.ok result, s')

/-- The value of an access, or an exception when it throws. -/
def ofOption (error : String) (value : Option α) : Effect σ α :=
  match value with
  | some a => pure a
  | none => throw error

/-- A result that does not touch the state. -/
def ofExcept (result : Except String α) : Effect σ α := fun s => (result, s)

@[simp] theorem outcome_pure (a : α) (s : σ) : outcome (pure a : Effect σ α) s = (.ok a, s) := rfl

@[simp] theorem outcome_throw (e : String) (s : σ) :
    outcome (throw e : Effect σ α) s = (.error e, s) := rfl

@[simp] theorem outcome_attempt (x : Effect σ α) (s : σ) :
    x.attempt.outcome s = (.ok (x.outcome s).1, (x.outcome s).2) := rfl

theorem outcome_bind (x : Effect σ α) (f : α → Effect σ β) (s : σ) :
    (x >>= f).outcome s =
      match x.outcome s with
      | (.ok a, s') => (f a).outcome s'
      | (.error e, s') => (.error e, s') := by
  rw [outcome, ExceptT.run_bind, StateT.run_bind]
  show _ = match x.run.run s with
    | (.ok a, s') => (f a).outcome s'
    | (.error e, s') => (.error e, s')
  rcases x.run.run s with ⟨_ | a, s'⟩ <;> rfl

theorem ofOption_bind_congr {error : String} {value : Option α} {f g : α → Effect σ β}
    (h : ∀ a, value = some a → f a = g a) : (ofOption error value >>= f) = (ofOption error value >>= g) := by
  cases value with
  | none => rfl
  | some a =>
      show (pure a >>= f) = (pure a >>= g)
      rw [pure_bind, pure_bind, h a rfl]

/-! ## Invariants -/

/-- The program keeps a property of the state, also when it throws. -/
def Preserves (P : σ → Prop) (x : Effect σ α) : Prop := ∀ s, P s → P (x.outcome s).2

namespace Preserves

variable {P : σ → Prop} {x : Effect σ α}

theorem pure (a : α) : Preserves P (Pure.pure a : Effect σ α) := fun _ h => h

theorem throw (e : String) : Preserves P (MonadExcept.throw e : Effect σ α) := fun _ h => h

theorem bind (hx : Preserves P x) {f : α → Effect σ β} (hf : ∀ a, Preserves P (f a)) :
    Preserves P (x >>= f) := by
  intro s hs
  rw [outcome_bind]
  have h := hx s hs
  revert h
  rcases x.outcome s with ⟨_ | a, s'⟩
  · exact id
  · exact hf a s'

theorem attempt (hx : Preserves P x) : Preserves P x.attempt := fun s hs => hx s hs

theorem ofOption (e : String) (value : Option α) : Preserves P (Effect.ofOption e value : Effect σ α) := by
  cases value with
  | none => exact throw e
  | some a => exact pure a

end Preserves

/-! ## Simulation -/

/-- The program `y` does on a larger state what `x` does on the part of it that `f` gives. -/
def Simulates {τ : Type} (f : τ → σ) (y : Effect τ α) (x : Effect σ α) : Prop :=
  ∀ t, (y.outcome t).1 = (x.outcome (f t)).1 ∧ f (y.outcome t).2 = (x.outcome (f t)).2

namespace Simulates

variable {τ : Type} {f : τ → σ} {y : Effect τ α} {x : Effect σ α}

theorem pure (a : α) : Simulates f (Pure.pure a : Effect τ α) (Pure.pure a) := fun _ => ⟨rfl, rfl⟩

theorem ofOption (e : String) (value : Option α) :
    Simulates f (Effect.ofOption e value : Effect τ α) (Effect.ofOption e value) := by
  intro t
  cases value <;> exact ⟨rfl, rfl⟩

theorem attempt (h : Simulates f y x) : Simulates f y.attempt x.attempt := by
  intro t
  rw [outcome_attempt, outcome_attempt]
  exact ⟨congrArg _ (h t).1, (h t).2⟩

theorem bind (h : Simulates f y x) {k : α → Effect τ β} {g : α → Effect σ β}
    (hk : ∀ a, Simulates f (k a) (g a)) : Simulates f (y >>= k) (x >>= g) := by
  intro t
  obtain ⟨hresult, hstate⟩ := h t
  rw [outcome_bind, outcome_bind]
  generalize y.outcome t = yt at hresult hstate ⊢
  generalize x.outcome (f t) = xt at hresult hstate ⊢
  obtain ⟨result, t'⟩ := yt
  obtain ⟨result', s'⟩ := xt
  dsimp only at hresult hstate
  subst hresult hstate
  cases result with
  | error e => exact ⟨rfl, rfl⟩
  | ok a => exact hk a t'

end Simulates

end Effect

end RavBot.Lib
