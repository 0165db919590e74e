import Mathlib.Data.Prod.Basic

/-!
# Code that holds a mutex

A thread that runs alone, with one mutex that is not recursive.  The state of the thread says
whether it holds the mutex.  Locking it while it is held, or unlocking it while it is not, is
an error that ends the run: with `std::mutex` the first blocks for ever, and the second has no
defined behaviour.
-/

namespace RavBot.Lib

universe u

/-- What a thread can do wrong with a mutex. -/
inductive LockError where
  /-- It locks the mutex that it holds. -/
  | relock
  /-- It unlocks the mutex that it does not hold. -/
  | notHeld
  deriving DecidableEq, Repr

/-- A state with a mutex. -/
structure Guarded (σ : Type u) where
  held : Bool
  val : σ

abbrev LockM (σ : Type u) := StateT (Guarded σ) (Except LockError)

namespace LockM

variable {σ α β : Type u}

def lock : LockM σ PUnit := fun s =>
  if s.held then .error .relock else .ok (⟨⟩, { s with held := true })

def unlock : LockM σ PUnit := fun s =>
  if s.held then .ok (⟨⟩, { s with held := false }) else .error .notHeld

/-- Code that neither locks nor unlocks the mutex. -/
def access (f : σ → α × σ) : LockM σ α := fun s => .ok ((f s.val).1, { s with val := (f s.val).2 })

/-- Run `body` in the scope of a lock guard. -/
def withLock (body : LockM σ α) : LockM σ α := do
  lock
  let a ← body
  unlock
  return a

/-- The run ends with a result, and the mutex is free afterwards. -/
def Returns (body : LockM σ α) (v : σ) : Prop :=
  ∃ a v', body ⟨false, v⟩ = .ok (a, ⟨false, v'⟩)

theorem bind_ok {x : LockM σ α} {f : α → LockM σ β} {s s' : Guarded σ} {a : α}
    (h : x s = .ok (a, s')) : (x >>= f) s = f a s' := by
  change (x s >>= fun p => f p.1 p.2) = _
  rw [h]
  rfl

theorem bind_error {x : LockM σ α} {f : α → LockM σ β} {s : Guarded σ} {e : LockError}
    (h : x s = .error e) : (x >>= f) s = .error e := by
  change (x s >>= fun p => f p.1 p.2) = _
  rw [h]
  rfl

theorem lock_free (v : σ) : lock ⟨false, v⟩ = .ok (⟨⟩, ⟨true, v⟩) := rfl

theorem unlock_held (v : σ) : unlock ⟨true, v⟩ = .ok (⟨⟩, ⟨false, v⟩) := rfl

theorem withLock_ok {body : LockM σ α} {v v' : σ} {a : α}
    (h : body ⟨true, v⟩ = .ok (a, ⟨true, v'⟩)) :
    withLock body ⟨false, v⟩ = .ok (a, ⟨false, v'⟩) := by
  rw [withLock, bind_ok (lock_free v), bind_ok h, bind_ok (unlock_held v')]
  rfl

theorem withLock_error {body : LockM σ α} {v : σ} {e : LockError}
    (h : body ⟨true, v⟩ = .error e) : withLock body ⟨false, v⟩ = .error e := by
  rw [withLock, bind_ok (lock_free v), bind_error h]

theorem withLock_held (body : LockM σ α) (v : σ) : withLock body ⟨true, v⟩ = .error .relock :=
  bind_error rfl

end LockM

end RavBot.Lib
