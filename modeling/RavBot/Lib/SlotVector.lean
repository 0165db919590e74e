import Mathlib.Data.List.Basic

/-!
# Vectors and pointers into them

A `SlotVector` is a `std::vector` together with the buffer that its elements live in.  A pointer to an
element names the buffer and the place in it (`Slot`), so that it can be told what the pointer refers
to after the vector was changed: elements that are erased make those behind them move up, and a
`push_back` that finds no room moves everything to a new buffer, after which the pointer refers to
nothing.

How large a new buffer is, is left to the implementation; `grow` stands for that.
-/

open List

namespace RavBot.Lib

universe u

/-- A pointer to an element. -/
structure Slot where
  buffer : Nat
  index : Nat
  deriving DecidableEq, Repr

/-- `std::vector`. -/
structure SlotVector (α : Type u) where
  items : List α
  capacity : Nat
  buffer : Nat
  fits : items.length ≤ capacity

namespace SlotVector

variable {α : Type u}

def empty : SlotVector α := ⟨[], 0, 0, Nat.le_refl 0⟩

def read (v : SlotVector α) (p : Slot) : Option α :=
  if p.buffer = v.buffer then v.items[p.index]? else none

/-- The pointer to the element at a place. -/
def slot (v : SlotVector α) (index : Nat) : Slot := ⟨v.buffer, index⟩

theorem length_push_le {items : List α} {n : Nat} (h : items.length < n) (a : α) :
    (items ++ [a]).length ≤ n := by
  rw [length_append, length_singleton]
  exact h

/-- `push_back`. -/
def push (grow : Nat → Nat) (v : SlotVector α) (a : α) : SlotVector α :=
  if h : v.items.length < v.capacity then
    { v with items := v.items ++ [a], fits := length_push_le h a }
  else
    { items := v.items ++ [a]
      capacity := max (grow v.items.length) (v.items.length + 1)
      buffer := v.buffer + 1
      fits := length_push_le (Nat.le_max_right _ _) a }

/-- `erase` of the element at a place. -/
def erase (v : SlotVector α) (index : Nat) : SlotVector α :=
  { v with
    items := v.items.eraseIdx index
    fits := Nat.le_trans (length_eraseIdx_le v.items index) v.fits }

/-- `clear`, which keeps the buffer. -/
def clear (v : SlotVector α) : SlotVector α := { v with items := [], fits := Nat.zero_le _ }

/-- Change the element that a pointer refers to.  Without one, what is written is outside of the
vector. -/
def modify (v : SlotVector α) (p : Slot) (f : α → α) : SlotVector α :=
  if p.buffer = v.buffer then
    { v with items := v.items.modify p.index f, fits := by simpa using v.fits }
  else v

/-- Several elements are pushed one after the other. -/
def pushAll (grow : Nat → Nat) (v : SlotVector α) (as : List α) : SlotVector α :=
  as.foldl (push grow) v

variable {grow : Nat → Nat}

@[simp] theorem items_push (v : SlotVector α) (a : α) : (v.push grow a).items = v.items ++ [a] := by
  rw [push]
  split_ifs <;> rfl

@[simp] theorem items_pushAll (v : SlotVector α) (as : List α) :
    (v.pushAll grow as).items = v.items ++ as := by
  induction as generalizing v with
  | nil => exact (append_nil _).symm
  | cons a as ih =>
    rw [pushAll, foldl_cons, ← pushAll, ih, items_push, append_assoc]
    rfl

theorem forall_modify {motive : α → Prop} {v : SlotVector α} (h : ∀ a ∈ v.items, motive a) (p : Slot)
    {f : α → α} (hf : ∀ a, motive a → motive (f a)) : ∀ a ∈ (v.modify p f).items, motive a := by
  rw [modify]
  split_ifs
  · intro a ha
    obtain ⟨i, hi, rfl⟩ := mem_iff_getElem.1 ha
    dsimp only
    rw [getElem_modify]
    have hi' : i < v.items.length := by simpa using hi
    have hold := h _ (getElem_mem hi')
    split_ifs
    · exact hf _ hold
    · exact hold
  · exact h

@[simp] theorem read_slot (v : SlotVector α) (index : Nat) :
    v.read (v.slot index) = v.items[index]? :=
  if_pos rfl

theorem push_of_room (grow : Nat → Nat) (v : SlotVector α) (h : v.items.length < v.capacity)
    (a : α) :
    (v.push grow a).items = v.items ++ [a] ∧ (v.push grow a).capacity = v.capacity ∧
      (v.push grow a).buffer = v.buffer := by
  rw [push, dif_pos h]
  exact ⟨rfl, rfl, rfl⟩

theorem read_push_of_room {v : SlotVector α} (h : v.items.length < v.capacity) (a : α) {p : Slot}
    {b : α} (hp : v.read p = some b) : (v.push grow a).read p = some b := by
  obtain ⟨hitems, -, hbuffer⟩ := v.push_of_room grow h a
  rw [read] at hp ⊢
  split_ifs at hp with hp'
  rw [hbuffer, if_pos hp', hitems, getElem?_append_left (List.getElem?_eq_some_iff.1 hp).1, hp]

theorem read_push_of_full {v : SlotVector α} (h : ¬ v.items.length < v.capacity) (a : α) {p : Slot}
    {b : α} (hp : v.read p = some b) : (v.push grow a).read p = none := by
  rw [push, dif_neg h]
  rw [read] at hp ⊢
  split_ifs at hp with hbuffer
  rw [if_neg]
  rw [hbuffer]
  exact Nat.ne_of_lt v.buffer.lt_succ_self

theorem read_erase (v : SlotVector α) (index : Nat) (p : Slot) :
    (v.erase index).read p =
      if p.index < index then v.read p else v.read ⟨p.buffer, p.index + 1⟩ := by
  rw [read, read, read, erase]
  dsimp only
  rw [getElem?_eraseIdx]
  split_ifs <;> rfl

theorem read_modify (v : SlotVector α) (p q : Slot) (f : α → α) :
    (v.modify p f).read q = if q = p then (v.read q).map f else v.read q := by
  rw [modify]
  by_cases hbuffer : p.buffer = v.buffer
  · rw [if_pos hbuffer, read, read]
    dsimp only
    by_cases hq : q.buffer = v.buffer
    · rw [if_pos hq, if_pos hq, getElem?_modify]
      by_cases hindex : p.index = q.index
      · have heq : q = p := by
          rw [Slot.mk.injEq]
          exact ⟨hq.trans hbuffer.symm, hindex.symm⟩
        rw [if_pos heq]
        simp [hindex]
      · have hne : q ≠ p := fun heq => hindex (heq ▸ rfl)
        rw [if_neg hne]
        simp [hindex]
    · rw [if_neg hq, if_neg hq]
      split_ifs <;> rfl
  · rw [if_neg hbuffer]
    split_ifs with heq
    · rw [heq, read, if_neg hbuffer]
      rfl
    · rfl

theorem read_pushAll {v : SlotVector α} {as : List α}
    (h : v.items.length + as.length ≤ v.capacity) (p : Slot) :
    (v.pushAll grow as).read p =
      if p.buffer = v.buffer then (v.items ++ as)[p.index]? else none := by
  induction as generalizing v with
  | nil =>
    rw [pushAll, foldl_nil, append_nil]
    rfl
  | cons a as ih =>
    rw [length_cons] at h
    have hroom : v.items.length < v.capacity := by omega
    obtain ⟨hitems, hcapacity, hbuffer⟩ := v.push_of_room grow hroom a
    rw [pushAll, foldl_cons, ← pushAll, ih, hitems, hbuffer, append_assoc, singleton_append]
    rw [hitems, hcapacity, length_append, length_singleton]
    omega

theorem buffer_le_pushAll (grow : Nat → Nat) (v : SlotVector α) (as : List α) :
    v.buffer ≤ (v.pushAll grow as).buffer := by
  induction as generalizing v with
  | nil => exact Nat.le_refl _
  | cons a as ih =>
    refine Nat.le_trans ?_ (ih (v.push grow a))
    rw [push]
    split_ifs
    · exact Nat.le_refl _
    · exact Nat.le_succ _

theorem buffer_lt_pushAll {v : SlotVector α} {as : List α}
    (h : v.capacity < v.items.length + as.length) : v.buffer < (v.pushAll grow as).buffer := by
  induction as generalizing v with
  | nil => exact absurd h (Nat.not_lt.2 v.fits)
  | cons a as ih =>
    rw [pushAll, foldl_cons, ← pushAll]
    rw [length_cons] at h
    by_cases hroom : v.items.length < v.capacity
    · obtain ⟨hitems, hcapacity, hbuffer⟩ := v.push_of_room grow hroom a
      rw [← hbuffer]
      apply ih
      rw [hitems, hcapacity, length_append, length_singleton]
      omega
    · have hpush : (v.push grow a).buffer = v.buffer + 1 := by rw [push, dif_neg hroom]
      have hle := (v.push grow a).buffer_le_pushAll grow as
      omega

end SlotVector

end RavBot.Lib
