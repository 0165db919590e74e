import Mathlib.Algebra.Order.Group.Defs
import Mathlib.Data.List.Basic
import Mathlib.Data.List.Count
import Mathlib.Data.List.Induction
import Mathlib.Data.List.TakeWhile

/-!
# Sliding windows

A log is a list of times.  It is `Limited n w` when no closed interval of length `w` holds more
than `n` of them.  Whoever adds to the log only what leaves fewer than `n` entries in the window
that ends now keeps it so, wherever the interval lies that one looks at later
(`Limited.append`).

A queue in order of time need not hold the whole log for that: it is enough that what is missing
from it lies before the window (`Holds`).  Dropping what is too old from its front keeps this, and
what is left is the window (`Holds.since_purged`).  Counting from its back until the first entry that
is too old counts what came since any time in the window (`Holds.since_eq`).
-/

open List

namespace RavBot.Lib

universe u

variable {τ : Type u} [LinearOrder τ]

/-- How many times of a log lie in a closed interval. -/
def within (start stop : τ) (log : List τ) : Nat :=
  log.countP fun t => start ≤ t ∧ t ≤ stop

/-- How many times of a log do not lie before `start`. -/
def since (start : τ) (log : List τ) : Nat :=
  log.countP fun t => start ≤ t

theorem within_le_since {start start' : τ} (h : start' ≤ start) (stop : τ) (log : List τ) :
    within start stop log ≤ since start' log := by
  apply countP_mono_left
  intro t _ ht
  simp only [decide_eq_true_eq] at ht ⊢
  exact h.trans ht.1

section Limits

variable [AddCommGroup τ] [IsOrderedAddMonoid τ]

/-- No closed interval of length `w` holds more than `n` times of the log. -/
def Limited (n : Nat) (w : τ) (log : List τ) : Prop :=
  ∀ start, within start (start + w) log ≤ n

omit [IsOrderedAddMonoid τ] in
theorem Limited.nil (n : Nat) (w : τ) : Limited n w [] := fun _ => Nat.zero_le n

/-- **The window that ends now is enough.**  A log stays within its limit when a time is added that
finds the window before it not full. -/
theorem Limited.append {n : Nat} {w t : τ} {log : List τ} (h : Limited n w log)
    (hroom : since (t - w) log < n) : Limited n w (log ++ [t]) := by
  intro start
  rw [within, countP_append, countP_singleton]
  split_ifs with ht
  · simp only [decide_eq_true_eq] at ht
    have hstart : t - w ≤ start := sub_le_iff_le_add.2 ht.2
    exact Nat.succ_le_of_lt ((within_le_since hstart (start + w) log).trans_lt hroom)
  · exact h start

end Limits

section Queues

/-- What is left of a queue in order of time, once the entries before `cutoff` are dropped from its
front, are the entries that do not lie before it. -/
theorem dropWhile_lt_eq_filter {queue : List τ} (h : queue.Pairwise (· ≤ ·)) (cutoff : τ) :
    queue.dropWhile (· < cutoff) = queue.filter (cutoff ≤ ·) := by
  induction queue with
  | nil => rfl
  | cons t queue ih =>
    rw [pairwise_cons] at h
    by_cases ht : t < cutoff
    · rw [dropWhile_cons, if_pos (decide_eq_true ht), ih h.2, filter_cons_of_neg]
      simpa using ht
    · have hcutoff : cutoff ≤ t := le_of_not_gt ht
      rw [dropWhile_cons, if_neg (by simpa using hcutoff), eq_comm, filter_eq_self]
      intro t' ht'
      rcases mem_cons.1 ht' with rfl | ht'
      · exact decide_eq_true hcutoff
      · exact decide_eq_true (hcutoff.trans (h.1 t' ht'))

/-- Counting a queue in order of time from its back, up to the first entry before `start`, counts
every entry that does not lie before it. -/
theorem length_takeWhile_reverse {queue : List τ} (h : queue.Pairwise (· ≤ ·)) (start : τ) :
    (queue.reverse.takeWhile (start ≤ ·)).length = since start queue := by
  induction queue using List.reverseRecOn with
  | nil => rfl
  | append_singleton queue t ih =>
    rw [pairwise_append] at h
    rw [reverse_append, reverse_singleton, singleton_append, since, countP_append, countP_singleton]
    by_cases ht : start ≤ t
    · rw [takeWhile_cons, if_pos (decide_eq_true ht), length_cons, ih h.1,
        if_pos (decide_eq_true ht), since]
    · have hnone : List.countP (fun t' => decide (start ≤ t')) queue = 0 := by
        rw [countP_eq_zero]
        intro t' ht' hstart
        exact ht ((of_decide_eq_true hstart).trans (h.2.2 t' ht' t (mem_singleton_self t)))
      rw [takeWhile_cons, if_neg (by simpa using ht), hnone, if_neg (by simpa using ht)]
      rfl

theorem since_append_of_lt {old : List τ} {start : τ} (h : ∀ t ∈ old, t < start) (queue : List τ) :
    since start (old ++ queue) = since start queue := by
  have hold : List.countP (fun t => decide (start ≤ t)) old = 0 := by
    rw [countP_eq_zero]
    intro t ht hstart
    exact absurd (of_decide_eq_true hstart) (not_le_of_gt (h t ht))
  rw [since, countP_append, hold, Nat.zero_add, since]

/-- The queue is the end of the log, and all that is missing from it lies before `cutoff`. -/
def Holds (cutoff : τ) (log queue : List τ) : Prop :=
  ∃ old, log = old ++ queue ∧ ∀ t ∈ old, t < cutoff

namespace Holds

variable {cutoff cutoff' : τ} {log queue : List τ}

theorem mono (h : Holds cutoff log queue) (hcutoff : cutoff ≤ cutoff') :
    Holds cutoff' log queue := by
  obtain ⟨old, rfl, hold⟩ := h
  exact ⟨old, rfl, fun t ht => (hold t ht).trans_le hcutoff⟩

theorem purge (h : Holds cutoff log queue) : Holds cutoff log (queue.dropWhile (· < cutoff)) := by
  obtain ⟨old, rfl, hold⟩ := h
  refine ⟨old ++ queue.takeWhile (· < cutoff), ?_, ?_⟩
  · rw [append_assoc, takeWhile_append_dropWhile]
  · intro t ht
    rcases mem_append.1 ht with ht | ht
    · exact hold t ht
    · simpa using mem_takeWhile_imp ht

theorem append (h : Holds cutoff log queue) (ts : List τ) : Holds cutoff (log ++ ts) (queue ++ ts) := by
  obtain ⟨old, rfl, hold⟩ := h
  exact ⟨old, append_assoc old queue ts, hold⟩

theorem pairwise (h : Holds cutoff log queue) (hlog : log.Pairwise (· ≤ ·)) :
    queue.Pairwise (· ≤ ·) := by
  obtain ⟨old, rfl, -⟩ := h
  exact (pairwise_append.1 hlog).2.1

theorem since_eq (h : Holds cutoff log queue) (hlog : log.Pairwise (· ≤ ·)) {start : τ}
    (hstart : cutoff ≤ start) :
    since start log = (queue.reverse.takeWhile (start ≤ ·)).length := by
  rw [length_takeWhile_reverse (h.pairwise hlog)]
  obtain ⟨old, rfl, hold⟩ := h
  exact since_append_of_lt (fun t ht => (hold t ht).trans_le hstart) queue

theorem since_purged (h : Holds cutoff log queue) (hlog : log.Pairwise (· ≤ ·)) :
    since cutoff log = (queue.dropWhile (· < cutoff)).length := by
  rw [dropWhile_lt_eq_filter (h.pairwise hlog), ← countP_eq_length_filter]
  obtain ⟨old, rfl, hold⟩ := h
  exact since_append_of_lt hold queue

end Holds

end Queues

end RavBot.Lib
