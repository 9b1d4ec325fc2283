import Mathlib

/-!
# Counting down a queue

Items wait in a queue, each for a number of units; units are finished a few at a time, and an item is
done when all of its own are. What is done depends only on how many units have been finished, not on
how they came.

Main results:

* `values_finish` — no item gets lost;
* `total_rest` — how many units are left.
-/

namespace Countdown

/-- An item, and how many units of it are left. -/
structure Item (α : Type*) where
  value : α
  left : Nat
deriving DecidableEq, Repr

variable {α : Type*}

/-- How many units are left of all items. -/
def total (queue : List (Item α)) : Nat := (queue.map Item.left).sum

/-- `n` units are finished: the items that are done, and what is left of the queue. Units that are
too many are of no effect. -/
def finish : Nat → List (Item α) → List (Item α) × List (Item α)
  | _, [] => ([], [])
  | n, i :: queue =>
    if n < i.left then ([], { i with left := i.left - n } :: queue)
    else
      let (done, rest) := finish (n - i.left) queue
      (i :: done, rest)

@[simp] theorem total_nil : total ([] : List (Item α)) = 0 := rfl

@[simp] theorem total_cons (i : Item α) (queue : List (Item α)) :
    total (i :: queue) = i.left + total queue := rfl

@[simp] theorem total_append (queue queue' : List (Item α)) :
    total (queue ++ queue') = total queue + total queue' := by
  rw [total, List.map_append, List.sum_append]
  rfl

@[simp] theorem finish_nil (n : Nat) : finish n ([] : List (Item α)) = ([], []) := rfl

theorem finish_of_lt {n : Nat} {i : Item α} (h : n < i.left) (queue : List (Item α)) :
    finish n (i :: queue) = ([], { i with left := i.left - n } :: queue) := if_pos h

theorem finish_of_le {n : Nat} {i : Item α} (h : i.left ≤ n) (queue : List (Item α)) :
    finish n (i :: queue) =
      (i :: (finish (n - i.left) queue).1, (finish (n - i.left) queue).2) := if_neg (not_lt.mpr h)

/-- No value gets lost. -/
theorem values_finish (n : Nat) (queue : List (Item α)) :
    (finish n queue).1.map Item.value ++ (finish n queue).2.map Item.value =
      queue.map Item.value := by
  induction queue generalizing n with
  | nil => rfl
  | cons i queue ih =>
    by_cases hn : n < i.left
    · rw [finish_of_lt hn]
      rfl
    · rw [finish_of_le (not_lt.mp hn), List.map_cons, List.cons_append, ih, List.map_cons]

/-- What waits still waits for something. -/
theorem pos_finish (n : Nat) {queue : List (Item α)} (hPos : ∀ i ∈ queue, 0 < i.left) :
    ∀ i ∈ (finish n queue).2, 0 < i.left := by
  induction queue generalizing n with
  | nil => exact fun i hi => absurd hi List.not_mem_nil
  | cons i queue ih =>
    obtain ⟨hFirst, hRest⟩ := List.forall_mem_cons.mp hPos
    by_cases hn : n < i.left
    · rw [finish_of_lt hn]
      exact List.forall_mem_cons.mpr ⟨Nat.sub_pos_of_lt hn, hRest⟩
    · rw [finish_of_le (not_lt.mp hn)]
      exact ih (n - i.left) hRest

/-- What is left of a queue, in units. -/
theorem total_rest (n : Nat) (queue : List (Item α)) :
    total (finish n queue).2 = total queue - n := by
  induction queue generalizing n with
  | nil => exact (Nat.zero_sub n).symm
  | cons i queue ih =>
    by_cases hn : n < i.left
    · rw [finish_of_lt hn]
      simp only [total_cons]
      omega
    · rw [finish_of_le (not_lt.mp hn), ih, total_cons]
      omega

end Countdown
