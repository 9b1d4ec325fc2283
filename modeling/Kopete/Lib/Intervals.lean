import Mathlib

/-!
# Intervals within a window

Half-open intervals of integers, and how much of them is in a window. What intervals that do not
overlap have in the window does not add up to more than the window.

Main results:

* `sum_within_le` — the sum is no more than the window;
* `within_of_covers`, `within_eq_zero` — an interval that covers the window, and one outside.
-/

namespace Intervals

/-- Where the part of an interval in a window begins. -/
def lowEnd (start : ℤ) (interval : ℤ × ℤ) : ℤ :=
  if interval.1 ≤ start then start else interval.1

/-- Where it ends. -/
def highEnd (stop : ℤ) (interval : ℤ × ℤ) : ℤ :=
  if stop ≤ interval.2 then stop else interval.2

/-- The length of what an interval has in a window. -/
def within (start stop : ℤ) (interval : ℤ × ℤ) : ℕ :=
  (highEnd stop interval - lowEnd start interval).toNat

/-- One of them ends before the other one begins, or is empty. -/
def Apart (a b : ℤ × ℤ) : Prop := a.2 ≤ b.1 ∨ b.2 ≤ a.1 ∨ a.2 ≤ a.1 ∨ b.2 ≤ b.1

instance (a b : ℤ × ℤ) : Decidable (Apart a b) := inferInstanceAs (Decidable (_ ∨ _))

theorem Apart.symm {a b : ℤ × ℤ} (h : Apart a b) : Apart b a := by
  unfold Apart at h ⊢
  omega

/-- The part of an interval in a window. -/
noncomputable def part (start stop : ℤ) (interval : ℤ × ℤ) : Finset ℤ :=
  Finset.Ico (lowEnd start interval) (highEnd stop interval)

theorem mem_part {start stop x : ℤ} {interval : ℤ × ℤ} :
    x ∈ part start stop interval ↔
      (interval.1 ≤ x ∧ x < interval.2) ∧ start ≤ x ∧ x < stop := by
  rw [part, Finset.mem_Ico, lowEnd, highEnd]
  split_ifs <;> omega

theorem card_part (start stop : ℤ) (interval : ℤ × ℤ) :
    (part start stop interval).card = within start stop interval :=
  Int.card_Ico _ _

theorem Apart.disjoint {a b : ℤ × ℤ} (h : Apart a b) (start stop : ℤ) :
    Disjoint (part start stop a) (part start stop b) := by
  refine Finset.disjoint_left.2 fun x ha hb => ?_
  obtain ⟨⟨haLow, haHigh⟩, -⟩ := mem_part.1 ha
  obtain ⟨⟨hbLow, hbHigh⟩, -⟩ := mem_part.1 hb
  unfold Apart at h
  omega

/-- Disjoint sets within another one have no more elements together. -/
theorem sum_card_le {α : Type*} [DecidableEq α] {sets : List (Finset α)} {window : Finset α}
    (hApart : sets.Pairwise Disjoint) (hWithin : ∀ s ∈ sets, s ⊆ window) :
    (sets.map Finset.card).sum ≤ window.card := by
  induction sets generalizing window with
  | nil => exact Nat.zero_le _
  | cons s sets ih =>
    obtain ⟨hFirst, hRest⟩ := List.pairwise_cons.1 hApart
    have hSubset := hWithin s List.mem_cons_self
    have hOthers : (sets.map Finset.card).sum ≤ (window \ s).card := ih hRest fun t ht =>
      Finset.subset_sdiff.2 ⟨hWithin t (List.mem_cons_of_mem _ ht), (hFirst t ht).symm⟩
    rw [Finset.card_sdiff_of_subset hSubset] at hOthers
    rw [List.map_cons, List.sum_cons]
    have hCard := Finset.card_le_card hSubset
    omega

/-- **Intervals that do not overlap** have no more in the window than there is. -/
theorem sum_within_le {intervals : List (ℤ × ℤ)} (h : intervals.Pairwise Apart) (start stop : ℤ) :
    (intervals.map (within start stop)).sum ≤ (stop - start).toNat := by
  have hSets : (intervals.map (part start stop)).Pairwise Disjoint :=
    List.pairwise_map.2 (h.imp fun hApart => hApart.disjoint start stop)
  have hSubset : ∀ s ∈ intervals.map (part start stop), s ⊆ Finset.Ico start stop := by
    intro s hs
    obtain ⟨interval, _, rfl⟩ := List.mem_map.1 hs
    exact fun x hx => Finset.mem_Ico.2 (mem_part.1 hx).2
  have hSum := sum_card_le hSets hSubset
  rw [List.map_map, Int.card_Ico] at hSum
  refine le_of_eq_of_le (congrArg List.sum (List.map_congr_left fun interval _ => ?_)) hSum
  exact (card_part start stop interval).symm

theorem within_of_covers {start stop : ℤ} {interval : ℤ × ℤ} (hLow : interval.1 ≤ start)
    (hHigh : stop ≤ interval.2) : within start stop interval = (stop - start).toNat := by
  rw [within, highEnd, lowEnd, if_pos hHigh, if_pos hLow]

theorem within_eq_zero {start stop : ℤ} {interval : ℤ × ℤ}
    (h : stop ≤ interval.1 ∨ interval.2 ≤ start) : within start stop interval = 0 := by
  unfold within highEnd lowEnd
  split_ifs <;> omega

/-- What two kinds of values have is no more than what all have. -/
theorem sum_filter_add_sum_filter_le {α : Type*} {p q : α → Bool} (f : α → ℕ) (l : List α)
    (h : ∀ a, p a = true → q a = false) :
    ((l.filter p).map f).sum + ((l.filter q).map f).sum ≤ (l.map f).sum := by
  induction l with
  | nil => exact le_rfl
  | cons a l ih =>
    rw [List.filter_cons, List.filter_cons, List.map_cons, List.sum_cons]
    cases hp : p a with
    | true =>
      rw [h a hp, if_pos rfl, if_neg Bool.false_ne_true, List.map_cons, List.sum_cons]
      omega
    | false =>
      rw [if_neg Bool.false_ne_true]
      split
      · rw [List.map_cons, List.sum_cons]
        omega
      · omega

/-- A sum over some values is one over all, where the others have nothing. -/
theorem sum_filter_eq {α : Type*} {p : α → Bool} {f g : α → ℕ} {l : List α}
    (hSame : ∀ a ∈ l, p a = true → f a = g a) (hZero : ∀ a ∈ l, p a = false → g a = 0) :
    ((l.filter p).map f).sum = (l.map g).sum := by
  induction l with
  | nil => rfl
  | cons a l ih =>
    have hRest := ih (fun b hb => hSame b (List.mem_cons_of_mem _ hb))
      fun b hb => hZero b (List.mem_cons_of_mem _ hb)
    rw [List.filter_cons, List.map_cons, List.sum_cons]
    cases hp : p a with
    | true => rw [if_pos rfl, List.map_cons, List.sum_cons, hRest, hSame a List.mem_cons_self hp]
    | false => rw [if_neg Bool.false_ne_true, hRest, hZero a List.mem_cons_self hp, Nat.zero_add]

end Intervals
