import Mathlib

/-!
# The first of the greatest

A scan that holds one element and exchanges it for each later one that is eligible and has
a greater key.

Main result: `scan_spec` — what it holds at the end.
-/

namespace FirstGreatest

variable {α β : Type*} [LinearOrder β]

/-- The scan, from an element it holds at the start. -/
def scan (key : α → β) (eligible : α → Bool) (best : α) (l : List α) : α :=
  l.foldl (fun best c => if eligible c && decide (key best < key c) then c else best) best

variable (key : α → β) (eligible : α → Bool)

theorem scan_cons (best c : α) (l : List α) :
    scan key eligible best (c :: l) =
      scan key eligible (if eligible c && decide (key best < key c) then c else best) l := rfl

/-- **The scan** ends with the element it started from or with an eligible one of a greater
key, and no eligible one has a key greater than that. -/
theorem scan_spec (best : α) (l : List α) :
    (scan key eligible best l = best ∨
        scan key eligible best l ∈ l ∧ eligible (scan key eligible best l) = true ∧
          key best < key (scan key eligible best l)) ∧
      key best ≤ key (scan key eligible best l) ∧
      ∀ c ∈ l, eligible c = true → key c ≤ key (scan key eligible best l) := by
  induction l generalizing best with
  | nil => exact ⟨.inl rfl, le_refl _, fun c hc => by cases hc⟩
  | cons c l ih =>
    rw [scan_cons]
    by_cases hBetter : (eligible c && decide (key best < key c)) = true
    · obtain ⟨hEligible, hLess⟩ : eligible c = true ∧ key best < key c := by simpa using hBetter
      rw [if_pos hBetter]
      obtain ⟨hFrom, hStart, hAll⟩ := ih c
      refine ⟨.inr ?_, le_trans (le_of_lt hLess) hStart, ?_⟩
      · rcases hFrom with hSame | ⟨hMem, hCounts, hGreater⟩
        · rw [hSame]
          exact ⟨List.mem_cons_self, hEligible, hLess⟩
        · exact ⟨List.mem_cons_of_mem c hMem, hCounts, lt_trans hLess hGreater⟩
      · intro d hd hCounts
        rcases List.mem_cons.mp hd with rfl | hd
        · exact hStart
        · exact hAll d hd hCounts
    · rw [if_neg hBetter]
      obtain ⟨hFrom, hStart, hAll⟩ := ih best
      refine ⟨hFrom.imp id fun ⟨hMem, hRest⟩ => ⟨List.mem_cons_of_mem c hMem, hRest⟩, hStart, ?_⟩
      intro d hd hCounts
      rcases List.mem_cons.mp hd with rfl | hd
      · have hNotLess : ¬ key best < key d := fun hLess => hBetter (by simp [hCounts, hLess])
        exact le_trans (le_of_not_gt hNotLess) hStart
      · exact hAll d hd hCounts

end FirstGreatest
