import Mathlib

/-!
# Replacing all occurrences

All occurrences of a pattern in a list are replaced, from the left; they do not overlap,
and what has been put in is not looked at again.

Main results:

* `replaceAll_append`, `replaceAll_cons` — at an occurrence, and where there is none;
* `replaceAll_eq_self_iff` — a replacement by something shorter changes every list in which
  the pattern occurs.
-/

namespace Replace

variable {α : Type*} [DecidableEq α] (pat rep : List α)

/-- Behind an occurrence of which there are still some elements to pass over. -/
def replaceFrom : ℕ → List α → List α
  | _, [] => []
  | n + 1, _ :: s => replaceFrom n s
  | 0, c :: s =>
    if pat.isPrefixOf (c :: s) then rep ++ replaceFrom (pat.length - 1) s
    else c :: replaceFrom 0 s

/-- `QString::replace`, for a pattern that is not empty. -/
def replaceAll (s : List α) : List α := replaceFrom pat rep 0 s

variable {pat rep}

theorem replaceFrom_append (u s : List α) : replaceFrom pat rep u.length (u ++ s) =
    replaceAll pat rep s := by
  induction u with
  | nil => rfl
  | cons c u ih => exact ih

/-- **At an occurrence.** -/
theorem replaceAll_append (hPat : pat ≠ []) (s : List α) :
    replaceAll pat rep (pat ++ s) = rep ++ replaceAll pat rep s := by
  obtain ⟨c, u, rfl⟩ := List.exists_cons_of_ne_nil hPat
  have hHere : (c :: u).isPrefixOf (c :: (u ++ s)) = true :=
    List.isPrefixOf_iff_prefix.2 (List.prefix_append (c :: u) s)
  rw [replaceAll, List.cons_append, replaceFrom, if_pos hHere]
  exact congrArg (rep ++ ·) (replaceFrom_append u s)

/-- **Where there is none.** -/
theorem replaceAll_cons {c : α} {s : List α} (h : ¬ pat <+: c :: s) :
    replaceAll pat rep (c :: s) = c :: replaceAll pat rep s := by
  have hNot : ¬ pat.isPrefixOf (c :: s) = true := by rwa [List.isPrefixOf_iff_prefix]
  rw [replaceAll, replaceFrom, if_neg hNot]
  rfl

/-- Nothing happens where the pattern cannot begin. -/
theorem replaceAll_append_of_not_mem {d : α} {v u : List α} (h : d ∉ u) (s : List α) :
    replaceAll (d :: v) rep (u ++ s) = u ++ replaceAll (d :: v) rep s := by
  induction u with
  | nil => rfl
  | cons c u ih =>
    obtain ⟨hNe, hRest⟩ := not_or.1 (mt List.mem_cons.2 h)
    have hNot : ¬ d :: v <+: c :: (u ++ s) := by
      intro hPrefix
      exact hNe (List.cons_prefix_cons.1 hPrefix).1
    rw [List.cons_append, replaceAll_cons hNot, ih hRest]
    rfl

theorem replaceAll_of_not_infix {s : List α} (h : ¬ pat <:+: s) : replaceAll pat rep s = s := by
  induction s with
  | nil => rfl
  | cons c s ih =>
    have hNot : ¬ pat <+: c :: s := fun hPrefix => h hPrefix.isInfix
    rw [replaceAll_cons hNot, ih fun hInfix => h (hInfix.trans (List.suffix_cons c s).isInfix)]

theorem length_replaceFrom_le (hShort : rep.length < pat.length) (n : ℕ) (s : List α) :
    (replaceFrom pat rep n s).length ≤ s.length - n := by
  induction s generalizing n with
  | nil => simp [replaceFrom]
  | cons c s ih =>
    cases n with
    | succ n =>
      have hRest := ih n
      rw [replaceFrom, List.length_cons]
      omega
    | zero =>
      rw [replaceFrom]
      split
      · next hHere =>
        have hRest := ih (pat.length - 1)
        have hLength := (List.isPrefixOf_iff_prefix.1 hHere).length_le
        rw [List.length_append]
        rw [List.length_cons] at hLength ⊢
        omega
      · have hRest := ih 0
        rw [List.length_cons, List.length_cons]
        omega

theorem length_replaceAll_le (hShort : rep.length < pat.length) (s : List α) :
    (replaceAll pat rep s).length ≤ s.length :=
  length_replaceFrom_le hShort 0 s

/-- An occurrence makes the list shorter. -/
theorem length_replaceAll_lt (hShort : rep.length < pat.length) {s : List α} (h : pat <:+: s) :
    (replaceAll pat rep s).length < s.length := by
  induction s with
  | nil =>
    rw [List.infix_nil.1 h] at hShort
    exact absurd hShort (Nat.not_lt_zero _)
  | cons c s ih =>
    by_cases hHere : pat <+: c :: s
    · obtain ⟨t, ht⟩ := hHere
      have hPat : pat ≠ [] := by
        rintro rfl
        exact Nat.not_lt_zero _ hShort
      have hRest := length_replaceAll_le hShort t
      rw [← ht, replaceAll_append hPat, List.length_append, List.length_append]
      omega
    · have hLater : pat <:+: s := (List.infix_cons_iff.1 h).resolve_left hHere
      rw [replaceAll_cons hHere, List.length_cons, List.length_cons]
      exact Nat.succ_lt_succ (ih hLater)

/-- **A replacement by something shorter** is seen. -/
theorem replaceAll_eq_self_iff (hShort : rep.length < pat.length) {s : List α} :
    replaceAll pat rep s = s ↔ ¬ pat <:+: s := by
  refine ⟨fun hSame hInfix => ?_, replaceAll_of_not_infix⟩
  have hLess := length_replaceAll_lt hShort hInfix
  rw [hSame] at hLess
  exact lt_irrefl _ hLess

end Replace
