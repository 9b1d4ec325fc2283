import Mathlib

/-!
# Checksums with end-around borrow

A running value of one digit is widened to two, numbers are subtracted from it
with a borrow that takes one off twice, and the two digits are folded into one
again. Modulo the largest digit this is subtraction, so the result depends on
how the numbers were grouped in one respect only: `0` and the largest digit
stand for the same residue, and grouping decides which of them comes out.

A digit is a number below the base `B`; a word is a number below `B * B`.

Main results:

* `represents_digest` — what the running value says about the sum of all numbers
  subtracted since the largest digit;
* `Represents.unique` — it determines the digit, unless the sum is a multiple of
  the largest digit beyond it;
* `digest_eq_zero`, `digest_ne_zero` — there the last group decides.
-/

namespace EndAround

variable {B : Nat}

/-- Subtraction in a word, with the borrow taken off too. -/
def subBorrow (B c v : Nat) : Nat := if c < v then c + B * B - (v + 1) else c - v

/-- A word as the sum of its digits. -/
def fold (B c : Nat) : Nat := c % B + c / B

/-- Subtract numbers from a digit and fold the word twice. -/
def digest (B c : Nat) (vs : List Nat) : Nat := fold B (fold B (vs.foldl (subBorrow B) c))

/-- The digit `v` is the largest one less `s`, as far as a digit can say. -/
structure Represents (B v s : Nat) : Prop where
  digit : v < B
  residue : v + s ≡ 0 [MOD B - 1]
  exact : s ≤ B - 1 → v + s = B - 1

theorem subBorrow_lt {c v : Nat} (hc : c < B * B) : subBorrow B c v < B * B := by
  unfold subBorrow
  split <;> omega

/-- The borrow is a multiple of the largest digit. -/
theorem subBorrow_modEq {c v : Nat} (hB : 0 < B) (hv : v < B) :
    subBorrow B c v + v ≡ c [MOD B - 1] := by
  have hsq : B ≤ B * B := Nat.le_mul_of_pos_left B hB
  unfold subBorrow
  split
  · have hsum : c + B * B - (v + 1) + v = c + (B * B - 1) := by omega
    have hfactor : B * B - 1 = (B - 1) * (B + 1) := by
      obtain ⟨b, rfl⟩ : ∃ b, B = b + 1 := ⟨B - 1, by omega⟩
      have : (b + 1) * (b + 1) = b * (b + 1 + 1) + 1 := by ring
      simp only [Nat.add_sub_cancel]
      omega
    rw [hsum, hfactor]
    simp [Nat.ModEq]
  · rw [Nat.sub_add_cancel (by omega)]

theorem foldl_subBorrow {vs : List Nat} {c : Nat} (hB : 0 < B) (hc : c < B * B)
    (hvs : ∀ v ∈ vs, v < B) :
    vs.foldl (subBorrow B) c < B * B ∧
      vs.foldl (subBorrow B) c + vs.sum ≡ c [MOD B - 1] ∧
      (vs.sum ≤ c → vs.foldl (subBorrow B) c + vs.sum = c) := by
  induction vs generalizing c with
  | nil => exact ⟨hc, Nat.ModEq.refl _, fun _ => rfl⟩
  | cons v vs ih =>
    obtain ⟨hlt, hmod, hexact⟩ := ih (subBorrow_lt (v := v) hc) fun w hw =>
      hvs w (List.mem_cons_of_mem _ hw)
    rw [List.foldl_cons, List.sum_cons]
    refine ⟨hlt, ?_, fun hle => ?_⟩
    · have hstep := subBorrow_modEq (c := c) hB (hvs v List.mem_cons_self)
      have hall := hmod.add_right v
      rw [show vs.foldl (subBorrow B) (subBorrow B c v) + (v + vs.sum) =
        vs.foldl (subBorrow B) (subBorrow B c v) + vs.sum + v by omega]
      exact hall.trans hstep
    · have hsub : subBorrow B c v = c - v := if_neg (by omega)
      have := hexact (by omega)
      omega

theorem fold_modEq (hB : 0 < B) (c : Nat) : fold B c ≡ c [MOD B - 1] := by
  have hdigit : B ≡ 1 [MOD B - 1] := by
    have hsub : B - 1 + 1 ≡ 0 + 1 [MOD B - 1] := Nat.ModEq.add_right 1 (by simp [Nat.ModEq])
    rwa [Nat.sub_add_cancel hB, Nat.zero_add] at hsub
  have hmul := (hdigit.symm.mul_right (c / B)).add_left (c % B)
  rwa [Nat.one_mul, Nat.mod_add_div] at hmul

theorem fold_of_lt {c : Nat} (hc : c < B) : fold B c = c := by
  rw [fold, Nat.mod_eq_of_lt hc, Nat.div_eq_of_lt hc, Nat.add_zero]

/-- Two folds make a digit of a word. -/
theorem fold_fold_lt {c : Nat} (hB : 1 < B) (hc : c < B * B) : fold B (fold B c) < B := by
  have hlow : c % B < B := Nat.mod_lt _ (by omega)
  have hhigh : c / B < B := Nat.div_lt_of_lt_mul hc
  have hsum : fold B c < 2 * B - 1 := by
    unfold fold
    omega
  by_cases hone : fold B c < B
  · rw [fold_of_lt hone]
    exact hone
  · have hdiv : fold B c / B = 1 := Nat.div_eq_of_lt_le (by omega) (by omega)
    have hmod : fold B c % B = fold B c - B := by
      have := Nat.div_add_mod (fold B c) B
      rw [hdiv] at this
      omega
    rw [fold, hdiv, hmod]
    omega

/-- What has been subtracted to leave a digit. -/
theorem represents_digit {v : Nat} (hv : v < B) : Represents B v (B - 1 - v) := by
  have hSum : v + (B - 1 - v) = B - 1 := by omega
  exact ⟨hv, by rw [hSum]; simp [Nat.ModEq], fun _ => hSum⟩

/-- Nothing has been subtracted from the largest digit. -/
theorem represents_zero (hB : 0 < B) : Represents B (B - 1) 0 :=
  ⟨by omega, by simp [Nat.ModEq], fun _ => rfl⟩

theorem digest_nil {v : Nat} (hv : v < B) : digest B v [] = v := by
  rw [digest, List.foldl_nil, fold_of_lt hv, fold_of_lt hv]

/-- **More numbers, in one group.** -/
theorem represents_digest {v s : Nat} {vs : List Nat} (hB : 1 < B) (h : Represents B v s)
    (hvs : ∀ w ∈ vs, w < B) : Represents B (digest B v vs) (s + vs.sum) := by
  have hword : v < B * B := lt_of_lt_of_le h.digit (Nat.le_mul_of_pos_left B (by omega))
  obtain ⟨hlt, hmod, hexact⟩ := foldl_subBorrow (by omega) hword hvs
  refine ⟨fold_fold_lt hB hlt, ?_, fun hle => ?_⟩
  · have hfold : digest B v vs ≡ vs.foldl (subBorrow B) v [MOD B - 1] :=
      (fold_modEq (by omega) _).trans (fold_modEq (by omega) _)
    have hsum := (hfold.add_right vs.sum).trans hmod
    have hall := (hsum.add_right s).trans h.residue
    rwa [show digest B v vs + (s + vs.sum) = digest B v vs + vs.sum + s by omega]
  · have hv := h.exact (by omega)
    have hrest := hexact (by omega)
    have hdigit : vs.foldl (subBorrow B) v < B := by omega
    rw [digest, fold_of_lt hdigit, fold_of_lt hdigit]
    omega

/-- **One digit, unless the sum is a multiple of the largest digit beyond it.** -/
theorem Represents.unique {v w s : Nat} (hv : Represents B v s) (hw : Represents B w s)
    (hs : ¬ (B - 1 ∣ s ∧ B - 1 < s)) : v = w := by
  by_cases hle : s ≤ B - 1
  · have := hv.exact hle
    have := hw.exact hle
    omega
  · have hmod : v ≡ w [MOD B - 1] :=
      Nat.ModEq.add_right_cancel' s (hv.residue.trans hw.residue.symm)
    -- a digit other than the largest is its own residue, and no residue is 0
    have hsmall : ∀ {u : Nat}, Represents B u s → u < B - 1 := by
      intro u hu
      by_contra hge
      have hmax : u = B - 1 := by
        have := hu.digit
        omega
      refine hs ⟨?_, by omega⟩
      have hres := hu.residue
      rw [hmax] at hres
      simpa [Nat.ModEq, Nat.dvd_iff_mod_eq_zero] using hres
    exact hmod.eq_of_lt_of_lt (hsmall hv) (hsmall hw)

/-! ## Which of the two digits comes out -/

/-- Numbers that take all of the digit. -/
theorem digest_eq_zero {v : Nat} {vs : List Nat} (hB : 0 < B) (hv : v < B)
    (hvs : ∀ w ∈ vs, w < B) (hSum : vs.sum = v) : digest B v vs = 0 := by
  have hword : v < B * B := lt_of_lt_of_le hv (Nat.le_mul_of_pos_left B hB)
  have hexact := (foldl_subBorrow hB hword hvs).2.2 (le_of_eq hSum)
  have hzero : vs.foldl (subBorrow B) v = 0 := by omega
  rw [digest, hzero, fold_of_lt hB, fold_of_lt hB]

theorem fold_ne_zero {c : Nat} (hc : c ≠ 0) : fold B c ≠ 0 := by
  intro hzero
  obtain ⟨hlow, hhigh⟩ := Nat.add_eq_zero_iff.mp hzero
  have hsplit := Nat.mod_add_div c B
  rw [hlow, hhigh] at hsplit
  exact hc hsplit.symm

/-- A borrow is the largest word. -/
theorem foldl_subBorrow_modEq_word {vs : List Nat} {c : Nat} (hB : 0 < B)
    (hvs : ∀ v ∈ vs, v < B) :
    vs.foldl (subBorrow B) c + vs.sum ≡ c [MOD B * B - 1] := by
  induction vs generalizing c with
  | nil => exact Nat.ModEq.refl _
  | cons v vs ih =>
    have hrest := (ih (c := subBorrow B c v) fun w hw =>
      hvs w (List.mem_cons_of_mem _ hw)).add_right v
    have hsq : B ≤ B * B := Nat.le_mul_of_pos_left B hB
    have hlt := hvs v List.mem_cons_self
    have hstep : subBorrow B c v + v ≡ c [MOD B * B - 1] := by
      unfold subBorrow
      split
      · rw [show c + B * B - (v + 1) + v = c + (B * B - 1) by omega]
        simp [Nat.ModEq]
      · rw [Nat.sub_add_cancel (by omega)]
    rw [List.foldl_cons, List.sum_cons, Nat.add_comm v, ← Nat.add_assoc]
    exact hrest.trans hstep

/-- Numbers that take more than the digit, but less than a word. -/
theorem digest_ne_zero {v : Nat} {vs : List Nat} (hB : 0 < B) (hvs : ∀ w ∈ vs, w < B)
    (hMore : v < vs.sum) (hLess : vs.sum < v + (B * B - 1)) : digest B v vs ≠ 0 := by
  refine fold_ne_zero (fold_ne_zero fun hzero => ?_)
  have hmod := foldl_subBorrow_modEq_word (c := v) hB hvs
  rw [hzero, Nat.zero_add] at hmod
  have hdvd := (Nat.modEq_iff_dvd' (le_of_lt hMore)).mp hmod.symm
  have hle := Nat.le_of_dvd (by omega) hdvd
  omega

end EndAround
