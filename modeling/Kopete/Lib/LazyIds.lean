import Mathlib

/-!
# Ids made when they are first asked for

Who has no id, which is to have the id 0, gets the next number of a counter when it is
asked for its id. The counter is a machine word and may wrap around.

Main results:

* `distinctOn_ask` — where the counter is past all ids, asking keeps distinct ids
  distinct, and no others;
* `Later.trans` — what holds after any number of questions;
* `budget_ask` — the counter and those still without an id add up to the same.
-/

/-- Ids by key, 0 where there is none yet, and the last one made. -/
@[ext] structure LazyIds (κ : Type*) where
  id : κ → Nat
  counter : Nat

namespace LazyIds

variable {κ : Type*} (s : LazyIds κ)

/-- No two keys among `K` have the same id. -/
def DistinctOn (K : Set κ) : Prop := Set.InjOn s.id {k ∈ K | s.id k ≠ 0}

/-- The counter is past all ids. -/
def Bounded : Prop := ∀ k, s.id k ≤ s.counter

/-- What may have become of ids by asking for some. -/
structure Later (s s' : LazyIds κ) : Prop where
  kept : ∀ k, s.id k ≠ 0 → s'.id k = s.id k
  bounded : s.Bounded → s'.Bounded
  distinct : s.Bounded → ∀ K, s'.DistinctOn K ↔ s.DistinctOn K

theorem Later.refl : Later s s := ⟨fun _ _ => rfl, fun h => h, fun _ _ => Iff.rfl⟩

/-- **One after the other.** -/
theorem Later.trans {s s' s'' : LazyIds κ} (h : Later s s') (h' : Later s' s'') :
    Later s s'' := by
  refine ⟨?_, ?_, ?_⟩
  · intro k hk
    rw [h'.kept k (by rwa [h.kept k hk]), h.kept k hk]
  · intro hBounded
    exact h'.bounded (h.bounded hBounded)
  · intro hBounded K
    exact (h'.distinct (h.bounded hBounded) K).trans (h.distinct hBounded K)

theorem DistinctOn.congr {s : LazyIds κ} {K K' : Set κ} (h : ∀ k, s.id k ≠ 0 → (k ∈ K ↔ k ∈ K')) :
    s.DistinctOn K ↔ s.DistinctOn K' := by
  have hSets : {k ∈ K | s.id k ≠ 0} = {k ∈ K' | s.id k ≠ 0} := by
    ext k
    exact and_congr_left (h k)
  unfold DistinctOn
  rw [hSets]

/-- **Distinct ids of a list.** -/
theorem distinctOn_list {s : LazyIds κ} {ks : List κ} (h : ks.Nodup) :
    s.DistinctOn {k | k ∈ ks} ↔ ((ks.map s.id).filter (· ≠ 0)).Nodup := by
  rw [List.filter_map, List.nodup_map_iff_inj_on (h.filter _)]
  have hMem : ∀ k, k ∈ ks.filter ((fun n => decide (n ≠ 0)) ∘ s.id) ↔ k ∈ ks ∧ s.id k ≠ 0 := by
    intro k
    rw [List.mem_filter, Function.comp_apply, decide_eq_true_iff]
  constructor
  · intro hInj k hk k' hk' hSame
    exact hInj ((hMem k).1 hk) ((hMem k').1 hk') hSame
  · intro hInj k hk k' hk' hSame
    exact hInj k ((hMem k).2 hk) k' ((hMem k').2 hk') hSame

/-! ## Room for an id -/

/-- Asking for the id of `k` does not make the counter wrap. -/
def Room (size : Nat) (k : κ) : Prop := s.id k = 0 → s.counter + 1 < size

/-- The counter, once all keys of a list have been asked for their ids. -/
def budget (ks : List κ) : Nat := s.counter + ks.countP fun k => s.id k = 0

theorem room_of_budget {s : LazyIds κ} {size : Nat} {k : κ} {ks : List κ} (hk : k ∈ ks)
    (hBudget : s.budget ks < size) : s.Room size k := by
  intro hNone
  have hCount : 0 < ks.countP fun k => s.id k = 0 :=
    List.countP_pos_iff.2 ⟨k, hk, decide_eq_true hNone⟩
  unfold budget at hBudget
  omega

/-! ## A question -/

variable [DecidableEq κ] (size : Nat) (k : κ)

/-- The id of `k`, which is made when there is none. -/
def ask : Nat × LazyIds κ :=
  if s.id k = 0 then
    ((s.counter + 1) % size, ⟨Function.update s.id k ((s.counter + 1) % size),
      (s.counter + 1) % size⟩)
  else (s.id k, s)

variable {s size k}

theorem ask_of_id (h : s.id k ≠ 0) : s.ask size k = (s.id k, s) := if_neg h

theorem ask_of_room (h : s.id k = 0) (hRoom : s.Room size k) :
    s.ask size k = (s.counter + 1, ⟨Function.update s.id k (s.counter + 1), s.counter + 1⟩) := by
  unfold ask
  rw [if_pos h, Nat.mod_eq_of_lt (hRoom h)]

/-- **What asking does**, with room for an id. -/
theorem ask_cases (hRoom : s.Room size k) :
    (s.id k ≠ 0 ∧ s.ask size k = (s.id k, s)) ∨
      (s.id k = 0 ∧ s.ask size k =
        (s.counter + 1, ⟨Function.update s.id k (s.counter + 1), s.counter + 1⟩)) := by
  by_cases h : s.id k = 0
  · exact Or.inr ⟨h, ask_of_room h hRoom⟩
  · exact Or.inl ⟨h, ask_of_id h⟩

/-- The answer is the id from then on. -/
theorem id_ask : (s.ask size k).2.id k = (s.ask size k).1 := by
  unfold ask
  split <;> simp

theorem ask_ne_zero (hRoom : s.Room size k) : (s.ask size k).1 ≠ 0 := by
  rcases ask_cases hRoom with ⟨h, hAsk⟩ | ⟨-, hAsk⟩
  · rw [hAsk]
    exact h
  · rw [hAsk]
    exact Nat.succ_ne_zero _

theorem id_ask_of_ne {k' : κ} (h : k' ≠ k) : (s.ask size k).2.id k' = s.id k' := by
  unfold ask
  split
  · exact Function.update_of_ne h _ _
  · rfl

theorem bounded_ask (hRoom : s.Room size k) (hBounded : s.Bounded) :
    (s.ask size k).2.Bounded := by
  rcases ask_cases hRoom with ⟨-, hAsk⟩ | ⟨-, hAsk⟩
  · rw [hAsk]
    exact hBounded
  · rw [hAsk]
    intro k'
    simp only [Function.update_apply]
    split
    · exact le_rfl
    · exact (hBounded k').trans (Nat.le_succ _)

/-- **Distinct ids.** A new id is past all others. -/
theorem distinctOn_ask (hRoom : s.Room size k) (hBounded : s.Bounded) (K : Set κ) :
    (s.ask size k).2.DistinctOn K ↔ s.DistinctOn K := by
  rcases ask_cases hRoom with ⟨-, hAsk⟩ | ⟨hNone, hAsk⟩
  · rw [hAsk]
  · rw [hAsk]
    have hOther : ∀ k', k' ≠ k → Function.update s.id k (s.counter + 1) k' = s.id k' :=
      fun k' h => Function.update_of_ne h _ _
    have hHere : Function.update s.id k (s.counter + 1) k = s.counter + 1 :=
      Function.update_self ..
    have hNew : ∀ k', Function.update s.id k (s.counter + 1) k' = s.counter + 1 → k' = k := by
      intro k' hSame
      by_contra hNot
      rw [hOther k' hNot] at hSame
      have := hBounded k'
      omega
    constructor
    · intro h k₁ ⟨hK₁, h₁⟩ k₂ ⟨hK₂, h₂⟩ hSame
      have hNe₁ : k₁ ≠ k := fun hEq => h₁ (hEq ▸ hNone)
      have hNe₂ : k₂ ≠ k := fun hEq => h₂ (hEq ▸ hNone)
      have hId₁ := hOther k₁ hNe₁
      have hId₂ := hOther k₂ hNe₂
      exact h ⟨hK₁, fun hZero => h₁ (hId₁.symm.trans hZero)⟩
        ⟨hK₂, fun hZero => h₂ (hId₂.symm.trans hZero)⟩ (hId₁.trans (hSame.trans hId₂.symm))
    · intro h k₁ ⟨hK₁, h₁⟩ k₂ ⟨hK₂, h₂⟩ hSame
      simp only at h₁ h₂ hSame
      by_cases hEq₁ : k₁ = k
      · rw [hEq₁, hHere] at hSame
        rw [hEq₁, hNew k₂ hSame.symm]
      · by_cases hEq₂ : k₂ = k
        · rw [hEq₂, hHere] at hSame
          exact absurd (hNew k₁ hSame) hEq₁
        · rw [hOther k₁ hEq₁] at h₁ hSame
          rw [hOther k₂ hEq₂] at h₂ hSame
          exact h ⟨hK₁, h₁⟩ ⟨hK₂, h₂⟩ hSame

theorem later_ask (hRoom : s.Room size k) : Later s (s.ask size k).2 := by
  refine ⟨?_, bounded_ask hRoom, distinctOn_ask hRoom⟩
  intro k' hk'
  by_cases hSame : k' = k
  · rw [hSame] at hk' ⊢
    rw [ask_of_id hk']
  · exact id_ask_of_ne hSame

/-- **The budget** is the same afterwards. -/
theorem budget_ask {ks : List κ} (hNodup : ks.Nodup) (hk : k ∈ ks) (hRoom : s.Room size k) :
    (s.ask size k).2.budget ks = s.budget ks := by
  rcases ask_cases hRoom with ⟨-, hAsk⟩ | ⟨hNone, hAsk⟩
  · rw [hAsk]
  · rw [hAsk]
    unfold budget
    simp only [List.countP_eq_length_filter]
    have hErase : (ks.filter fun k' => Function.update s.id k (s.counter + 1) k' = 0) =
        (ks.filter fun k' => s.id k' = 0).erase k := by
      rw [(hNodup.filter _).erase_eq_filter, List.filter_filter]
      refine List.filter_congr ?_
      intro k' _
      by_cases hSame : k' = k
      · simp [hSame]
      · simp [hSame]
    have hMem : k ∈ ks.filter fun k' => s.id k' = 0 :=
      List.mem_filter.2 ⟨hk, decide_eq_true hNone⟩
    have hPos := List.length_pos_of_mem hMem
    rw [hErase, List.length_erase_of_mem hMem]
    omega

end LazyIds
