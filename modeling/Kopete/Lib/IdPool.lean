import Mathlib

/-!
# Pools of ids with a cursor

Ids from `lo` up to, and without, `hi` are handed out one by one, always the
lowest free one. The search does not start over at `lo` each time: it starts at
a cursor, which moves up past every id handed out and back down to every id
given back.

`Packed` is what makes the shortcut right: no id below the cursor is free. Every
operation keeps it, whatever ids it is given (`Packed.add`, `Packed.remove`,
`Packed.take`), and under it `take` finds the lowest free id (`take_some`), or
finds that there is none (`take_none`).
-/

/-- The ids in use, and where the next search starts. -/
structure IdPool where
  used : Finset Nat
  next : Nat

namespace IdPool

/-! ## Search -/

/-- The first id from `fromId` below `hi` that is not in use. -/
def firstFree (used : Finset Nat) (fromId hi : Nat) : Option Nat :=
  (List.range' fromId (hi - fromId)).find? fun id => id ∉ used

theorem firstFree_some {used : Finset Nat} {fromId hi id : Nat}
    (h : firstFree used fromId hi = some id) :
    fromId ≤ id ∧ id < hi ∧ id ∉ used ∧ ∀ j, fromId ≤ j → j < id → j ∈ used := by
  obtain ⟨hFree, hRange, hBefore⟩ := List.find?_range'_eq_some.mp h
  rw [List.mem_range'_1] at hRange
  refine ⟨hRange.1, by omega, by simpa using hFree, ?_⟩
  intro j hj hlt
  simpa using hBefore j hj hlt

theorem firstFree_none {used : Finset Nat} {fromId hi : Nat}
    (h : firstFree used fromId hi = none) : ∀ j, fromId ≤ j → j < hi → j ∈ used := by
  intro j hj hlt
  have hUsed := List.find?_eq_none.mp h j (List.mem_range'_1.mpr ⟨hj, by omega⟩)
  simpa using hUsed

/-! ## Operations -/

/-- An id is in use from now on. -/
def add (id : Nat) (p : IdPool) : IdPool := { p with used := insert id p.used }

/-- An id is given back. -/
def remove (id : Nat) (p : IdPool) : IdPool where
  used := p.used.erase id
  next := if p.next > id then id else p.next

/-- The lowest free id is put in use. Without one, the cursor goes to `stop`. -/
def take (lo hi stop : Nat) (p : IdPool) : Option Nat × IdPool :=
  match firstFree p.used (max lo p.next) hi with
  | some id => (some id, ⟨insert id p.used, id + 1⟩)
  | none => (none, ⟨p.used, stop⟩)

/-- The ids of the range that are not in use. -/
def free (lo hi : Nat) (p : IdPool) : Set Nat := {id | lo ≤ id ∧ id < hi ∧ id ∉ p.used}

/-- No id below the cursor is free. -/
def Packed (lo hi : Nat) (p : IdPool) : Prop :=
  ∀ id, lo ≤ id → id < hi → id < p.next → id ∈ p.used

variable {lo hi stop : Nat} {p q : IdPool}

theorem Packed.add (id : Nat) (h : Packed lo hi p) : Packed lo hi (p.add id) := by
  intro j hlo hhi hlt
  exact Finset.mem_insert_of_mem (h j hlo hhi hlt)

theorem Packed.remove (id : Nat) (h : Packed lo hi p) : Packed lo hi (p.remove id) := by
  intro j hlo hhi hlt
  simp only [IdPool.remove] at hlt ⊢
  rw [Finset.mem_erase]
  split at hlt
  · exact ⟨by omega, h j hlo hhi (by omega)⟩
  · exact ⟨by omega, h j hlo hhi hlt⟩

/-- The id handed out is the lowest free one. -/
theorem take_some (h : Packed lo hi p) {id : Nat} (hTake : (p.take lo hi stop).1 = some id) :
    IsLeast (p.free lo hi) id ∧ (p.take lo hi stop).2 = ⟨insert id p.used, id + 1⟩ := by
  unfold take at *
  split at hTake
  · next id' hFirst =>
    obtain rfl : id' = id := Option.some.inj hTake
    obtain ⟨hFrom, hlt, hFree, hBefore⟩ := firstFree_some hFirst
    refine ⟨⟨⟨by omega, hlt, hFree⟩, ?_⟩, rfl⟩
    rintro j ⟨hlo, hhi, hj⟩
    -- a smaller free id would be below the cursor, or in the searched part
    by_contra hLess
    rcases Nat.lt_or_ge j p.next with hCursor | hCursor
    · exact hj (h j hlo hhi hCursor)
    · exact hj (hBefore j (by omega) (by omega))
  · cases hTake

/-- No id is handed out only when none is free. -/
theorem take_none (h : Packed lo hi p) (hTake : (p.take lo hi stop).1 = none) :
    p.free lo hi = ∅ ∧ (p.take lo hi stop).2 = ⟨p.used, stop⟩ := by
  unfold take at *
  split at hTake
  · cases hTake
  · next hFirst =>
    refine ⟨Set.eq_empty_of_forall_notMem ?_, rfl⟩
    rintro j ⟨hlo, hhi, hj⟩
    rcases Nat.lt_or_ge j p.next with hCursor | hCursor
    · exact hj (h j hlo hhi hCursor)
    · exact hj (firstFree_none hFirst j (by omega) hhi)

theorem Packed.take (h : Packed lo hi p) : Packed lo hi (p.take lo hi stop).2 := by
  intro j hlo hhi hlt
  by_contra hFree
  rcases hTake : (p.take lo hi stop).1 with _ | id
  · obtain ⟨hNone, hPool⟩ := take_none h hTake
    rw [hPool] at hFree
    exact Set.notMem_empty j (hNone ▸ ⟨hlo, hhi, hFree⟩)
  · obtain ⟨hLeast, hPool⟩ := take_some h hTake
    rw [hPool] at hFree hlt
    simp only [Finset.mem_insert, not_or] at hFree hlt
    have hle := hLeast.2 ⟨hlo, hhi, hFree.2⟩
    have hne := hFree.1
    omega

end IdPool
