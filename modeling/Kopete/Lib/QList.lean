import Mathlib

/-!
# Lists as sets of pointers

Lists that are appended to, searched and emptied of a value: what a program does
that keeps a set in a list. The set stays one as long as nothing is appended that is
on the list.

Main results:

* `mem_removeAll`, `nodup_removeAll` — taking a value off;
* `nodup_append_iff` — when appending one keeps the list free of repetitions.
-/

namespace QList

variable {α : Type*} [DecidableEq α]

/-- `QList::removeAll`. -/
def removeAll (l : List α) (a : α) : List α := l.filter (· ≠ a)

@[simp] theorem mem_removeAll {l : List α} {a b : α} : b ∈ removeAll l a ↔ b ∈ l ∧ b ≠ a := by
  simp [removeAll]

theorem nodup_removeAll {l : List α} (h : l.Nodup) (a : α) : (removeAll l a).Nodup := h.filter _

theorem removeAll_of_not_mem {l : List α} {a : α} (h : a ∉ l) : removeAll l a = l := by
  rw [removeAll, List.filter_eq_self]
  exact fun b hb => decide_eq_true fun hSame => h (hSame ▸ hb)

theorem removeAll_cons_self (a : α) (l : List α) : removeAll (a :: l) a = removeAll l a := by
  simp [removeAll]

theorem removeAll_eq_nil_iff {l : List α} (h : l.Nodup) {a : α} :
    removeAll l a = [] ↔ l = [] ∨ l = [a] := by
  rw [removeAll, List.filter_eq_nil_iff]
  constructor
  · intro hAll
    by_contra hNot
    push Not at hNot
    obtain ⟨b, hb, hNe⟩ := ((h.ne_singleton_iff a).1 hNot.2).resolve_left hNot.1
    exact hAll b hb (decide_eq_true hNe)
  · rintro (rfl | rfl)
    · exact fun b hb => absurd hb List.not_mem_nil
    · exact fun b hb => by simp [List.mem_singleton.1 hb]

omit [DecidableEq α] in
theorem nodup_append_iff {l : List α} {a : α} : (l ++ [a]).Nodup ↔ l.Nodup ∧ a ∉ l := by
  rw [List.nodup_append]
  simp only [List.nodup_singleton, List.mem_singleton, true_and]
  exact and_congr_right fun _ => ⟨fun h ha => h a ha a rfl rfl, fun h b hb c hc => by
    rintro rfl
    exact h (hc ▸ hb)⟩

end QList
