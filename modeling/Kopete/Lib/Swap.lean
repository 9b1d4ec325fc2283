import Mathlib

/-!
# Exchanging two values of a list

Main results:

* `swap_swap`, `map_swap` — exchanging them again, and exchanging values with something more to
  them;
* `swap_eq_self_iff` — when this changes nothing.
-/

namespace QList

variable {α β : Type*}

/-- `QList::swap`. -/
def swap (items : List α) (i j : Nat) : List α :=
  match items[i]?, items[j]? with
  | some a, some b => (items.set i b).set j a
  | _, _ => items

theorem swap_of_getElem? {items : List α} {i j : Nat} {a b : α} (hi : items[i]? = some a)
    (hj : items[j]? = some b) : swap items i j = (items.set i b).set j a := by
  unfold swap
  rw [hi, hj]

/-- What is where after an exchange. -/
theorem getElem?_swap {items : List α} {i j : Nat} {a b : α} (hi : items[i]? = some a)
    (hj : items[j]? = some b) :
    (swap items i j)[i]? = some b ∧ (swap items i j)[j]? = some a := by
  have hiLt := (List.getElem?_eq_some_iff.1 hi).1
  have hjLt := (List.getElem?_eq_some_iff.1 hj).1
  rw [swap_of_getElem? hi hj]
  refine ⟨?_, List.getElem?_set_self (by rwa [List.length_set])⟩
  by_cases hSame : j = i
  · subst hSame
    rw [List.getElem?_set_self (by rwa [List.length_set]), ← hi, hj]
  · rw [List.getElem?_set_ne hSame, List.getElem?_set_self hiLt]

theorem map_swap (f : α → β) (items : List α) (i j : Nat) :
    (swap items i j).map f = swap (items.map f) i j := by
  unfold swap
  rw [List.getElem?_map, List.getElem?_map]
  cases items[i]? with
  | none => rfl
  | some a =>
    cases items[j]? with
    | none => rfl
    | some b => simp only [Option.map_some, List.map_set]

theorem set_of_getElem? {items : List α} {i : Nat} {a : α} (h : items[i]? = some a) :
    items.set i a = items := by
  obtain ⟨hi, rfl⟩ := List.getElem?_eq_some_iff.1 h
  exact List.set_getElem_self hi

/-- Exchanging twice. -/
theorem swap_swap (items : List α) (i j : Nat) : swap (swap items i j) i j = items := by
  cases hi : items[i]? with
  | none =>
    have hSame : swap items i j = items := by
      unfold swap
      rw [hi]
    rw [hSame, hSame]
  | some a =>
    cases hj : items[j]? with
    | none =>
      have hSame : swap items i j = items := by
        unfold swap
        rw [hi, hj]
      rw [hSame, hSame]
    | some b =>
      obtain ⟨hi', hj'⟩ := getElem?_swap hi hj
      rw [swap_of_getElem? hi' hj', swap_of_getElem? hi hj]
      by_cases hSame : i = j
      · subst hSame
        obtain rfl := Option.some.inj (hi.symm.trans hj)
        simp only [set_of_getElem? hi]
      · rw [List.set_comm a b hSame, List.set_set, List.set_comm b a (Ne.symm hSame), List.set_set,
          set_of_getElem? hi, set_of_getElem? hj]

/-- **An exchange changes nothing** exactly where the values are the same. -/
theorem swap_eq_self_iff {items : List α} {i j : Nat} {a b : α} (hi : items[i]? = some a)
    (hj : items[j]? = some b) : swap items i j = items ↔ a = b := by
  constructor
  · intro hSame
    have hFirst := (getElem?_swap hi hj).1
    rw [hSame, hi] at hFirst
    exact Option.some.inj hFirst
  · rintro rfl
    rw [swap_of_getElem? hi hj, set_of_getElem? hi, set_of_getElem? hj]

end QList
