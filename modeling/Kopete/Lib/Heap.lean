import Mathlib

/-!
# Objects by identity

Objects that are made and deleted one at a time. An identity is given out once only, so
that a pointer left behind is told from one to a later object at the same address.

Main results:

* `get?_new_of_live` — making an object leaves the others as they are;
* `get?_delete_ne`, `get?_modify_ne` — so do deleting and changing another one.
-/

/-- The objects there are; `next` is past every identity given out. -/
structure Heap (α : Type*) where
  get? : ℕ → Option α
  next : ℕ
  fresh : ∀ p, next ≤ p → get? p = none

namespace Heap

variable {α : Type*} (h : Heap α)

def empty : Heap α := ⟨fun _ => none, 0, fun _ _ => rfl⟩

/-- The object has been made and not been deleted. -/
def Live (p : ℕ) : Prop := (h.get? p).isSome

instance (p : ℕ) : Decidable (h.Live p) := inferInstanceAs (Decidable ((h.get? p).isSome = true))

/-- `new`: the heap with the object, which is `h.next`. -/
def new (a : α) : Heap α where
  get? := fun p => if p = h.next then some a else h.get? p
  next := h.next + 1
  fresh := by
    intro p hp
    rw [if_neg (by omega), h.fresh p (by omega)]

/-- `delete`. -/
def delete (p : ℕ) : Heap α where
  get? := fun q => if q = p then none else h.get? q
  next := h.next
  fresh := by
    intro q hq
    split
    · rfl
    · exact h.fresh q hq

/-- A member function that changes the object. -/
def modify (p : ℕ) (f : α → α) : Heap α where
  get? := fun q => if q = p then (h.get? q).map f else h.get? q
  next := h.next
  fresh := by
    intro q hq
    rw [h.fresh q hq]
    simp

variable {h}

theorem Live.lt_next {p : ℕ} (hp : h.Live p) : p < h.next := by
  refine Nat.lt_of_not_le fun hNot => ?_
  rw [Live, h.fresh p hNot] at hp
  exact Bool.false_ne_true hp

theorem Live.ne_next {p : ℕ} (hp : h.Live p) : p ≠ h.next :=
  Nat.ne_of_lt hp.lt_next

@[simp] theorem next_new (a : α) : (h.new a).next = h.next + 1 := rfl

theorem get?_new (a : α) (p : ℕ) : (h.new a).get? p = if p = h.next then some a else h.get? p := rfl

@[simp] theorem get?_new_self (a : α) : (h.new a).get? h.next = some a := if_pos rfl

theorem get?_new_of_live (a : α) {p : ℕ} (hp : h.Live p) : (h.new a).get? p = h.get? p :=
  if_neg hp.ne_next

@[simp] theorem get?_delete_self (p : ℕ) : (h.delete p).get? p = none := if_pos rfl

@[simp] theorem get?_delete_ne {p q : ℕ} (hq : q ≠ p) : (h.delete p).get? q = h.get? q :=
  if_neg hq

@[simp] theorem get?_modify_self (p : ℕ) (f : α → α) :
    (h.modify p f).get? p = (h.get? p).map f := if_pos rfl

@[simp] theorem get?_modify_ne {p q : ℕ} (f : α → α) (hq : q ≠ p) :
    (h.modify p f).get? q = h.get? q := if_neg hq

theorem live_new_self (a : α) : (h.new a).Live h.next := by
  rw [Live, get?_new_self]
  rfl

theorem Live.new {p : ℕ} (hp : h.Live p) (a : α) : (h.new a).Live p := by
  rw [Live, get?_new_of_live a hp]
  exact hp

theorem Live.modify {p : ℕ} (hp : h.Live p) (q : ℕ) (f : α → α) : (h.modify q f).Live p := by
  by_cases hq : p = q
  · subst hq
    rw [Live, get?_modify_self, Option.isSome_map]
    exact hp
  · rw [Live, get?_modify_ne f hq]
    exact hp

end Heap
