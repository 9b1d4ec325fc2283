import Mathlib

/-!
# Incremental framing of a byte stream

A receiver that cuts messages out of a stream keeps the bytes it could not
use yet and tries again when more arrive. Whether the messages depend on how
the stream was cut into chunks is decided by two properties of its framing
function:

* `progress` — a message uses at least one byte, and only bytes that are there;
* `stable` — once a message is recognised, later bytes do not change it.

A `Framer` carries both. `drain` takes every complete message off the front of
a buffer.

Main results:

* `drain_append` — draining a concatenation is draining one part after the other;
* `mem_starts_append` — a place where a message starts in a received prefix is
  a place where a message starts in the whole stream.
-/

namespace Framing

/-- A framing function: the first message of a buffer and the number of items
it takes, or `none` while the buffer holds no complete message. -/
structure Framer (β μ : Type*) where
  next : List β → Option (μ × Nat)
  progress : ∀ {w m n}, next w = some (m, n) → 0 < n ∧ n ≤ w.length
  stable : ∀ {w m n} (x : List β), next w = some (m, n) → next (w ++ x) = some (m, n)

namespace Framer

variable {β μ : Type*} (F : Framer β μ)

theorem drop_lt {w : List β} {m : μ} {n : Nat} (h : F.next w = some (m, n)) :
    (w.drop n).length < w.length := by
  have := F.progress h
  rw [List.length_drop]
  omega

/-- The complete messages at the front of a buffer, and what is left of it. -/
def drain (w : List β) : List μ × List β :=
  match _h : F.next w with
  | none => ([], w)
  | some (m, n) =>
    let r := drain (w.drop n)
    (m :: r.1, r.2)
termination_by w.length
decreasing_by exact F.drop_lt _h

/-- The buffers `drain` looks at: the suffixes of `w` at which a message
starts or could start. -/
def starts (w : List β) : List (List β) :=
  match _h : F.next w with
  | none => [w]
  | some (_, n) => w :: starts (w.drop n)
termination_by w.length
decreasing_by exact F.drop_lt _h

theorem drain_none {w : List β} (h : F.next w = none) : F.drain w = ([], w) := by
  rw [drain]
  split
  · rfl
  · next h' => rw [h] at h'; cases h'

theorem drain_some {w : List β} {m : μ} {n : Nat} (h : F.next w = some (m, n)) :
    F.drain w = (m :: (F.drain (w.drop n)).1, (F.drain (w.drop n)).2) := by
  rw [drain]
  split
  · next h' => rw [h] at h'; cases h'
  · next h' => rw [h] at h'; cases h'; rfl

theorem starts_none {w : List β} (h : F.next w = none) : F.starts w = [w] := by
  rw [starts]
  split
  · rfl
  · next h' => rw [h] at h'; cases h'

theorem starts_some {w : List β} {m : μ} {n : Nat} (h : F.next w = some (m, n)) :
    F.starts w = w :: F.starts (w.drop n) := by
  rw [starts]
  split
  · next h' => rw [h] at h'; cases h'
  · next h' => rw [h] at h'; cases h'; rfl

/-- Induction along the messages of a buffer. -/
theorem drain_induction {P : List β → Prop}
    (hNone : ∀ w, F.next w = none → P w)
    (hSome : ∀ w m n, F.next w = some (m, n) → P (w.drop n) → P w) (w : List β) : P w := by
  induction hn : w.length using Nat.strongRecOn generalizing w with
  | ind k ih =>
    cases h : F.next w with
    | none => exact hNone w h
    | some p =>
      obtain ⟨m, n⟩ := p
      exact hSome w m n h (ih _ (hn ▸ F.drop_lt h) _ rfl)

/-- Draining a concatenation drains the first part, then continues with what
it left. -/
theorem drain_append (w x : List β) :
    F.drain (w ++ x) =
      ((F.drain w).1 ++ (F.drain ((F.drain w).2 ++ x)).1, (F.drain ((F.drain w).2 ++ x)).2) := by
  induction w using F.drain_induction with
  | hNone w h => rw [F.drain_none h, List.nil_append]
  | hSome w m n h ih =>
    have hle := (F.progress h).2
    have hdrop : (w ++ x).drop n = w.drop n ++ x := List.drop_append_of_le_length hle
    rw [F.drain_some (F.stable x h), hdrop, ih, F.drain_some h, List.cons_append]

/-- A framer cannot take a message off the empty buffer. -/
theorem next_nil : F.next [] = none := by
  cases h : F.next [] with
  | none => rfl
  | some p =>
    have := F.progress h
    rw [List.length_nil] at this
    omega

/-! ## Where messages start -/

theorem mem_starts_self (w : List β) : w ∈ F.starts w := by
  cases h : F.next w with
  | none => rw [F.starts_none h]; exact List.mem_singleton_self w
  | some p => obtain ⟨m, n⟩ := p; rw [F.starts_some h]; exact List.mem_cons_self ..

theorem mem_starts_drop {w u : List β} {m : μ} {n : Nat} (h : F.next w = some (m, n))
    (hu : u ∈ F.starts (w.drop n)) : u ∈ F.starts w := by
  rw [F.starts_some h]
  exact List.mem_cons_of_mem _ hu

/-- A message start of a received prefix is a message start of the stream. -/
theorem mem_starts_append {w u : List β} (x : List β) (hu : u ∈ F.starts w) :
    u ++ x ∈ F.starts (w ++ x) := by
  induction w using F.drain_induction with
  | hNone w h =>
    rw [F.starts_none h, List.mem_singleton] at hu
    rw [hu]
    exact F.mem_starts_self _
  | hSome w m n h ih =>
    have hdrop : (w ++ x).drop n = w.drop n ++ x :=
      List.drop_append_of_le_length (F.progress h).2
    rw [F.starts_some h, List.mem_cons] at hu
    rcases hu with rfl | hu
    · exact F.mem_starts_self _
    · refine F.mem_starts_drop (F.stable x h) ?_
      rw [hdrop]
      exact ih hu

/-- The message starts after a part of the stream has been drained are message
starts of the whole stream. -/
theorem mem_starts_drain_rest {w x u : List β} (hu : u ∈ F.starts ((F.drain w).2 ++ x)) :
    u ∈ F.starts (w ++ x) := by
  induction w using F.drain_induction with
  | hNone w h => rwa [F.drain_none h] at hu
  | hSome w m n h ih =>
    have hdrop : (w ++ x).drop n = w.drop n ++ x :=
      List.drop_append_of_le_length (F.progress h).2
    rw [F.drain_some h] at hu
    refine F.mem_starts_drop (F.stable x h) ?_
    rw [hdrop]
    exact ih hu

end Framer

end Framing
