import Kopete.Lib.Heap
import Mathlib

/-!
# Objects linked by a pointer

Objects that have each a pointer to the next one. A path is what is met on the way from a
pointer to null; there is at most one, and it is without repetition, since an object has
one successor only.

Main results:

* `Path.unique`, `Path.nodup` — what is linked and comes to an end is not a cycle;
* `Path.link` — one more object behind the last one;
* `Path.free` — the loop that deletes the objects one after the other ends, and deletes
  each of them once.
-/

namespace LinkedList

variable {α : Type*} {next : α → Option ℕ} {h h' : Heap α} {s : Option ℕ}

/-- The objects from a pointer on, up to null. -/
inductive Path (next : α → Option ℕ) (h : Heap α) : Option ℕ → List ℕ → Prop where
  | nil : Path next h none []
  | cons {p : ℕ} {a : α} {ps : List ℕ} (here : h.get? p = some a)
      (rest : Path next h (next a) ps) : Path next h (some p) (p :: ps)

theorem Path.unique {ps qs : List ℕ} (hp : Path next h s ps) (hq : Path next h s qs) :
    ps = qs := by
  induction hp generalizing qs with
  | nil =>
    cases hq
    rfl
  | cons here _ ih =>
    cases hq with
    | cons here' rest' =>
      rw [here] at here'
      cases here'
      rw [ih rest']

/-- From every object on the path there is the rest of it. -/
theorem Path.tail {ps qs : List ℕ} {q : ℕ} (hp : Path next h s (ps ++ q :: qs)) :
    Path next h (some q) (q :: qs) := by
  induction ps generalizing s with
  | nil =>
    cases hp with
    | cons here rest => exact .cons here rest
  | cons p ps ih =>
    cases hp with
    | cons here rest => exact ih rest

/-- **No object is met twice.** -/
theorem Path.nodup {ps : List ℕ} (hp : Path next h s ps) : ps.Nodup := by
  induction hp with
  | nil => exact List.nodup_nil
  | @cons p a ps here rest ih =>
    refine List.nodup_cons.2 ⟨?_, ih⟩
    intro hMem
    -- from the second time on there would be the same again
    obtain ⟨us, vs, hSplit⟩ := List.append_of_mem hMem
    rw [hSplit] at rest
    have hSame : p :: vs = p :: ps := rest.tail.unique (.cons here (hSplit ▸ rest))
    have hLength : vs.length = ps.length := congrArg List.length (List.cons.inj hSame).2
    rw [hSplit, List.length_append, List.length_cons] at hLength
    omega

theorem Path.live {ps : List ℕ} (hp : Path next h s ps) : ∀ p ∈ ps, h.Live p := by
  induction hp with
  | nil => exact fun p hp => absurd hp List.not_mem_nil
  | cons here _ ih =>
    intro q hq
    rcases List.mem_cons.1 hq with rfl | hq
    · exact Option.isSome_iff_exists.2 ⟨_, here⟩
    · exact ih q hq

/-- The path stays where its objects are left as they are. -/
theorem Path.frame {ps : List ℕ} (hp : Path next h s ps)
    (hSame : ∀ p ∈ ps, h'.get? p = h.get? p) : Path next h' s ps := by
  induction hp with
  | nil => exact .nil
  | cons here _ ih =>
    refine .cons ((hSame _ List.mem_cons_self).trans here) (ih fun p hp => ?_)
    exact hSame p (List.mem_cons_of_mem _ hp)

/-- **One more object behind the last one.** -/
theorem Path.link {ps : List ℕ} {c t : ℕ} {b : α} {f : α → α} (hp : Path next h s (ps ++ [c]))
    (hNew : h.get? t = some b) (hLast : next b = none) (hOther : t ∉ ps ++ [c])
    (hSet : ∀ a, next (f a) = some t) : Path next (h.modify c f) s (ps ++ [c] ++ [t]) := by
  have hNe : t ≠ c := by
    rintro rfl
    exact hOther (List.mem_append_right _ (List.mem_singleton_self t))
  have hEnd : Path next (h.modify c f) (some t) [t] := by
    refine .cons ((Heap.get?_modify_ne f hNe).trans hNew) ?_
    rw [hLast]
    exact .nil
  have hNodup := hp.nodup
  induction ps generalizing s with
  | nil =>
    cases hp with
    | @cons _ a _ here _ =>
      refine .cons (a := f a) ?_ ?_
      · rw [Heap.get?_modify_self, here]
        rfl
      · rw [hSet]
        exact hEnd
  | cons p ps ih =>
    cases hp with
    | cons here rest =>
      obtain ⟨hNot, hNodup⟩ := List.nodup_cons.1 hNodup
      have hpc : p ≠ c := by
        rintro rfl
        exact hNot (List.mem_append_right _ (List.mem_singleton_self p))
      refine .cons ((Heap.get?_modify_ne f hpc).trans here) (ih rest ?_ hNodup)
      exact fun hMem => hOther (List.mem_cons_of_mem p hMem)

/-- The loop that deletes an object when it has read where the next one is. The objects it
deletes, in order; `none` where one has been deleted before, or the loop goes on. -/
def free (next : α → Option ℕ) : ℕ → Heap α → Option ℕ → Option (Heap α × List ℕ)
  | _, h, none => some (h, [])
  | 0, _, some _ => none
  | fuel + 1, h, some p =>
    match h.get? p with
    | none => none
    | some a => (free next fuel (h.delete p) (next a)).map fun r => (r.1, p :: r.2)

/-- **The loop ends**, and each object on the path is deleted once. -/
theorem Path.free {ps : List ℕ} (hp : Path next h s ps) {fuel : ℕ} (hFuel : ps.length ≤ fuel) :
    ∃ h', LinkedList.free next fuel h s = some (h', ps) ∧
      ∀ q, h'.get? q = if q ∈ ps then none else h.get? q := by
  induction ps generalizing h s fuel with
  | nil =>
    cases hp
    exact ⟨h, by cases fuel <;> rfl, fun q => (if_neg List.not_mem_nil).symm⟩
  | cons p ps ih =>
    have hNot := (List.nodup_cons.1 hp.nodup).1
    cases hp with
    | @cons _ a _ here rest =>
      cases fuel with
      | zero => exact absurd hFuel (Nat.not_succ_le_zero _)
      | succ fuel =>
        have hRest : Path next (h.delete p) (next a) ps :=
          rest.frame fun q hq => Heap.get?_delete_ne fun hSame => hNot (hSame ▸ hq)
        obtain ⟨h', hFree, hLeft⟩ := ih hRest (Nat.le_of_succ_le_succ hFuel)
        refine ⟨h', by simp only [LinkedList.free, here, hFree, Option.map_some], fun q => ?_⟩
        rw [hLeft]
        by_cases hSame : q = p
        · subst hSame
          simp
        · simp [hSame]

end LinkedList
