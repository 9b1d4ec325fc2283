import Mathlib

/-!
# Sources that are read to their end

A source is a function from a state to what it gives next and the state after that, or to
nothing at its end. Where a measure goes down from state to state, it comes to its end.

Main results:

* `exists_emits` — what a source gives altogether, where it comes to its end;
* `emits_iff` — a property of all it gives, as a condition on the states it goes through.
-/

namespace Emission

variable {σ α : Type*} (next : σ → Option (List α × σ))

/-- What the source gives from a state to its end. -/
inductive Emits : σ → List α → Prop where
  | stop {s : σ} : next s = none → Emits s []
  | step {s s' : σ} {out rest : List α} :
    next s = some (out, s') → Emits s' rest → Emits s (out ++ rest)

/-- The state that follows. -/
def Follows (s s' : σ) : Prop := ∃ out, next s = some (out, s')

/-- The states that the source goes through. -/
def Passes : σ → σ → Prop := Relation.ReflTransGen (Follows next)

variable {next}

theorem passes_self (s : σ) : Passes next s s := .refl

theorem Passes.head {s s' t : σ} {out : List α} (hNext : next s = some (out, s'))
    (h : Passes next s' t) : Passes next s t :=
  Relation.ReflTransGen.head ⟨out, hNext⟩ h

/-- At its end the source goes through no other state. -/
theorem passes_of_none {s t : σ} (hEnd : next s = none) : Passes next s t ↔ t = s := by
  constructor
  · intro h
    rcases Relation.ReflTransGen.cases_head h with rfl | ⟨s', ⟨out, hNext⟩, -⟩
    · rfl
    · rw [hEnd] at hNext
      cases hNext
  · rintro rfl
    exact passes_self t

/-- Before it the source goes through the state it is in, and through those behind it. -/
theorem passes_of_some {s s' t : σ} {out : List α} (hNext : next s = some (out, s')) :
    Passes next s t ↔ t = s ∨ Passes next s' t := by
  constructor
  · intro h
    rcases Relation.ReflTransGen.cases_head h with rfl | ⟨s'', ⟨out', hNext'⟩, hRest⟩
    · exact .inl rfl
    · rw [hNext] at hNext'
      cases hNext'
      exact .inr hRest
  · rintro (rfl | h)
    · exact passes_self t
    · exact h.head hNext

/-- **A source comes to its end** where a measure goes down with every step, as long as an
invariant holds. -/
theorem exists_emits {β : Type*} [LT β] [WellFoundedLT β] (Inv : σ → Prop) (measure : σ → β)
    (hStep : ∀ s s' out, Inv s → next s = some (out, s') → Inv s' ∧ measure s' < measure s)
    {s : σ} (hs : Inv s) : ∃ l, Emits next s l := by
  induction s using WellFounded.induction (InvImage.wf measure wellFounded_lt) with
  | _ s ih =>
    rcases hNext : next s with _ | ⟨out, s'⟩
    · exact ⟨[], .stop hNext⟩
    · obtain ⟨hInv, hLess⟩ := hStep s s' out hs hNext
      obtain ⟨rest, hRest⟩ := ih s' hLess hInv
      exact ⟨out ++ rest, .step hNext hRest⟩

/-- **All that a source gives** has a property where the states it goes through meet the
condition that is exact for one step. -/
theorem emits_iff (Inv : σ → Prop) {ok : σ → Prop} (P : σ → List α → Prop)
    (hStop : ∀ s, Inv s → next s = none → P s [] ∧ ok s)
    (hStep : ∀ s s' out, Inv s → next s = some (out, s') →
      Inv s' ∧ ∀ rest, P s (out ++ rest) ↔ ok s ∧ P s' rest)
    {s : σ} {l : List α} (hs : Inv s) (h : Emits next s l) :
    P s l ↔ ∀ t, Passes next s t → ok t := by
  induction h with
  | stop hEnd =>
    obtain ⟨hP, hok⟩ := hStop _ hs hEnd
    simp only [passes_of_none hEnd, forall_eq, hP, hok]
  | step hNext _ ih =>
    obtain ⟨hInv, hExact⟩ := hStep _ _ _ hs hNext
    simp only [hExact, ih hInv, passes_of_some hNext, forall_eq_or_imp]

end Emission
