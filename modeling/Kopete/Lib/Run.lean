import Mathlib

/-!
# Runs of a step function

A system is a function `step : σ → α → σ` from a state and an operation to the
next state; a run is a list of operations. `states` lists every state a run
reaches, the first one included, and `StepsMeet` says that a condition on the
state before the step and the operation holds at every step.

Main results:

* `inv_of_stepsMeet` — an invariant kept by every step that meets the
  condition holds in every state the run reaches;
* `inv_iff_stepsMeet` — where the condition is exact for one step, it is exact
  for runs;
* `stepsMeet_iff` — the same for a property of the steps of admissible runs,
  with an invariant that may say more than the property.
-/

namespace Run

variable {σ α : Type*} (step : σ → α → σ)

/-- Every state a run reaches, in order, the first one included. -/
def states : σ → List α → List σ
  | s, [] => [s]
  | s, a :: as => s :: states (step s a) as

/-- Every step of the run meets `ok`. -/
def StepsMeet (ok : σ → α → Prop) : σ → List α → Prop
  | _, [] => True
  | s, a :: as => ok s a ∧ StepsMeet ok (step s a) as

variable {step}

theorem mem_states_self (s : σ) (as : List α) : s ∈ states step s as := by
  cases as with
  | nil => exact List.mem_singleton_self s
  | cons a as => exact List.mem_cons_self ..

theorem stepsMeet_of_forall {ok : σ → α → Prop} (h : ∀ s a, ok s a) (s : σ) (as : List α) :
    StepsMeet step ok s as := by
  induction as generalizing s with
  | nil => trivial
  | cons a as ih => exact ⟨h s a, ih (step s a)⟩

/-- A condition that all operations of a run meet, wherever they come. -/
theorem stepsMeet_of_mem {p : α → Prop} {s : σ} {as : List α} (hp : ∀ a ∈ as, p a) :
    StepsMeet step (fun _ a => p a) s as := by
  induction as generalizing s with
  | nil => trivial
  | cons a as ih => exact ⟨hp a List.mem_cons_self, ih fun b hb => hp b (List.mem_cons_of_mem a hb)⟩

/-- The same together with another condition. -/
theorem StepsMeet.and_mem {ok : σ → α → Prop} {p : α → Prop} {s : σ} {as : List α}
    (h : StepsMeet step ok s as) (hp : ∀ a ∈ as, p a) :
    StepsMeet step (fun s a => p a ∧ ok s a) s as := by
  induction as generalizing s with
  | nil => trivial
  | cons a as ih =>
    exact ⟨⟨hp a List.mem_cons_self, h.1⟩, ih h.2 fun b hb => hp b (List.mem_cons_of_mem a hb)⟩

/-- The state at the end of a run is one of those it reaches. -/
theorem foldl_mem_states (s : σ) (as : List α) : as.foldl step s ∈ states step s as := by
  induction as generalizing s with
  | nil => exact List.mem_singleton_self s
  | cons a as ih => exact List.mem_cons_of_mem _ (ih (step s a))

/-- **Run invariance.** An invariant kept by every step that meets `ok` holds
in every state reached by a run whose steps all meet it. -/
theorem inv_of_stepsMeet {Inv : σ → Prop} {ok : σ → α → Prop}
    (hStep : ∀ s a, Inv s → ok s a → Inv (step s a)) {s : σ} {as : List α} (hs : Inv s)
    (hMeet : StepsMeet step ok s as) : ∀ t ∈ states step s as, Inv t := by
  induction as generalizing s with
  | nil =>
    intro t ht
    rw [List.mem_singleton.mp ht]
    exact hs
  | cons a as ih =>
    intro t ht
    rcases List.mem_cons.mp ht with rfl | ht
    · exact hs
    · exact ih (hStep s a hs hMeet.1) hMeet.2 t ht

/-- The same for an invariant that every step keeps. -/
theorem inv_of_forall {Inv : σ → Prop} (hStep : ∀ s a, Inv s → Inv (step s a)) {s : σ}
    (hs : Inv s) (as : List α) : ∀ t ∈ states step s as, Inv t :=
  inv_of_stepsMeet (fun s a hs _ => hStep s a hs) hs
    (stepsMeet_of_forall (fun _ _ => True.intro) s as)

/-- **Step properties along a run.** If every step that meets `ok` has the
property `P` and keeps the invariant, all steps of a run that meets `ok` have it. -/
theorem stepsMeet_of_inv {Inv : σ → Prop} {P ok : σ → α → Prop}
    (hStep : ∀ s a, Inv s → ok s a → P s a ∧ Inv (step s a)) {s : σ} {as : List α} (hs : Inv s)
    (hMeet : StepsMeet step ok s as) : StepsMeet step P s as := by
  induction as generalizing s with
  | nil => trivial
  | cons a as ih =>
    obtain ⟨hP, hnext⟩ := hStep s a hs hMeet.1
    exact ⟨hP, ih hnext hMeet.2⟩

/-- **Exact run condition.** If from a state with the invariant a step keeps it
exactly when it meets `ok`, then a run keeps it exactly when all steps do. -/
theorem inv_iff_stepsMeet {Inv : σ → Prop} {ok : σ → α → Prop}
    (hStep : ∀ s a, Inv s → (Inv (step s a) ↔ ok s a)) {s : σ} {as : List α} (hs : Inv s) :
    (∀ t ∈ states step s as, Inv t) ↔ StepsMeet step ok s as := by
  refine ⟨fun h => ?_, inv_of_stepsMeet (fun s a hs => (hStep s a hs).mpr) hs⟩
  induction as generalizing s with
  | nil => trivial
  | cons a as ih =>
    have hnext : Inv (step s a) := h _ (List.mem_cons_of_mem _ (mem_states_self _ _))
    exact ⟨(hStep s a hs).mp hnext, ih hnext fun t ht => h t (List.mem_cons_of_mem _ ht)⟩

/-- The same for a property `P` that the invariant implies, along admissible
runs: a step that misses the condition loses `P`. -/
theorem holds_iff_of_adm {Inv P : σ → Prop} {adm ok : σ → α → Prop} (hInv : ∀ s, Inv s → P s)
    (hNeeds : ∀ s a, Inv s → adm s a → P (step s a) → ok s a)
    (hKeeps : ∀ s a, Inv s → adm s a → ok s a → Inv (step s a)) {s : σ} {as : List α} (hs : Inv s)
    (hAdm : StepsMeet step adm s as) :
    (∀ t ∈ states step s as, P t) ↔ StepsMeet step ok s as := by
  induction as generalizing s with
  | nil =>
    refine iff_of_true ?_ trivial
    intro t ht
    rw [List.mem_singleton.mp ht]
    exact hInv s hs
  | cons a as ih =>
    constructor
    · intro h
      have hok := hNeeds s a hs hAdm.1 (h _ (List.mem_cons_of_mem _ (mem_states_self _ _)))
      have hnext := hKeeps s a hs hAdm.1 hok
      exact ⟨hok, (ih hnext hAdm.2).mp fun t ht => h t (List.mem_cons_of_mem _ ht)⟩
    · rintro ⟨hok, hrest⟩ t ht
      rcases List.mem_cons.mp ht with rfl | ht
      · exact hInv t hs
      · exact (ih (hKeeps s a hs hAdm.1 hok) hAdm.2).mpr hrest t ht

/-- Along all runs. -/
theorem holds_iff_stepsMeet {Inv P : σ → Prop} {ok : σ → α → Prop} (hInv : ∀ s, Inv s → P s)
    (hNeeds : ∀ s a, Inv s → P (step s a) → ok s a)
    (hKeeps : ∀ s a, Inv s → ok s a → Inv (step s a)) {s : σ} {as : List α} (hs : Inv s) :
    (∀ t ∈ states step s as, P t) ↔ StepsMeet step ok s as :=
  holds_iff_of_adm hInv (fun s a hs _ => hNeeds s a hs) (fun s a hs _ => hKeeps s a hs) hs
    (stepsMeet_of_forall (fun _ _ => trivial) s as)

/-- **Exact step condition.** If from a state with the invariant an admissible
step has the property `P` exactly when it meets `ok`, and then keeps the
invariant, then all steps of an admissible run have the property exactly when
all of them meet `ok`. -/
theorem stepsMeet_iff {Inv : σ → Prop} {adm P ok : σ → α → Prop}
    (hExact : ∀ s a, Inv s → adm s a → (P s a ↔ ok s a))
    (hKeep : ∀ s a, Inv s → adm s a → ok s a → Inv (step s a)) {s : σ} {as : List α}
    (hs : Inv s) (hAdm : StepsMeet step adm s as) :
    StepsMeet step P s as ↔ StepsMeet step ok s as := by
  induction as generalizing s with
  | nil => exact Iff.rfl
  | cons a as ih =>
    have hfirst := hExact s a hs hAdm.1
    constructor
    · rintro ⟨hP, hrest⟩
      have hok := hfirst.mp hP
      exact ⟨hok, (ih (hKeep s a hs hAdm.1 hok) hAdm.2).mp hrest⟩
    · rintro ⟨hok, hrest⟩
      exact ⟨hfirst.mpr hok, (ih (hKeep s a hs hAdm.1 hok) hAdm.2).mpr hrest⟩

/-- The same along all runs. -/
theorem stepsMeet_iff_of_inv {Inv : σ → Prop} {P ok : σ → α → Prop}
    (hExact : ∀ s a, Inv s → (P s a ↔ ok s a))
    (hKeep : ∀ s a, Inv s → ok s a → Inv (step s a)) {s : σ} (hs : Inv s) (as : List α) :
    StepsMeet step P s as ↔ StepsMeet step ok s as :=
  stepsMeet_iff (fun s a hs _ => hExact s a hs) (fun s a hs _ => hKeep s a hs) hs
    (stepsMeet_of_forall (fun _ _ => True.intro) s as)

end Run
