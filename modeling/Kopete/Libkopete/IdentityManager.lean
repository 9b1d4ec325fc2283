import Kopete.Lib.Heap
import Kopete.Lib.QList
import Kopete.Lib.Run

/-!
# libkopete — the default identity

The manager keeps a list of the registered identities and, beside it, a pointer to the
default one. `removeIdentity` clears the pointer; an identity that is unregistered, or
destroyed by someone else, goes from the list only. `defaultIdentity` looks the default one
up by its id, and takes another only when there is a pointer to start from.

Main results:

* `Inv.defaultIdentity_right_iff` — from which states the call does what it should;
* `defaultIdentity_iff` — the same for runs.
-/

namespace Kopete

/-- `IdentityManager` and the identities there are, each by its id. -/
structure IdentityManager (ι : Type) where
  heap : Heap ι
  identities : List ℕ
  defaultIdentity? : Option ℕ

namespace IdentityManager

variable {ι : Type} [DecidableEq ι] (s : IdentityManager ι)

def empty : IdentityManager ι := ⟨Heap.empty, [], none⟩

/-! ## The manager; `none` is undefined behaviour -/

/-- The loop of `findIdentity`. -/
def findIn (heap : Heap ι) (id : ι) : List ℕ → Option (Option ℕ)
  | [] => some none
  | p :: ps =>
    match heap.get? p with
    | none => none
    | some pid => if pid = id then some (some p) else findIn heap id ps

def findIdentity (id : ι) : Option (Option ℕ) := findIn s.heap id s.identities

/-- One that is there already is given back; one whose id is there is thrown away, at the
next turn of the event loop. -/
def registerIdentity (identity : Option ℕ) : Option (IdentityManager ι × Option ℕ) :=
  match identity with
  | none => some (s, none)
  | some p =>
    if p ∈ s.identities then some (s, some p)
    else do
      let id ← s.heap.get? p
      match ← s.findIdentity id with
      | some _ => return (s, none) -- `deleteLater`
      | none => return ({ s with identities := s.identities ++ [p] }, some p)

def unregisterIdentity (p : ℕ) : Option (IdentityManager ι) := do
  let _ ← s.heap.get? p
  return { s with identities := QList.removeAll s.identities p }

/-- The ids of the default identity and of all the others are written. -/
def save : Option Unit := do
  let _ ← s.heap.get? (← s.defaultIdentity?)
  let _ ← s.identities.mapM s.heap.get?
  return ()

def setDefaultIdentity (identity : Option ℕ) : Option (IdentityManager ι) :=
  if identity = s.defaultIdentity? then some s
  else
    match identity with
    | none => some s
    | some p =>
      if p ∈ s.identities then do
        let s := { s with defaultIdentity? := some p }
        s.save
        return s
      else some s

/-- The destructor of an identity, which tells the manager. -/
def destroyed (p : ℕ) : IdentityManager ι where
  heap := s.heap.delete p
  identities := QList.removeAll s.identities p
  defaultIdentity? := s.defaultIdentity?

def removeIdentity (p : ℕ) : Option (IdentityManager ι) := do
  let _ ← s.heap.get? p -- `configGroup`
  let s := { s with identities := QList.removeAll s.identities p }
  let s := if s.defaultIdentity? = some p then { s with defaultIdentity? := none } else s
  return s.destroyed p

/-- A new identity has a random id. -/
def create (id : ι) : IdentityManager ι × ℕ := ({ s with heap := s.heap.new id }, s.heap.next)

def defaultIdentity (random : ι) : Option (IdentityManager ι × Option ℕ) := do
  let ident ←
    match s.defaultIdentity? with
    | some p => s.findIdentity (← s.heap.get? p)
    | none => some none
  match ident with
  | some p => return (s, some p)
  | none =>
    match s.defaultIdentity? with
    | none =>
      let (s, p) := s.create random
      let (s, ident) ← s.registerIdentity (some p)
      return (← s.setDefaultIdentity ident, ident)
    | some _ =>
      let p ← s.identities.head? -- `first` of a list that may be empty
      return (← s.setDefaultIdentity (some p), some p)

/-! ## Runs -/

inductive Op (ι : Type) where
  | create (id : ι)
  | registerIdentity (identity : Option ℕ)
  | unregisterIdentity (p : ℕ)
  | removeIdentity (p : ℕ)
  | setDefaultIdentity (p : ℕ)
  | destroyed (p : ℕ)
  | defaultIdentity (random : ι)

def perform : Op ι → Option (IdentityManager ι)
  | .create id => some (s.create id).1
  | .registerIdentity identity => (s.registerIdentity identity).map Prod.fst
  | .unregisterIdentity p => s.unregisterIdentity p
  | .removeIdentity p => s.removeIdentity p
  | .setDefaultIdentity p => s.setDefaultIdentity (some p)
  | .destroyed p => some (s.destroyed p)
  | .defaultIdentity random => (s.defaultIdentity random).map Prod.fst

/-- Of what is after undefined behaviour nothing is said. -/
def step (op : Op ι) : IdentityManager ι := (s.perform op).getD s

/-- The arguments are identities that are there. -/
def Admissible : Op ι → Prop
  | .registerIdentity identity => ∀ p, identity = some p → s.heap.Live p
  | .unregisterIdentity p | .removeIdentity p | .setDefaultIdentity p | .destroyed p =>
    s.heap.Live p
  | .create _ | .defaultIdentity _ => True

/-- The call returns a registered identity, and has made one only if none was registered. -/
def DefaultRight (random : ι) : Prop :=
  ∃ s' p, s.defaultIdentity random = some (s', some p) ∧ p ∈ s'.identities ∧
    (s'.heap.next ≠ s.heap.next → s.identities = [])

def Right : Op ι → Prop
  | .defaultIdentity random => s.DefaultRight random
  | op => (s.perform op).isSome

/-- With a default identity, it is still there and some identity is registered; without,
none is. -/
def DefaultOk : Prop :=
  match s.defaultIdentity? with
  | some p => s.heap.Live p ∧ s.identities ≠ []
  | none => s.identities = []

def Ok : Op ι → Prop
  | .defaultIdentity _ => s.DefaultOk
  | _ => True

/-- Whoever is registered is there. -/
def Inv : Prop := ∀ p ∈ s.identities, s.heap.Live p

variable {s}

/-! ## What the operations return -/

/-- Nothing that is not there is looked at, and what is found is on the list. -/
theorem findIn_live {heap : Heap ι} {ps : List ℕ} (h : ∀ p ∈ ps, heap.Live p) (id : ι) :
    ∃ found, findIn heap id ps = some found ∧ ∀ p, found = some p → p ∈ ps := by
  induction ps with
  | nil => exact ⟨none, rfl, fun p hp => by cases hp⟩
  | cons q ps ih =>
    obtain ⟨qid, hq⟩ := Option.isSome_iff_exists.1 (h q List.mem_cons_self)
    by_cases hId : qid = id
    · refine ⟨some q, by simp [findIn, hq, hId], fun p hp => ?_⟩
      rw [← Option.some.inj hp]
      exact List.mem_cons_self
    · obtain ⟨found, hFound, hMem⟩ := ih fun p hp => h p (List.mem_cons_of_mem q hp)
      exact ⟨found, by simp [findIn, hq, hId, hFound],
        fun p hp => List.mem_cons_of_mem q (hMem p hp)⟩

theorem Inv.findIdentity (h : s.Inv) (id : ι) :
    ∃ found, s.findIdentity id = some found ∧ ∀ p, found = some p → p ∈ s.identities :=
  findIn_live h id

/-- `registerIdentity`: on the list, or not there and nothing done. -/
theorem Inv.registerIdentity (h : s.Inv) {p : ℕ} (hp : s.heap.Live p) :
    (∃ s', s.registerIdentity (some p) = some (s', some p) ∧ s'.Inv ∧ p ∈ s'.identities ∧
      s'.heap = s.heap ∧ s'.defaultIdentity? = s.defaultIdentity?) ∨
      s.registerIdentity (some p) = some (s, none) ∧ s.identities ≠ [] := by
  unfold IdentityManager.registerIdentity
  by_cases hMem : p ∈ s.identities
  · exact .inl ⟨s, if_pos hMem, h, hMem, rfl, rfl⟩
  · simp only [if_neg hMem]
    obtain ⟨id, hId⟩ := Option.isSome_iff_exists.1 hp
    obtain ⟨found, hFound, hOn⟩ := h.findIdentity id
    rw [hId, Option.bind_eq_bind, Option.bind_some, hFound, Option.bind_eq_bind, Option.bind_some]
    cases found with
    | some q => exact .inr ⟨rfl, List.ne_nil_of_mem (hOn q rfl)⟩
    | none =>
      refine .inl ⟨_, rfl, ?_, List.mem_append_right _ (List.mem_singleton_self p), rfl, rfl⟩
      intro q hq
      rcases List.mem_append.1 hq with hq | hq
      · exact h q hq
      · rw [List.mem_singleton.1 hq]
        exact hp

section

omit [DecidableEq ι]

theorem Inv.save {p : ℕ} (h : s.Inv) (hDefault : s.defaultIdentity? = some p)
    (hp : s.heap.Live p) : s.save = some () := by
  obtain ⟨id, hId⟩ := Option.isSome_iff_exists.1 hp
  have hAll : (s.identities.mapM s.heap.get?).isSome := by
    unfold Inv at h
    generalize s.identities = ps at h
    induction ps with
    | nil => rfl
    | cons q qs ih =>
      obtain ⟨qid, hq⟩ := Option.isSome_iff_exists.1 (h q List.mem_cons_self)
      obtain ⟨ids, hIds⟩ := Option.isSome_iff_exists.1
        (ih fun p hp => h p (List.mem_cons_of_mem q hp))
      rw [List.mapM_cons, hq, hIds]
      rfl
  obtain ⟨ids, hIds⟩ := Option.isSome_iff_exists.1 hAll
  simp [IdentityManager.save, hDefault, hId, hIds]

/-- `setDefaultIdentity` changes the pointer at most. -/
theorem Inv.setDefaultIdentity (h : s.Inv) (identity : Option ℕ) :
    ∃ s', s.setDefaultIdentity identity = some s' ∧ s'.heap = s.heap ∧
      s'.identities = s.identities := by
  unfold IdentityManager.setDefaultIdentity
  split
  · exact ⟨s, rfl, rfl, rfl⟩
  · cases identity with
    | none => exact ⟨s, rfl, rfl, rfl⟩
    | some p =>
      by_cases hMem : p ∈ s.identities
      · simp only [if_pos hMem]
        have hInv : Inv { s with defaultIdentity? := some p } := h
        rw [hInv.save rfl (h p hMem)]
        exact ⟨_, rfl, rfl, rfl⟩
      · exact ⟨s, if_neg hMem, rfl, rfl⟩

theorem Inv.of_eq {s' : IdentityManager ι} (h : s.Inv) (hHeap : s'.heap = s.heap)
    (hList : s'.identities = s.identities) : s'.Inv := by
  unfold Inv
  rw [hHeap, hList]
  exact h

theorem Inv.create (h : s.Inv) (id : ι) : (s.create id).1.Inv :=
  fun p hp => (h p hp).new id

theorem Inv.removeAll (h : s.Inv) (p : ℕ) :
    Inv { s with identities := QList.removeAll s.identities p } :=
  fun q hq => h q (QList.mem_removeAll.1 hq).1

theorem Inv.destroyed (h : s.Inv) (p : ℕ) : (s.destroyed p).Inv := by
  intro q hq
  obtain ⟨hMem, hNe⟩ := QList.mem_removeAll.1 hq
  show (Heap.get? _ q).isSome
  rw [IdentityManager.destroyed, Heap.get?_delete_ne hNe]
  exact h q hMem

end

/-! ## `defaultIdentity` -/

/-- A default identity that is there: its namesake, or the first one. -/
theorem Inv.defaultIdentity_of_live {p : ℕ} (h : s.Inv) (hDefault : s.defaultIdentity? = some p)
    (hp : s.heap.Live p) (hSome : s.identities ≠ []) (random : ι) :
    ∃ s' q, s.defaultIdentity random = some (s', some q) ∧ q ∈ s'.identities ∧ s'.Inv ∧
      s'.heap = s.heap := by
  obtain ⟨id, hId⟩ := Option.isSome_iff_exists.1 hp
  obtain ⟨found, hFound, hOn⟩ := h.findIdentity id
  cases found with
  | some q => exact ⟨s, q, by simp [defaultIdentity, hDefault, hId, hFound], hOn q rfl, h, rfl⟩
  | none =>
    obtain ⟨q, qs, hq⟩ := List.exists_cons_of_ne_nil hSome
    obtain ⟨s', hSet, hHeap, hList⟩ := h.setDefaultIdentity (some q)
    refine ⟨s', q, by simp [defaultIdentity, hDefault, hId, hFound, hq, hSet], ?_,
      h.of_eq hHeap hList, hHeap⟩
    rw [hList, hq]
    exact List.mem_cons_self

/-- No default identity: one is made, whether or not there are others. -/
theorem Inv.defaultIdentity_of_none (h : s.Inv) (hDefault : s.defaultIdentity? = none)
    (random : ι) :
    ∃ s' ident, s.defaultIdentity random = some (s', ident) ∧ s'.heap.next = s.heap.next + 1 ∧
      s'.Inv ∧ ((∃ q, ident = some q ∧ q ∈ s'.identities) ∨ s.identities ≠ []) := by
  have hMade : (s.create random).1.Inv := h.create random
  rcases hMade.registerIdentity (s.heap.live_new_self random) with
    ⟨s₁, hReg, hInv, hMem, hHeap, -⟩ | ⟨hReg, hSome⟩
  · obtain ⟨s₂, hSet, hHeap₂, hList⟩ := hInv.setDefaultIdentity (some s.heap.next)
    refine ⟨s₂, some s.heap.next, ?_, ?_, hInv.of_eq hHeap₂ hList, .inl ⟨_, rfl, hList ▸ hMem⟩⟩
    · simp only [defaultIdentity, hDefault, Option.bind_eq_bind, Option.bind_some]
      rw [show (s.create random).2 = s.heap.next from rfl, hReg]
      simp [hSet]
    · rw [hHeap₂, hHeap]
      rfl
  · obtain ⟨s₂, hSet, hHeap₂, hList⟩ := hMade.setDefaultIdentity none
    refine ⟨s₂, none, ?_, ?_, hMade.of_eq hHeap₂ hList, .inr hSome⟩
    · simp only [defaultIdentity, hDefault, Option.bind_eq_bind, Option.bind_some]
      rw [show (s.create random).2 = s.heap.next from rfl, hReg]
      simp [hSet]
    · rw [hHeap₂]
      rfl

/-- **One call.** It returns a registered identity, and makes one only where there is none,
exactly from these states. -/
theorem Inv.defaultIdentity_right_iff (h : s.Inv) (random : ι) :
    s.DefaultRight random ↔ s.DefaultOk := by
  unfold DefaultRight DefaultOk
  cases hDefault : s.defaultIdentity? with
  | none =>
    obtain ⟨s', ident, hCall, hNext, -, hIdent⟩ := h.defaultIdentity_of_none hDefault random
    rw [hCall]
    constructor
    · rintro ⟨s₂, q, hSame, -, hMade⟩
      cases hSame
      exact hMade (by omega)
    · intro hNone
      obtain ⟨q, rfl, hMem⟩ := hIdent.resolve_right (not_not.2 hNone)
      exact ⟨s', q, rfl, hMem, fun _ => hNone⟩
  | some p =>
    constructor
    · rintro ⟨s', q, hCall, hMem, hMade⟩
      rw [defaultIdentity, hDefault] at hCall
      cases hId : s.heap.get? p with
      | none => simp [hId] at hCall
      | some id =>
        refine ⟨Option.isSome_iff_exists.2 ⟨id, hId⟩, ?_⟩
        intro hNone
        have hFound : s.findIdentity id = some none := by
          rw [IdentityManager.findIdentity, hNone]
          rfl
        simp [hId, hFound, hNone] at hCall
    · rintro ⟨hp, hSome⟩
      obtain ⟨s', q, hCall, hMem, -, hHeap⟩ := h.defaultIdentity_of_live hDefault hp hSome random
      exact ⟨s', q, hCall, hMem, fun hMade => absurd (by rw [hHeap]) hMade⟩

/-! ## Runs -/

/-- Every other operation has what it looks at, and keeps the registered ones there. -/
theorem Inv.perform (h : s.Inv) {op : Op ι} (hAdm : s.Admissible op) :
    ∃ s', s.perform op = some s' ∧ s'.Inv ∨ ∃ random, op = .defaultIdentity random := by
  cases op with
  | create id => exact ⟨_, .inl ⟨rfl, h.create id⟩⟩
  | registerIdentity identity =>
    cases identity with
    | none => exact ⟨s, .inl ⟨rfl, h⟩⟩
    | some p =>
      rcases h.registerIdentity (hAdm p rfl) with ⟨s', hReg, hInv, -⟩ | ⟨hReg, -⟩
      · exact ⟨s', .inl ⟨by rw [IdentityManager.perform, hReg]; rfl, hInv⟩⟩
      · exact ⟨s, .inl ⟨by rw [IdentityManager.perform, hReg]; rfl, h⟩⟩
  | unregisterIdentity p =>
    obtain ⟨id, hId⟩ := Option.isSome_iff_exists.1 hAdm
    refine ⟨_, .inl ⟨?_, h.removeAll p⟩⟩
    rw [IdentityManager.perform, IdentityManager.unregisterIdentity, hId]
    rfl
  | removeIdentity p =>
    obtain ⟨id, hId⟩ := Option.isSome_iff_exists.1 hAdm
    rw [IdentityManager.perform, IdentityManager.removeIdentity, hId]
    refine ⟨_, .inl ⟨rfl, Inv.destroyed ?_ p⟩⟩
    split <;> exact h.removeAll p
  | setDefaultIdentity p =>
    obtain ⟨s', hSet, hHeap, hList⟩ := h.setDefaultIdentity (some p)
    exact ⟨s', .inl ⟨hSet, h.of_eq hHeap hList⟩⟩
  | destroyed p => exact ⟨_, .inl ⟨rfl, h.destroyed p⟩⟩
  | defaultIdentity random => exact ⟨s, .inr ⟨random, rfl⟩⟩

/-- A call from a good state keeps the registered ones there too. -/
theorem Inv.step (h : s.Inv) {op : Op ι} (hAdm : s.Admissible op) (hOk : s.Ok op) :
    (s.step op).Inv := by
  unfold IdentityManager.step
  obtain ⟨s', ⟨hOp, hInv⟩ | ⟨random, rfl⟩⟩ := h.perform hAdm
  · rw [hOp]
    exact hInv
  · rw [IdentityManager.perform]
    cases hDefault : s.defaultIdentity? with
    | none =>
      obtain ⟨s', ident, hCall, -, hInv, -⟩ := h.defaultIdentity_of_none hDefault random
      rw [hCall]
      exact hInv
    | some p =>
      rw [Ok, DefaultOk, hDefault] at hOk
      obtain ⟨s', q, hCall, -, hInv, -⟩ := h.defaultIdentity_of_live hDefault hOk.1 hOk.2 random
      rw [hCall]
      exact hInv

theorem Inv.right_iff (h : s.Inv) {op : Op ι} (hAdm : s.Admissible op) : s.Right op ↔ s.Ok op := by
  obtain ⟨s', ⟨hOp, -⟩ | ⟨random, rfl⟩⟩ := h.perform hAdm
  · cases op with
    | defaultIdentity random => exact h.defaultIdentity_right_iff random
    | _ =>
      refine iff_of_true ?_ trivial
      show (s.perform _).isSome
      rw [hOp]
      rfl
  · exact h.defaultIdentity_right_iff random

/-- **The default identity.** In a run from the empty manager, whoever is registered,
unregistered, removed, destroyed or made the default, every call of `defaultIdentity` is
right and everything that is looked at is there exactly if every call comes where the
default identity is still there and somebody is registered, or there is no default and
nobody is. -/
theorem defaultIdentity_iff {ops : List (Op ι)}
    (hAdm : Run.StepsMeet step Admissible empty ops) :
    Run.StepsMeet step Right empty ops ↔ Run.StepsMeet step Ok empty ops := by
  have hEmpty : Inv (ι := ι) empty := fun _ hp => absurd hp List.not_mem_nil
  exact Run.stepsMeet_iff (fun _ _ h hAdm => h.right_iff hAdm)
    (fun _ _ h hAdm hOk => h.step hAdm hOk) hEmpty hAdm

/-- Registered, made the default and asked for. -/
theorem defaultIdentity_iff_set :
    Run.StepsMeet step Admissible empty
        [.create 5, .registerIdentity (some 0), .setDefaultIdentity 0, .defaultIdentity 7] ∧
      (Run.StepsMeet step Right empty
          [.create 5, .registerIdentity (some 0), .setDefaultIdentity 0, .defaultIdentity 7] ↔
        Run.StepsMeet step Ok empty
          [.create 5, .registerIdentity (some 0), .setDefaultIdentity 0, .defaultIdentity 7]) :=
  have hAdm : Run.StepsMeet step Admissible empty
      [.create 5, .registerIdentity (some 0), .setDefaultIdentity 0, .defaultIdentity 7] :=
    ⟨trivial, fun _ hp => Option.some.inj hp ▸ (by decide), (by decide : Heap.Live _ 0), trivial,
      trivial⟩
  ⟨hAdm, defaultIdentity_iff hAdm⟩

/-- The default one of two identities is removed: the next call makes a third. -/
theorem removed_default :
    let s : IdentityManager ℕ := [.create 5, .create 6, .registerIdentity (some 0),
      .registerIdentity (some 1), .setDefaultIdentity 0, .removeIdentity 0].foldl step empty
    s.identities = [1] ∧ ¬ s.DefaultRight 7 := by
  intro s
  have hList : s.identities = [1] := by decide
  have hNext : (s.defaultIdentity 7).map (fun r => r.1.heap.next) = some 3 := by decide
  refine ⟨hList, ?_⟩
  rintro ⟨s', p, hCall, -, hMade⟩
  rw [hCall] at hNext
  have hThree : s'.heap.next = 3 := Option.some.inj hNext
  have hOther : s'.heap.next ≠ s.heap.next := by
    rw [hThree]
    decide
  exact List.cons_ne_nil _ _ (hList.symm.trans (hMade hOther))

end IdentityManager

end Kopete
