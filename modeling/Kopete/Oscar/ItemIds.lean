import Kopete.Lib.Run
import Kopete.Oscar.SSIModifyTask

/-!
# Oscar — the ids of listed items stay reserved

`Held` says that the id of every listed item is in the set of its kind, so that
no fresh id is one a listed item carries. New items keep it. Everything that
gives an id back does so before it is known whether an item leaves the list, and
other items may carry the same id.

Main results:

* `held_step_iff` — a step keeps `Held` exactly when it gives back no id that a
  remaining item carries;
* `idsReserved_iff` — the same for whole runs from the empty list, with the ids
  `nextContactId` and `nextGroupId` would hand out.
-/

namespace Oscar.ContactManager

/-- An id is in the set of its kind. -/
def Reserved (d : ContactManagerPrivate) : Bool × Nat → Prop
  | (true, gid) => gid ∈ d.groupIdSet
  | (false, bid) => bid ∈ d.itemIdSet

/-- The ids of all listed items are reserved. -/
def Held (d : ContactManagerPrivate) : Prop := ∀ i ∈ d.contactList, Reserved d i.key

/-- The public operations. -/
inductive Op
  | newGroup (group : OContact)
  | newContact (contact : OContact)
  | newItem (item : OContact)
  | updateGroup (group : OContact)
  | updateContact (contact : OContact)
  | updateItem (item : OContact)
  | removeGroup (group : OContact)
  | removeGroupNamed (group : String)
  | removeContact (contact : OContact)
  | removeContactNamed (contact : String)
  | removeItem (item : OContact)
  | freeIdOnError (t : SSIModifyTask)
  | nextContactId
  | nextGroupId
  | clear

/-- The list after an operation. -/
def step (toLower : String → String) (d : ContactManagerPrivate) : Op → ContactManagerPrivate
  | .newGroup group => (newGroup toLower group d).2
  | .newContact contact => (newContact contact d).2
  | .newItem item => (newItem item d).2
  | .updateGroup group => (updateGroup toLower group d).2
  | .updateContact contact => (updateContact contact d).2
  | .updateItem item => (updateItem item d).2
  | .removeGroup group => (removeGroup group d).2
  | .removeGroupNamed group => (removeGroupNamed toLower group d).2
  | .removeContact contact => (removeContact contact d).2
  | .removeContactNamed contact => (removeContactNamed contact d).2
  | .removeItem item => (removeItem item d).2
  | .freeIdOnError t => t.freeIdOnError d
  | .nextContactId => (nextContactId d).2
  | .nextGroupId => (nextGroupId d).2
  | .clear => clear d

/-! ## The condition -/

/-- No item left after the items equal to `x` are gone carries the id of `x`. -/
def LastWithId (d : ContactManagerPrivate) (x : OContact) : Prop :=
  ∀ i ∈ d.contactList, ¬ i.same x → i.key ≠ x.key

/-- An update gives back the id of the old item only if no other listed item
carries it, or takes it again for the new item. -/
def ReplaceOk (d : ContactManagerPrivate) (oldItem item : OContact) : Prop :=
  oldItem.isValid →
    LastWithId d oldItem ∨
      item.key = oldItem.key ∧ ¬ contains item (removeAll oldItem d.contactList)

/-- The step gives back no id that a remaining item carries. -/
def StepOk (toLower : String → String) (d : ContactManagerPrivate) : Op → Prop
  | .updateGroup group => ReplaceOk d (findGroup toLower group.name d) group
  | .updateContact contact => ReplaceOk d (findContact contact.name d) contact
  | .updateItem item => ReplaceOk d (findItem item.name item.type d) item
  | .removeGroup group => LastWithId d group
  | .removeContact contact => LastWithId d contact
  | .removeItem item => LastWithId d item
  | .removeGroupNamed group =>
    (findGroup toLower group d).isValid → LastWithId d (findGroup toLower group d)
  | .removeContactNamed contact =>
    (findContact contact d).isValid → LastWithId d (findContact contact d)
  | .freeIdOnError t => t.freesId → ∀ i ∈ d.contactList, i.key ≠ t.newItem.key
  | .newGroup _ | .newContact _ | .newItem _ | .nextContactId | .nextGroupId | .clear => True

/-! ## One step -/

theorem reserved_addID (item : OContact) (d : ContactManagerPrivate) (k : Bool × Nat) :
    Reserved (addID item d) k ↔ k = item.key ∨ Reserved d k := by
  obtain ⟨b, n⟩ := k
  unfold addID OContact.key
  split <;> cases b <;> simp [Reserved]

theorem reserved_removeID (item : OContact) (d : ContactManagerPrivate) (k : Bool × Nat) :
    Reserved (removeID item d) k ↔ k ≠ item.key ∧ Reserved d k := by
  obtain ⟨b, n⟩ := k
  unfold removeID OContact.key
  split <;> cases b <;> simp [Reserved]

theorem reserved_append (item : OContact) (d : ContactManagerPrivate) (k : Bool × Nat) :
    Reserved (append item d) k ↔ k = item.key ∨ Reserved d k := by
  rw [← reserved_addID]
  cases k with
  | mk b n => cases b <;> rfl

theorem reserved_drop (item : OContact) (d : ContactManagerPrivate) (k : Bool × Nat) :
    Reserved (drop item d) k ↔ k ≠ item.key ∧ Reserved d k := by
  rw [← reserved_removeID]
  cases k with
  | mk b n => cases b <;> rfl

/-- Appending an item takes its id, and can only help the others. -/
theorem held_append_iff (item : OContact) (d : ContactManagerPrivate) :
    Held (append item d) ↔ ∀ i ∈ d.contactList, i.key = item.key ∨ Reserved d i.key := by
  simp only [Held, append_contactList, reserved_append, List.mem_append, List.mem_singleton]
  constructor
  · intro h i hi
    exact h i (Or.inl hi)
  · rintro h i (hi | rfl)
    · exact h i hi
    · exact Or.inl rfl

theorem held_append {d : ContactManagerPrivate} (item : OContact) (h : Held d) :
    Held (append item d) :=
  (held_append_iff item d).mpr fun i hi => Or.inr (h i hi)

theorem held_appendNew {d : ContactManagerPrivate} (item : OContact) (h : Held d) :
    Held (appendNew item d).2 := by
  unfold appendNew
  split
  · exact h
  · exact held_append item h

/-- Dropping an item keeps the ids of the others exactly when none of them is
the one that is given back. -/
theorem held_drop_iff {d : ContactManagerPrivate} (item : OContact) (h : Held d) :
    Held (drop item d) ↔ LastWithId d item := by
  simp only [Held, drop_contactList, mem_removeAll, reserved_drop, LastWithId]
  constructor
  · intro hd i hi hne
    exact (hd i ⟨hi, hne⟩).1
  · rintro hlast i ⟨hi, hne⟩
    exact ⟨hlast i hi hne, h i hi⟩

theorem held_replace_iff {d : ContactManagerPrivate} (oldItem item : OContact) (h : Held d) :
    Held (replace oldItem item d).2 ↔ ReplaceOk d oldItem item := by
  unfold replace ReplaceOk
  by_cases hvalid : oldItem.isValid
  · simp only [hvalid, if_true, true_implies]
    unfold appendNew
    rw [drop_contactList]
    split
    · next hlisted =>
      rw [held_drop_iff oldItem h]
      simp [hlisted]
    · next hlisted =>
      simp only [held_append_iff, drop_contactList, mem_removeAll, reserved_drop, hlisted,
        Bool.false_eq_true, not_false_eq_true, and_true]
      constructor
      · -- another carrier of the freed id is only saved by the new item
        intro hheld
        by_cases hkey : item.key = oldItem.key
        · exact Or.inr hkey
        · refine Or.inl fun i hi hne heq => ?_
          rcases hheld i ⟨hi, hne⟩ with hnew | ⟨hfree, -⟩
          · exact hkey (hnew.symm.trans heq)
          · exact hfree heq
      · rintro hok i ⟨hi, hne⟩
        by_cases heq : i.key = oldItem.key
        · rcases hok with hlast | hkey
          · exact absurd heq (hlast i hi hne)
          · exact Or.inl (heq.trans hkey.symm)
        · exact Or.inr ⟨heq, h i hi⟩
  · simp only [hvalid, if_false, Bool.false_eq_true, false_implies, iff_true]
    exact held_appendNew item h

theorem held_removeID_iff {d : ContactManagerPrivate} (item : OContact) (h : Held d) :
    Held (removeID item d) ↔ ∀ i ∈ d.contactList, i.key ≠ item.key := by
  simp only [Held, removeID_contactList, reserved_removeID]
  exact ⟨fun hd i hi => (hd i hi).1, fun hd i hi => ⟨hd i hi, h i hi⟩⟩

/-- Taking a fresh id reserves it and touches no other. -/
theorem held_nextContactId {d : ContactManagerPrivate} (h : Held d) :
    Held (nextContactId d).2 := by
  intro i hi
  rw [nextContactId_contactList] at hi
  have hres := h i hi
  revert hres
  obtain ⟨b, n⟩ := i.key
  simp only [nextContactId]
  split <;> split <;> cases b <;> simp +contextual [Reserved]

theorem held_nextGroupId {d : ContactManagerPrivate} (h : Held d) : Held (nextGroupId d).2 := by
  intro i hi
  rw [nextGroupId_contactList] at hi
  have hres := h i hi
  revert hres
  obtain ⟨b, n⟩ := i.key
  simp only [nextGroupId]
  split <;> split <;> cases b <;> simp +contextual [Reserved]

/-- **One step.** It keeps the ids of all listed items reserved exactly when it
gives back no id that a remaining item carries. -/
theorem held_step_iff (toLower : String → String) {d : ContactManagerPrivate} (op : Op)
    (h : Held d) : Held (step toLower d op) ↔ StepOk toLower d op := by
  cases op with
  | newGroup group =>
    refine iff_of_true ?_ trivial
    simp only [step, newGroup]
    split
    · exact h
    · split
      · exact held_append group h
      · exact h
  | newContact contact => exact iff_of_true (held_appendNew contact h) trivial
  | newItem item => exact iff_of_true (held_appendNew item h) trivial
  | updateGroup group => exact held_replace_iff _ group h
  | updateContact contact => exact held_replace_iff _ contact h
  | updateItem item => exact held_replace_iff _ item h
  | removeGroup group => exact held_drop_iff group h
  | removeContact contact => exact held_drop_iff contact h
  | removeItem item => exact held_drop_iff item h
  | removeGroupNamed group =>
    simp only [step, removeGroupNamed, StepOk]
    split
    · next hvalid =>
      simp only [hvalid, true_implies]
      exact held_drop_iff _ h
    · next hvalid => exact iff_of_true h fun hv => absurd hv hvalid
  | removeContactNamed contact =>
    simp only [step, removeContactNamed, StepOk]
    split
    · next hvalid =>
      simp only [hvalid, true_implies]
      exact held_drop_iff _ h
    · next hvalid => exact iff_of_true h fun hv => absurd hv hvalid
  | freeIdOnError t =>
    simp only [step, SSIModifyTask.freeIdOnError, StepOk]
    split
    · next hfrees => simpa only [hfrees, true_implies] using held_removeID_iff _ h
    · next hfrees => exact iff_of_true h fun hf => absurd hf hfrees
  | nextContactId => exact iff_of_true (held_nextContactId h) trivial
  | nextGroupId => exact iff_of_true (held_nextGroupId h) trivial
  | clear => exact iff_of_true (fun i hi => absurd hi (List.not_mem_nil)) trivial

/-! ## Fresh ids -/

/-- A free id is outside the set, if there is one. -/
theorem findFreeId_notMem {idSet : Finset Nat} {fromId : Nat}
    (h : findFreeId idSet fromId ≠ 0xFFFF) : findFreeId idSet fromId ∉ idSet := by
  unfold findFreeId at *
  cases hfind : (List.range' fromId (0x8000 - fromId)).find? fun id => id ∉ idSet with
  | none => exact absurd (by rw [hfind]; rfl) h
  | some id => simpa using List.find?_some hfind

/-- The ids that would be handed out next are carried by no listed item. -/
def FreshIds (d : ContactManagerPrivate) : Prop :=
  (∀ i ∈ d.contactList, i.type ≠ ROSTER_GROUP →
    (nextContactId d).1 = 0xFFFF ∨ i.bid ≠ (nextContactId d).1) ∧
  ∀ i ∈ d.contactList, i.type = ROSTER_GROUP →
    (nextGroupId d).1 = 0xFFFF ∨ i.gid ≠ (nextGroupId d).1

theorem nextContactId_fresh (d : ContactManagerPrivate) :
    (nextContactId d).1 = 0xFFFF ∨ (nextContactId d).1 ∉ d.itemIdSet := by
  by_cases hfree : findFreeId d.itemIdSet (if d.nextContactId = 0 then 1 else d.nextContactId) =
      0xFFFF
  · exact Or.inl (by simp only [nextContactId, hfree, if_true])
  · refine Or.inr ?_
    simp only [nextContactId, hfree, if_false]
    exact findFreeId_notMem hfree

theorem nextGroupId_fresh (d : ContactManagerPrivate) :
    (nextGroupId d).1 = 0xFFFF ∨ (nextGroupId d).1 ∉ d.groupIdSet := by
  by_cases hfree : findFreeId d.groupIdSet (if d.nextGroupId = 0 then 1 else d.nextGroupId) =
      0xFFFF
  · exact Or.inl (by simp only [nextGroupId, hfree, if_true])
  · refine Or.inr ?_
    simp only [nextGroupId, hfree, if_false]
    exact findFreeId_notMem hfree

theorem Held.freshIds {d : ContactManagerPrivate} (h : Held d) : FreshIds d := by
  constructor
  · intro i hi htype
    refine (nextContactId_fresh d).imp_right fun hfresh heq => hfresh ?_
    have hres := h i hi
    rw [OContact.key, if_neg htype] at hres
    exact heq ▸ hres
  · intro i hi htype
    refine (nextGroupId_fresh d).imp_right fun hfresh heq => hfresh ?_
    have hres := h i hi
    rw [OContact.key, if_pos htype] at hres
    exact heq ▸ hres

/--
**Ids over whole runs.** From the empty list, the ids of all listed items are
reserved and no fresh id is theirs in every state of a run, if and only if no
step gives back an id that an item remaining in the list carries.
-/
theorem idsReserved_iff (toLower : String → String) (ops : List Op) :
    (∀ d ∈ Run.states (step toLower) init ops, Held d ∧ FreshIds d) ↔
      Run.StepsMeet (step toLower) (StepOk toLower) init ops := by
  rw [← Run.inv_iff_stepsMeet (fun d op h => held_step_iff toLower op h)
    (fun i hi => absurd hi (List.not_mem_nil))]
  exact ⟨fun h d hd => (h d hd).1, fun h d hd => ⟨h d hd, (h d hd).freshIds⟩⟩

/-- The removal of a contact that is not in the list gives back the id of one
that is. -/
theorem removeContact_frees_listed :
    ¬ ∀ (toLower : String → String) (ops : List Op),
      ∀ d ∈ Run.states (step toLower) init ops, Held d ∧ FreshIds d := by
  intro h
  have hruns := (h id [.newContact ⟨"a", 1, 1, ROSTER_CONTACT, []⟩,
    .removeContact ⟨"b", 1, 1, ROSTER_CONTACT, []⟩] _
    (Run.foldl_mem_states _ _)).1 ⟨"a", 1, 1, ROSTER_CONTACT, []⟩ (by decide)
  revert hruns
  show ¬ (1 ∈ (Finset.erase (insert 1 ∅) 1 : Finset Nat))
  decide

end Oscar.ContactManager
