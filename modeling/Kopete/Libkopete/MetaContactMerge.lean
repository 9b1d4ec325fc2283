import Kopete.Lib.Run
import Kopete.Libkopete.ContactList
import Mathlib

/-!
# libkopete — merging metacontacts

A metacontact whose last contact leaves may take the name of that contact, and merge
with the metacontact of that name: the one that is being emptied takes in another, and
where that other one is the target of the move, it is emptied in turn and taken off the
contact list, before the contact that was on its way arrives in it.

Main results:

* `movedTo_movedAll` — what contacts leave behind that move while nothing is merged;
* `setMetaContact_undisturbed` — when that is what the code does;
* `merges_complete` — over every run without such a merge, every step ends, the two
  sides stay consistent, and a merge is complete.
-/

namespace Kopete

namespace ContactList

variable (s : ContactList)

/-! ## Moving, and nothing else -/

/-- A name that is given without a merge. -/
def nameOnly (s : ContactList) (m : Nat) (name : QString) : Option ContactList :=
  some (s.setName m name)

/-- A contact has moved, and nothing has been merged on the way. -/
def moved (c : Nat) (m : Option Nat) : ContactList := (s.setMetaContact nameOnly c m).getD s

/-- Contacts have moved to `m`, one after the other. -/
def movedAll (cs : List Nat) (m : Nat) : ContactList :=
  cs.foldl (fun s c => s.moved c (some m)) s

/-- The metacontact that is merged into `m` when it is given a name. -/
def mergedBy (m : Nat) (name : QString) : Option Nat :=
  if name = (s.metaContact m).displayName ∨ (s.metaContact m).loading ∨
      (s.metaContact m).temporary ∨ name = [] then none
  else s.sameNamed m name

/-- Nothing is merged into the metacontact that `c` leaves, should it take the name of its
last contact. -/
def Undisturbed (c : Nat) : Prop :=
  ∀ old, (s.contact c).metaContact = some old → (s.metaContact old).wasTrackingName →
    QList.removeAll (s.contactsOf old) c = [] →
      ∀ m', s.mergedBy old (s.displayName old) = some m' → s.contactsOf m' = []

/-- The same for contacts that move to `m`, one after the other. -/
def AllUndisturbed (cs : List Nat) (m : Nat) : Prop :=
  Run.StepsMeet (fun s c => s.moved c (some m))
    (fun s c => (s.contact c).metaContact ≠ some m → s.Undisturbed c) s cs

section Moved

variable {s}

theorem sound_nameOnly : Sound nameOnly := by
  intro away s m name s' h hName
  obtain rfl := Option.some.inj hName
  exact consistentBut_setName h m name

theorem exists_removeContact (m c : Nat) : ∃ s', s.removeContact nameOnly m c = some s' := by
  unfold removeContact
  split
  · exact ⟨_, rfl⟩
  · simp only
    split
    · split
      · exact ⟨_, rfl⟩
      · exact ⟨_, rfl⟩
    · exact ⟨_, rfl⟩

theorem setMetaContact_nameOnly (s : ContactList) (c : Nat) (m : Option Nat) :
    s.setMetaContact nameOnly c m = some (s.moved c m) := by
  have hSome : ∃ s', s.setMetaContact nameOnly c m = some s' := by
    by_cases hSame : (s.contact c).metaContact = m
    · exact ⟨s, setMetaContact_same hSame⟩
    · cases hOld : (s.contact c).metaContact with
      | none => exact ⟨_, setMetaContact_none hOld hSame⟩
      | some old =>
        obtain ⟨s', hRemove⟩ := exists_removeContact (s := s) old c
        exact ⟨_, by rw [setMetaContact_some hOld hSame, hRemove]; rfl⟩
  obtain ⟨s', hMove⟩ := hSome
  rw [moved, hMove]
  rfl

theorem setMeta_setName (m : Nat) (mc : MetaContact) (name : QString) :
    (s.setMeta m mc).setName m name = s.setMeta m { mc with displayName := name } := by
  simp only [setName, setMeta, Function.update_self, Function.update_idem]

/-- **What the removal of a contact does** while nothing is merged. -/
theorem removeContact_cases {m c : Nat} {s' : ContactList}
    (h : s.removeContact nameOnly m c = some s') :
    (c ∉ s.contactsOf m ∧ s' = s) ∨
      (c ∈ s.contactsOf m ∧ ∃ mc : MetaContact,
        mc.contacts = QList.removeAll (s.contactsOf m) c ∧
          mc.groups = (s.metaContact m).groups ∧ s' = s.setMeta m mc) := by
  unfold removeContact at h
  split at h
  · next hAbsent => exact .inl ⟨hAbsent, (Option.some.inj h).symm⟩
  · next hMem =>
    refine .inr ⟨not_not.mp hMem, ?_⟩
    simp only at h
    split at h
    · split at h
      · rw [nameOnly, setMeta_setName] at h
        exact ⟨_, by simp [contactsOf], by simp, (Option.some.inj h).symm⟩
      · exact ⟨_, by simp [contactsOf], by simp, (Option.some.inj h).symm⟩
    · exact ⟨_, by simp [contactsOf], by simp, (Option.some.inj h).symm⟩

theorem contact_removeContact {m c : Nat} {s' : ContactList}
    (h : s.removeContact nameOnly m c = some s') :
    s'.contact = s.contact ∧ s'.metaContacts = s.metaContacts := by
  rcases removeContact_cases h with ⟨-, rfl⟩ | ⟨-, mc, -, -, rfl⟩
  · exact ⟨rfl, rfl⟩
  · exact ⟨rfl, rfl⟩

theorem contactsOf_removeContact {m c : Nat} (hMem : c ∈ s.contactsOf m) {s' : ContactList}
    (h : s.removeContact nameOnly m c = some s') :
    s'.contactsOf m = QList.removeAll (s.contactsOf m) c := by
  rcases removeContact_cases h with ⟨hAbsent, -⟩ | ⟨-, mc, hContacts, -, rfl⟩
  · exact absurd hMem hAbsent
  · rw [contactsOf_setMeta, if_pos rfl, hContacts]

/-- The metacontact a contact has left. -/
theorem moved_some {c old : Nat} {m : Option Nat} (hOld : (s.contact c).metaContact = some old)
    (hMoves : (s.contact c).metaContact ≠ m) :
    ∃ s', s.removeContact nameOnly old c = some s' ∧
      s.moved c m = (s'.unlist old).putContact c m := by
  obtain ⟨s', hRemove⟩ := exists_removeContact (s := s) old c
  have hMove : s.setMetaContact nameOnly c m = _ := setMetaContact_some hOld hMoves
  rw [setMetaContact_nameOnly, hRemove] at hMove
  exact ⟨s', hRemove, Option.some.inj hMove⟩

theorem pointer_moved (c : Nat) (m : Option Nat) (x : Nat) :
    ((s.moved c m).contact x).metaContact = if x = c then m else (s.contact x).metaContact := by
  by_cases hSame : (s.contact c).metaContact = m
  · have hMove : s.setMetaContact nameOnly c m = some s := setMetaContact_same hSame
    rw [setMetaContact_nameOnly] at hMove
    rw [Option.some.inj hMove]
    split
    · next hHere => rw [hHere, hSame]
    · rfl
  · cases hOld : (s.contact c).metaContact with
    | none =>
      have hMove : s.setMetaContact nameOnly c m = some (s.putContact c m) :=
        setMetaContact_none hOld hSame
      rw [setMetaContact_nameOnly] at hMove
      rw [Option.some.inj hMove, pointer_putContact]
    | some old =>
      obtain ⟨s', hRemove, hMove⟩ := moved_some hOld hSame
      rw [hMove, pointer_putContact, contact_unlist, (contact_removeContact hRemove).1]

theorem consistent_moved (h : s.Consistent) (c : Nat) (m : Option Nat) :
    (s.moved c m).Consistent := by
  have hBut := (consistentBut_iff s).2 h
  exact (consistentBut_iff _).1
    (setMetaContact_sound sound_nameOnly hBut id (setMetaContact_nameOnly s c m)).1

theorem mem_moved (h : s.Consistent) (c : Nat) (m : Option Nat) (x k : Nat) :
    x ∈ (s.moved c m).contactsOf k ↔ if x = c then m = some k else x ∈ s.contactsOf k := by
  rw [(consistent_moved h c m).mem_iff, pointer_moved]
  split
  · rfl
  · exact (h.mem_iff x k).symm

/-- A metacontact that the contact was not in still has the contacts it had. -/
theorem keeps_of_ne (h : s.Consistent) {c k : Nat} (m : Option Nat)
    (hOther : (s.contact c).metaContact ≠ some k) :
    m = some k ∨ s.contactsOf k = [] ∨ (s.moved c m).contactsOf k ≠ [] := by
  by_cases hEmpty : (s.moved c m).contactsOf k = []
  · refine .inr (.inl ?_)
    rw [List.eq_nil_iff_forall_not_mem] at hEmpty ⊢
    intro x hx
    have hNe : x ≠ c := by
      rintro rfl
      exact hOther ((h.mem_iff x k).1 hx)
    exact hEmpty x ((mem_moved h c m x k).2 (by rwa [if_neg hNe]))
  · exact .inr (.inr hEmpty)

/-- A metacontact is taken off the list when its last contact leaves it. -/
theorem mem_metaContacts_moved (h : s.Consistent) (c : Nat) (m : Option Nat) (k : Nat) :
    k ∈ (s.moved c m).metaContacts ↔ k ∈ s.metaContacts ∧
      (m = some k ∨ s.contactsOf k = [] ∨ (s.moved c m).contactsOf k ≠ []) := by
  by_cases hSame : (s.contact c).metaContact = m
  · have hMove : s.setMetaContact nameOnly c m = some s := setMetaContact_same hSame
    rw [setMetaContact_nameOnly] at hMove
    have hEq : s.moved c m = s := Option.some.inj hMove
    rw [hEq]
    by_cases hEmpty : s.contactsOf k = []
    · simp [hEmpty]
    · simp [hEmpty]
  · cases hOld : (s.contact c).metaContact with
    | none =>
      have hMove : s.setMetaContact nameOnly c m = some (s.putContact c m) :=
        setMetaContact_none hOld hSame
      rw [setMetaContact_nameOnly] at hMove
      have hListed : (s.moved c m).metaContacts = s.metaContacts := by
        rw [Option.some.inj hMove, metaContacts_putContact]
      rw [hListed, and_iff_left (keeps_of_ne h m (by simp [hOld]))]
    | some old =>
      obtain ⟨s', hRemove, hMove⟩ := moved_some hOld hSame
      have hListed : k ∈ (s.moved c m).metaContacts ↔
          k ∈ s.metaContacts ∧ ¬ (k = old ∧ s'.contactsOf old = []) := by
        rw [hMove, metaContacts_putContact, mem_unlist, (contact_removeContact hRemove).2]
      rw [hListed]
      by_cases hHere : k = old
      · subst hHere
        have hTarget : m ≠ some k := fun hTarget => hSame (hOld.trans hTarget.symm)
        have hFull : s.contactsOf k ≠ [] := List.ne_nil_of_mem ((h.mem_iff c k).2 hOld)
        have hLeft : (s.moved c m).contactsOf k = s'.contactsOf k := by
          rw [hMove, contactsOf_putContact, contactsOf_unlist, if_neg fun hPut => hTarget hPut.1]
        simp [hTarget, hFull, hLeft]
      · have hOther : (s.contact c).metaContact ≠ some k := fun hPointer =>
          hHere (Option.some.inj (hPointer.symm.trans hOld))
        rw [and_iff_left (keeps_of_ne h m hOther), and_iff_left fun hBoth => hHere hBoth.1]

/-! ## Many contacts -/

/-- `s'` is `s` after the contacts `gone` have moved to `t`: every other contact is where
it was, and what has been emptied is no longer listed. -/
structure MovedTo (s s' : ContactList) (t : Option Nat) (gone : Nat → Prop) : Prop where
  consistent : s'.Consistent
  mem_iff : ∀ x k, x ∈ s'.contactsOf k ↔ (gone x ∧ t = some k) ∨ (¬ gone x ∧ x ∈ s.contactsOf k)
  listed : ∀ k, k ∈ s'.metaContacts ↔ k ∈ s.metaContacts ∧
    (t = some k ∨ s.contactsOf k = [] ∨ s'.contactsOf k ≠ [])

theorem movedTo_moved (h : s.Consistent) (c : Nat) (m : Option Nat) :
    MovedTo s (s.moved c m) m fun x => x = c := by
  refine ⟨consistent_moved h c m, fun x k => ?_, mem_metaContacts_moved h c m⟩
  rw [mem_moved h]
  split
  · next hHere => simp [hHere]
  · next hOther => simp [hOther]

theorem movedTo_refl (h : s.Consistent) (t : Option Nat) : MovedTo s s t fun _ => False :=
  ⟨h, fun x k => by simp, fun k => by tauto⟩

theorem movedTo_trans {s₁ s₂ s₃ : ContactList} {t : Option Nat} {gone gone' : Nat → Prop}
    (h : MovedTo s₁ s₂ t gone) (h' : MovedTo s₂ s₃ t gone') :
    MovedTo s₁ s₃ t fun x => gone x ∨ gone' x := by
  refine ⟨h'.consistent, fun x k => ?_, fun k => ?_⟩
  · rw [h'.mem_iff, h.mem_iff]
    tauto
  · have hShrinks : t ≠ some k → (s₁.contactsOf k = [] → s₂.contactsOf k = []) ∧
        (s₂.contactsOf k = [] → s₃.contactsOf k = []) := by
      intro hOther
      constructor
      · intro hEmpty
        rw [List.eq_nil_iff_forall_not_mem] at hEmpty ⊢
        intro x hx
        rcases (h.mem_iff x k).1 hx with ⟨-, hTarget⟩ | ⟨-, hIn⟩
        · exact hOther hTarget
        · exact hEmpty x hIn
      · intro hEmpty
        rw [List.eq_nil_iff_forall_not_mem] at hEmpty ⊢
        intro x hx
        rcases (h'.mem_iff x k).1 hx with ⟨-, hTarget⟩ | ⟨-, hIn⟩
        · exact hOther hTarget
        · exact hEmpty x hIn
    rw [h'.listed, h.listed]
    tauto

/-- **Contacts that move one after the other.** -/
theorem movedTo_movedAll (m : Nat) : ∀ (cs : List Nat) {s : ContactList}, s.Consistent →
    MovedTo s (s.movedAll cs m) (some m) fun x => x ∈ cs
  | [], s, h => by
    have hNothing := movedTo_refl h (some m)
    simpa [movedAll] using hNothing
  | c :: cs, s, h => by
    have hFirst := movedTo_moved h c (some m)
    have hRest := movedTo_movedAll m cs hFirst.consistent
    have hBoth := movedTo_trans hFirst hRest
    simpa [movedAll] using hBoth

/-! ## When nothing is merged -/

theorem setName_self (m : Nat) : s.setName m (s.metaContact m).displayName = s := by
  unfold setName setMeta
  rw [Function.update_eq_self]

/-- `setDisplayName` merges what `mergedBy` says, and names the metacontact. -/
theorem setDisplayName_eq (n m : Nat) (name : QString) :
    setDisplayName (n + 1) s m name =
      (match s.mergedBy m name with
        | some m' =>
          mergeLoop (fun s c => s.setMetaContact (setDisplayName n) c (some m)) m' n s
        | none => some s).map fun (s : ContactList) => s.setName m name := by
  rw [setDisplayName]
  by_cases hSame : name = (s.metaContact m).displayName
  · rw [if_pos hSame, mergedBy, if_pos (.inl hSame), hSame, Option.map_some, setName_self]
  by_cases hLoading : (s.metaContact m).loading = true
  · rw [if_neg hSame, if_pos hLoading, mergedBy, if_pos (.inr (.inl hLoading)), Option.map_some]
  rw [if_neg hSame, if_neg hLoading]
  unfold mergeSameNamed
  by_cases hStays : (s.metaContact m).temporary = true ∨ name = []
  · rw [mergedBy, if_pos (.inr (.inr hStays))]
    simp only
    rw [if_neg (by rcases hStays with h | h <;> simp [h])]
  · have hMerged : s.mergedBy m name = s.sameNamed m name := by
      rw [not_or] at hStays
      simp [mergedBy, hSame, hLoading, hStays]
    rw [not_or] at hStays
    have hGuard : (!(s.metaContact m).temporary && decide (name ≠ [])) = true := by
      simp [hStays]
    rw [hMerged]
    cases s.sameNamed m name with
    | none => exact congrArg (Option.map fun s => setName s m name) (if_pos hGuard)
    | some m' => exact congrArg (Option.map fun s => setName s m name) (if_pos hGuard)

/-- A name that moves no contact. -/
theorem setDisplayName_unmerged {m : Nat} {name : QString}
    (h : ∀ m', s.mergedBy m name = some m' → s.contactsOf m' = []) (n : Nat) :
    setDisplayName (n + 2) s m name = some (s.setName m name) := by
  rw [setDisplayName_eq]
  cases hMerged : s.mergedBy m name with
  | none => rfl
  | some m' => simp only [mergeLoop, h m' hMerged, Option.map_some]

/-- The names on the list, but for that of `m`, decide what is merged into `m`. -/
theorem mergedBy_setMeta {m : Nat} {mc : MetaContact} (name : QString)
    (hName : mc.displayName = (s.metaContact m).displayName)
    (hLoading : mc.loading = (s.metaContact m).loading)
    (hTemporary : mc.temporary = (s.metaContact m).temporary) :
    (s.setMeta m mc).mergedBy m name = s.mergedBy m name := by
  have hFind : (s.setMeta m mc).sameNamed m name = s.sameNamed m name := by
    unfold sameNamed
    refine List.find?_congr fun k _ => ?_
    rw [metaContact_setMeta]
    by_cases hSame : k = m
    · simp [hSame]
    · rw [if_neg hSame]
  simp only [mergedBy, metaContact_setMeta, if_true, hName, hLoading, hTemporary, hFind]

theorem sameNamed_ne {m m' : Nat} {name : QString} (h : s.sameNamed m name = some m') : m' ≠ m := by
  have hFound := List.find?_some h
  simp only [Bool.and_eq_true, decide_eq_true_eq] at hFound
  exact hFound.1.2

theorem mergedBy_some {m m' : Nat} {name : QString} (h : s.mergedBy m name = some m') :
    s.sameNamed m name = some m' := by
  unfold mergedBy at h
  split at h
  · cases h
  · exact h

theorem removeContact_undisturbed {c old : Nat} (h : s.Undisturbed c)
    (hOld : (s.contact c).metaContact = some old) (n : Nat) :
    s.removeContact (setDisplayName (n + 2)) old c = s.removeContact nameOnly old c := by
  unfold removeContact
  by_cases hAbsent : c ∉ s.contactsOf old
  · rw [if_pos hAbsent, if_pos hAbsent]
  rw [if_neg hAbsent, if_neg hAbsent]
  simp only
  by_cases hTracking : (s.metaContact old).wasTrackingName = true
  · rw [if_pos hTracking, if_pos hTracking]
    split
    · next hEmpty =>
      have hLast : QList.removeAll (s.contactsOf old) c = [] := by
        simpa [contactsOf] using hEmpty
      refine setDisplayName_unmerged (fun m' hMerged => ?_) n
      rw [mergedBy_setMeta _ (by simp) (by simp) (by simp)] at hMerged
      rw [contactsOf_setMeta, if_neg (sameNamed_ne (mergedBy_some hMerged))]
      exact h old hOld hTracking hLast m' hMerged
    · rfl
  · rw [if_neg hTracking, if_neg hTracking]

/-- **A move that merges nothing.** -/
theorem setMetaContact_undisturbed {c : Nat} {m : Option Nat}
    (h : (s.contact c).metaContact ≠ m → s.Undisturbed c) (n : Nat) :
    s.setMetaContact (setDisplayName (n + 2)) c m = some (s.moved c m) := by
  rw [← setMetaContact_nameOnly]
  by_cases hSame : (s.contact c).metaContact = m
  · rw [setMetaContact_same hSame, setMetaContact_same hSame]
  · cases hOld : (s.contact c).metaContact with
    | none => rw [setMetaContact_none hOld hSame, setMetaContact_none hOld hSame]
    | some old =>
      rw [setMetaContact_some hOld hSame, setMetaContact_some hOld hSame,
        removeContact_undisturbed (h hSame) hOld n]

/-- **A merge that nothing comes in between.** -/
theorem mergeLoop_undisturbed {m t : Nat} (hOther : m ≠ t) (k : Nat) : ∀ {cs : List Nat}
    {s : ContactList}, s.Consistent → s.contactsOf m = cs → s.AllUndisturbed cs t → ∀ {n : Nat},
      cs.length + 1 ≤ n →
        mergeLoop (fun s c => s.setMetaContact (setDisplayName (k + 2)) c (some t)) m n s =
          some (s.movedAll cs t)
  | _, _, _, _, _, 0, hFuel => by omega
  | [], s, _, hContacts, _, n + 1, _ => by
    rw [mergeLoop, hContacts]
    rfl
  | c :: cs, s, h, hContacts, hQuiet, n + 1, hFuel => by
    have hMem : c ∈ s.contactsOf m := by simp [hContacts]
    have hIn := (h.mem_iff c m).1 hMem
    have hMoves : (s.contact c).metaContact ≠ some t := by
      rw [hIn]
      exact fun hSame => hOther (Option.some.inj hSame)
    have hRest : (s.moved c (some t)).contactsOf m = cs := by
      obtain ⟨s', hRemove, hMove⟩ := moved_some hIn hMoves
      have hNodup := h.nodup m
      rw [hContacts, List.nodup_cons] at hNodup
      rw [hMove, contactsOf_putContact, contactsOf_unlist, contactsOf_removeContact hMem hRemove,
        hContacts, if_neg fun hPut => hOther (Option.some.inj hPut.1).symm,
        QList.removeAll_cons_self, QList.removeAll_of_not_mem hNodup.1]
    rw [mergeLoop, hContacts]
    simp only [setMetaContact_undisturbed hQuiet.1, Option.bind_some]
    exact mergeLoop_undisturbed hOther k (consistent_moved h c (some t)) hRest hQuiet.2
      (Nat.le_of_succ_le_succ hFuel)

theorem movedTo_congr {s' : ContactList} {t : Option Nat} {gone gone' : Nat → Prop}
    (hSame : ∀ x, gone x ↔ gone' x) (h : MovedTo s s' t gone) : MovedTo s s' t gone' := by
  obtain rfl : gone = gone' := funext fun x => propext (hSame x)
  exact h

theorem movedTo_setName {s' : ContactList} {t : Option Nat} {gone : Nat → Prop}
    (h : MovedTo s s' t gone) (m : Nat) (name : QString) :
    MovedTo s (s'.setName m name) t gone := by
  have hBut := consistentBut_setName ((consistentBut_iff s').2 h.consistent) m name
  refine ⟨(consistentBut_iff _).1 hBut.1, fun x k => ?_, fun k => ?_⟩
  · rw [contactsOf_setName]
    exact h.mem_iff x k
  · rw [contactsOf_setName]
    exact h.listed k

end Moved

/-! ## Operations -/

/-- `ContactList::mergeMetaContacts`. -/
def mergeMetaContacts (n : Nat) (src : List Nat) (dst : Nat) : Option ContactList :=
  src.foldlM (fun (s : ContactList) mc => (s.contactsOf mc).foldlM
    (fun s c => s.setMetaContact (setDisplayName n) c (some dst)) s) s

/-- What is done to a contact list. -/
inductive Op where
  | setMetaContact (c : Nat) (m : Option Nat)
  | setDisplayName (m : Nat) (name : QString)
  | mergeMetaContacts (src : List Nat) (dst : Nat)
  | removeMetaContact (m : Nat)

def perform (n : Nat) : Op → Option ContactList
  | .setMetaContact c m => s.setMetaContact (setDisplayName n) c m
  | .setDisplayName m name => setDisplayName n s m name
  | .mergeMetaContacts src dst => s.mergeMetaContacts n src dst
  | .removeMetaContact m => some (s.removeMetaContact m)

/-- The operation ends, in `s'`. -/
def Returns (op : Op) (s' : ContactList) : Prop := ∃ n₀, ∀ n, n₀ ≤ n → s.perform n op = some s'

/-- Metacontacts have been merged into `t`: it has its contacts and all of theirs, and those
that have been emptied are no longer listed. -/
structure Merged (s s' : ContactList) (t : Nat) (sources : List Nat) : Prop where
  own : ∀ c ∈ s.contactsOf t, c ∈ s'.contactsOf t
  taken : ∀ m ∈ sources, ∀ c ∈ s.contactsOf m, c ∈ s'.contactsOf t
  emptied : ∀ m ∈ sources, m ≠ t → s.contactsOf m ≠ [] →
    s'.contactsOf m = [] ∧ m ∉ s'.metaContacts
  listed : t ∈ s.metaContacts → t ∈ s'.metaContacts
  lost : ∀ m, ∀ c ∈ s.contactsOf m, ∃ m', c ∈ s'.contactsOf m'

/-- What an operation is for. -/
def Done (s' : ContactList) : Op → Prop
  | .setMetaContact c m => ∀ k, c ∈ s'.contactsOf k ↔ m = some k
  | .setDisplayName m name =>
    (s'.metaContact m).displayName = name ∧ Merged s s' m (s.mergedBy m name).toList
  | .mergeMetaContacts src dst => Merged s s' dst src
  | .removeMetaContact m => m ∉ s'.metaContacts ∧ s'.contactsOf = s.contactsOf

/-- All contacts of metacontacts have moved to `dst`, one metacontact after the other. -/
def mergedAll (src : List Nat) (dst : Nat) : ContactList :=
  src.foldl (fun s mc => s.movedAll (s.contactsOf mc) dst) s

/-- No metacontact that an operation empties takes in another one by the name of its last
contact. -/
def OpUndisturbed : Op → Prop
  | .setMetaContact c m => (s.contact c).metaContact ≠ m → s.Undisturbed c
  | .setDisplayName m name =>
    ∀ m', s.mergedBy m name = some m' → s.AllUndisturbed (s.contactsOf m') m
  | .mergeMetaContacts src dst =>
    Run.StepsMeet (fun s mc => s.movedAll (s.contactsOf mc) dst)
      (fun s mc => s.AllUndisturbed (s.contactsOf mc) dst) s src
  | .removeMetaContact _ => True

section Operations

variable {s}

theorem merged_of_movedTo {s' : ContactList} {t : Nat} {gone : Nat → Prop}
    (h : MovedTo s s' (some t) gone) {sources : List Nat}
    (hGone : ∀ m ∈ sources, ∀ c ∈ s.contactsOf m, gone c) : Merged s s' t sources := by
  constructor
  · intro c hc
    by_cases hMoved : gone c
    · exact (h.mem_iff c t).2 (.inl ⟨hMoved, rfl⟩)
    · exact (h.mem_iff c t).2 (.inr ⟨hMoved, hc⟩)
  · intro m hm c hc
    exact (h.mem_iff c t).2 (.inl ⟨hGone m hm c hc, rfl⟩)
  · intro m hm hOther hFull
    have hTarget : some t ≠ some m := fun hSame => hOther (Option.some.inj hSame).symm
    have hEmpty : s'.contactsOf m = [] := by
      rw [List.eq_nil_iff_forall_not_mem]
      intro c hc
      rcases (h.mem_iff c m).1 hc with ⟨-, hSame⟩ | ⟨hNot, hIn⟩
      · exact hTarget hSame
      · exact hNot (hGone m hm c hIn)
    refine ⟨hEmpty, fun hListed => ?_⟩
    rcases ((h.listed m).1 hListed).2 with hSame | hNone | hSome
    · exact hTarget hSame
    · exact hFull hNone
    · exact hSome hEmpty
  · exact fun hListed => (h.listed t).2 ⟨hListed, .inl rfl⟩
  · intro m c hc
    by_cases hMoved : gone c
    · exact ⟨t, (h.mem_iff c t).2 (.inl ⟨hMoved, rfl⟩)⟩
    · exact ⟨m, (h.mem_iff c m).2 (.inr ⟨hMoved, hc⟩)⟩

theorem foldlM_undisturbed {dst : Nat} (n : Nat) : ∀ {cs : List Nat} {s : ContactList},
    s.AllUndisturbed cs dst →
      cs.foldlM (fun (s : ContactList) c =>
        s.setMetaContact (setDisplayName (n + 2)) c (some dst)) s = some (s.movedAll cs dst)
  | [], _, _ => rfl
  | c :: cs, s, h => by
    rw [List.foldlM_cons, setMetaContact_undisturbed h.1]
    exact foldlM_undisturbed n h.2

theorem mergeMetaContacts_undisturbed {dst : Nat} (n : Nat) : ∀ {src : List Nat} {s : ContactList},
    s.OpUndisturbed (.mergeMetaContacts src dst) →
      s.mergeMetaContacts (n + 2) src dst = some (s.mergedAll src dst)
  | [], _, _ => rfl
  | mc :: src, s, h => by
    have hRest : (s.movedAll (s.contactsOf mc) dst).mergeMetaContacts (n + 2) src dst = some _ :=
      mergeMetaContacts_undisturbed n h.2
    unfold mergeMetaContacts at hRest ⊢
    rw [List.foldlM_cons, foldlM_undisturbed n h.1]
    exact hRest

theorem movedTo_mergedAll (dst : Nat) : ∀ (src : List Nat) {s : ContactList}, s.Consistent →
    MovedTo s (s.mergedAll src dst) (some dst) fun x => ∃ mc ∈ src, x ∈ s.contactsOf mc
  | [], s, h => by
    refine movedTo_congr (fun x => ?_) (movedTo_refl h (some dst))
    simp
  | mc :: src, s, h => by
    have hFirst := movedTo_movedAll dst (s.contactsOf mc) h
    have hRest := movedTo_mergedAll dst src hFirst.consistent
    refine movedTo_congr (fun x => ?_) (movedTo_trans hFirst hRest)
    simp only [List.mem_cons, exists_eq_or_imp]
    constructor
    · rintro (hHere | ⟨k, hk, hx⟩)
      · exact .inl hHere
      · rcases (hFirst.mem_iff x k).1 hx with ⟨hHere, -⟩ | ⟨-, hThere⟩
        · exact .inl hHere
        · exact .inr ⟨k, hk, hThere⟩
    · rintro (hHere | ⟨k, hk, hx⟩)
      · exact .inl hHere
      · by_cases hHere : x ∈ s.contactsOf mc
        · exact .inl hHere
        · exact .inr ⟨k, hk, (hFirst.mem_iff x k).2 (.inr ⟨hHere, hx⟩)⟩

/-- A metacontact with its new name, and what has been merged into it. -/
def named (s : ContactList) (m : Nat) (name : QString) : ContactList :=
  ((s.mergedBy m name).elim s fun m' => s.movedAll (s.contactsOf m') m).setName m name

theorem returns_setDisplayName (h : s.Consistent) {m : Nat} {name : QString}
    (hQuiet : s.OpUndisturbed (.setDisplayName m name)) :
    s.Returns (.setDisplayName m name) (s.named m name) := by
  refine ⟨((s.mergedBy m name).elim 0 fun m' => (s.contactsOf m').length) + 3, fun n hFuel => ?_⟩
  obtain ⟨k, rfl⟩ : ∃ k, n = k + 3 := ⟨n - 3, by omega⟩
  rw [perform, setDisplayName_eq, named]
  cases hMerged : s.mergedBy m name with
  | none => rfl
  | some m' =>
    have hLoop := mergeLoop_undisturbed (sameNamed_ne (mergedBy_some hMerged)) k h rfl
      (hQuiet m' hMerged) (n := k + 2) (by simp only [hMerged, Option.elim] at hFuel; omega)
    simp only [hLoop]
    rfl

theorem movedTo_named (h : s.Consistent) (m : Nat) (name : QString) :
    MovedTo s (s.named m name) (some m) fun x =>
      ∃ m' ∈ (s.mergedBy m name).toList, x ∈ s.contactsOf m' := by
  refine movedTo_setName ?_ m name
  cases s.mergedBy m name with
  | none => exact movedTo_congr (fun x => by simp) (movedTo_refl h (some m))
  | some m' => exact movedTo_congr (fun x => by simp) (movedTo_movedAll m _ h)

theorem displayName_named (m : Nat) (name : QString) :
    ((s.named m name).metaContact m).displayName = name := by
  rw [named, setName, metaContact_setMeta, if_pos rfl]

theorem consistent_removeMetaContact (h : s.Consistent) (m : Nat) :
    (s.removeMetaContact m).Consistent :=
  ⟨fun c k => by simpa using h.mem_iff c k, fun k => by simpa using h.nodup k⟩

/-- **One operation.** -/
theorem op_done (h : s.Consistent) (op : Op) (hQuiet : s.OpUndisturbed op) :
    ∃ s', s.Returns op s' ∧ s'.Consistent ∧ s.Done s' op := by
  cases op with
  | setMetaContact c m =>
    have hMoved := movedTo_moved h c m
    refine ⟨s.moved c m, ⟨2, fun n hFuel => ?_⟩, hMoved.consistent, fun k => ?_⟩
    · obtain ⟨k, rfl⟩ : ∃ k, n = k + 2 := ⟨n - 2, by omega⟩
      exact setMetaContact_undisturbed hQuiet k
    · rw [hMoved.mem_iff]
      simp
  | setDisplayName m name =>
    have hMoved := movedTo_named h m name
    exact ⟨_, returns_setDisplayName h hQuiet, hMoved.consistent, displayName_named m name,
      merged_of_movedTo hMoved fun m' hm c hc => ⟨m', hm, hc⟩⟩
  | mergeMetaContacts src dst =>
    have hMoved := movedTo_mergedAll dst src h
    refine ⟨s.mergedAll src dst, ⟨2, fun n hFuel => ?_⟩, hMoved.consistent,
      merged_of_movedTo hMoved fun m hm c hc => ⟨m, hm, hc⟩⟩
    obtain ⟨k, rfl⟩ : ∃ k, n = k + 2 := ⟨n - 2, by omega⟩
    exact mergeMetaContacts_undisturbed k hQuiet
  | removeMetaContact m =>
    refine ⟨s.removeMetaContact m, ⟨0, fun n _ => rfl⟩, consistent_removeMetaContact h m, ?_, ?_⟩
    · simp [metaContacts_removeMetaContact]
    · exact funext fun k => contactsOf_removeMetaContact m k

end Operations

/-- The contact lists reached by operations none of which is disturbed. -/
inductive Reached (s₀ : ContactList) : ContactList → Prop
  | start : Reached s₀ s₀
  | step {s s' : ContactList} {op : Op} : Reached s₀ s → s.OpUndisturbed op → s.Returns op s' →
      Reached s₀ s'

theorem returns_unique {op : Op} {s s₁ s₂ : ContactList} (h₁ : s.Returns op s₁)
    (h₂ : s.Returns op s₂) : s₁ = s₂ := by
  obtain ⟨n₁, h₁⟩ := h₁
  obtain ⟨n₂, h₂⟩ := h₂
  exact Option.some.inj ((h₁ _ (Nat.le_max_left n₁ n₂)).symm.trans (h₂ _ (Nat.le_max_right n₁ n₂)))

theorem consistent_reached {s₀ s : ContactList} (h : s₀.Consistent) (hs : Reached s₀ s) :
    s.Consistent := by
  induction hs with
  | start => exact h
  | step _ hQuiet hReturns ih =>
    obtain ⟨s', hReturns', hConsistent, -⟩ := op_done ih _ hQuiet
    rwa [returns_unique hReturns hReturns']

/-- **Merging is complete as long as nothing is merged in between.** In every contact list
that is reached the two sides are consistent, and every operation that is not disturbed
ends, keeps them so and does what it is for. -/
theorem merges_complete {s₀ : ContactList} (h : s₀.Consistent) {s : ContactList}
    (hs : Reached s₀ s) :
    s.Consistent ∧ ∀ op, s.OpUndisturbed op →
      ∃ s', s.Returns op s' ∧ s'.Consistent ∧ s.Done s' op :=
  ⟨consistent_reached h hs, fun op hQuiet => op_done (consistent_reached h hs) op hQuiet⟩

/-- Metacontact 1 is named A and holds contact 10. Metacontact 2 was named B, goes by the
name of its contact 20, which is A, and has not been asked for it. -/
def someList : ContactList where
  metaContact m :=
    if m = 1 then ⟨[65], .custom, none, [], [10], [.topLevel], false, false⟩
    else if m = 2 then ⟨[66], .contact, none, [], [20], [.topLevel], false, false⟩
    else ⟨[], .custom, none, [], [], [], false, false⟩
  contact c := if c = 10 then ⟨[67], some 1⟩ else if c = 20 then ⟨[65], some 2⟩ else ⟨[], none⟩
  metaContacts := [1, 2]

theorem contactsOf_someList (m : Nat) :
    someList.contactsOf m = if m = 1 then [10] else if m = 2 then [20] else [] := by
  unfold contactsOf someList
  simp only
  split
  · rfl
  · split <;> rfl

theorem pointer_someList (c : Nat) :
    (someList.contact c).metaContact =
      if c = 10 then some 1 else if c = 20 then some 2 else none := by
  unfold someList
  simp only
  split
  · rfl
  · split <;> rfl

theorem consistent_someList : someList.Consistent := by
  constructor
  · intro c m
    rw [contactsOf_someList, pointer_someList]
    grind
  · intro m
    rw [contactsOf_someList]
    split
    · simp
    · split <;> simp

theorem merges_someList :
    someList.Consistent ∧ ∀ op, someList.OpUndisturbed op →
      ∃ s', someList.Returns op s' ∧ s'.Consistent ∧ someList.Done s' op :=
  merges_complete consistent_someList .start

/-- Metacontact 1 is given the name of metacontact 2, which in turn takes in metacontact 1
when its contact leaves it: both are off the list in the end. -/
theorem target_unlisted :
    someList.Consistent ∧
      (∀ n, (someList.perform (n + 5) (.setDisplayName 1 [66])).map
        (fun s => (s.metaContacts, s.contactsOf 1)) = some ([], [20, 10])) ∧
      ¬ ∃ s', someList.Returns (.setDisplayName 1 [66]) s' ∧ s'.Consistent ∧
        someList.Done s' (.setDisplayName 1 [66]) := by
  have hEnd : ∀ n, (someList.perform (n + 5) (.setDisplayName 1 [66])).map
      (fun s => (s.metaContacts, s.contactsOf 1)) = some ([], [20, 10]) := fun _ => rfl
  refine ⟨consistent_someList, hEnd, ?_⟩
  rintro ⟨s', ⟨n₀, hReturns⟩, -, -, hMerged⟩
  have hUnlisted := hEnd n₀
  rw [hReturns (n₀ + 5) (by omega)] at hUnlisted
  have hListed : 1 ∈ s'.metaContacts := hMerged.listed (by decide)
  rw [(Prod.mk.inj (Option.some.inj hUnlisted)).1] at hListed
  cases hListed

end ContactList

end Kopete
