import Kopete.Lib.Run
import Kopete.Libkopete.MetaContactGroups
import Kopete.Libkopete.MetaContactMerge
import Mathlib

/-!
# libkopete — removing an account

An account that is to be removed takes its contacts out of their metacontacts, one after
the other. A metacontact that is left without contacts is taken off the contact list, and
with it its first group, if it was the last one there.

Main results:

* `stepped_removeContact` — what the removal of one contact does while nothing is merged;
* `removed_run` — what is left of the account after all of them;
* `unlisted_of_takes` — what a merge on the way does;
* `removesAccount_iff` — when nothing but the account goes.
-/

namespace Kopete

/-! ## A contact leaves -/

namespace ContactList

variable {s : ContactList}

/-- A metacontact with other data, of which its groups are as they were. -/
theorem groups_setMeta {m : Nat} {mc : MetaContact} (h : mc.groups = (s.metaContact m).groups)
    (k : Nat) : ((s.setMeta m mc).metaContact k).groups = (s.metaContact k).groups := by
  rw [metaContact_setMeta]
  split
  · next hSame => rw [h, hSame]
  · rfl

/-- **A contact leaves, and nothing is merged.** -/
theorem frame_removeContact {m c : Nat} {s' : ContactList}
    (h : s.removeContact nameOnly m c = some s') (k : Nat) :
    s'.contactsOf k = (if k = m then QList.removeAll (s.contactsOf m) c else s.contactsOf k) ∧
      (s'.metaContact k).groups = (s.metaContact k).groups := by
  rcases removeContact_cases h with ⟨hAbsent, rfl⟩ | ⟨-, mc, hContacts, hGroups, rfl⟩
  · rw [QList.removeAll_of_not_mem hAbsent]
    refine ⟨?_, rfl⟩
    split
    · next hSame => rw [hSame]
    · rfl
  · rw [contactsOf_setMeta, groups_setMeta hGroups, hContacts]
    exact ⟨rfl, rfl⟩

/-- A contact `k` that is merged into the metacontact that `c` leaves as the last one, when
it takes the name of `c`. -/
def Takes (s : ContactList) (c k : Nat) : Prop :=
  ∃ old m', (s.contact c).metaContact = some old ∧ c ∈ s.contactsOf old ∧
    (s.metaContact old).wasTrackingName ∧ QList.removeAll (s.contactsOf old) c = [] ∧
      s.mergedBy old (s.displayName old) = some m' ∧ k ∈ s.contactsOf m'

/-- **A contact leaves, and has nothing merged.** -/
theorem removeContact_of_not_takes {c old : Nat} (h : ∀ k, ¬ s.Takes c k)
    (hOld : (s.contact c).metaContact = some old) (n : Nat) :
    s.removeContact (setDisplayName (n + 2)) old c = s.removeContact nameOnly old c := by
  by_cases hMem : c ∈ s.contactsOf old
  · refine removeContact_undisturbed ?_ hOld n
    intro old' hOld' hTracking hLast m' hMerged
    obtain rfl : old = old' := Option.some.inj (hOld.symm.trans hOld')
    rw [List.eq_nil_iff_forall_not_mem]
    intro k hk
    exact h k ⟨old, m', hOld, hMem, hTracking, hLast, hMerged, hk⟩
  · unfold removeContact
    rw [if_pos hMem, if_pos hMem]

/-- The metacontact has contacts, and all of them are among `cs`. -/
def OnlyHas (s : ContactList) (cs : List Nat) (k : Nat) : Prop :=
  s.contactsOf k ≠ [] ∧ ∀ c ∈ s.contactsOf k, c ∈ cs

instance (s : ContactList) (cs : List Nat) (k : Nat) : Decidable (s.OnlyHas cs k) :=
  inferInstanceAs (Decidable (_ ∧ _))

/-! ## Off the list for good -/

/-- What is relied on of the renaming: no metacontact comes on the list. -/
def Shrinks (rename : ContactList → Nat → QString → Option ContactList) : Prop :=
  ∀ ⦃s : ContactList⦄ ⦃m : Nat⦄ ⦃name : QString⦄ ⦃s' : ContactList⦄,
    rename s m name = some s' → s'.metaContacts ⊆ s.metaContacts

variable {rename : ContactList → Nat → QString → Option ContactList}

theorem shrinks_removeContact (hRename : Shrinks rename) {m c : Nat} {s' : ContactList}
    (h : s.removeContact rename m c = some s') : s'.metaContacts ⊆ s.metaContacts := by
  unfold removeContact at h
  split at h
  · obtain rfl := Option.some.inj h
    exact List.Subset.refl _
  · simp only at h
    split at h
    · split at h
      · have hShrinks := hRename h
        exact hShrinks
      · obtain rfl := Option.some.inj h
        exact List.Subset.refl _
    · obtain rfl := Option.some.inj h
      exact List.Subset.refl _

theorem shrinks_setMetaContact (hRename : Shrinks rename) {c : Nat} {m : Option Nat}
    {s' : ContactList} (h : s.setMetaContact rename c m = some s') :
    s'.metaContacts ⊆ s.metaContacts := by
  by_cases hSame : (s.contact c).metaContact = m
  · rw [setMetaContact_same hSame] at h
    obtain rfl := Option.some.inj h
    exact List.Subset.refl _
  cases hOld : (s.contact c).metaContact with
  | none =>
    rw [setMetaContact_none hOld hSame] at h
    obtain rfl := Option.some.inj h
    rw [metaContacts_putContact]
    exact List.Subset.refl _
  | some old =>
    rw [setMetaContact_some hOld hSame] at h
    obtain ⟨s₁, hRemove, rfl⟩ := Option.map_eq_some_iff.1 h
    rw [metaContacts_putContact]
    intro k hk
    exact shrinks_removeContact hRename hRemove (mem_unlist.1 hk).1

theorem shrinks_mergeLoop (hRename : Shrinks rename) {m t : Nat} : ∀ {n : Nat}
    {s s' : ContactList},
    mergeLoop (fun s c => s.setMetaContact rename c (some t)) m n s = some s' →
      s'.metaContacts ⊆ s.metaContacts
  | 0, _, _, hLoop => by simp [mergeLoop] at hLoop
  | n + 1, s, s', hLoop => by
    rw [mergeLoop] at hLoop
    split at hLoop
    · obtain rfl := Option.some.inj hLoop
      exact List.Subset.refl _
    · next c rest hContacts =>
      obtain ⟨s₁, hMove, hRest⟩ := Option.bind_eq_some_iff.1 hLoop
      have hMoved := shrinks_setMetaContact hRename hMove
      exact List.Subset.trans (shrinks_mergeLoop hRename hRest) hMoved

theorem shrinks_setDisplayName : ∀ n, Shrinks (setDisplayName n)
  | 0 => fun _ _ _ _ hRename => by simp [setDisplayName] at hRename
  | n + 1 => by
    intro s m name s' hRename
    rw [setDisplayName_eq] at hRename
    obtain ⟨s₁, hMerge, rfl⟩ := Option.map_eq_some_iff.1 hRename
    split at hMerge
    · have hShrinks := shrinks_mergeLoop (shrinks_setDisplayName n) hMerge
      exact hShrinks
    · obtain rfl := Option.some.inj hMerge
      exact List.Subset.refl _

/-- **A metacontact that is merged into another one is taken off the list.** -/
theorem unlisted_mergeLoop (hSound : Sound rename) (hRename : Shrinks rename) {m t : Nat}
    (hOther : m ≠ t) {away : Nat → Prop} : ∀ {n : Nat} {s s' : ContactList},
    s.ConsistentBut away → s.contactsOf m ≠ [] →
    mergeLoop (fun s c => s.setMetaContact rename c (some t)) m n s = some s' →
      m ∉ s'.metaContacts
  | 0, _, _, _, _, hLoop => by simp [mergeLoop] at hLoop
  | n + 1, s, s', h, hFull, hLoop => by
    rw [mergeLoop] at hLoop
    split at hLoop
    · next hEmpty => exact absurd hEmpty hFull
    · next c rest hContacts =>
      obtain ⟨s₁, hMove, hRest⟩ := Option.bind_eq_some_iff.1 hLoop
      obtain ⟨hIn, hHere⟩ := (h.mem_iff c m).1 (by simp [hContacts])
      have hConsistent := (setMetaContact_sound hSound h hHere hMove).1
      by_cases hEmpty : s₁.contactsOf m = []
      · -- the contact was the last one, and with it the metacontact went
        have hMoves : (s.contact c).metaContact ≠ some t := by
          rw [hIn]
          exact fun hSame => hOther (Option.some.inj hSame)
        rw [setMetaContact_some hIn hMoves] at hMove
        obtain ⟨s₂, hRemove, rfl⟩ := Option.map_eq_some_iff.1 hMove
        have hLeft : s₂.contactsOf m = [] := by
          rw [contactsOf_putContact, contactsOf_unlist] at hEmpty
          rwa [if_neg fun hPut => hOther (Option.some.inj hPut.1).symm] at hEmpty
        intro hListed
        have hStill := shrinks_mergeLoop hRename hRest hListed
        rw [metaContacts_putContact] at hStill
        exact (mem_unlist.1 hStill).2 ⟨rfl, hLeft⟩
      · exact unlisted_mergeLoop hSound hRename hOther hConsistent hEmpty hRest

/-- **A contact leaves, and a metacontact is merged**: that one is off the list. -/
theorem unlisted_removeContact {away : Nat → Prop} (h : s.ConsistentBut away) {n c old m' : Nat}
    (hMem : c ∈ s.contactsOf old) (hTracking : (s.metaContact old).wasTrackingName)
    (hLast : QList.removeAll (s.contactsOf old) c = [])
    (hMerged : s.mergedBy old (s.displayName old) = some m') (hFull : s.contactsOf m' ≠ [])
    {s' : ContactList} (hRemove : s.removeContact (setDisplayName n) old c = some s') :
    m' ∉ s'.metaContacts := by
  have hOther : m' ≠ old := sameNamed_ne (mergedBy_some hMerged)
  let mc := ((s.metaContact old).dropContact c).setDisplayNameSource .custom
  have hContacts : mc.contacts = QList.removeAll (s.contactsOf old) c := by
    simp [mc, contactsOf]
  have hEmpty : ((s.metaContact old).dropContact c).contacts = [] := by
    simpa [contactsOf] using hLast
  have hRename : setDisplayName n (s.setMeta old mc) old (s.displayName old) = some s' := by
    unfold removeContact at hRemove
    rw [if_neg (by simpa using hMem)] at hRemove
    simp only [hTracking, if_true, hEmpty] at hRemove
    exact hRemove
  have hSame : (s.setMeta old mc).mergedBy old (s.displayName old) = some m' := by
    rw [mergedBy_setMeta _ (by simp [mc]) (by simp [mc]) (by simp [mc]), hMerged]
  have hStill : (s.setMeta old mc).contactsOf m' ≠ [] := by
    rwa [contactsOf_setMeta, if_neg hOther]
  have hConsistent := consistentBut_drop h hContacts ((h.mem_iff c old).1 hMem).1
  cases n with
  | zero => simp [setDisplayName] at hRename
  | succ n =>
    rw [setDisplayName_eq, hSame] at hRename
    obtain ⟨s₁, hLoop, rfl⟩ := Option.map_eq_some_iff.1 hRename
    have hUnlisted := unlisted_mergeLoop (setDisplayName_sound n) (shrinks_setDisplayName n)
      hOther hConsistent hStill hLoop
    exact hUnlisted

end ContactList

/-! ## The loop over the contacts -/

/-- The contact list in the middle of a removal, and the groups that have been deleted. -/
structure Cleanup where
  contactList : GroupedList
  deletedGroups : List Group

namespace Cleanup

variable (s : Cleanup)

/-- `ContactList::removeGroup`, which deletes the group. -/
def removeGroup (g : Group) : Cleanup where
  contactList := s.contactList.removeGroup g
  deletedGroups := if g = .topLevel then s.deletedGroups else s.deletedGroups ++ [g]

def setList (list : ContactList) : Cleanup :=
  { s with contactList := { s.contactList with list := list } }

/-- A metacontact without contacts is removed, and its first group if it was alone there;
`none` if there is no first group. -/
def dropMetaContact (mc : Nat) : Option Cleanup :=
  match s.contactList.groupsOf mc with
  | [] => none
  | group :: _ =>
    let groupMembers := s.contactList.members group
    let s : Cleanup := { s with contactList := s.contactList.removeMetaContact mc }
    if groupMembers.length = 1 ∧ mc ∈ groupMembers then some (s.removeGroup group) else some s

/-- The body of the loop; `none` if the contact has no metacontact, which is dereferenced. -/
def removeContact (rename : ContactList → Nat → QString → Option ContactList) (c : Nat) :
    Option Cleanup :=
  match (s.contactList.list.contact c).metaContact with
  | none => none
  | some mc =>
    (s.contactList.list.removeContact rename mc c).bind fun list =>
      if list.contactsOf mc = [] then (s.setList list).dropMetaContact mc
      else some (s.setList list)

/-- The loop; null pointers are passed over. -/
def removeContacts (rename : ContactList → Nat → QString → Option ContactList)
    (contacts : List (Option Nat)) : Option Cleanup :=
  contacts.foldlM (fun (s : Cleanup) c? =>
    match c? with
    | none => some s
    | some c => s.removeContact rename c) s

end Cleanup

/-! ## The removal of one contact -/

namespace GroupedList

variable {s : GroupedList}

theorem list_removeMetaContact (m : Nat) :
    (s.removeMetaContact m).list = s.list.removeMetaContact m := by
  unfold removeMetaContact ContactList.removeMetaContact
  split
  · rfl
  · rfl

theorem groups_removeMetaContact (m : Nat) : (s.removeMetaContact m).groups = s.groups := by
  unfold removeMetaContact
  split <;> rfl

/-- A group without members is removed, and nothing else changes. -/
theorem removeGroup_memberless {g : Group} (h : s.members g = []) :
    (s.removeGroup g).list = s.list ∧
      (s.removeGroup g).groups =
        if g = .topLevel then s.groups else QList.removeAll s.groups g := by
  by_cases hTop : g = .topLevel
  · rw [if_pos hTop, removeGroup, if_pos hTop]
    exact ⟨rfl, rfl⟩
  · have hMembers : GroupedList.members
        { s with selectedGroups := QList.removeAll s.selectedGroups g } g = [] := h
    rw [if_neg hTop, removeGroup, if_neg hTop]
    simp only [hMembers, List.foldl_nil, and_self]

/-- The last member of a group is off the list. -/
theorem members_removeMetaContact {g : Group} {m : Nat} (h : s.members g = [m]) :
    (s.removeMetaContact m).members g = [] := by
  have hMembers : (s.removeMetaContact m).members g = QList.removeAll (s.members g) m := by
    unfold members groupsOf
    rw [metaContacts_removeMetaContact, metaContact_removeMetaContact, QList.removeAll,
      QList.removeAll, List.filter_filter, List.filter_filter]
    exact List.filter_congr fun _ _ => Bool.and_comm _ _
  rw [hMembers, h]
  simp [QList.removeAll]

/-- Counting the members, and looking for one among them. -/
theorem sole_member_iff {g : Group} {m : Nat} :
    (s.members g).length = 1 ∧ m ∈ s.members g ↔ s.members g = [m] := by
  constructor
  · rintro ⟨hLength, hMem⟩
    obtain ⟨k, hMembers⟩ := List.length_eq_one_iff.1 hLength
    rw [hMembers, List.mem_singleton] at hMem
    rw [hMembers, hMem]
  · intro hMembers
    simp [hMembers]

end GroupedList

namespace Cleanup

/-- The group that goes with a metacontact that goes. -/
def groupOf (s : GroupedList) (mc : Nat) : List Group :=
  match s.groupsOf mc with
  | [] => []
  | group :: _ => if s.members group = [mc] ∧ group ≠ .topLevel then [group] else []

theorem members_of_mem_groupOf {s : GroupedList} {mc : Nat} {g : Group} (h : g ∈ groupOf s mc) :
    s.members g = [mc] ∧ g ≠ .topLevel := by
  unfold groupOf at h
  split at h
  · cases h
  · split at h
    · next hSole =>
      rw [List.mem_singleton.1 h]
      exact hSole
    · cases h

variable {s : Cleanup}

/-- **A metacontact without contacts goes.** -/
theorem dropMetaContact_eq {mc : Nat} {t : Cleanup} (h : s.dropMetaContact mc = some t) :
    t.contactList.list = s.contactList.list.removeMetaContact mc ∧
      t.deletedGroups = s.deletedGroups ++ groupOf s.contactList mc ∧
      t.contactList.groups =
        s.contactList.groups.filter fun g => g ∉ groupOf s.contactList mc := by
  unfold dropMetaContact at h
  unfold groupOf
  split at h
  · cases h
  · next group rest hGroups =>
    simp only at h
    split at h
    · next hCount =>
      have hSole := GroupedList.sole_member_iff.1 hCount
      obtain rfl := Option.some.inj h
      obtain ⟨hList, hLeft⟩ :=
        GroupedList.removeGroup_memberless (GroupedList.members_removeMetaContact hSole)
      unfold removeGroup
      refine ⟨hList.trans (GroupedList.list_removeMetaContact mc), ?_, ?_⟩
      · by_cases hTop : group = .topLevel <;> simp [hSole, hTop]
      · simp only [hLeft, GroupedList.groups_removeMetaContact]
        by_cases hTop : group = .topLevel
        · simp [hTop]
        · simp [hSole, hTop, QList.removeAll]
    · next hCount =>
      have hMore : ¬ s.contactList.members group = [mc] := fun hSole =>
        hCount (GroupedList.sole_member_iff.2 hSole)
      obtain rfl := Option.some.inj h
      refine ⟨GroupedList.list_removeMetaContact mc, by simp [hMore], ?_⟩
      simp [hMore, GroupedList.groups_removeMetaContact]

theorem exists_dropMetaContact {mc : Nat} (h : s.contactList.groupsOf mc ≠ []) :
    ∃ t, s.dropMetaContact mc = some t := by
  unfold dropMetaContact
  split
  · next hEmpty => exact absurd hEmpty h
  · simp only
    split
    · exact ⟨_, rfl⟩
    · exact ⟨_, rfl⟩

theorem groupOf_congr {s t : GroupedList} (hGroups : ∀ k, t.groupsOf k = s.groupsOf k)
    (hListed : t.list.metaContacts = s.list.metaContacts) (mc : Nat) :
    groupOf t mc = groupOf s mc := by
  have hMembers : ∀ g, t.members g = s.members g := by
    intro g
    simp only [GroupedList.members, hListed, hGroups]
  simp only [groupOf, hGroups, hMembers]

/-- The groups that go with a contact. -/
def deletes (s : Cleanup) (c : Nat) : List Group :=
  match (s.contactList.list.contact c).metaContact with
  | none => []
  | some mc =>
    if QList.removeAll (s.contactList.list.contactsOf mc) c = [] then groupOf s.contactList mc
    else []

theorem of_mem_deletes {c mc : Nat} (hIn : (s.contactList.list.contact c).metaContact = some mc)
    {g : Group} (h : g ∈ s.deletes c) :
    QList.removeAll (s.contactList.list.contactsOf mc) c = [] ∧
      s.contactList.members g = [mc] ∧ g ≠ .topLevel := by
  simp only [deletes, hIn] at h
  split at h
  · next hLast => exact ⟨hLast, members_of_mem_groupOf h⟩
  · cases h

/-- What the removal of `c` from `mc` changes. -/
structure Stepped (s t : Cleanup) (c mc : Nat) : Prop where
  contact : t.contactList.list.contact = s.contactList.list.contact
  contactsOf : ∀ k, t.contactList.list.contactsOf k =
    if k = mc then QList.removeAll (s.contactList.list.contactsOf mc) c
    else s.contactList.list.contactsOf k
  groupsOf : ∀ k, t.contactList.groupsOf k = s.contactList.groupsOf k
  metaContacts : t.contactList.list.metaContacts =
    if QList.removeAll (s.contactList.list.contactsOf mc) c = [] then
      QList.removeAll s.contactList.list.metaContacts mc
    else s.contactList.list.metaContacts
  deletedGroups : t.deletedGroups = s.deletedGroups ++ s.deletes c
  groups : t.contactList.groups = s.contactList.groups.filter fun g => g ∉ s.deletes c

section Step

variable {c mc : Nat} {list : ContactList}

/-- A contact leaves that is not the last one. -/
theorem stepped_setList (hIn : (s.contactList.list.contact c).metaContact = some mc)
    (hRemove : s.contactList.list.removeContact ContactList.nameOnly mc c = some list)
    (hMore : QList.removeAll (s.contactList.list.contactsOf mc) c ≠ []) :
    Stepped s (s.setList list) c mc := by
  obtain ⟨hContact, hListed⟩ := ContactList.contact_removeContact hRemove
  have hFrame := ContactList.frame_removeContact hRemove
  have hDeletes : s.deletes c = [] := by
    simp only [deletes, hIn, hMore, if_false]
  refine ⟨hContact, fun k => (hFrame k).1, fun k => (hFrame k).2, ?_, ?_, ?_⟩
  · rw [if_neg hMore]
    exact hListed
  · rw [hDeletes, List.append_nil]
    rfl
  · simp [hDeletes, setList]

/-- The last contact leaves, and the metacontact goes. -/
theorem stepped_dropMetaContact (hIn : (s.contactList.list.contact c).metaContact = some mc)
    (hRemove : s.contactList.list.removeContact ContactList.nameOnly mc c = some list)
    (hLast : QList.removeAll (s.contactList.list.contactsOf mc) c = []) {t : Cleanup}
    (hDrop : (s.setList list).dropMetaContact mc = some t) : Stepped s t c mc := by
  obtain ⟨hContact, hListed⟩ := ContactList.contact_removeContact hRemove
  have hFrame := ContactList.frame_removeContact hRemove
  obtain ⟨hList, hDeleted, hLeftGroups⟩ := dropMetaContact_eq hDrop
  have hSameGroups : ∀ k, (s.setList list).contactList.groupsOf k = s.contactList.groupsOf k :=
    fun k => (hFrame k).2
  have hGroupOf : groupOf (s.setList list).contactList mc = groupOf s.contactList mc :=
    groupOf_congr hSameGroups hListed mc
  have hDeletes : s.deletes c = groupOf s.contactList mc := by
    simp only [deletes, hIn, hLast, if_true]
  have hMeta : t.contactList.list.metaContact = list.metaContact := by
    rw [hList, ContactList.metaContact_removeMetaContact]
    rfl
  refine ⟨?_, ?_, ?_, ?_, ?_, ?_⟩
  · rw [hList, ContactList.contact_removeMetaContact]
    exact hContact
  · intro k
    rw [hList, ContactList.contactsOf_removeMetaContact]
    exact (hFrame k).1
  · intro k
    unfold GroupedList.groupsOf
    rw [hMeta]
    exact (hFrame k).2
  · rw [hList, ContactList.metaContacts_removeMetaContact, if_pos hLast]
    exact congrArg (QList.removeAll · mc) hListed
  · rw [hDeleted, hDeletes, hGroupOf]
    rfl
  · rw [hLeftGroups, hDeletes, hGroupOf]
    rfl

/-- **One contact is removed.** -/
theorem stepped_removeContact (hIn : (s.contactList.list.contact c).metaContact = some mc)
    (hGroups : s.contactList.groupsOf mc ≠ []) :
    ∃ t, s.removeContact ContactList.nameOnly c = some t ∧ Stepped s t c mc := by
  obtain ⟨list, hRemove⟩ := ContactList.exists_removeContact (s := s.contactList.list) mc c
  have hLeft : list.contactsOf mc = QList.removeAll (s.contactList.list.contactsOf mc) c := by
    rw [(ContactList.frame_removeContact hRemove mc).1, if_pos rfl]
  unfold removeContact
  simp only [hIn, hRemove, Option.bind_some, hLeft]
  by_cases hLast : QList.removeAll (s.contactList.list.contactsOf mc) c = []
  · have hFirst : (s.setList list).contactList.groupsOf mc ≠ [] := by
      have hSame : (s.setList list).contactList.groupsOf mc = s.contactList.groupsOf mc :=
        (ContactList.frame_removeContact hRemove mc).2
      rwa [hSame]
    obtain ⟨t, hDrop⟩ := exists_dropMetaContact hFirst
    rw [if_pos hLast]
    exact ⟨t, hDrop, stepped_dropMetaContact hIn hRemove hLast hDrop⟩
  · rw [if_neg hLast]
    exact ⟨_, rfl, stepped_setList hIn hRemove hLast⟩

end Step

/-! ## The removal of many contacts -/

/-- A contact has been removed, and nothing has been merged on the way. -/
def cleaned (s : Cleanup) (c : Nat) : Cleanup :=
  (s.removeContact ContactList.nameOnly c).getD s

/-- `s` is `s₀` without the contacts `done`. -/
structure Without (s₀ : GroupedList) (done : List Nat) (s : Cleanup) : Prop where
  contact : s.contactList.list.contact = s₀.list.contact
  contactsOf : ∀ k, s.contactList.list.contactsOf k = (s₀.list.contactsOf k).filter (· ∉ done)
  groupsOf : ∀ k, s.contactList.groupsOf k = s₀.groupsOf k
  metaContacts : s.contactList.list.metaContacts =
    s₀.list.metaContacts.filter fun k => ¬ s₀.list.OnlyHas done k
  groups : s.contactList.groups = s₀.groups.filter (· ∉ s.deletedGroups)
  memberless : ∀ g ∈ s.deletedGroups, g ≠ .topLevel ∧ s.contactList.members g = []

theorem without_nil (s₀ : GroupedList) : Without s₀ [] ⟨s₀, []⟩ := by
  refine ⟨rfl, fun k => by simp, fun _ => rfl, ?_, by simp, by simp⟩
  refine (List.filter_eq_self.2 ?_).symm
  intro k _
  refine decide_eq_true ?_
  rintro ⟨hFull, hNone⟩
  obtain ⟨c, hc⟩ := List.exists_mem_of_ne_nil _ hFull
  exact absurd (hNone c hc) List.not_mem_nil

section Steps

variable {s₀ : GroupedList} {done : List Nat} {t : Cleanup} {c mc : Nat}

/-- Contacts of `mc` that are left. -/
theorem contactsOf_step (h : s₀.list.Consistent) (hs : Without s₀ done s)
    (hIn : (s₀.list.contact c).metaContact = some mc) (hStep : Stepped s t c mc) (k : Nat) :
    t.contactList.list.contactsOf k = (s₀.list.contactsOf k).filter (· ∉ done ++ [c]) := by
  rw [hStep.contactsOf]
  split
  · next hSame =>
    rw [hSame, hs.contactsOf, QList.removeAll, List.filter_filter]
    refine List.filter_congr fun x _ => ?_
    by_cases hHere : x = c <;> simp [hHere]
  · next hOther =>
    rw [hs.contactsOf]
    refine List.filter_congr fun x hx => ?_
    have hNe : x ≠ c := by
      rintro rfl
      have hPointer := (h.mem_iff x k).1 hx
      exact hOther (Option.some.inj (hPointer.symm.trans hIn))
    simp [hNe]

/-- The metacontact that `c` leaves is off the list if it has no other contact, and the
others are as before. -/
theorem onlyHas_step (h : s₀.list.Consistent) (hs : Without s₀ done s)
    (hIn : (s₀.list.contact c).metaContact = some mc) (k : Nat) :
    s₀.list.OnlyHas (done ++ [c]) k ↔ s₀.list.OnlyHas done k ∨
      (k = mc ∧ QList.removeAll (s.contactList.list.contactsOf mc) c = []) := by
  have hMem : c ∈ s₀.list.contactsOf mc := (h.mem_iff c mc).2 hIn
  have hLast : QList.removeAll (s.contactList.list.contactsOf mc) c = [] ↔
      ∀ x ∈ s₀.list.contactsOf mc, x ∈ done ++ [c] := by
    rw [hs.contactsOf, QList.removeAll, List.filter_filter, List.filter_eq_nil_iff]
    refine forall₂_congr fun x _ => ?_
    simp only [List.mem_append, List.mem_singleton, ne_eq, decide_not, Bool.and_eq_true,
      Bool.not_eq_true', decide_eq_false_iff_not]
    tauto
  by_cases hSame : k = mc
  · subst hSame
    rw [hLast]
    constructor
    · exact fun hOnly => .inr ⟨rfl, hOnly.2⟩
    · rintro (hOnly | ⟨-, hAll⟩)
      · exact ⟨hOnly.1, fun x hx => List.mem_append_left _ (hOnly.2 x hx)⟩
      · exact ⟨List.ne_nil_of_mem hMem, hAll⟩
  · have hAbsent : c ∉ s₀.list.contactsOf k := fun hThere =>
      hSame (Option.some.inj (((h.mem_iff c k).1 hThere).symm.trans hIn))
    simp only [hSame, false_and, or_false]
    refine and_congr_right fun _ => forall₂_congr fun x hx => ?_
    have hNe : x ≠ c := by
      rintro rfl
      exact hAbsent hx
    simp [hNe]

theorem metaContacts_step (h : s₀.list.Consistent) (hs : Without s₀ done s)
    (hIn : (s₀.list.contact c).metaContact = some mc) (hStep : Stepped s t c mc) :
    t.contactList.list.metaContacts =
      s₀.list.metaContacts.filter fun k => ¬ s₀.list.OnlyHas (done ++ [c]) k := by
  simp only [onlyHas_step h hs hIn]
  rw [hStep.metaContacts, hs.metaContacts]
  split
  · next hLast =>
    rw [QList.removeAll, List.filter_filter]
    refine List.filter_congr fun k _ => ?_
    by_cases hSame : k = mc <;> simp [hSame, hLast]
  · next hMore =>
    refine List.filter_congr fun k _ => ?_
    simp [hMore]

/-- A group that has been deleted has no member left. -/
theorem memberless_step (hs : Without s₀ done s)
    (hIn : (s₀.list.contact c).metaContact = some mc) (hStep : Stepped s t c mc) :
    ∀ g ∈ t.deletedGroups, g ≠ .topLevel ∧ t.contactList.members g = [] := by
  have hFewer : ∀ {k}, k ∈ t.contactList.list.metaContacts →
      k ∈ s.contactList.list.metaContacts := by
    intro k hk
    rw [hStep.metaContacts] at hk
    split at hk
    · exact (QList.mem_removeAll.1 hk).1
    · exact hk
  have hMembers : ∀ {k g}, k ∈ t.contactList.members g → k ∈ s.contactList.members g := by
    intro k g hk
    obtain ⟨hListed, hGroup⟩ := List.mem_filter.1 hk
    rw [hStep.groupsOf] at hGroup
    exact List.mem_filter.2 ⟨hFewer hListed, hGroup⟩
  intro g hg
  rw [hStep.deletedGroups, List.mem_append] at hg
  rcases hg with hBefore | hNow
  · obtain ⟨hTop, hNone⟩ := hs.memberless g hBefore
    refine ⟨hTop, List.eq_nil_iff_forall_not_mem.2 fun k hk => ?_⟩
    have hThere := hMembers hk
    rw [hNone] at hThere
    cases hThere
  · rw [← hs.contact] at hIn
    obtain ⟨hLast, hSole, hTop⟩ := of_mem_deletes hIn hNow
    refine ⟨hTop, List.eq_nil_iff_forall_not_mem.2 fun k hk => ?_⟩
    have hSame := hMembers hk
    rw [hSole, List.mem_singleton] at hSame
    have hListed := (List.mem_filter.1 hk).1
    rw [hStep.metaContacts, if_pos hLast] at hListed
    exact (QList.mem_removeAll.1 hListed).2 hSame

/-- **One more contact is gone.** -/
theorem without_step (h : s₀.list.Consistent) (hs : Without s₀ done s)
    (hIn : (s₀.list.contact c).metaContact = some mc) (hStep : Stepped s t c mc) :
    Without s₀ (done ++ [c]) t where
  contact := hStep.contact.trans hs.contact
  contactsOf := contactsOf_step h hs hIn hStep
  groupsOf k := (hStep.groupsOf k).trans (hs.groupsOf k)
  metaContacts := metaContacts_step h hs hIn hStep
  groups := by
    rw [hStep.groups, hs.groups, hStep.deletedGroups, List.filter_filter]
    refine List.filter_congr fun g _ => ?_
    simp only [List.mem_append, not_or, Bool.decide_and]
    exact Bool.and_comm _ _
  memberless := memberless_step hs hIn hStep

end Steps

/-! ## Whole runs -/

/-- The first group of the metacontact that `c` leaves as the last one, of which that
metacontact is the only member. -/
theorem mem_deletes {c : Nat} {g : Group} :
    g ∈ s.deletes c ↔ g ≠ .topLevel ∧ ∃ mc,
      (s.contactList.list.contact c).metaContact = some mc ∧
        QList.removeAll (s.contactList.list.contactsOf mc) c = [] ∧
          (s.contactList.groupsOf mc).head? = some g ∧ s.contactList.members g = [mc] := by
  constructor
  · intro hg
    cases hIn : (s.contactList.list.contact c).metaContact with
    | none => simp [deletes, hIn] at hg
    | some mc =>
      obtain ⟨hLast, hSole, hTop⟩ := of_mem_deletes hIn hg
      refine ⟨hTop, mc, rfl, hLast, ?_, hSole⟩
      simp only [deletes, hIn, hLast, if_true, groupOf] at hg
      split at hg
      · cases hg
      · next group rest hGroups =>
        split at hg
        · rw [hGroups, List.mem_singleton.1 hg, List.head?_cons]
        · cases hg
  · rintro ⟨hTop, mc, hIn, hLast, hFirst, hSole⟩
    obtain ⟨rest, hGroups⟩ := List.head?_eq_some_iff.1 hFirst
    simp only [deletes, hIn, hLast, if_true, groupOf, hGroups, hSole, ne_eq, hTop,
      not_false_eq_true, and_self, List.mem_singleton]

/-- The contact is in a metacontact, has nothing merged when it leaves, and does not take the
temporary group or that of the offline contacts with it. -/
structure Fit (s : Cleanup) (c : Nat) : Prop where
  hasMetaContact : (s.contactList.list.contact c).metaContact ≠ none
  takesNone : ∀ k, ¬ s.contactList.list.Takes c k
  spares : ∀ mc g, (s.contactList.list.contact c).metaContact = some mc →
    QList.removeAll (s.contactList.list.contactsOf mc) c = [] →
      (s.contactList.groupsOf mc).head? = some g → s.contactList.members g = [mc] →
        g ≠ .temporary ∧ g ≠ .offline

theorem Fit.of_mem_deletes {c : Nat} (h : s.Fit c) {g : Group} (hg : g ∈ s.deletes c) :
    g ≠ .temporary ∧ g ≠ .offline := by
  obtain ⟨-, mc, hIn, hLast, hFirst, hSole⟩ := mem_deletes.1 hg
  exact h.spares mc g hIn hLast hFirst hSole

/-- The first merge, should there be one, takes in a contact that is not among `own`. -/
def FirstTakesOther (own : List Nat) : Cleanup → List Nat → Prop
  | _, [] => True
  | s, c :: cs =>
    ((∃ k, s.contactList.list.Takes c k) → ∃ k, k ∉ own ∧ s.contactList.list.Takes c k) ∧
      ((∀ k, ¬ s.contactList.list.Takes c k) → FirstTakesOther own (s.cleaned c) cs)

section Runs

variable {s₀ : GroupedList} {done own : List Nat}

theorem consistentBut_without (h : s₀.list.Consistent) (hs : Without s₀ done s) :
    s.contactList.list.ConsistentBut (· ∈ done) := by
  constructor
  · intro c k
    rw [hs.contactsOf, hs.contact, List.mem_filter, h.mem_iff, decide_eq_true_eq]
  · intro k
    rw [hs.contactsOf]
    exact (h.nodup k).filter _

/-- A contact that has a metacontact is removed. -/
theorem stepped_cleaned (h : s₀.list.Consistent)
    (hGroups : ∀ k, s₀.list.contactsOf k ≠ [] → s₀.groupsOf k ≠ []) (hs : Without s₀ done s)
    {c mc : Nat} (hIn : (s.contactList.list.contact c).metaContact = some mc) :
    s.removeContact ContactList.nameOnly c = some (s.cleaned c) ∧ Stepped s (s.cleaned c) c mc ∧
      Without s₀ (done ++ [c]) (s.cleaned c) := by
  have hIn₀ : (s₀.list.contact c).metaContact = some mc := by rwa [← hs.contact]
  have hFull : s₀.list.contactsOf mc ≠ [] := List.ne_nil_of_mem ((h.mem_iff c mc).2 hIn₀)
  obtain ⟨t, hRemove, hStep⟩ := stepped_removeContact hIn (by
    rw [hs.groupsOf]
    exact hGroups mc hFull)
  have hCleaned : s.cleaned c = t := by
    rw [cleaned, hRemove]
    rfl
  rw [hCleaned]
  exact ⟨hRemove, hStep, without_step h hs hIn₀ hStep⟩

theorem removeContact_quiet {c : Nat} (h : ∀ k, ¬ s.contactList.list.Takes c k) (n : Nat) :
    s.removeContact (ContactList.setDisplayName (n + 2)) c =
      s.removeContact ContactList.nameOnly c := by
  unfold removeContact
  split
  · rfl
  · next mc hIn => rw [ContactList.removeContact_of_not_takes h hIn]

/-- **A run whose steps are all fit.** -/
theorem removed_run (h : s₀.list.Consistent)
    (hGroups : ∀ k, s₀.list.contactsOf k ≠ [] → s₀.groupsOf k ≠ []) (n : Nat) :
    ∀ {cs done : List Nat} {s : Cleanup}, Without s₀ done s → Run.StepsMeet cleaned Fit s cs →
      cs.foldlM (fun s c => removeContact s (ContactList.setDisplayName (n + 2)) c) s =
          some (cs.foldl cleaned s) ∧
        Without s₀ (done ++ cs) (cs.foldl cleaned s) ∧
        ∀ g ∈ (cs.foldl cleaned s).deletedGroups,
          g ∈ s.deletedGroups ∨ g ≠ .temporary ∧ g ≠ .offline
  | [], done, s, hs, _ => by
    rw [List.append_nil]
    exact ⟨rfl, hs, fun g hg => .inl hg⟩
  | c :: cs, done, s, hs, hFit => by
    obtain ⟨hHere, hRest⟩ := hFit
    obtain ⟨mc, hIn⟩ := Option.ne_none_iff_exists'.1 hHere.hasMetaContact
    obtain ⟨hRemove, hStep, hWithout⟩ := stepped_cleaned h hGroups hs hIn
    obtain ⟨hRun, hEnd, hDeleted⟩ := removed_run h hGroups n hWithout hRest
    rw [List.append_assoc, List.singleton_append] at hEnd
    refine ⟨?_, hEnd, ?_⟩
    · rw [List.foldlM_cons, removeContact_quiet hHere.takesNone, hRemove]
      exact hRun
    · intro g hg
      rcases hDeleted g hg with hBefore | hSpared
      · rw [hStep.deletedGroups, List.mem_append] at hBefore
        exact hBefore.imp_right hHere.of_mem_deletes
      · exact .inr hSpared

/-- What any removal of a contact leaves of the list, and of the groups that are gone. -/
theorem grows_removeContact {rename : ContactList → Nat → QString → Option ContactList} {c : Nat}
    {t : Cleanup} (h : s.removeContact rename c = some t) :
    ∃ mc list, (s.contactList.list.contact c).metaContact = some mc ∧
      s.contactList.list.removeContact rename mc c = some list ∧
        t.contactList.list.metaContacts ⊆ list.metaContacts ∧
          s.deletedGroups ⊆ t.deletedGroups := by
  unfold removeContact at h
  split at h
  · cases h
  · next mc hIn =>
    obtain ⟨list, hRemove, hDrop⟩ := Option.bind_eq_some_iff.1 h
    refine ⟨mc, list, hIn, hRemove, ?_⟩
    split at hDrop
    · obtain ⟨hList, hDeleted, -⟩ := dropMetaContact_eq hDrop
      rw [hList, hDeleted, ContactList.metaContacts_removeMetaContact]
      refine ⟨?_, List.subset_append_left _ _⟩
      intro k hk
      exact (QList.mem_removeAll.1 hk).1
    · obtain rfl := Option.some.inj hDrop
      exact ⟨List.Subset.refl _, List.Subset.refl _⟩

theorem grows_run (n : Nat) : ∀ {cs : List Nat} {s t : Cleanup},
    cs.foldlM (fun s c => removeContact s (ContactList.setDisplayName n) c) s = some t →
      t.contactList.list.metaContacts ⊆ s.contactList.list.metaContacts ∧
        s.deletedGroups ⊆ t.deletedGroups
  | [], s, t, hRun => by
    obtain rfl := Option.some.inj hRun
    exact ⟨List.Subset.refl _, List.Subset.refl _⟩
  | c :: cs, s, t, hRun => by
    rw [List.foldlM_cons] at hRun
    obtain ⟨s₁, hRemove, hRest⟩ := Option.bind_eq_some_iff.1 hRun
    obtain ⟨mc, list, -, hList, hListed, hDeleted⟩ := grows_removeContact hRemove
    obtain ⟨hListed', hDeleted'⟩ := grows_run n hRest
    have hShrinks := ContactList.shrinks_removeContact (ContactList.shrinks_setDisplayName n) hList
    exact ⟨List.Subset.trans hListed' (List.Subset.trans hListed hShrinks),
      List.Subset.trans hDeleted hDeleted'⟩

/-- **A merge takes a metacontact off the list**, with the contacts that it has. -/
theorem unlisted_of_takes (h : s₀.list.Consistent) (hs : Without s₀ done s) {n c k : Nat}
    (hTakes : s.contactList.list.Takes c k) {t : Cleanup}
    (hRemove : s.removeContact (ContactList.setDisplayName n) c = some t) :
    ∃ m' ∈ s₀.list.metaContacts, k ∈ s₀.list.contactsOf m' ∧
      m' ∉ t.contactList.list.metaContacts := by
  obtain ⟨old, m', hOld, hMem, hTracking, hLast, hMerged, hk⟩ := hTakes
  obtain ⟨mc, list, hIn, hList, hListed, -⟩ := grows_removeContact hRemove
  obtain rfl : old = mc := Option.some.inj (hOld.symm.trans hIn)
  have hUnlisted := ContactList.unlisted_removeContact (consistentBut_without h hs) hMem hTracking
    hLast hMerged (List.ne_nil_of_mem hk) hList
  have hFound := ContactList.sameNamed_listed (ContactList.mergedBy_some hMerged)
  rw [hs.metaContacts] at hFound
  rw [hs.contactsOf] at hk
  exact ⟨m', (List.mem_filter.1 hFound).1, (List.mem_filter.1 hk).1,
    fun hm => hUnlisted (hListed hm)⟩

/-- **What a run takes that removes the account and nothing else.** -/
theorem fit_of_run (h : s₀.list.Consistent)
    (hGroups : ∀ k, s₀.list.contactsOf k ≠ [] → s₀.groupsOf k ≠ []) (n : Nat) :
    ∀ {cs done : List Nat} {s t : Cleanup}, Without s₀ done s → FirstTakesOther own s cs →
      cs.foldlM (fun s c => removeContact s (ContactList.setDisplayName (n + 2)) c) s = some t →
      (∀ g ∈ t.deletedGroups, g ≠ .temporary ∧ g ≠ .offline) →
      (∀ m ∈ s₀.list.metaContacts, ∀ k ∈ s₀.list.contactsOf m, k ∉ own →
        m ∈ t.contactList.list.metaContacts) →
        Run.StepsMeet cleaned Fit s cs
  | [], _, _, _, _, _, _, _, _ => trivial
  | c :: cs, done, s, t, hs, hFirst, hRun, hSpared, hListed => by
    rw [List.foldlM_cons] at hRun
    obtain ⟨s₁, hRemove, hRest⟩ := Option.bind_eq_some_iff.1 hRun
    obtain ⟨mc, -, hIn, -, -, -⟩ := grows_removeContact hRemove
    have hQuiet : ∀ k, ¬ s.contactList.list.Takes c k := by
      intro k hTakes
      obtain ⟨k', hOther, hTakes'⟩ := hFirst.1 ⟨k, hTakes⟩
      obtain ⟨m', hm, hMem, hUnlisted⟩ := unlisted_of_takes h hs hTakes' hRemove
      exact hUnlisted ((grows_run _ hRest).1 (hListed m' hm k' hMem hOther))
    obtain ⟨hCleaned, hStep, hWithout⟩ := stepped_cleaned h hGroups hs hIn
    rw [removeContact_quiet hQuiet, hCleaned] at hRemove
    obtain rfl := Option.some.inj hRemove
    refine ⟨⟨by simp [hIn], hQuiet, ?_⟩,
      fit_of_run h hGroups n hWithout (hFirst.2 hQuiet) hRest hSpared hListed⟩
    intro mc' g hIn' hLast hHead hSole
    by_cases hTop : g = .topLevel
    · simp [hTop]
    · have hDeletes := mem_deletes.2 ⟨hTop, mc', hIn', hLast, hHead, hSole⟩
      refine hSpared g ((grows_run _ hRest).2 ?_)
      rw [hStep.deletedGroups]
      exact List.mem_append_right _ hDeletes

end Runs

end Cleanup

/-! ## The account manager -/

/-- What the account manager asks an account. -/
structure OwnedAccount where
  protocol : Nat
  isConnected : Bool
  /-- The values of its hash of contacts, in the order of the hash. -/
  contacts : List (Option Nat)

/-- Accounts by their addresses, `AccountManager`, and the contact list. -/
structure AccountRemovals where
  account : Nat → OwnedAccount
  accounts : List Nat
  accountsToBeRemoved : List Nat
  unloadedProtocols : List Nat
  contactList : GroupedList

namespace AccountRemovals

variable (m : AccountRemovals)

/-- `AccountManager::removeAccountInternal`, and the groups it deletes; `none` where it
crashes or, in a merge on the way, when the fuel runs out. -/
def removeAccountInternal (n : Nat) : Option (AccountRemovals × List Group) :=
  match m.accountsToBeRemoved with
  | [] => some (m, [])
  | account :: queue =>
    let m : AccountRemovals := { m with accountsToBeRemoved := queue }
    if (m.account account).isConnected then some (m, [])
    else
      let cleanup : Cleanup := ⟨m.contactList, []⟩
      let contacts := (m.account account).contacts
      (cleanup.removeContacts (ContactList.setDisplayName n) contacts).map fun cleanup =>
        let protocol := (m.account account).protocol
        let accounts := QList.removeAll m.accounts account
        ({ m with
            contactList := cleanup.contactList
            accounts := accounts
            unloadedProtocols :=
              if accounts.any fun a => (m.account a).protocol = protocol then m.unloadedProtocols
              else m.unloadedProtocols ++ [protocol] },
          cleanup.deletedGroups)

/-- The contacts of an account. -/
def contactsOf (account : Nat) : List Nat := (m.account account).contacts.reduceOption

/-- The account is gone, and nothing else: off the list are the metacontacts of its contacts
alone, contacts of other accounts are where they were, and the groups that are gone are the
user's and without members. -/
structure Removed (account : Nat) (m' : AccountRemovals) (deletedGroups : List Group) : Prop where
  metaContacts : m'.contactList.list.metaContacts =
    m.contactList.list.metaContacts.filter fun k =>
      ¬ m.contactList.list.OnlyHas (m.contactsOf account) k
  others : ∀ c, c ∉ m.contactsOf account → ∀ k,
    c ∈ m'.contactList.list.contactsOf k ↔ c ∈ m.contactList.list.contactsOf k
  groups : ∀ g, g ∈ deletedGroups ∨ g ∈ m.contactList.groups ∧ g ∉ m'.contactList.groups →
    g ≠ .topLevel ∧ g ≠ .temporary ∧ g ≠ .offline ∧ m'.contactList.members g = []

/-- The next account in the queue is removed, without a crash. -/
def RemovesAccount (account : Nat) : Prop :=
  ∃ n₀ m' deletedGroups, (∀ n, n₀ ≤ n → m.removeAccountInternal n = some (m', deletedGroups)) ∧
    m.Removed account m' deletedGroups

/-- Every contact of the account is fit when its turn comes. -/
def AllFit (account : Nat) : Prop :=
  Run.StepsMeet Cleanup.cleaned Cleanup.Fit ⟨m.contactList, []⟩ (m.contactsOf account)

/-- The first merge on the way, should there be one, takes in a contact of another account. -/
def FirstTakesOther (account : Nat) : Prop :=
  Cleanup.FirstTakesOther (m.contactsOf account) ⟨m.contactList, []⟩ (m.contactsOf account)

variable {m}

theorem removeContacts_eq (rename : ContactList → Nat → QString → Option ContactList)
    (s : Cleanup) (contacts : List (Option Nat)) :
    s.removeContacts rename contacts =
      contacts.reduceOption.foldlM (fun s c => s.removeContact rename c) s := by
  induction contacts generalizing s with
  | nil => rfl
  | cons c? contacts ih =>
    unfold Cleanup.removeContacts at ih ⊢
    cases c? with
    | none => exact ih s
    | some c =>
      rw [List.reduceOption_cons_of_some, List.foldlM_cons, List.foldlM_cons]
      exact congrArg (Option.bind _) (funext ih)

/-- The removal of a disconnected account is the loop over its contacts. -/
theorem removeAccountInternal_eq {account : Nat} {queue : List Nat}
    (hQueue : m.accountsToBeRemoved = account :: queue)
    (hOffline : (m.account account).isConnected = false) :
    ∃ finish : Cleanup → AccountRemovals, (∀ t, (finish t).contactList = t.contactList) ∧
      ∀ n, m.removeAccountInternal n =
        ((m.contactsOf account).foldlM
          (fun (s : Cleanup) c => s.removeContact (ContactList.setDisplayName n) c)
          ⟨m.contactList, []⟩).map fun t => (finish t, t.deletedGroups) := by
  unfold removeAccountInternal
  simp only [hQueue, hOffline, removeContacts_eq]
  exact ⟨_, fun _ => rfl, fun _ => rfl⟩

section Removal

variable {account : Nat} {queue : List Nat}

theorem removesAccount_of_allFit (hQueue : m.accountsToBeRemoved = account :: queue)
    (hOffline : (m.account account).isConnected = false) (h : m.contactList.list.Consistent)
    (hGroups : ∀ k, m.contactList.list.contactsOf k ≠ [] → m.contactList.groupsOf k ≠ [])
    (hFit : m.AllFit account) : m.RemovesAccount account := by
  obtain ⟨finish, hFinish, hEq⟩ := removeAccountInternal_eq hQueue hOffline
  have hStart := Cleanup.without_nil m.contactList
  let t := (m.contactsOf account).foldl Cleanup.cleaned ⟨m.contactList, []⟩
  have hEnd : Cleanup.Without m.contactList (m.contactsOf account) t :=
    (Cleanup.removed_run h hGroups 0 hStart hFit).2.1
  have hSpared : ∀ g ∈ t.deletedGroups, g ≠ .temporary ∧ g ≠ .offline := fun g hg =>
    ((Cleanup.removed_run h hGroups 0 hStart hFit).2.2 g hg).resolve_left List.not_mem_nil
  refine ⟨2, finish t, t.deletedGroups, ?_, ?_, ?_, ?_⟩
  · intro n hFuel
    obtain ⟨k, rfl⟩ : ∃ k, n = k + 2 := ⟨n - 2, by omega⟩
    rw [hEq, (Cleanup.removed_run h hGroups k hStart hFit).1]
    rfl
  · rw [hFinish]
    exact hEnd.metaContacts
  · intro c hOther k
    rw [hFinish, hEnd.contactsOf, List.mem_filter, decide_eq_true_eq, and_iff_left hOther]
  · rw [hFinish]
    intro g hGone
    have hg : g ∈ t.deletedGroups := by
      rcases hGone with hg | ⟨hMem, hNot⟩
      · exact hg
      · rw [hEnd.groups, List.mem_filter, not_and, decide_eq_true_eq, not_not] at hNot
        exact hNot hMem
    obtain ⟨hTop, hNone⟩ := hEnd.memberless g hg
    obtain ⟨hTemporary, hOfflineGroup⟩ := hSpared g hg
    exact ⟨hTop, hTemporary, hOfflineGroup, hNone⟩

theorem allFit_of_removesAccount (hQueue : m.accountsToBeRemoved = account :: queue)
    (hOffline : (m.account account).isConnected = false) (h : m.contactList.list.Consistent)
    (hGroups : ∀ k, m.contactList.list.contactsOf k ≠ [] → m.contactList.groupsOf k ≠ [])
    (hFirst : m.FirstTakesOther account) (hRemoves : m.RemovesAccount account) :
    m.AllFit account := by
  obtain ⟨finish, hFinish, hEq⟩ := removeAccountInternal_eq hQueue hOffline
  obtain ⟨n₀, m', deletedGroups, hReturns, hRemoved⟩ := hRemoves
  have hReturn := hEq (n₀ + 2)
  rw [hReturns (n₀ + 2) (by omega)] at hReturn
  obtain ⟨t, hRun, hResult⟩ := Option.map_eq_some_iff.1 hReturn.symm
  obtain ⟨rfl, rfl⟩ := Prod.mk.inj hResult
  refine Cleanup.fit_of_run h hGroups n₀ (Cleanup.without_nil m.contactList) hFirst hRun ?_ ?_
  · intro g hg
    obtain ⟨-, hTemporary, hOfflineGroup, -⟩ := hRemoved.groups g (.inl hg)
    exact ⟨hTemporary, hOfflineGroup⟩
  · intro k hListed c hc hOther
    rw [← hFinish, hRemoved.metaContacts, List.mem_filter]
    refine ⟨hListed, decide_eq_true ?_⟩
    exact fun hOnly => hOther (hOnly.2 c hc)

/-- **Removing an account.** If every contact is fit when its turn comes, the account goes and
nothing else does. Nothing else goes only then, unless what is merged first has contacts of the
account alone. -/
theorem removesAccount_iff (hQueue : m.accountsToBeRemoved = account :: queue)
    (hOffline : (m.account account).isConnected = false) (h : m.contactList.list.Consistent)
    (hCalls : ∀ k, m.contactList.list.contactsOf k ≠ [] →
      (m.contactList.list.metaContact k).FromGroupCalls) :
    (m.AllFit account → m.RemovesAccount account) ∧
      (m.FirstTakesOther account → m.RemovesAccount account → m.AllFit account) := by
  have hGroups : ∀ k, m.contactList.list.contactsOf k ≠ [] → m.contactList.groupsOf k ≠ [] :=
    fun k hFull => (hCalls k hFull).groupsOk.nonempty
  exact ⟨removesAccount_of_allFit hQueue hOffline h hGroups,
    allFit_of_removesAccount hQueue hOffline h hGroups⟩

end Removal

/-- Metacontact 0 has contact 10 and, of another account, contact 11; metacontact 1 has
contact 12, and is alone in its group. Contact 13 has no metacontact. -/
def sharedList : ContactList where
  metaContact k :=
    if k = 0 then { MetaContact.new with contacts := [10, 11] }
    else if k = 1 then { MetaContact.new.addToGroup (.normal 3) with contacts := [12] }
    else .new
  contact c :=
    ⟨[], if c = 10 ∨ c = 11 then some 0 else if c = 12 then some 1 else none⟩
  metaContacts := [0, 1]

/-- Account 7 is to be removed, and has these contacts. -/
def sharing (contacts : List (Option Nat)) : AccountRemovals where
  account a := ⟨0, false, if a = 7 then contacts else [some 11]⟩
  accounts := [7, 8]
  accountsToBeRemoved := [7]
  unloadedProtocols := []
  contactList := ⟨sharedList, [.topLevel, .normal 3], [1], []⟩

theorem consistent_sharedList : sharedList.Consistent := by
  have hContacts : ∀ k, sharedList.contactsOf k =
      if k = 0 then [10, 11] else if k = 1 then [12] else [] := by
    intro k
    unfold ContactList.contactsOf sharedList
    simp only
    split
    · rfl
    · split <;> rfl
  constructor
  · intro c k
    rw [hContacts]
    simp only [sharedList]
    grind
  · intro k
    rw [hContacts]
    split
    · decide
    · split <;> decide

theorem fromGroupCalls_sharedList (k : Nat) : (sharedList.metaContact k).FromGroupCalls := by
  simp only [sharedList]
  split
  · exact ⟨[], rfl, rfl⟩
  · split
    · exact ⟨[.addToGroup (some (.normal 3))], rfl, rfl⟩
    · exact ⟨[], rfl, rfl⟩

theorem removesAccount_sharing : (sharing [some 10, none, some 12]).RemovesAccount 7 := by
  refine (removesAccount_iff (m := sharing [some 10, none, some 12]) rfl rfl
    consistent_sharedList fun k _ => fromGroupCalls_sharedList k).1 ⟨?_, ?_, trivial⟩
  · refine ⟨by decide, ?_, ?_⟩
    · rintro k ⟨old, m', hOld, -, hTracking, -⟩
      obtain rfl : 0 = old := Option.some.inj hOld
      exact absurd hTracking (by decide)
    · rintro mc g hIn - hHead -
      obtain rfl : 0 = mc := Option.some.inj hIn
      obtain rfl : .topLevel = g := Option.some.inj hHead
      decide
  · refine ⟨by decide, ?_, ?_⟩
    · rintro k ⟨old, m', hOld, -, hTracking, -⟩
      obtain rfl : 1 = old := Option.some.inj hOld
      exact absurd hTracking (by decide)
    · rintro mc g hIn - hHead -
      obtain rfl : 1 = mc := Option.some.inj hIn
      obtain rfl : .normal 3 = g := Option.some.inj hHead
      decide

/-- Contact 13 has no metacontact. -/
theorem crashes_sharing :
    sharedList.Consistent ∧ (∀ k, (sharedList.metaContact k).FromGroupCalls) ∧
      (∀ n, (sharing [some 10, some 13]).removeAccountInternal n = none) ∧
        ¬ (sharing [some 10, some 13]).RemovesAccount 7 := by
  have hCrash : ∀ n, (sharing [some 10, some 13]).removeAccountInternal n = none := fun _ => rfl
  refine ⟨consistent_sharedList, fromGroupCalls_sharedList, hCrash, ?_⟩
  rintro ⟨n₀, m', deletedGroups, hReturns, -⟩
  have hReturn := hReturns n₀ (Nat.le_refl n₀)
  rw [hCrash] at hReturn
  cases hReturn

end AccountRemovals

end Kopete
