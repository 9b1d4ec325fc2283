import Kopete.Libkopete.AddContact

/-!
# libkopete — the groups of a metacontact

A metacontact is in at least one group, and in none twice; a temporary one is in the
temporary group and nowhere else. The calls that change its groups take pointers, which
may be null, and refuse what they do not like.

When a group is removed, the metacontacts that are in it and nowhere else go with it,
and the others leave it.

Main results:

* `GroupsOk.call` — each call keeps the invariant of the groups;
* `GroupsOk.sole_iff` — what removing a group takes for a metacontact's only group;
* `foldl_leave` — what the loop over the members of a group does.
-/

namespace Kopete

namespace MetaContact

variable (mc : MetaContact)

/-! ## Calls with pointers -/

/-- `MetaContact::addToGroup` with a pointer. -/
def addToGroupPtr : Option Group → MetaContact
  | none => mc
  | some target => mc.addToGroup target

/-- `MetaContact::removeFromGroup` with a pointer. -/
def removeFromGroupPtr : Option Group → MetaContact
  | none => mc
  | some group => mc.removeFromGroup group

/-- `MetaContact::moveToGroup` with pointers. -/
def moveToGroupPtr : Option Group → Option Group → MetaContact
  | none, target => mc.addToGroupPtr target
  | some source, none =>
    if source ∉ mc.groups then mc.addToGroupPtr none else mc.removeFromGroup source
  | some source, some target => mc.moveToGroup source target

/-- `MetaContact::setTemporary` with a pointer. -/
def setTemporaryPtr (isTemporary : Bool) (group : Option Group) : MetaContact :=
  mc.setTemporary isTemporary (group.getD .topLevel)

/-- A call that changes the groups of a metacontact. -/
inductive GroupCall where
  | addToGroup (target : Option Group)
  | moveToGroup (source target : Option Group)
  | removeFromGroup (group : Option Group)
  | setTemporary (isTemporary : Bool) (group : Option Group)
deriving DecidableEq, Repr

def groupCall : GroupCall → MetaContact
  | .addToGroup target => mc.addToGroupPtr target
  | .moveToGroup source target => mc.moveToGroupPtr source target
  | .removeFromGroup group => mc.removeFromGroupPtr group
  | .setTemporary isTemporary group => mc.setTemporaryPtr isTemporary group

/-! ## The invariant -/

/-- At least one group, none twice, and only the temporary one while temporary. -/
structure GroupsOk (mc : MetaContact) : Prop where
  nonempty : mc.groups ≠ []
  nodup : mc.groups.Nodup
  temporary : mc.temporary = true → mc.groups = [.temporary]

/-- Its groups have come about by calls on a new metacontact. -/
def FromGroupCalls : Prop :=
  ∃ calls : List GroupCall, mc.groups = (calls.foldl groupCall .new).groups ∧
    mc.temporary = (calls.foldl groupCall .new).temporary

theorem groupsOk_new : GroupsOk .new := by
  refine ⟨by decide, by decide, ?_⟩
  intro hTemporary
  exact absurd hTemporary (by decide)

variable {mc}

/-- A list of groups from which one was taken, with a new one at its end. -/
theorem nodup_replace {gs : List Group} (h : gs.Nodup) {target : Group} (hNew : target ∉ gs)
    (old : Group) : (QList.removeAll gs old ++ [target]).Nodup := by
  rw [QList.nodup_append_iff]
  refine ⟨QList.nodup_removeAll h old, ?_⟩
  intro hMem
  exact hNew (QList.mem_removeAll.1 hMem).1

namespace GroupsOk

theorem addToGroup (h : GroupsOk mc) (target : Group) : GroupsOk (mc.addToGroup target) := by
  unfold MetaContact.addToGroup
  split
  · exact h
  · next hNew =>
    split
    · exact h
    · next hRefused =>
      refine ⟨by simp, nodup_replace h.nodup hNew .topLevel, ?_⟩
      intro hTemporary
      -- a temporary one is asked into the temporary group, where it is
      have hGroups := h.temporary hTemporary
      simp only [hGroups, List.mem_singleton] at hNew
      simp [show mc.temporary = true from hTemporary, hNew] at hRefused

theorem removeFromGroup (h : GroupsOk mc) (g : Group) : GroupsOk (mc.removeFromGroup g) := by
  unfold MetaContact.removeFromGroup
  split
  · exact h
  · next hRefused =>
    have hMem : g ∈ mc.groups := by
      by_contra hNot
      simp [hNot] at hRefused
    refine ⟨?_, ?_, ?_⟩
    · simp only
      split
      · simp
      · assumption
    · simp only
      split
      · simp
      · exact QList.nodup_removeAll h.nodup g
    · intro hTemporary
      rw [h.temporary hTemporary, List.mem_singleton] at hMem
      simp [show mc.temporary = true from hTemporary, hMem] at hRefused

theorem moveToGroup (h : GroupsOk mc) (source target : Group) :
    GroupsOk (mc.moveToGroup source target) := by
  unfold MetaContact.moveToGroup
  split
  · exact h.addToGroup target
  split
  · exact h
  split
  · exact h.removeFromGroup source
  · next hNew =>
    split
    · exact h
    split
    · exact h
    · next hRefused =>
      refine ⟨by simp, nodup_replace h.nodup hNew source, ?_⟩
      intro hTemporary
      have hGroups := h.temporary hTemporary
      simp only [hGroups, List.mem_singleton] at hNew
      simp [show mc.temporary = true from hTemporary, hNew] at hRefused

end GroupsOk

/-! ## Becoming temporary -/

/-- It is in the temporary group, and leaves another one. -/
theorem groups_leave (hMem : .temporary ∈ mc.groups) {g : Group} (hOther : g ≠ .temporary) :
    (mc.removeFromGroup g).groups = QList.removeAll mc.groups g := by
  unfold removeFromGroup
  split
  · next hRefused =>
    have hNot : g ∉ mc.groups := by simpa [hOther] using hRefused
    rw [QList.removeAll_of_not_mem hNot]
  · have hStill : Group.temporary ∈ QList.removeAll mc.groups g :=
      QList.mem_removeAll.2 ⟨hMem, hOther.symm⟩
    exact if_neg (List.ne_nil_of_mem hStill)

/-- It leaves all of the groups `gs` but the temporary one. -/
theorem groups_leaveAll (gs : List Group) {mc : MetaContact} (hMem : .temporary ∈ mc.groups) :
    (gs.foldl (fun mc g => if g ≠ .temporary then mc.removeFromGroup g else mc) mc).groups =
      mc.groups.filter fun g => g ∉ gs ∨ g = .temporary := by
  induction gs generalizing mc with
  | nil => simp
  | cons g gs ih =>
    rw [List.foldl_cons]
    by_cases hOther : g = .temporary
    · subst hOther
      rw [if_neg (by simp), ih hMem]
      refine List.filter_congr ?_
      intro g' _
      by_cases hSame : g' = .temporary <;> simp [hSame]
    · rw [if_pos hOther]
      have hGroups := groups_leave hMem hOther
      have hStill : Group.temporary ∈ (mc.removeFromGroup g).groups := by
        rw [hGroups]
        exact QList.mem_removeAll.2 ⟨hMem, Ne.symm hOther⟩
      rw [ih hStill, hGroups, QList.removeAll, List.filter_filter]
      refine List.filter_congr ?_
      intro g' _
      by_cases hSame : g' = g
      · subst hSame
        simp [hOther]
      · simp [hSame]

/-- A list without repetitions has a member at most once. -/
theorem filter_eq_singleton {gs : List Group} (h : gs.Nodup) {g : Group} (hMem : g ∈ gs) :
    gs.filter (· = g) = [g] := by
  rw [List.filter_eq, List.count_eq_one_of_mem h hMem, List.replicate_one]

theorem mem_addToGroup_temporary : .temporary ∈ (mc.addToGroup .temporary).groups := by
  unfold addToGroup
  split
  · assumption
  · rw [if_neg (by simp)]
    simp

theorem nodup_addToGroup (h : mc.groups.Nodup) (target : Group) :
    (mc.addToGroup target).groups.Nodup := by
  unfold addToGroup
  split
  · exact h
  · next hNew =>
    split
    · exact h
    · exact nodup_replace h hNew .topLevel

namespace GroupsOk

/-- What it was in besides the temporary group, it leaves. -/
theorem setTemporary (h : GroupsOk mc) (isTemporary : Bool) (group : Group) :
    GroupsOk (mc.setTemporary isTemporary group) := by
  cases isTemporary with
  | false =>
    have hPlain : GroupsOk { mc with temporary := false } := by
      refine ⟨h.nonempty, h.nodup, ?_⟩
      intro hTemporary
      cases hTemporary
    exact hPlain.moveToGroup .temporary group
  | true =>
    let mc' : MetaContact := { mc with temporary := true }
    have hMem : Group.temporary ∈ (mc'.addToGroup .temporary).groups :=
      mem_addToGroup_temporary
    have hNodup₀ : mc'.groups.Nodup := h.nodup
    have hNodup : (mc'.addToGroup .temporary).groups.Nodup := nodup_addToGroup hNodup₀ _
    have hGroups : (mc.setTemporary true group).groups = [.temporary] := by
      have hLeft := groups_leaveAll (mc'.addToGroup .temporary).groups hMem
      have hFilter : ((mc'.addToGroup .temporary).groups.filter fun g =>
          g ∉ (mc'.addToGroup .temporary).groups ∨ g = .temporary) = [.temporary] := by
        rw [← filter_eq_singleton hNodup hMem]
        refine List.filter_congr ?_
        intro g hg
        simp [hg]
      exact hLeft.trans hFilter
    refine ⟨by simp [hGroups], by simp [hGroups], ?_⟩
    intro _
    exact hGroups

/-- **A call keeps the invariant.** -/
theorem call (h : GroupsOk mc) (call : GroupCall) : GroupsOk (mc.groupCall call) := by
  cases call with
  | addToGroup target =>
    cases target with
    | none => exact h
    | some target => exact h.addToGroup target
  | moveToGroup source target =>
    cases source with
    | none =>
      cases target with
      | none => exact h
      | some target => exact h.addToGroup target
    | some source =>
      cases target with
      | none =>
        simp only [groupCall, moveToGroupPtr]
        split
        · exact h
        · exact h.removeFromGroup source
      | some target => exact h.moveToGroup source target
  | removeFromGroup group =>
    cases group with
    | none => exact h
    | some group => exact h.removeFromGroup group
  | setTemporary isTemporary group => exact h.setTemporary isTemporary _

theorem foldl_call (h : GroupsOk mc) (calls : List GroupCall) :
    GroupsOk (calls.foldl groupCall mc) := by
  induction calls generalizing mc with
  | nil => exact h
  | cons c calls ih => exact ih (h.call c)

end GroupsOk

theorem FromGroupCalls.groupsOk (h : mc.FromGroupCalls) : GroupsOk mc := by
  obtain ⟨calls, hGroups, hTemporary⟩ := h
  have hOk := groupsOk_new.foldl_call calls
  refine ⟨?_, ?_, ?_⟩
  · rw [hGroups]
    exact hOk.nonempty
  · rw [hGroups]
    exact hOk.nodup
  · rw [hGroups, hTemporary]
    exact hOk.temporary

end MetaContact

/-! ## Removing a group -/

/-- `ContactList` with its groups, and what the user has selected. -/
structure GroupedList where
  list : ContactList
  groups : List Group
  selectedMetaContacts : List Nat
  selectedGroups : List Group

namespace GroupedList

variable (s : GroupedList)

/-- `MetaContact::groups`. -/
def groupsOf (m : Nat) : List Group := (s.list.metaContact m).groups

/-- `Group::members`. -/
def members (g : Group) : List Nat := s.list.metaContacts.filter fun m => g ∈ s.groupsOf m

/-- `ContactList::removeMetaContact`; its contacts are deleted later. -/
def removeMetaContact (m : Nat) : GroupedList :=
  if m ∉ s.list.metaContacts then s
  else
    { s with
      selectedMetaContacts := QList.removeAll s.selectedMetaContacts m
      list := s.list.removeMetaContact m }

/-- The body of the loop over the members of a group. -/
def leave (g : Group) (s : GroupedList) (m : Nat) : GroupedList :=
  let mcGroups := s.groupsOf m
  if (mcGroups.length = 1 ∧ g ∈ mcGroups) ∨ mcGroups = [] then s.removeMetaContact m
  else { s with list := s.list.setMeta m ((s.list.metaContact m).removeFromGroup g) }

/-- `ContactList::removeGroup`. -/
def removeGroup (g : Group) : GroupedList :=
  if g = .topLevel then s
  else
    let s := { s with selectedGroups := QList.removeAll s.selectedGroups g }
    let s := (s.members g).foldl (leave g) s
    { s with groups := QList.removeAll s.groups g }

variable {s}

@[simp] theorem metaContact_removeMetaContact (m : Nat) :
    (s.removeMetaContact m).list.metaContact = s.list.metaContact := by
  unfold removeMetaContact
  split
  · rfl
  · unfold ContactList.removeMetaContact
    split <;> rfl

@[simp] theorem metaContacts_removeMetaContact (m : Nat) :
    (s.removeMetaContact m).list.metaContacts = QList.removeAll s.list.metaContacts m := by
  unfold removeMetaContact
  split
  · next hNot => exact (QList.removeAll_of_not_mem hNot).symm
  · next hMem =>
    unfold ContactList.removeMetaContact
    rw [if_neg hMem]

/-- With groups that are in order, its only group is the one there is. -/
theorem sole_iff {mc : MetaContact} (h : mc.GroupsOk) (g : Group) :
    (mc.groups.length = 1 ∧ g ∈ mc.groups) ∨ mc.groups = [] ↔ mc.groups = [g] := by
  constructor
  · rintro (⟨hLength, hMem⟩ | hEmpty)
    · obtain ⟨g', hGroups⟩ := List.length_eq_one_iff.1 hLength
      rw [hGroups, List.mem_singleton] at hMem
      rw [hGroups, hMem]
    · exact absurd hEmpty h.nonempty
  · intro hGroups
    left
    simp [hGroups]

/-- A member that is also elsewhere leaves the group and nothing else. -/
theorem groups_removeFromGroup {mc : MetaContact} (h : mc.GroupsOk) {g : Group}
    (hElse : mc.groups ≠ [g]) : (mc.removeFromGroup g).groups = QList.removeAll mc.groups g := by
  unfold MetaContact.removeFromGroup
  split
  · next hRefused =>
    refine (QList.removeAll_of_not_mem ?_).symm
    intro hMem
    simp only [hMem, not_true_eq_false, decide_false, Bool.false_or, Bool.and_eq_true,
      decide_eq_true_eq] at hRefused
    -- a temporary metacontact is in no other group
    exact hElse (by rw [h.temporary hRefused.1, hRefused.2])
  · refine if_neg ?_
    intro hEmpty
    -- all its groups are `g`, and there is one of them at most
    have hAll : ∀ g' ∈ mc.groups, g' = g := by
      intro g' hg'
      by_contra hOther
      have hMem : g' ∈ QList.removeAll mc.groups g := QList.mem_removeAll.2 ⟨hg', hOther⟩
      rw [hEmpty] at hMem
      cases hMem
    cases hGroups : mc.groups with
    | nil => exact h.nonempty hGroups
    | cons g₁ gs =>
      have hNodup := h.nodup
      rw [hGroups] at hAll hNodup hElse
      cases gs with
      | nil => exact hElse (by rw [hAll g₁ List.mem_cons_self])
      | cons g₂ gs =>
        have hFirst := hAll g₁ (by simp)
        have hSecond := hAll g₂ (by simp)
        simp [hFirst, hSecond] at hNodup

/-- Groups of a metacontact once the loop has been there. -/
def left (g : Group) (mc : MetaContact) : MetaContact :=
  if mc.groups = [g] then mc else mc.removeFromGroup g

theorem leave_eq (g : Group) (m : Nat) (h : (s.list.metaContact m).GroupsOk) :
    (leave g s m).list.metaContact =
        Function.update s.list.metaContact m (left g (s.list.metaContact m)) ∧
      (leave g s m).list.metaContacts =
        if s.groupsOf m = [g] then QList.removeAll s.list.metaContacts m
        else s.list.metaContacts := by
  have hSole : ((s.groupsOf m).length = 1 ∧ g ∈ s.groupsOf m) ∨ s.groupsOf m = [] ↔
    s.groupsOf m = [g] := sole_iff h g
  have hLeft : left g (s.list.metaContact m) = if s.groupsOf m = [g] then s.list.metaContact m
    else (s.list.metaContact m).removeFromGroup g := rfl
  by_cases hGroups : s.groupsOf m = [g]
  · have hLeave : leave g s m = s.removeMetaContact m := if_pos (hSole.2 hGroups)
    rw [hLeave, hLeft, if_pos hGroups, if_pos hGroups]
    exact ⟨by simp, by simp⟩
  · have hLeave : leave g s m =
        { s with list := s.list.setMeta m ((s.list.metaContact m).removeFromGroup g) } :=
      if_neg fun hAlone => hGroups (hSole.1 hAlone)
    rw [hLeave, hLeft, if_neg hGroups, if_neg hGroups]
    exact ⟨rfl, rfl⟩

theorem groupsOk_left {mc : MetaContact} (h : mc.GroupsOk) (g : Group) : (left g mc).GroupsOk := by
  unfold left
  split
  · exact h
  · exact h.removeFromGroup g

/-- In the group afterwards is who is only there. -/
theorem groups_left {mc : MetaContact} (h : mc.GroupsOk) {g : Group} (hElse : mc.groups ≠ [g]) :
    (left g mc).groups = QList.removeAll mc.groups g := by
  unfold left
  rw [if_neg hElse]
  exact groups_removeFromGroup h hElse

theorem left_left {mc : MetaContact} (h : mc.GroupsOk) (g : Group) :
    left g (left g mc) = left g mc := by
  by_cases hGroups : mc.groups = [g]
  · simp [left, hGroups]
  · have hOut : g ∉ (left g mc).groups := by simp [groups_left h hGroups]
    have hElse : (left g mc).groups ≠ [g] := by
      intro hSole
      simp [hSole] at hOut
    have hStays : (left g mc).removeFromGroup g = left g mc := if_pos (by simp [hOut])
    rw [left, if_neg hElse, hStays]

theorem sole_left {mc : MetaContact} (h : mc.GroupsOk) (g : Group) :
    (left g mc).groups = [g] ↔ mc.groups = [g] := by
  by_cases hGroups : mc.groups = [g]
  · simp [left, hGroups]
  · refine iff_of_false ?_ hGroups
    intro hSole
    have hMem : g ∈ (left g mc).groups := by simp [hSole]
    simp [groups_left h hGroups] at hMem

/-- The loop over metacontacts `ms`: who is only in the group is off the list, the others
leave it. -/
theorem foldl_leave (g : Group) (ms : List Nat) (s : GroupedList)
    (h : ∀ m ∈ ms, (s.list.metaContact m).GroupsOk) :
    (∀ k, (ms.foldl (leave g) s).list.metaContact k =
        if k ∈ ms then left g (s.list.metaContact k) else s.list.metaContact k) ∧
      (ms.foldl (leave g) s).list.metaContacts =
        s.list.metaContacts.filter fun m => ¬(m ∈ ms ∧ s.groupsOf m = [g]) := by
  induction ms generalizing s with
  | nil => simp
  | cons m ms ih =>
    have hHere := h m List.mem_cons_self
    obtain ⟨hMeta, hList⟩ := leave_eq g m hHere
    have hAt : ∀ k, (leave g s m).list.metaContact k =
        if k = m then left g (s.list.metaContact k) else s.list.metaContact k := by
      intro k
      rw [hMeta, Function.update_apply]
      split
      · next hSame => rw [hSame]
      · rfl
    have hRest : ∀ k ∈ ms, ((leave g s m).list.metaContact k).GroupsOk := by
      intro k hk
      have hOk := h k (List.mem_cons_of_mem _ hk)
      rw [hAt]
      split
      · exact groupsOk_left hOk g
      · exact hOk
    obtain ⟨hFold, hFilter⟩ := ih (leave g s m) hRest
    rw [List.foldl_cons]
    refine ⟨?_, ?_⟩
    · intro k
      rw [hFold, hAt]
      by_cases hSame : k = m
      · subst hSame
        simp [left_left hHere]
      · simp [hSame]
    · have hSole : ∀ k, (leave g s m).groupsOf k = [g] ↔ s.groupsOf k = [g] := by
        intro k
        have hGroups : (leave g s m).groupsOf k = ((leave g s m).list.metaContact k).groups := rfl
        rw [hGroups, hAt]
        split
        · next hSame =>
          subst hSame
          exact sole_left hHere g
        · rfl
      simp only [hFilter, hList, hSole]
      split
      · next hGroups =>
        rw [QList.removeAll, List.filter_filter]
        refine List.filter_congr ?_
        intro k _
        by_cases hSame : k = m <;> simp [hSame, hGroups]
      · next hGroups =>
        refine List.filter_congr ?_
        intro k _
        by_cases hSame : k = m <;> simp [hSame, hGroups]

/-- The metacontacts on the list have come to their groups by calls on new ones. -/
def Reached (s : GroupedList) : Prop :=
  ∀ m ∈ s.list.metaContacts, (s.list.metaContact m).FromGroupCalls

theorem removeGroup_eq (h : s.Reached) {g : Group} (hGroup : g ≠ .topLevel) :
    (s.removeGroup g).list.metaContacts =
        s.list.metaContacts.filter (fun m => s.groupsOf m ≠ [g]) ∧
      ∀ m, (s.removeGroup g).list.metaContact m =
        if m ∈ s.members g then left g (s.list.metaContact m) else s.list.metaContact m := by
  have hMembers : ∀ m ∈ s.members g, (s.list.metaContact m).GroupsOk := by
    intro m hm
    exact (h m (List.mem_filter.1 hm).1).groupsOk
  obtain ⟨hMeta, hList⟩ := foldl_leave g (s.members g)
    { s with selectedGroups := QList.removeAll s.selectedGroups g } hMembers
  unfold removeGroup
  rw [if_neg hGroup]
  refine ⟨hList.trans ?_, hMeta⟩
  refine List.filter_congr ?_
  intro m hm
  have hMem : s.groupsOf m = [g] → m ∈ s.members g := by
    intro hSole
    simp [members, hm, hSole]
  have hIff : (m ∈ s.members g ∧ s.groupsOf m = [g]) ↔ s.groupsOf m = [g] :=
    and_iff_right_of_imp hMem
  exact decide_eq_decide.2 (not_congr hIff)

/-- **Groups of metacontacts.** After any calls on a new metacontact it is in some group,
in none twice, and while it is temporary in the temporary group alone. Removing a group
takes the metacontacts that are only in it off the list, and the others out of the group
and of no other. -/
theorem groups_inv_and_removeGroup :
    (∀ calls : List MetaContact.GroupCall,
      let mc := calls.foldl MetaContact.groupCall .new
      mc.groups ≠ [] ∧ mc.groups.Nodup ∧ (mc.temporary = true → mc.groups = [.temporary])) ∧
    ∀ (s : GroupedList) (g : Group), s.Reached → g ≠ .topLevel →
      (s.removeGroup g).list.metaContacts =
          s.list.metaContacts.filter (fun m => s.groupsOf m ≠ [g]) ∧
        ∀ m ∈ (s.removeGroup g).list.metaContacts,
          (s.removeGroup g).groupsOf m = QList.removeAll (s.groupsOf m) g ∧
            g ∉ (s.removeGroup g).groupsOf m := by
  refine ⟨?_, ?_⟩
  · intro calls
    have hOk := MetaContact.groupsOk_new.foldl_call calls
    exact ⟨hOk.nonempty, hOk.nodup, hOk.temporary⟩
  · intro s g h hGroup
    obtain ⟨hList, hMeta⟩ := removeGroup_eq h hGroup
    refine ⟨hList, ?_⟩
    intro m hm
    rw [hList, List.mem_filter] at hm
    obtain ⟨hListed, hElse⟩ := hm
    have hElse : s.groupsOf m ≠ [g] := by simpa using hElse
    have hGroups : (s.removeGroup g).groupsOf m = QList.removeAll (s.groupsOf m) g := by
      unfold groupsOf at hElse ⊢
      rw [hMeta]
      split
      · exact groups_left (h m hListed).groupsOk hElse
      · next hNot =>
        have hOut : g ∉ (s.list.metaContact m).groups := by
          intro hIn
          exact hNot (by simp [members, groupsOf, hListed, hIn])
        exact (QList.removeAll_of_not_mem hOut).symm
    refine ⟨hGroups, ?_⟩
    rw [hGroups]
    simp

/-- Two metacontacts, one in the group that is removed, the other in it and in another. -/
def twoGroups : GroupedList where
  list :=
    { metaContact := fun m =>
        if m = 0 then MetaContact.new.addToGroup (.normal 3)
        else (MetaContact.new.addToGroup (.normal 3)).addToGroup (.normal 4)
      contact := fun _ => ⟨[], none⟩
      metaContacts := [0, 1] }
  groups := [.topLevel, .normal 3, .normal 4]
  selectedMetaContacts := [0]
  selectedGroups := [.normal 3]

theorem reached_twoGroups : twoGroups.Reached := by
  intro m _
  by_cases hFirst : m = 0
  · subst hFirst
    exact ⟨[.addToGroup (some (.normal 3))], rfl, rfl⟩
  · simp only [twoGroups, if_neg hFirst]
    exact ⟨[.addToGroup (some (.normal 3)), .addToGroup (some (.normal 4))], rfl, rfl⟩

theorem groups_inv_and_removeGroup_twoGroups :
    (twoGroups.removeGroup (.normal 3)).list.metaContacts = [1] ∧
      (twoGroups.removeGroup (.normal 3)).groupsOf 1 = [.normal 4] := by
  obtain ⟨hList, hGroups⟩ :=
    groups_inv_and_removeGroup.2 twoGroups (.normal 3) reached_twoGroups (by decide)
  have hOne : (twoGroups.removeGroup (.normal 3)).list.metaContacts = [1] :=
    hList.trans (by decide)
  refine ⟨hOne, ?_⟩
  exact (hGroups 1 (by simp [hOne])).1.trans (by decide)

end GroupedList

end Kopete
