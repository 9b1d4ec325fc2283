import Kopete.Libkopete.MetaContactGroups
import Kopete.Libkopete.XmlLoading

/-!
# libkopete — storing and loading the contact list

A contact list is stored and loaded again. A group comes back if it is the top level or has
a name, a metacontact in the groups that come back; where the top level is one of several,
it has to be the last. Fields of the address book are read, but not written.

Main results:

* `roundTrip_iff` — which contact lists are the same after they are stored and loaded.
-/

namespace Kopete

namespace XmlContactStorage

open ListElement XmlStorage

variable (qt : QtTexts) (contact : Nat → ContactInfo) {s t : XmlStorage}

/-! ## Groups of a metacontact -/

/-- **Groups added in turn**, none twice, to the top level: it stays, or comes back, only as
the last of them. -/
theorem mem_addGroups (added : List Group) (h : added.Nodup) (g : Group) :
    g ∈ addGroups [.topLevel] added ↔
      (g ∈ added ∧ g ≠ .topLevel) ∨
        (g = .topLevel ∧ (added = [] ∨ added.getLast? = some .topLevel)) := by
  induction added using List.reverseRecOn generalizing g with
  | nil => simp [addGroups]
  | append_singleton added last ih =>
    obtain ⟨hNodup, hLast⟩ := QList.nodup_append_iff.1 h
    have hStep : addGroups [.topLevel] (added ++ [last]) =
        if last ∈ addGroups [.topLevel] added then addGroups [.topLevel] added
        else QList.removeAll (addGroups [.topLevel] added) .topLevel ++ [last] := by
      unfold addGroups
      rw [List.foldl_append, List.foldl_cons, List.foldl_nil]
    have hMemLast : last ∈ addGroups [.topLevel] added ↔ last = .topLevel ∧ added = [] := by
      rw [ih hNodup]
      constructor
      · rintro (⟨hMem, -⟩ | ⟨rfl, hEmpty | hTop⟩)
        · exact absurd hMem hLast
        · exact ⟨rfl, hEmpty⟩
        · exact absurd (List.mem_of_getLast? hTop) hLast
      · rintro ⟨rfl, rfl⟩
        exact Or.inr ⟨rfl, Or.inl rfl⟩
    rw [hStep]
    by_cases hStart : last = .topLevel ∧ added = []
    · rw [if_pos (hMemLast.2 hStart)]
      obtain ⟨rfl, rfl⟩ := hStart
      simp [addGroups]
    · rw [if_neg fun hMem => hStart (hMemLast.1 hMem), List.mem_append, List.mem_singleton,
        QList.mem_removeAll, ih hNodup, List.getLast?_concat]
      by_cases hTop : g = .topLevel
      · have hComm : Group.topLevel = last ↔ last = .topLevel := eq_comm
        simp [hTop, hComm]
      · simp [hTop]

theorem lookup_eq_some {id : Nat} {g : Group} (h : lookup t id = some g) :
    g ∈ t.groupList ∧ (t.data g).groupId = id := by
  unfold lookup at h
  have hSame := List.find?_some h
  exact ⟨List.mem_of_find?_eq_some h, by simpa using hSame⟩

theorem exists_lookup {g : Group} (h : g ∈ t.groupList) :
    ∃ g', lookup t (t.data g).groupId = some g' := by
  refine Option.isSome_iff_exists.1 (List.find?_isSome.2 ⟨g, h, ?_⟩)
  exact decide_eq_true rfl

/-- The groups of a contact list are loaded. -/
structure GroupsLoaded (s t : XmlStorage) : Prop where
  /-- A listed group is the one with the id of a group that is kept, or the top level. -/
  listed : ∀ g' ∈ t.groupList, (g' = .topLevel ∧ (t.data g').groupId = (s.data .topLevel).groupId) ∨
    (g' ≠ .topLevel ∧ ∃ g ∈ s.groupList, isKept s g = true ∧
      t.groupContents g' = s.groupContents g)
  /-- A group that is kept is listed. -/
  kept : ∀ g ∈ s.groupList, isKept s g = true →
    ∃ g' ∈ t.groupList, t.groupContents g' = s.groupContents g
  topLevel : .topLevel ∈ t.groupList
  topLevelContents : t.groupContents .topLevel =
    { s.groupContents .topLevel with displayName := topLevelName }
  ids : (t.groupList.map fun g => (t.data g).groupId).Nodup
  given : ∀ g ∈ t.groupList, (t.data g).groupId ≠ 0
  metaContacts : t.metaContactList = []

/-- **The groups of a contact list**, with the top level at the end. -/
theorem groupsLoaded (h : s.DistinctIds) :
    GroupsLoaded s
      ((((.topLevel :: s.groupList).map (groupElement s)).foldl loadGroup .new).addGroup
        .topLevel) := by
  have hStored : ∀ g ∈ .topLevel :: s.groupList, g ∈ s.storedGroups := fun g hg =>
    List.mem_append_left _ hg
  have hRead := groupsRead (s := s) (.topLevel :: s.groupList) fun g hg => h.given g (hStored g hg)
  generalize ((.topLevel :: s.groupList).map (groupElement s)).foldl loadGroup .new = t at hRead
  have hList : (t.addGroup .topLevel).groupList = t.groupList ++ [.topLevel] := rfl
  have hData : (t.addGroup .topLevel).data = t.data := rfl
  have hContents : (t.addGroup .topLevel).groupContents = t.groupContents := rfl
  have hTop := hRead.topLevel List.mem_cons_self
  have hKept : t.groupList.map t.groupContents =
      (s.groupList.filter (isKept s)).map s.groupContents := by
    rw [hRead.kept, List.filter_cons_of_neg (by simp [isKept, Group.isNormal])]
  have hTopId : (t.data .topLevel).groupId = (s.data .topLevel).groupId :=
    congrArg GroupContents.groupId hTop
  have hIds : (t.groupList ++ [Group.topLevel]).map (fun g => (t.data g).groupId) =
      (s.groupList.filter (isKept s) ++ [Group.topLevel]).map fun g => (s.data g).groupId := by
    have hMap := congrArg (List.map GroupContents.groupId) hKept
    rw [List.map_map, List.map_map] at hMap
    rw [List.map_append, List.map_append, List.map_singleton, List.map_singleton, hTopId]
    exact congrArg (· ++ _) hMap
  have hSource : ∀ g ∈ s.groupList.filter (isKept s) ++ [.topLevel], g ∈ s.storedGroups := by
    intro g hg
    rcases List.mem_append.1 hg with hg | hg
    · exact hStored g (List.mem_cons_of_mem _ (List.mem_filter.1 hg).1)
    · rw [List.mem_singleton.1 hg]
      exact hStored _ List.mem_cons_self
  refine ⟨?_, ?_, ?_, hTop, ?_, ?_, hRead.metaContacts⟩
  · intro g' hg'
    rw [hList] at hg'
    rcases List.mem_append.1 hg' with hg' | hg'
    · right
      refine ⟨?_, ?_⟩
      · rintro rfl
        obtain ⟨k, -, hNormal⟩ := hRead.normal _ hg'
        cases hNormal
      · have hMem : t.groupContents g' ∈ (s.groupList.filter (isKept s)).map s.groupContents := by
          rw [← hKept]
          exact List.mem_map.2 ⟨g', hg', rfl⟩
        obtain ⟨g, hg, hEq⟩ := List.mem_map.1 hMem
        exact ⟨g, (List.mem_filter.1 hg).1, (List.mem_filter.1 hg).2, hEq.symm⟩
    · left
      rw [List.mem_singleton.1 hg']
      exact ⟨rfl, hTopId⟩
  · intro g hg hKeep
    have hMem : s.groupContents g ∈ t.groupList.map t.groupContents := by
      rw [hKept]
      exact List.mem_map.2 ⟨g, List.mem_filter.2 ⟨hg, hKeep⟩, rfl⟩
    obtain ⟨g', hg', hEq⟩ := List.mem_map.1 hMem
    refine ⟨g', ?_, hEq⟩
    rw [hList]
    exact List.mem_append_left _ hg'
  · rw [hList]
    exact List.mem_append_right _ (List.mem_singleton_self _)
  · rw [hList, hData, hIds]
    refine List.Nodup.map_on ?_ ?_
    · intro g hg g' hg' hSame
      exact h.distinct g (hSource g hg) g' (hSource g' hg') hSame
    · refine QList.nodup_append_iff.2 ⟨h.nodup.filter _, ?_⟩
      intro hMem
      have hKeep := (List.mem_filter.1 hMem).2
      simp [isKept, Group.isNormal] at hKeep
  · intro g' hg'
    rw [hList] at hg'
    have hMem : (t.data g').groupId ∈
        (s.groupList.filter (isKept s) ++ [Group.topLevel]).map fun g => (s.data g).groupId := by
      rw [← hIds]
      exact List.mem_map.2 ⟨g', hg', rfl⟩
    obtain ⟨g, hg, hEq⟩ := List.mem_map.1 hMem
    rw [hData, ← hEq]
    exact (h.given g (hSource g hg)).1

/-- The group is there after loading: it is the top level, or on the list and kept. -/
def Stays (s : XmlStorage) (g : Group) : Prop :=
  g = .topLevel ∨ (g ∈ s.groupList ∧ isKept s g = true)

namespace GroupsLoaded

/-- What is found for the id of a stored group. -/
theorem lookup_some (h : GroupsLoaded s t) (hIds : s.DistinctIds) {g g' : Group}
    (hg : g ∈ s.storedGroups) (hLookup : lookup t (s.data g).groupId = some g') :
    (t.data g').groupId = (s.data g).groupId ∧ Stays s g ∧ (g' = .topLevel ↔ g = .topLevel) := by
  obtain ⟨hMem, hId⟩ := lookup_eq_some hLookup
  refine ⟨hId, ?_⟩
  rcases h.listed g' hMem with ⟨rfl, hTop⟩ | ⟨hNe, g₁, hg₁, hKept, hContents⟩
  · have hSame := hIds.distinct _ (List.mem_append_left _ List.mem_cons_self) g hg
      (hTop.symm.trans hId)
    exact ⟨Or.inl hSame.symm, iff_of_true rfl hSame.symm⟩
  · have hSame : g₁ = g := hIds.distinct g₁
      (List.mem_append_left _ (List.mem_cons_of_mem _ hg₁)) g hg
      ((congrArg GroupContents.groupId hContents).symm.trans hId)
    subst hSame
    refine ⟨Or.inr ⟨hg₁, hKept⟩, iff_of_false hNe ?_⟩
    rintro rfl
    simp [isKept, Group.isNormal] at hKept

theorem exists_lookup (h : GroupsLoaded s t) {g : Group} (hStays : Stays s g) :
    ∃ g', lookup t (s.data g).groupId = some g' := by
  rcases hStays with rfl | ⟨hg, hKept⟩
  · have hTop : (t.data .topLevel).groupId = (s.data .topLevel).groupId :=
      congrArg GroupContents.groupId h.topLevelContents
    rw [← hTop]
    exact XmlContactStorage.exists_lookup h.topLevel
  · obtain ⟨g', hg', hContents⟩ := h.kept g hg hKept
    have hId : (t.data g').groupId = (s.data g).groupId :=
      congrArg GroupContents.groupId hContents
    rw [← hId]
    exact XmlContactStorage.exists_lookup hg'

theorem topLevel_groupId (h : GroupsLoaded s t) :
    (t.data .topLevel).groupId = (s.data .topLevel).groupId :=
  congrArg GroupContents.groupId h.topLevelContents

/-- The groups that are found for those of a metacontact. -/
def foundGroups (s t : XmlStorage) (gs : List Group) : List Group :=
  gs.filterMap fun g => lookup t (s.data g).groupId

theorem mem_foundGroups {gs : List Group} {x : Group} :
    x ∈ foundGroups s t gs ↔ ∃ g ∈ gs, lookup t (s.data g).groupId = some x :=
  List.mem_filterMap

theorem getLast?_foundGroups {last x : Group} (init : List Group)
    (hx : lookup t (s.data last).groupId = some x) :
    (foundGroups s t (init ++ [last])).getLast? = some x := by
  have hLast : foundGroups s t [last] = [x] := List.filterMap_cons_some hx
  rw [foundGroups, List.filterMap_append]
  show (_ ++ foundGroups s t [last]).getLast? = some x
  rw [hLast, List.getLast?_concat]

/-- None is found twice. -/
theorem nodup_foundGroups (h : GroupsLoaded s t) (hIds : s.DistinctIds) {gs : List Group}
    (hStored : ∀ g ∈ gs, g ∈ s.storedGroups) (hNodup : gs.Nodup) :
    (foundGroups s t gs).Nodup := by
  rw [foundGroups, List.Nodup, List.pairwise_filterMap]
  refine hNodup.imp_of_mem ?_
  rintro g g' hg hg' hNe x hx x' hx' rfl
  refine hNe (hIds.distinct g (hStored g hg) g' (hStored g' hg') ?_)
  rw [← (h.lookup_some hIds (hStored g hg) hx).1, (h.lookup_some hIds (hStored g' hg') hx').1]

/-- What has the id of a stored group after loading. -/
theorem of_mem_addGroups (h : GroupsLoaded s t) (hIds : s.DistinctIds) {gs : List Group}
    (hStored : ∀ g ∈ gs, g ∈ s.storedGroups) (hNodup : gs.Nodup) {g x : Group}
    (hg : g ∈ s.storedGroups) (hx : x ∈ addGroups [.topLevel] (foundGroups s t gs))
    (hId : (t.data x).groupId = (s.data g).groupId) :
    (Stays s g ∧ g ≠ .topLevel) ∨ (g = .topLevel ∧
      (foundGroups s t gs = [] ∨ (foundGroups s t gs).getLast? = some .topLevel)) := by
  have hTopStored : Group.topLevel ∈ s.storedGroups := List.mem_append_left _ List.mem_cons_self
  rcases (mem_addGroups _ (h.nodup_foundGroups hIds hStored hNodup) x).1 hx with
    ⟨hx, hNe⟩ | ⟨rfl, hEnd⟩
  · obtain ⟨g₁, hg₁, hLookup⟩ := mem_foundGroups.1 hx
    obtain ⟨hId', hStays, hTopIff⟩ := h.lookup_some hIds (hStored g₁ hg₁) hLookup
    obtain rfl := hIds.distinct g₁ (hStored g₁ hg₁) g hg (hId'.symm.trans hId)
    exact Or.inl ⟨hStays, mt hTopIff.2 hNe⟩
  · exact Or.inr ⟨(hIds.distinct _ hTopStored g hg (h.topLevel_groupId.symm.trans hId)).symm, hEnd⟩

/-- Where the last of the groups stays and the top level is what is found last, it is the last. -/
theorem eq_topLevel_of_end (h : GroupsLoaded s t) (hIds : s.DistinctIds) {init : List Group}
    {last : Group} (hLast : last ∈ s.storedGroups) (hStays : Stays s last)
    (hEnd : foundGroups s t (init ++ [last]) = [] ∨
      (foundGroups s t (init ++ [last])).getLast? = some .topLevel) : last = .topLevel := by
  obtain ⟨x, hx⟩ := h.exists_lookup hStays
  have hGetLast := getLast?_foundGroups init hx
  rcases hEnd with hEmpty | hEnd
  · rw [hEmpty] at hGetLast
    cases hGetLast
  · obtain rfl := Option.some.inj (hGetLast.symm.trans hEnd)
    exact (h.lookup_some hIds hLast hx).2.2.1 rfl

/-- **The groups of a metacontact** are as they were if all of them are there, and the top
level, if it is one of them, is the last. -/
theorem groups_iff (h : GroupsLoaded s t) (hIds : s.DistinctIds) {gs : List Group}
    (hStored : ∀ g ∈ gs, g ∈ s.storedGroups) (hNonempty : gs ≠ []) (hNodup : gs.Nodup) :
    (fun g => (t.data g).groupId) ''
        {g | g ∈ addGroups [.topLevel] (gs.filterMap fun g => lookup t (s.data g).groupId)} =
      (fun g => (s.data g).groupId) '' {g | g ∈ gs} ↔
    (∀ g ∈ gs, Stays s g) ∧ .topLevel ∉ gs.dropLast := by
  obtain ⟨init, last, rfl⟩ : ∃ init last, gs = init ++ [last] := by
    rcases List.eq_nil_or_concat gs with hNil | ⟨init, last, hEq⟩
    · exact absurd hNil hNonempty
    · exact ⟨init, last, by rw [hEq, List.concat_eq_append]⟩
  have hLastMem : last ∈ init ++ [last] := List.mem_append_right _ (List.mem_singleton_self _)
  have hLastStored := hStored last hLastMem
  rw [List.dropLast_concat]
  constructor
  · intro hEq
    have hHas : ∀ g ∈ init ++ [last], (Stays s g ∧ g ≠ .topLevel) ∨
        (g = .topLevel ∧ (foundGroups s t (init ++ [last]) = [] ∨
          (foundGroups s t (init ++ [last])).getLast? = some .topLevel)) := by
      intro g hg
      have hMem : (s.data g).groupId ∈ (fun g => (s.data g).groupId) '' {g | g ∈ init ++ [last]} :=
        ⟨g, hg, rfl⟩
      rw [← hEq] at hMem
      obtain ⟨x, hx, hId⟩ := hMem
      exact h.of_mem_addGroups hIds hStored hNodup (hStored g hg) hx hId
    have hAll : ∀ g ∈ init ++ [last], Stays s g := by
      intro g hg
      rcases hHas g hg with ⟨hStays, -⟩ | ⟨hTop, -⟩
      · exact hStays
      · exact Or.inl hTop
    refine ⟨hAll, fun hInit => ?_⟩
    rcases hHas .topLevel (List.mem_append_left _ hInit) with ⟨-, hNe⟩ | ⟨-, hEnd⟩
    · exact hNe rfl
    · rw [h.eq_topLevel_of_end hIds hLastStored (hAll last hLastMem) hEnd] at hNodup
      exact (QList.nodup_append_iff.1 hNodup).2 hInit
  · rintro ⟨hAll, hInit⟩
    have hFoundNodup := h.nodup_foundGroups hIds hStored hNodup
    ext id
    constructor
    · rintro ⟨x, hx, rfl⟩
      rcases (mem_addGroups _ hFoundNodup x).1 hx with ⟨hx, -⟩ | ⟨rfl, hEnd⟩
      · obtain ⟨g, hg, hLookup⟩ := mem_foundGroups.1 hx
        exact ⟨g, hg, (h.lookup_some hIds (hStored g hg) hLookup).1.symm⟩
      · refine ⟨last, hLastMem, ?_⟩
        rw [h.eq_topLevel_of_end hIds hLastStored (hAll last hLastMem) hEnd]
        exact h.topLevel_groupId.symm
    · rintro ⟨g, hg, rfl⟩
      obtain ⟨x, hx⟩ := h.exists_lookup (hAll g hg)
      obtain ⟨hId, -, hTopIff⟩ := h.lookup_some hIds (hStored g hg) hx
      refine ⟨x, (mem_addGroups _ hFoundNodup x).2 ?_, hId⟩
      by_cases hIsTop : x = .topLevel
      · obtain rfl := hTopIff.1 hIsTop
        rcases List.mem_append.1 hg with hg | hg
        · exact absurd hg hInit
        · rw [List.mem_singleton.1 hg, hIsTop] at hx
          exact Or.inr ⟨hIsTop, Or.inr (getLast?_foundGroups init hx)⟩
      · exact Or.inl ⟨mem_foundGroups.2 ⟨g, hg, hx⟩, hIsTop⟩

end GroupsLoaded

/-! ## The contact list -/

/-- The metacontact is stored with all there is to it. -/
structure StorableMetaContact (s : XmlStorage) (contact : Nat → ContactInfo)
    (mc : StoredMetaContact) : Prop where
  groups : ∀ g ∈ mc.groups, Stays s g
  topLevelLast : .topLevel ∉ mc.groups.dropLast
  /-- What its contacts serialize, from after the last empty record on, is its data. -/
  records : ∀ k, (serializedRecords contact mc k).foldl addRecord [] =
    mc.element.pluginContactDataOf k
  /-- It has no fields of the address book. -/
  addressBook : ∀ app key, mc.addressBookField app key = []
  icons : mc.element.icons.isEmpty = true → mc.element.useCustomIcon = false

/-- The contact list is stored with all there is to it. -/
structure Storable (s : XmlStorage) (contact : Nat → ContactInfo) : Prop where
  groups : ∀ g ∈ s.groupList, Stays s g
  topLevelName : (s.data .topLevel).displayName = topLevelName
  metaContacts : ∀ mc ∈ s.lasting, StorableMetaContact s contact mc

theorem kabcIdText_reloaded (mc : StoredMetaContact) :
    (reloaded qt contact s t mc).kabcIdText contact = mc.kabcIdText contact := by
  have hField : (reloaded qt contact s t mc).kabcId = mc.kabcIdText contact := rfl
  have hContacts : (reloaded qt contact s t mc).contacts = [] := rfl
  rw [StoredMetaContact.kabcIdText, hField, hContacts]
  split
  · next hNone => exact hNone.symm
  · rfl

theorem displayName_reloaded (mc : StoredMetaContact) :
    (reloaded qt contact s t mc).displayName.filter (· ≠ 10) = mc.displayName.filter (· ≠ 10) := by
  have hField : (reloaded qt contact s t mc).displayName = mc.displayName.filter (· ≠ 10) := rfl
  rw [hField, List.filter_filter]
  simp

/-- There is no address book behind what is loaded. -/
theorem addressBookField_reloaded_iff (mc : StoredMetaContact) :
    (reloaded qt contact s t mc).addressBookField = mc.addressBookField ↔
      ∀ app key, mc.addressBookField app key = [] := by
  rw [funext_iff]
  refine forall_congr' fun app => ?_
  rw [funext_iff]
  exact forall_congr' fun key => eq_comm

/-- What is read back of the data and the icons of a metacontact. -/
structure ElementReloaded (contact : Nat → ContactInfo) (mc : StoredMetaContact)
    (e : ListElement) : Prop where
  pluginData : e.pluginDataOf = mc.element.pluginDataOf
  pluginContactData : e.pluginContactDataOf = mc.element.pluginContactDataOf ↔
    ∀ k, (serializedRecords contact mc k).foldl addRecord [] = mc.element.pluginContactDataOf k
  icons : e.icons = mc.element.icons
  useCustomIcon : e.useCustomIcon = mc.element.useCustomIcon ↔
    (mc.element.icons.isEmpty = true → mc.element.useCustomIcon = false)

theorem elementReloaded (mc : StoredMetaContact) :
    ElementReloaded contact mc (reloaded qt contact s t mc).element := by
  obtain ⟨m, hSerialize, hRecords⟩ := serialize_eq contact mc
  obtain ⟨hData, hContactData, hIcons, hUse⟩ := reread_new (mc.serialize contact).element
  refine ⟨funext fun k => ?_, ?_, ?_, ?_⟩
  · refine (hData k).trans ?_
    rw [hSerialize]
    rfl
  · have hAt : ∀ k, (reloaded qt contact s t mc).element.pluginContactDataOf k =
        (serializedRecords contact mc k).foldl addRecord [] := by
      intro k
      refine (hContactData k).trans ?_
      rw [← hRecords, hSerialize]
      rfl
    rw [funext_iff]
    simp only [hAt]
  · refine hIcons.trans ?_
    rw [hSerialize]
  · have hField : (reloaded qt contact s t mc).element.useCustomIcon =
        (!mc.element.icons.isEmpty && mc.element.useCustomIcon) := by
      refine hUse.trans ?_
      rw [hSerialize]
    rw [hField]
    cases mc.element.icons.isEmpty <;> cases mc.element.useCustomIcon <;> decide

theorem contents_reloaded_iff (h : GroupsLoaded s t) (hIds : s.DistinctIds)
    {mc : StoredMetaContact} (hMem : mc ∈ s.lasting) (hOk : mc.GroupsOk)
    (hUuid : qt.uuidOfString (qt.uuidToString mc.metaContactId) = mc.metaContactId) :
    t.metaContactContents contact (sourceIdsOf contact mc.displayNameSourceContact)
        (sourceIdsOf contact mc.photoSourceContact) (reloaded qt contact s t mc) =
      s.metaContactContents contact (sourceIdsOf contact mc.displayNameSourceContact)
        (sourceIdsOf contact mc.photoSourceContact) mc ↔
      StorableMetaContact s contact mc := by
  have hElement := elementReloaded qt contact (s := s) (t := t) mc
  have hStored : ∀ g ∈ mc.groups, g ∈ s.storedGroups := fun g hg =>
    List.mem_append_right _ (List.mem_flatMap.2 ⟨mc, hMem, hg⟩)
  have hGroups : (fun g => (t.data g).groupId) '' {g | g ∈ (reloaded qt contact s t mc).groups} =
      (fun g => (s.data g).groupId) '' {g | g ∈ mc.groups} ↔
        (∀ g ∈ mc.groups, Stays s g) ∧ .topLevel ∉ mc.groups.dropLast :=
    h.groups_iff hIds hStored hOk.nonempty hOk.nodup
  unfold metaContactContents
  rw [MetaContactContents.mk.injEq, kabcIdText_reloaded, displayName_reloaded,
    addressBookField_reloaded_iff, hElement.pluginData, hElement.pluginContactData,
    hElement.icons, hElement.useCustomIcon, hGroups]
  constructor
  · rintro ⟨-, -, -, -, -, -, -, -, hRecords, hBook, -, hIcons, hGroups, hTop⟩
    exact ⟨hGroups, hTop, hRecords, hBook, hIcons⟩
  · rintro ⟨hGroups, hTop, hRecords, hBook, hIcons⟩
    exact ⟨hUuid, rfl, rfl, rfl, rfl, rfl, rfl, rfl, hRecords, hBook, rfl, hIcons, hGroups, hTop⟩

/-- **The groups of the list** are as they were if all of them are there, and the top level
goes by the name that it has anyway. -/
theorem GroupsLoaded.contents_iff (h : GroupsLoaded s t) (hIds : s.DistinctIds) :
    t.groupContents '' {g | g ∈ .topLevel :: t.groupList} =
        s.groupContents '' {g | g ∈ .topLevel :: s.groupList} ↔
      (∀ g ∈ s.groupList, Stays s g) ∧ (s.data .topLevel).displayName = topLevelName := by
  have hType : ∀ g : Group, g.type = .topLevel ↔ g = .topLevel := by
    intro g
    cases g <;> simp [Group.type]
  constructor
  · intro hEq
    refine ⟨?_, ?_⟩
    · intro g hg
      have hMem : s.groupContents g ∈ s.groupContents '' {g | g ∈ .topLevel :: s.groupList} :=
        ⟨g, List.mem_cons_of_mem _ hg, rfl⟩
      rw [← hEq] at hMem
      obtain ⟨g', hg', hContents⟩ := hMem
      have hListed : g' ∈ t.groupList := by
        rcases List.mem_cons.1 hg' with rfl | hg'
        · exact h.topLevel
        · exact hg'
      rcases h.listed g' hListed with ⟨rfl, -⟩ | ⟨-, g₁, hg₁, hKept, hContents'⟩
      · exact Or.inl ((hType g).1 (congrArg GroupContents.type hContents).symm)
      · have hSame := hIds.distinct g₁ (List.mem_append_left _ (List.mem_cons_of_mem _ hg₁)) g
          (List.mem_append_left _ (List.mem_cons_of_mem _ hg))
          (congrArg GroupContents.groupId (hContents'.symm.trans hContents))
        rw [← hSame]
        exact Or.inr ⟨hg₁, hKept⟩
    · have hMem : s.groupContents .topLevel ∈
          s.groupContents '' {g | g ∈ .topLevel :: s.groupList} :=
        ⟨.topLevel, List.mem_cons_self, rfl⟩
      rw [← hEq] at hMem
      obtain ⟨g', -, hContents⟩ := hMem
      obtain rfl := (hType g').1 (congrArg GroupContents.type hContents)
      rw [h.topLevelContents] at hContents
      exact (congrArg GroupContents.displayName hContents).symm
  · rintro ⟨hAll, hName⟩
    have hTop : t.groupContents .topLevel = s.groupContents .topLevel := by
      rw [h.topLevelContents, ← hName]
      rfl
    ext c
    constructor
    · rintro ⟨g', hg', rfl⟩
      have hListed : g' ∈ t.groupList := by
        rcases List.mem_cons.1 hg' with rfl | hg'
        · exact h.topLevel
        · exact hg'
      rcases h.listed g' hListed with ⟨rfl, -⟩ | ⟨-, g, hg, -, hContents⟩
      · exact ⟨.topLevel, List.mem_cons_self, hTop.symm⟩
      · exact ⟨g, List.mem_cons_of_mem _ hg, hContents.symm⟩
    · rintro ⟨g, hg, rfl⟩
      rcases List.mem_cons.1 hg with rfl | hg
      · exact ⟨.topLevel, List.mem_cons_self, hTop⟩
      · rcases hAll g hg with rfl | ⟨hg, hKept⟩
        · exact ⟨.topLevel, List.mem_cons_self, hTop⟩
        · obtain ⟨g', hg', hContents⟩ := h.kept g hg hKept
          exact ⟨g', List.mem_cons_of_mem _ hg', hContents⟩

theorem foldl_loadGroup_skip (elements : List DomNode)
    (h : ∀ e ∈ elements, e.tagName ≠ "kopete-group") (t : XmlStorage) :
    elements.foldl loadGroup t = t := by
  induction elements with
  | nil => rfl
  | cons e elements ih =>
    have hSkip : loadGroup t e = t := if_neg (h e List.mem_cons_self)
    rw [List.foldl_cons, hSkip]
    exact ih fun e' he' => h e' (List.mem_cons_of_mem _ he')

theorem foldl_loadMetaContact_skip (elements : List DomNode)
    (h : ∀ e ∈ elements, e.tagName ≠ "meta-contact") (t : XmlStorage) :
    elements.foldl (loadMetaContact qt) t = t := by
  induction elements with
  | nil => rfl
  | cons e elements ih =>
    have hSkip : loadMetaContact qt t e = t := if_neg (h e List.mem_cons_self)
    rw [List.foldl_cons, hSkip]
    exact ih fun e' he' => h e' (List.mem_cons_of_mem _ he')

/-- **The metacontacts of a document.** -/
theorem foldl_loadMetaContact (mcs : List StoredMetaContact)
    (ht : ∀ g ∈ t.groupList, (t.data g).groupId ≠ 0)
    (hgs : ∀ mc ∈ mcs, ∀ g ∈ mc.groups, (s.data g).groupId < 2 ^ 32)
    (hUuid : ∀ mc ∈ mcs, qt.uuidToString mc.metaContactId ≠ []) :
    (mcs.map (metaContactElement qt contact s)).foldl (loadMetaContact qt) t =
      { t with metaContactList := t.metaContactList ++ mcs.map (reloaded qt contact s t) } := by
  induction mcs generalizing t with
  | nil => simp
  | cons mc mcs ih =>
    have hTag : (metaContactElement qt contact s mc).tagName = "meta-contact" := rfl
    have hHere : loadMetaContact qt t (metaContactElement qt contact s mc) =
        t.addMetaContact (reloaded qt contact s t mc) := by
      unfold loadMetaContact
      rw [if_pos hTag, parse_metaContactElement qt contact ht mc
        (hgs mc List.mem_cons_self) (hUuid mc List.mem_cons_self)]
    have hRest := ih (t := t.addMetaContact (reloaded qt contact s t mc)) ht
      (fun mc' hmc' => hgs mc' (List.mem_cons_of_mem _ hmc'))
      (fun mc' hmc' => hUuid mc' (List.mem_cons_of_mem _ hmc'))
    rw [List.map_cons, List.foldl_cons, hHere, hRest, List.map_cons]
    simp only [addMetaContact, List.append_assoc, List.singleton_append]
    rfl

/-- The check has nothing to do. -/
theorem checkGroupIds_given (h : (t.groupList.map fun g => (t.data g).groupId).Nodup)
    (ht : ∀ g ∈ t.groupList, (t.data g).groupId ≠ 0) (hTop : .topLevel ∈ t.groupList) :
    checkGroupIds t = t := by
  have hRepeated : ∀ (gs : List Group) (seen : List Nat),
      (∀ g ∈ gs, (t.data g).groupId ≠ 0) → (gs.map fun g => (t.data g).groupId).Nodup →
      (∀ g ∈ gs, (t.data g).groupId ∉ seen) → repeatedId gs seen t = (false, t) := by
    intro gs
    induction gs with
    | nil => exact fun _ _ _ _ => rfl
    | cons g gs ih =>
      intro seen hGiven hNodup hSeen
      obtain ⟨hFirst, hRest⟩ := List.nodup_cons.1 hNodup
      unfold repeatedId
      rw [groupId_given (hGiven g List.mem_cons_self)]
      simp only
      rw [if_neg (hSeen g List.mem_cons_self)]
      refine ih _ (fun g' hg' => hGiven g' (List.mem_cons_of_mem _ hg')) hRest ?_
      intro g' hg' hMem
      rcases List.mem_cons.1 hMem with hSame | hMem
      · exact hFirst (List.mem_map.2 ⟨g', hg', hSame⟩)
      · exact hSeen g' (List.mem_cons_of_mem _ hg') hMem
  unfold checkGroupIds
  rw [hRepeated t.groupList [] ht h fun _ _ => List.not_mem_nil]
  simp only
  rw [groupId_given (ht _ hTop)]
  rfl

/-- **Loading what was stored.** -/
theorem load_save (hIds : s.DistinctIds)
    (hUuid : ∀ mc ∈ s.metaContactList, qt.uuidToString mc.metaContactId ≠ []) :
    ∃ t, GroupsLoaded s t ∧ load qt (save qt contact s).1 .new =
      { t with metaContactList := s.lasting.map (reloaded qt contact s t) } := by
  have hLoaded := groupsLoaded hIds
  refine ⟨_, hLoaded, ?_⟩
  rw [save_given qt contact hIds]
  generalize hGroups : (.topLevel :: s.groupList).map (groupElement s) = groups at hLoaded
  generalize hMetaContacts : s.lasting.map (metaContactElement qt contact s) = metaContacts
  have hElements : elementsOf (groups ++ metaContacts) = groups ++ metaContacts := by
    refine List.takeWhile_eq_self_iff.2 ?_
    intro e he
    rw [← hGroups, ← hMetaContacts] at he
    rcases List.mem_append.1 he with he | he
    · obtain ⟨g, -, rfl⟩ := List.mem_map.1 he
      rfl
    · obtain ⟨mc, -, rfl⟩ := List.mem_map.1 he
      rfl
  have hSkipGroups : ∀ e ∈ groups, e.tagName ≠ "meta-contact" := by
    intro e he
    rw [← hGroups] at he
    obtain ⟨g, -, rfl⟩ := List.mem_map.1 he
    show "kopete-group" ≠ "meta-contact"
    decide
  have hSkipMetaContacts : ∀ e ∈ metaContacts, e.tagName ≠ "kopete-group" := by
    intro e he
    rw [← hMetaContacts] at he
    obtain ⟨mc, -, rfl⟩ := List.mem_map.1 he
    show "meta-contact" ≠ "kopete-group"
    decide
  unfold load
  simp only [Dom.Node.children, hElements, List.foldl_append]
  rw [foldl_loadGroup_skip metaContacts hSkipMetaContacts,
    foldl_loadMetaContact_skip qt groups hSkipGroups, ← hMetaContacts, foldl_loadMetaContact]
  · rw [hLoaded.metaContacts, List.nil_append]
    exact checkGroupIds_given hLoaded.ids hLoaded.given hLoaded.topLevel
  · exact hLoaded.given
  · intro mc hmc g hg
    exact (hIds.given g (List.mem_append_right _ (List.mem_flatMap.2 ⟨mc, hmc, hg⟩))).2
  · intro mc hmc
    exact hUuid mc (List.mem_filter.1 hmc).1

/-- **Round trip.** A contact list whose groups have ids, no two of them the same, is the same
after it is stored and loaded exactly when it is storable. -/
theorem roundTrip_iff (hIds : s.DistinctIds)
    (hGroups : ∀ mc ∈ s.metaContactList, mc.FromGroupCalls)
    (hUuid : ∀ mc ∈ s.metaContactList, qt.uuidToString mc.metaContactId ≠ [] ∧
      qt.uuidOfString (qt.uuidToString mc.metaContactId) = mc.metaContactId) :
    (load qt (save qt contact s).1 .new).loadedContents contact = s.contents contact ↔
      Storable s contact := by
  obtain ⟨t, hLoaded, hLoad⟩ := load_save qt contact hIds fun mc hmc => (hUuid mc hmc).1
  have hLasting : (s.lasting.map (reloaded qt contact s t)).filter (fun mc => !mc.temporary) =
      s.lasting.map (reloaded qt contact s t) := by
    refine List.filter_eq_self.2 ?_
    intro mc hmc
    obtain ⟨mc₀, -, rfl⟩ := List.mem_map.1 hmc
    rfl
  have hContents : (load qt (save qt contact s).1 .new).loadedContents contact =
      ⟨t.groupContents '' {g | g ∈ .topLevel :: t.groupList},
        s.lasting.map fun mc =>
          t.metaContactContents contact (sourceIdsOf contact mc.displayNameSourceContact)
            (sourceIdsOf contact mc.photoSourceContact) (reloaded qt contact s t mc)⟩ := by
    have hMcs : ({ t with metaContactList := s.lasting.map (reloaded qt contact s t) } :
        XmlStorage).lasting = s.lasting.map (reloaded qt contact s t) := hLasting
    rw [hLoad]
    unfold loadedContents
    rw [hMcs, List.map_map]
    rfl
  rw [hContents]
  unfold contents
  rw [Contents.mk.injEq, hLoaded.contents_iff hIds, List.map_inj_left]
  have hEach : ∀ mc ∈ s.lasting,
      (t.metaContactContents contact (sourceIdsOf contact mc.displayNameSourceContact)
          (sourceIdsOf contact mc.photoSourceContact) (reloaded qt contact s t mc) =
        s.metaContactContents contact (sourceIdsOf contact mc.displayNameSourceContact)
          (sourceIdsOf contact mc.photoSourceContact) mc ↔ StorableMetaContact s contact mc) := by
    intro mc hmc
    have hListed := (List.mem_filter.1 hmc).1
    exact contents_reloaded_iff qt contact hLoaded hIds hmc (hGroups mc hListed).groupsOk
      (hUuid mc hListed).2
  constructor
  · rintro ⟨⟨hStays, hName⟩, hAll⟩
    exact ⟨hStays, hName, fun mc hmc => (hEach mc hmc).1 (hAll mc hmc)⟩
  · intro hStorable
    exact ⟨⟨hStorable.groups, hStorable.topLevelName⟩,
      fun mc hmc => (hEach mc hmc).2 (hStorable.metaContacts mc hmc)⟩

/-- A digit of a UUID. -/
def uuidDigit (n : Nat) : UInt16 := UInt16.ofNat (if n < 10 then 48 + n else 87 + n)

def uuidDigits (u : BitVec 128) : QString :=
  (List.range 32).map fun i => uuidDigit (u.toNat / 16 ^ (31 - i) % 16)

/-- The value of a digit; braces and dashes have none. -/
def uuidValue (c : UInt16) : Option Nat :=
  if isDigit c then some (c.toNat - 48)
  else if 97 ≤ c ∧ c ≤ 102 then some (c.toNat - 87)
  else none

/-- The texts of Qt, for a URL of a local file that needs no escapes. -/
def plainTexts : QtTexts where
  uuidToString u :=
    let digits := uuidDigits u
    latin1 "\x7b" ++ digits.take 8 ++ latin1 "-" ++ (digits.drop 8).take 4 ++ latin1 "-" ++
      (digits.drop 12).take 4 ++ latin1 "-" ++ (digits.drop 16).take 4 ++ latin1 "-" ++
      digits.drop 20 ++ latin1 "\x7d"
  uuidOfString text := BitVec.ofNat 128 ((text.filterMap uuidValue).foldl (16 * · + ·) 0)
  toLocalFile url := url.drop 7
  fromLocalFile path := latin1 "file://" ++ path

/-- What a contact serializes. -/
def annaRecord : PluginData := .ofList [(latin1 "contactId", latin1 "anna")]

def annaContact (_ : Nat) : ContactInfo :=
  ⟨latin1 "JabberProtocol", latin1 "me", latin1 "anna", annaRecord⟩

/-- A metacontact in a group and at the top level. -/
def anna : StoredMetaContact where
  toMetaContact := { MetaContact.new with
    displayName := latin1 "Anna"
    contacts := [0]
    groups := [Group.normal 0, .topLevel] }
  metaContactId := 0x0123456789abcdef0123456789abcdef
  customPicture := []
  photoSyncedWithKABC := false
  photoSource := .contact
  photoSourceContact := some 0
  nameSourceIds := .none
  photoSourceIds := .none
  addressBook := .empty
  element := { ListElement.new with
    pluginContactData := .ofList [(latin1 "JabberProtocol", [annaRecord])] }

/-- The top level, a group that is collapsed, and a metacontact. -/
def listOf (mc : StoredMetaContact) : XmlStorage where
  data
    | .topLevel => { GroupData.named (latin1 "Top Level") with groupId := 1 }
    | .normal 0 => ⟨latin1 "Friends", false, 2, .new⟩
    | g => XmlStorage.new.data g
  uniqueGroupId := 2
  nextGroup := 1
  groupList := [Group.topLevel, .normal 0]
  metaContactList := [mc]

theorem distinctIds_listOf {mc : StoredMetaContact} (hLasting : mc.temporary = false)
    (h : mc.groups = [Group.normal 0, .topLevel]) : (listOf mc).DistinctIds := by
  have hGroups : ∀ g ∈ (listOf mc).storedGroups, g = .topLevel ∨ g = .normal 0 := by
    intro g hg
    have hCases : g = .topLevel ∨ g = .normal 0 ∨ g = .normal 0 ∨ g = .topLevel := by
      simpa [storedGroups, lasting, listOf, hLasting, h] using hg
    tauto
  have hTop : ((listOf mc).data .topLevel).groupId = 1 := rfl
  have hFriends : ((listOf mc).data (.normal 0)).groupId = 2 := rfl
  refine ⟨?_, ?_, ?_⟩
  · show [Group.topLevel, .normal 0].Nodup
    decide
  · intro g hg
    rcases hGroups g hg with rfl | rfl
    · rw [hTop]
      decide
    · rw [hFriends]
      decide
  · intro g hg g' hg' hSame
    rcases hGroups g hg with rfl | rfl <;> rcases hGroups g' hg' with rfl | rfl
    · rfl
    · rw [hTop, hFriends] at hSame
      exact absurd hSame (by decide)
    · rw [hTop, hFriends] at hSame
      exact absurd hSame (by decide)
    · rfl

theorem fromGroupCalls_anna : anna.FromGroupCalls :=
  ⟨[.addToGroup (some (.normal 0)), .addToGroup (some .topLevel)], by decide, by decide⟩

theorem roundTrip_iff_anna :
    (load plainTexts (save plainTexts annaContact (listOf anna)).1 .new).loadedContents
      annaContact = (listOf anna).contents annaContact := by
  refine (roundTrip_iff plainTexts annaContact (distinctIds_listOf rfl rfl) ?_ ?_).2
    ⟨?_, rfl, ?_⟩
  · intro mc hmc
    rw [List.mem_singleton.1 hmc]
    exact fromGroupCalls_anna
  · intro mc hmc
    rw [List.mem_singleton.1 hmc]
    exact ⟨by decide +kernel, by decide +kernel⟩
  · intro g hg
    rcases List.mem_pair.1 hg with rfl | rfl
    · exact Or.inl rfl
    · exact Or.inr ⟨hg, by decide⟩
  · intro mc hmc
    rw [List.mem_singleton.1 (List.mem_filter.1 hmc).1]
    refine ⟨?_, by decide, ?_, fun app key => rfl, fun _ => rfl⟩
    · intro g hg
      rcases List.mem_pair.1 hg with rfl | rfl
      · exact Or.inr ⟨by decide, by decide⟩
      · exact Or.inl rfl
    · intro k
      have hData : anna.element.pluginContactDataOf k =
          if k = latin1 "JabberProtocol" then [annaRecord] else [] := by
        have hFind := QMap.find?_ofList [(latin1 "JabberProtocol", [annaRecord])]
          (k := k) fun _ => decide_eq_true_iff
        show ((QMap.ofList [(latin1 "JabberProtocol", [annaRecord])]).find? k).getD [] = _
        rw [hFind]
        by_cases hJabber : k = latin1 "JabberProtocol"
        · simp [hJabber]
        · simp [hJabber, Ne.symm hJabber]
      have hFull : annaRecord.isEmpty = false := by decide
      rw [hData]
      by_cases hJabber : k = latin1 "JabberProtocol"
      · subst hJabber
        simp [serializedRecords, annaContact, anna, addRecord, hFull]
      · simp [serializedRecords, annaContact, hJabber, Ne.symm hJabber]

/-- A metacontact with an address of the address book. -/
def annaWithAddress : StoredMetaContact :=
  anna.setAddressBookField (latin1 "messaging/xmpp") (latin1 "All") (latin1 "anna")

theorem roundTrip_addressBook :
    (listOf annaWithAddress).DistinctIds ∧
      (∀ mc ∈ (listOf annaWithAddress).metaContactList, mc.FromGroupCalls) ∧
      ¬ (load plainTexts (save plainTexts annaContact (listOf annaWithAddress)).1
        .new).loadedContents annaContact = (listOf annaWithAddress).contents annaContact := by
  refine ⟨distinctIds_listOf rfl rfl, ?_, ?_⟩
  · intro mc hmc
    rw [List.mem_singleton.1 hmc]
    exact fromGroupCalls_anna
  · intro hSame
    have hFields := congrArg (fun c : Contents => c.metaContacts.map fun mc =>
      mc.addressBook (latin1 "messaging/xmpp") (latin1 "All")) hSame
    exact absurd hFields (by decide +kernel)

end XmlContactStorage

end Kopete
