import Kopete.UI.TreeItems

/-!
# Contact list window — groups that come and go

A group gets its item when it is added, or when a metacontact is added to it, and loses it with
the group. Its rows are deleted with the item, but not what leads to them: the group has to be
empty by then.

Main results:

* `Ok.addGroup`, `Ok.addMetaContactToGroup` — hashes and rows stay consistent;
* `Ok.removeGroup` — so they do when an empty group goes;
* `Ok.shows_addMetaContactToGroup`, `shows_removeMetaContactFromGroup` — what is shown afterwards.
-/

namespace Kopete.UI

namespace ContactListTreeModel

variable {s : ContactListTreeModel}

/-! ## A new group -/

theorem groupItem_newGroupItem (g : Group) {p : ℕ} (hp : s.groupItems.Live p) :
    (s.newGroupItem g).groupItem p =
      if p = s.topLevelGroup then
        { s.groupItem p with items := (s.groupItem p).items ++ [.group s.groupItems.next] }
      else s.groupItem p := by
  let s' : ContactListTreeModel :=
    { s with
      groupItems := s.groupItems.new ⟨g, [], some s.topLevelGroup⟩
      groups := Function.update s.groups g (some s.groupItems.next) }
  have hSame : s'.groupItem p = s.groupItem p :=
    congrArg (fun item => Option.getD item _) (Heap.get?_new_of_live _ hp)
  refine (groupItem_modifyRows _ (hp.new _)).trans ?_
  rw [hSame]

theorem groupItem_newGroupItem_next (g : Group) (hTop : s.groupItems.Live s.topLevelGroup) :
    (s.newGroupItem g).groupItem s.groupItems.next = ⟨g, [], some s.topLevelGroup⟩ := by
  refine (groupItem_modifyRows _ (Heap.live_new_self _)).trans ?_
  rw [if_neg hTop.ne_next.symm]
  exact congrArg (fun item => Option.getD item _) (Heap.get?_new_self _)

theorem mem_newGroupItem (g : Group) {p : ℕ} {r : Row} (hp : s.groupItems.Live p)
    (hr : r ∈ (s.groupItem p).items) : r ∈ ((s.newGroupItem g).groupItem p).items := by
  rw [groupItem_newGroupItem g hp]
  split
  · exact List.mem_append_left _ hr
  · exact hr

/-- A group that had no item has one, and the others have theirs. -/
theorem groups_newGroupItem {g : Group} (hNone : s.groups g = none) {g' : Group} {p : ℕ} :
    (s.newGroupItem g).groups g' = some p ↔
      (g' = g ∧ p = s.groupItems.next) ∨ s.groups g' = some p := by
  change Function.update s.groups g (some s.groupItems.next) g' = some p ↔ _
  by_cases hg' : g' = g
  · subst hg'
    simp [hNone, eq_comm]
  · simp [hg']

theorem Ok.rows_newGroupItem (h : s.Ok) {g : Group} (hTop : g ≠ .topLevel)
    (hNone : s.groups g = none) {g' : Group} {p : ℕ} (hp : s.groups g' = some p) :
    ∃ ms gs, RowsAre ((s.newGroupItem g).groupItem p).items ms gs ∧
      (∀ q ∈ ms, ∃ mc, s.metaContacts (g', mc) = some q) ∧
      (∀ p' ∈ gs, g' = .topLevel ∧ ∃ g'', g'' ≠ .topLevel ∧
        (s.newGroupItem g).groups g'' = some p') := by
  obtain ⟨ms, gs, hRows, hPairs, hSub⟩ := h.rows hp
  have hSubs : ∀ p' ∈ gs, g' = .topLevel ∧ ∃ g'', g'' ≠ .topLevel ∧
      (s.newGroupItem g).groups g'' = some p' := by
    intro p' hp'
    obtain ⟨hIs, g'', hOther, hg''⟩ := hSub p' hp'
    exact ⟨hIs, g'', hOther, (groups_newGroupItem hNone).mpr (.inr hg'')⟩
  have hItems := congrArg GroupModelItem.items (groupItem_newGroupItem g (h.group hp).1)
  by_cases hIsTop : p = s.topLevelGroup
  · subst hIsTop
    obtain rfl := h.group_injective hp h.topLevel
    rw [if_pos rfl] at hItems
    refine ⟨ms, gs ++ [s.groupItems.next], ⟨hItems.trans ?_, hRows.nodup_metaContacts, ?_⟩,
      hPairs, ?_⟩
    · simp [hRows.eq]
    · refine List.nodup_append.mpr ⟨hRows.nodup_groups, List.nodup_singleton _, ?_⟩
      intro p' hp' _ hNew hSame
      obtain ⟨-, g'', -, hg''⟩ := hSub p' hp'
      exact (h.group hg'').1.ne_next (hSame.trans (List.mem_singleton.mp hNew))
    · intro p' hMem
      rcases List.mem_append.mp hMem with hOld | hNew
      · exact hSubs p' hOld
      · obtain rfl := List.mem_singleton.mp hNew
        exact ⟨rfl, g, hTop, (groups_newGroupItem hNone).mpr (.inl ⟨rfl, rfl⟩)⟩
  · rw [if_neg hIsTop] at hItems
    exact ⟨ms, gs, ⟨hItems.trans hRows.eq, hRows.nodup_metaContacts, hRows.nodup_groups⟩,
      hPairs, hSubs⟩

theorem Ok.newGroupItem (h : s.Ok) {g : Group} (hTop : g ≠ .topLevel)
    (hNone : s.groups g = none) : (s.newGroupItem g).Ok := by
  obtain ⟨hTopLive, -, -⟩ := h.group h.topLevel
  have hNewItem := groupItem_newGroupItem_next g hTopLive
  constructor
  case topLevel => exact (groups_newGroupItem hNone).mpr (.inr h.topLevel)
  case group =>
    intro g' p hp
    rcases (groups_newGroupItem hNone).mp hp with ⟨rfl, rfl⟩ | hp
    · refine ⟨(Heap.live_new_self _).modify _ _, congrArg GroupModelItem.group hNewItem,
        fun _ => ⟨congrArg GroupModelItem.parent hNewItem, ?_⟩⟩
      change _ ∈ ((s.newGroupItem g').groupItem s.topLevelGroup).items
      rw [groupItem_newGroupItem g' hTopLive, if_pos rfl]
      simp
    · obtain ⟨hLive, hGroup, hSub⟩ := h.group hp
      have hItem := groupItem_newGroupItem g hLive
      refine ⟨(hLive.new _).modify _ _, ?_, fun hOther => ⟨?_, ?_⟩⟩
      · refine (congrArg GroupModelItem.group hItem).trans ?_
        split <;> exact hGroup
      · refine (congrArg GroupModelItem.parent hItem).trans ?_
        split <;> exact (hSub hOther).1
      · exact mem_newGroupItem g hTopLive (hSub hOther).2
  case pair =>
    intro g' mc q hq
    obtain ⟨p, hp, hGet, hMem⟩ := h.pair hq
    exact ⟨p, (groups_newGroupItem hNone).mpr (.inr hp), hGet,
      mem_newGroupItem g (h.group hp).1 hMem⟩
  case rows =>
    intro g' p hp
    rcases (groups_newGroupItem hNone).mp hp with ⟨rfl, rfl⟩ | hp
    · refine ⟨[], [], ⟨congrArg GroupModelItem.items hNewItem, List.nodup_nil, List.nodup_nil⟩, ?_⟩
      exact ⟨List.forall_mem_nil _, List.forall_mem_nil _⟩
    · exact h.rows_newGroupItem hTop hNone hp

/-- **A group gets an item.** -/
theorem Ok.addGroup (h : s.Ok) (g : Group) : (s.addGroup g).Ok := by
  unfold ContactListTreeModel.addGroup
  split
  · exact h
  · next hTop =>
    split
    · exact h
    · next hKnown => exact h.newGroupItem hTop (Option.not_isSome_iff_eq_none.mp hKnown)

theorem Ok.showsGroup_addGroup (h : s.Ok) (g g' : Group) :
    (s.addGroup g).ShowsGroup g' ↔ g' = g ∨ s.ShowsGroup g' := by
  have hTop : s.ShowsGroup .topLevel := by simp [ShowsGroup, h.topLevel]
  unfold ContactListTreeModel.addGroup
  split
  · next hIs =>
    subst hIs
    exact (or_iff_right_of_imp fun hSame => hSame ▸ hTop).symm
  · split
    · next hKnown => exact (or_iff_right_of_imp fun hSame => hSame ▸ hKnown).symm
    · change (Function.update s.groups g (some s.groupItems.next) g').isSome ↔ _
      by_cases hg' : g' = g
      · simp [hg']
      · simp [hg', ShowsGroup]

@[simp] theorem shows_addGroup (g g' : Group) (mc : Nat) :
    (s.addGroup g).Shows g' mc ↔ s.Shows g' mc := by
  unfold ContactListTreeModel.addGroup
  split
  · rfl
  split <;> rfl

/-! ## A metacontact in a group -/

/-- **A metacontact is added to a group.** -/
theorem Ok.addMetaContactToGroup (h : s.Ok) (mc : Nat) (g : Group) :
    (s.addMetaContactToGroup mc g).Ok := by
  unfold ContactListTreeModel.addMetaContactToGroup
  have hOk : (if (s.groups g).isSome then s else s.addGroup g).Ok := by
    split
    · exact h
    · exact h.addGroup g
  simp only
  split
  · exact hOk
  · next p hp => exact hOk.placeMetaContact mc hp

theorem groups_placeMetaContact (mc : Nat) (g : Group) (p : ℕ) :
    (s.placeMetaContact mc g p).groups = s.groups := by
  unfold ContactListTreeModel.placeMetaContact
  obtain ⟨positions, hSnd⟩ := desiredIndex_snd (s := s) (g, mc) (s.groupItem p).items.length
    (s.groupItem p).metaContactCount
  simp only [hSnd]
  split
  · split
    · rfl
    · exact groups_removeMetaContactItem _
  · rfl

theorem shows_placeMetaContact (mc : Nat) (g : Group) (p : ℕ) (g' : Group) (mc' : Nat) :
    (s.placeMetaContact mc g p).Shows g' mc' ↔ (g', mc') = (g, mc) ∨ s.Shows g' mc' := by
  unfold ContactListTreeModel.placeMetaContact
  obtain ⟨positions, hSnd⟩ := desiredIndex_snd (s := s) (g, mc) (s.groupItem p).items.length
    (s.groupItem p).metaContactCount
  simp only [hSnd]
  split
  · next q hq =>
    have hHas : (g', mc') = (g, mc) → s.Shows g' mc' := by
      intro hSame
      rw [Shows, hSame, hq]
      rfl
    rw [or_iff_right_of_imp hHas]
    split
    · rfl
    · exact shows_congr (metaContacts_removeMetaContactItem q) g' mc'
  · change (Function.update s.metaContacts (g, mc) _ (g', mc')).isSome ↔ _
    by_cases hSame : (g', mc') = (g, mc)
    · simp [hSame]
    · rw [Function.update_of_ne hSame]
      simp only [hSame, false_or]
      rfl

theorem Ok.shows_addMetaContactToGroup (h : s.Ok) (mc : Nat) (g g' : Group) (mc' : Nat) :
    (s.addMetaContactToGroup mc g).Shows g' mc' ↔ (g', mc') = (g, mc) ∨ s.Shows g' mc' := by
  unfold ContactListTreeModel.addMetaContactToGroup
  have hShows : (if (s.groups g).isSome then s else s.addGroup g).Shows g' mc' ↔
      s.Shows g' mc' := by
    split
    · rfl
    · exact shows_addGroup g g' mc'
  have hGroup : (if (s.groups g).isSome then s else s.addGroup g).ShowsGroup g := by
    split
    · assumption
    · exact (h.showsGroup_addGroup g g).mpr (.inl rfl)
  simp only
  split
  · next hNone =>
    rw [ShowsGroup, hNone] at hGroup
    cases hGroup
  · rw [shows_placeMetaContact, hShows]

theorem Ok.showsGroup_addMetaContactToGroup (h : s.Ok) (mc : Nat) (g g' : Group) :
    (s.addMetaContactToGroup mc g).ShowsGroup g' ↔ g' = g ∨ s.ShowsGroup g' := by
  unfold ContactListTreeModel.addMetaContactToGroup
  have hShows : (if (s.groups g).isSome then s else s.addGroup g).ShowsGroup g' ↔
      g' = g ∨ s.ShowsGroup g' := by
    split
    · next hKnown => exact (or_iff_right_of_imp fun hSame => hSame ▸ hKnown).symm
    · exact h.showsGroup_addGroup g g'
  simp only
  split
  · exact hShows
  · rw [ShowsGroup, groups_placeMetaContact]
    exact hShows

theorem shows_removeMetaContactFromGroup (mc : Nat) (g g' : Group) (mc' : Nat) :
    (s.removeMetaContactFromGroup mc g).Shows g' mc' ↔
      (g', mc') ≠ (g, mc) ∧ s.Shows g' mc' := by
  unfold ContactListTreeModel.removeMetaContactFromGroup
  split
  · next hNone =>
    refine (and_iff_right_of_imp fun hShows hSame => ?_).symm
    rw [Shows, hSame, hNone] at hShows
    cases hShows
  · next q hq =>
    change (Function.update (s.removeMetaContactItem q).metaContacts (g, mc) none
      (g', mc')).isSome ↔ _
    rw [metaContacts_removeMetaContactItem]
    by_cases hSame : (g', mc') = (g, mc)
    · simp [hSame]
    · rw [Function.update_of_ne hSame]
      exact (and_iff_right hSame).symm

@[simp] theorem showsGroup_removeMetaContactFromGroup (mc : Nat) (g g' : Group) :
    (s.removeMetaContactFromGroup mc g).ShowsGroup g' ↔ s.ShowsGroup g' := by
  unfold ContactListTreeModel.removeMetaContactFromGroup
  split
  · rfl
  · next q _ =>
    exact showsGroup_congr (groups_removeMetaContactItem q) g'

/-! ## A group goes -/

theorem RowsAre.eraseGroup {items : List Row} {ms gs : List ℕ} (h : RowsAre items ms gs) (p : ℕ) :
    items.eraseIdx (items.idxOf (.group p)) =
      ms.map Row.metaContact ++ (gs.erase p).map Row.group := by
  have hNot : Row.group p ∉ ms.map Row.metaContact := by simp
  rw [List.eraseIdx_idxOf_eq_erase, h.eq, List.erase_append_right _ hNot,
    List.map_erase fun _ _ => Row.group.inj]

/-- A group without metacontacts has no rows. -/
theorem Ok.items_eq_nil (h : s.Ok) {g : Group} {p : ℕ} (hTop : g ≠ .topLevel)
    (hp : s.groups g = some p) (hEmpty : ∀ mc, ¬ s.Shows g mc) : (s.groupItem p).items = [] := by
  obtain ⟨ms, gs, hRows, hPairs, hSub⟩ := h.rows hp
  have hNoMetaContact : ms = [] := by
    refine List.eq_nil_iff_forall_not_mem.mpr fun q hq => ?_
    obtain ⟨mc, hmc⟩ := hPairs q hq
    exact hEmpty mc (Option.isSome_iff_exists.mpr ⟨q, hmc⟩)
  have hNoGroup : gs = [] :=
    List.eq_nil_iff_forall_not_mem.mpr fun p' hp' => hTop (hSub p' hp').1
  rw [hRows.eq, hNoMetaContact, hNoGroup]
  rfl

/-- The item of a group is taken out. -/
theorem Ok.removeGroupItem_eq (h : s.Ok) {g : Group} {p : ℕ} (hTop : g ≠ .topLevel)
    (hp : s.groups g = some p) :
    s.index (s.groupItem p).parent (.group p) =
        ((s.groupItem s.topLevelGroup).items.idxOf (.group p) : Int) ∧
      s.removeGroupItem p =
        { s.modifyRows s.topLevelGroup fun items =>
            items.eraseIdx ((s.groupItem s.topLevelGroup).items.idxOf (.group p)) with
          groupItems := (s.modifyRows s.topLevelGroup fun items => items.eraseIdx
              ((s.groupItem s.topLevelGroup).items.idxOf (.group p))).groupItems.modify p
            fun item => { item with parent := none } } := by
  obtain ⟨hParent, hMem⟩ := (h.group hp).2.2 hTop
  have hIndex : s.index (some s.topLevelGroup) (.group p) =
      ((s.groupItem s.topLevelGroup).items.idxOf (.group p) : Int) := if_pos hMem
  have hThere : ((s.groupItem s.topLevelGroup).items.idxOf (.group p) : Int) ≠ -1 := by omega
  rw [removeGroupItem, hParent, hIndex]
  refine ⟨rfl, ?_⟩
  simp only [if_neg hThere, Int.toNat_natCast]

/-- The item of a group without rows is taken out and deleted. -/
theorem Ok.removeGroup_eq (h : s.Ok) {g : Group} {p : ℕ} (hTop : g ≠ .topLevel)
    (hp : s.groups g = some p) (hEmpty : ∀ mc, ¬ s.Shows g mc) :
    s.removeGroup g =
      { s with
        groups := Function.update s.groups g none
        groupItems :=
          (((s.modifyRows s.topLevelGroup fun items => items.eraseIdx
            ((s.groupItem s.topLevelGroup).items.idxOf (.group p))).groupItems.modify p fun item =>
              { item with parent := none }).delete p) } := by
  unfold ContactListTreeModel.removeGroup
  simp only [hp, (h.removeGroupItem_eq hTop hp).2, h.items_eq_nil hTop hp hEmpty, List.foldl_nil]
  rfl

/-- What is left of the other items. -/
theorem Ok.groupItem_removeGroup (h : s.Ok) {g : Group} {p : ℕ} (hTop : g ≠ .topLevel)
    (hp : s.groups g = some p) (hEmpty : ∀ mc, ¬ s.Shows g mc) {p' : ℕ}
    (hp' : s.groupItems.Live p') (hOther : p' ≠ p) :
    (s.removeGroup g).groupItems.Live p' ∧ (s.removeGroup g).groupItem p' =
      if p' = s.topLevelGroup then
        { s.groupItem p' with
          items := (s.groupItem p').items.eraseIdx
            ((s.groupItem s.topLevelGroup).items.idxOf (.group p)) }
      else s.groupItem p' := by
  let s' := s.modifyRows s.topLevelGroup fun items =>
    items.eraseIdx ((s.groupItem s.topLevelGroup).items.idxOf (.group p))
  have hGet : (s.removeGroup g).groupItems.get? p' = s'.groupItems.get? p' := by
    rw [h.removeGroup_eq hTop hp hEmpty]
    simp only [Heap.get?_delete_ne hOther, Heap.get?_modify_ne _ hOther]
    rfl
  have hLive : s'.groupItems.Live p' := hp'.modify _ _
  constructor
  · rw [Heap.Live, hGet]
    exact hLive
  · refine (congrArg (fun item => Option.getD item _) hGet).trans ?_
    exact groupItem_modifyRows _ hp'

theorem Ok.groups_removeGroup (h : s.Ok) {g : Group} {p : ℕ} (hTop : g ≠ .topLevel)
    (hp : s.groups g = some p) (hEmpty : ∀ mc, ¬ s.Shows g mc) {g' : Group} {p' : ℕ} :
    (s.removeGroup g).groups g' = some p' ↔ g' ≠ g ∧ s.groups g' = some p' := by
  rw [h.removeGroup_eq hTop hp hEmpty]
  by_cases hg' : g' = g
  · simp [hg']
  · simp [hg']

/-- **A group loses its item.** -/
theorem Ok.removeGroup (h : s.Ok) {g : Group} (hTop : g ≠ .topLevel) (hShows : s.ShowsGroup g)
    (hEmpty : ∀ mc, ¬ s.Shows g mc) : (s.removeGroup g).Ok := by
  obtain ⟨p, hp⟩ := Option.isSome_iff_exists.mp hShows
  have hGroups : ∀ {g' p'}, (s.removeGroup g).groups g' = some p' ↔
      g' ≠ g ∧ s.groups g' = some p' := h.groups_removeGroup hTop hp hEmpty
  have hItem := fun {p'} (hLive : s.groupItems.Live p') (hOther : p' ≠ p) =>
    h.groupItem_removeGroup hTop hp hEmpty hLive hOther
  have hPairsSame : (s.removeGroup g).metaContacts = s.metaContacts := by
    rw [h.removeGroup_eq hTop hp hEmpty]
  have hItemsSame : (s.removeGroup g).metaContactItems = s.metaContactItems := by
    rw [h.removeGroup_eq hTop hp hEmpty]
  have hTopSame : (s.removeGroup g).topLevelGroup = s.topLevelGroup := by
    rw [h.removeGroup_eq hTop hp hEmpty]
  have hNe : ∀ {g' p'}, g' ≠ g → s.groups g' = some p' → p' ≠ p := by
    rintro g' p' hg' hp' rfl
    exact hg' (h.group_injective hp' hp)
  obtain ⟨msTop, gsTop, hRowsTop, hPairsTop, hSubTop⟩ := h.rows h.topLevel
  have hTopItem := hItem (h.group h.topLevel).1 (hNe hTop.symm h.topLevel)
  rw [if_pos rfl, hRowsTop.eraseGroup] at hTopItem
  have hRowsTop' : RowsAre (msTop.map Row.metaContact ++ (gsTop.erase p).map Row.group) msTop
      (gsTop.erase p) := ⟨rfl, hRowsTop.nodup_metaContacts, hRowsTop.nodup_groups.erase p⟩
  constructor
  case topLevel => exact hTopSame ▸ hGroups.mpr ⟨hTop.symm, h.topLevel⟩
  case group =>
    intro g' p' hp'
    obtain ⟨hg', hp'⟩ := hGroups.mp hp'
    obtain ⟨hLive, hGroup, hSub⟩ := h.group hp'
    obtain ⟨hLive', hItem'⟩ := hItem hLive (hNe hg' hp')
    have hSame : ((s.removeGroup g).groupItem p').group = (s.groupItem p').group ∧
        ((s.removeGroup g).groupItem p').parent = (s.groupItem p').parent := by
      rw [hItem']
      split <;> exact ⟨rfl, rfl⟩
    refine ⟨hLive', hSame.1.trans hGroup, fun hOther => ?_⟩
    obtain ⟨hParent, hMem⟩ := hSub hOther
    rw [hTopSame, hSame.2, hTopItem.2, mem_groups_of_row hRowsTop',
      List.mem_erase_of_ne (hNe hg' hp')]
    exact ⟨hParent, (mem_groups_of_row hRowsTop p').mp hMem⟩
  case pair =>
    intro g' mc q hq
    rw [hPairsSame] at hq
    rw [hItemsSame]
    obtain ⟨p', hp', hGet, hMem⟩ := h.pair hq
    have hg' : g' ≠ g := by
      rintro rfl
      exact hEmpty mc (Option.isSome_iff_exists.mpr ⟨q, hq⟩)
    refine ⟨p', hGroups.mpr ⟨hg', hp'⟩, hGet, ?_⟩
    rw [(hItem (h.group hp').1 (hNe hg' hp')).2]
    split
    · next hIsTop =>
      subst hIsTop
      rw [hRowsTop.eraseGroup, mem_metaContacts_of_row hRowsTop']
      exact (mem_metaContacts_of_row hRowsTop q).mp hMem
    · exact hMem
  case rows =>
    intro g' p' hp'
    obtain ⟨hg', hp'⟩ := hGroups.mp hp'
    rw [hPairsSame, (hItem (h.group hp').1 (hNe hg' hp')).2]
    by_cases hIsTop : p' = s.topLevelGroup
    · subst hIsTop
      obtain rfl := h.group_injective hp' h.topLevel
      rw [if_pos rfl, hRowsTop.eraseGroup]
      refine ⟨msTop, gsTop.erase p, hRowsTop', hPairsTop, fun p' hMem => ?_⟩
      obtain ⟨hOther, hMem⟩ := hRowsTop.nodup_groups.mem_erase_iff.mp hMem
      obtain ⟨hIs, g'', hNotTop, hg''⟩ := hSubTop p' hMem
      refine ⟨hIs, g'', hNotTop, hGroups.mpr ⟨fun hSame => hOther ?_, hg''⟩⟩
      rw [hSame] at hg''
      exact Option.some.inj (hg''.symm.trans hp)
    · rw [if_neg hIsTop]
      obtain ⟨ms, gs, hRows, hPairs, hSub⟩ := h.rows hp'
      refine ⟨ms, gs, hRows, hPairs, fun p'' hMem => ?_⟩
      -- only the rows of the top level group are groups
      obtain ⟨rfl, -⟩ := hSub p'' hMem
      exact absurd (Option.some.inj (hp'.symm.trans h.topLevel)) hIsTop

theorem Ok.shows_removeGroup (h : s.Ok) {g : Group} (hTop : g ≠ .topLevel)
    (hShows : s.ShowsGroup g) (hEmpty : ∀ mc, ¬ s.Shows g mc) (g' : Group) (mc : Nat) :
    (s.removeGroup g).Shows g' mc ↔ s.Shows g' mc := by
  obtain ⟨p, hp⟩ := Option.isSome_iff_exists.mp hShows
  refine shows_congr ?_ g' mc
  rw [h.removeGroup_eq hTop hp hEmpty]

end ContactListTreeModel

end Kopete.UI
