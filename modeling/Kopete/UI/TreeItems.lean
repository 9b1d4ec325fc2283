import Kopete.Lib.Heap
import Kopete.Lib.RowDrop
import Kopete.Libkopete.MetaContactGroups

/-!
# Contact list window — the items of the tree

The tree that the contact list window shows is made of items that point to each other: the item
of a group lists its rows, and every row points back to the item it is in. Two hashes lead from a
group, and from a metacontact in a group, to the item. Items are made and deleted one at a time.

Main results:

* `Ok.withRows` — the rows of one group are replaced, and everything else stays;
* `Ok.newRow`, `Ok.moveRow`, `Ok.removeMetaContactFromGroup` — a metacontact gets a row, its row is
  moved, and it loses it.
-/

namespace Kopete.UI

/-- `GroupMetaContactPair`. -/
abbrev GroupMetaContactPair := Group × Nat

/-- `MetaContactModelItem`. -/
structure MetaContactModelItem where
  metaContact : Nat
  parent : Option ℕ

/-- A row of a group: a pointer to an item of either class. -/
inductive Row where
  | metaContact (q : ℕ)
  | group (p : ℕ)
deriving DecidableEq

/-- `isGroup`. -/
def Row.isGroup : Row → Bool
  | .metaContact _ => false
  | .group _ => true

/-- `GroupModelItem`. -/
structure GroupModelItem where
  group : Group
  items : List Row
  parent : Option ℕ

/-- `GroupModelItem::metaContactCount`. -/
def GroupModelItem.metaContactCount (item : GroupModelItem) : ℕ :=
  item.items.countP fun r => !r.isGroup

/-- `ContactListTreeModel`, and the items there are. -/
structure ContactListTreeModel where
  metaContactItems : Heap MetaContactModelItem
  groupItems : Heap GroupModelItem
  topLevelGroup : ℕ
  groups : Group → Option ℕ
  metaContacts : GroupMetaContactPair → Option ℕ
  manualMetaContactSorting : Bool
  addContactPosition : GroupMetaContactPair → Option Int

namespace ContactListTreeModel

variable (s : ContactListTreeModel)

def groupItem (p : ℕ) : GroupModelItem := (s.groupItems.get? p).getD ⟨.topLevel, [], none⟩

def metaContactItem (q : ℕ) : MetaContactModelItem := (s.metaContactItems.get? q).getD ⟨0, none⟩

/-- `ContactListModelItem::index`, where the item has that parent. -/
def index (parent : Option ℕ) (r : Row) : Int :=
  match parent with
  | none => -1
  | some p => if r ∈ (s.groupItem p).items then ((s.groupItem p).items.idxOf r : Int) else -1

/-- The rows of a group are changed. -/
def modifyRows (p : ℕ) (f : List Row → List Row) : ContactListTreeModel :=
  { s with groupItems := s.groupItems.modify p fun item => { item with items := f item.items } }

/-- `ContactListModelItem::remove` for the item of a metacontact. -/
def removeMetaContactItem (q : ℕ) : ContactListTreeModel :=
  let i := s.index (s.metaContactItem q).parent (.metaContact q)
  match (s.metaContactItem q).parent with
  | none => s
  | some p =>
    if i = -1 then s
    else
      let s := s.modifyRows p fun items => items.eraseIdx i.toNat
      { s with metaContactItems := s.metaContactItems.modify q fun item =>
          { item with parent := none } }

/-- `ContactListModelItem::remove` for the item of a group. -/
def removeGroupItem (q : ℕ) : ContactListTreeModel :=
  let i := s.index (s.groupItem q).parent (.group q)
  match (s.groupItem q).parent with
  | none => s
  | some p =>
    if i = -1 then s
    else
      let s := s.modifyRows p fun items => items.eraseIdx i.toNat
      { s with groupItems := s.groupItems.modify q fun item => { item with parent := none } }

/-- `GroupModelItem::insert` with the item of a metacontact. -/
def insertMetaContactItem (p : ℕ) (i : ℕ) (q : ℕ) : ContactListTreeModel :=
  let s := s.modifyRows p fun items => items.insertIdx i (.metaContact q)
  { s with metaContactItems := s.metaContactItems.modify q fun item =>
      { item with parent := some p } }

/-- An item for a group that has none, after all the rows there are. -/
def newGroupItem (group : Group) : ContactListTreeModel :=
  let gmi := s.groupItems.next
  let s :=
    { s with
      groupItems := s.groupItems.new ⟨group, [], some s.topLevelGroup⟩
      groups := Function.update s.groups group (some gmi) }
  s.modifyRows s.topLevelGroup fun items => items ++ [.group gmi]

/-- `ContactListTreeModel::addGroup`. -/
def addGroup (group : Group) : ContactListTreeModel :=
  if group = .topLevel then s
  else if (s.groups group).isSome then s
  else s.newGroupItem group

/-- `ContactListTreeModel::removeGroup`. The rows of the group are deleted with it. A group has to
have an item: the source goes through the pointer to it. -/
def removeGroup (group : Group) : ContactListTreeModel :=
  match s.groups group with
  | none => s
  | some gmi =>
    let rows := (s.groupItem gmi).items
    let s := s.removeGroupItem gmi
    let s := { s with groups := Function.update s.groups group none }
    { s with
      groupItems := rows.foldl
        (fun h r => match r with
          | .group p => h.delete p
          | .metaContact _ => h) (s.groupItems.delete gmi)
      metaContactItems := rows.foldl
        (fun h r => match r with
          | .group _ => h
          | .metaContact q => h.delete q) s.metaContactItems }

/-- Where a metacontact goes: the place that has been asked for, or the last one. -/
def desiredIndex (pair : GroupMetaContactPair) (count metaContactCount : ℕ) :
    Int × ContactListTreeModel :=
  let wished : Int × ContactListTreeModel :=
    if s.manualMetaContactSorting then
      match s.addContactPosition pair with
      | some position =>
        (position, { s with addContactPosition := Function.update s.addContactPosition pair none })
      | none => ((count : Int), s)
    else ((count : Int), s)
  (if wished.1 < 0 ∨ (metaContactCount : Int) < wished.1 then (metaContactCount : Int)
    else wished.1, wished.2)

/-- The row of a metacontact in a group that there is: a new one, or the one it has, moved. -/
def placeMetaContact (mc : Nat) (group : Group) (groupModelItem : ℕ) : ContactListTreeModel :=
  let item := s.groupItem groupModelItem
  let (desired, s) := s.desiredIndex (group, mc) item.items.length item.metaContactCount
  match s.metaContacts (group, mc) with
  | some mcModelItem =>
    let mcIndex := s.index (s.metaContactItem mcModelItem).parent (.metaContact mcModelItem)
    if mcIndex = desired then s
    else
      (s.removeMetaContactItem mcModelItem).insertMetaContactItem groupModelItem
        (if mcIndex < desired then desired - 1 else desired).toNat mcModelItem
  | none =>
    let mcModelItem := s.metaContactItems.next
    let s :=
      { s with
        metaContactItems := s.metaContactItems.new ⟨mc, none⟩
        metaContacts := Function.update s.metaContacts (group, mc) (some mcModelItem) }
    s.insertMetaContactItem groupModelItem desired.toNat mcModelItem

/-- `ContactListTreeModel::addMetaContactToGroup`. -/
def addMetaContactToGroup (mc : Nat) (group : Group) : ContactListTreeModel :=
  let s := if (s.groups group).isSome then s else s.addGroup group
  match s.groups group with
  | none => s
  | some groupModelItem => s.placeMetaContact mc group groupModelItem

/-- `ContactListTreeModel::removeMetaContactFromGroup`. -/
def removeMetaContactFromGroup (mc : Nat) (group : Group) : ContactListTreeModel :=
  match s.metaContacts (group, mc) with
  | none => s
  | some mcModelItem =>
    let s := s.removeMetaContactItem mcModelItem
    { s with
      metaContacts := Function.update s.metaContacts (group, mc) none
      metaContactItems := s.metaContactItems.delete mcModelItem }

/-! ## What keeps the tree together -/

variable {s}

/-- Metacontacts come first, then groups, none of them twice. -/
structure RowsAre (items : List Row) (ms gs : List ℕ) : Prop where
  eq : items = ms.map Row.metaContact ++ gs.map Row.group
  nodup_metaContacts : ms.Nodup
  nodup_groups : gs.Nodup

/-- The hashes lead to items that are there and are rows of their parents, and every row is
something that they lead to. -/
structure Ok (s : ContactListTreeModel) : Prop where
  topLevel : s.groups .topLevel = some s.topLevelGroup
  group : ∀ {g p}, s.groups g = some p →
    s.groupItems.Live p ∧ (s.groupItem p).group = g ∧
      (g ≠ .topLevel → (s.groupItem p).parent = some s.topLevelGroup ∧
        Row.group p ∈ (s.groupItem s.topLevelGroup).items)
  pair : ∀ {g mc q}, s.metaContacts (g, mc) = some q → ∃ p, s.groups g = some p ∧
    s.metaContactItems.get? q = some ⟨mc, some p⟩ ∧ Row.metaContact q ∈ (s.groupItem p).items
  rows : ∀ {g p}, s.groups g = some p → ∃ ms gs, RowsAre (s.groupItem p).items ms gs ∧
    (∀ q ∈ ms, ∃ mc, s.metaContacts (g, mc) = some q) ∧
    (∀ p' ∈ gs, g = .topLevel ∧ ∃ g', g' ≠ .topLevel ∧ s.groups g' = some p')

theorem mem_metaContacts_of_row {items : List Row} {ms gs : List ℕ} (h : RowsAre items ms gs)
    (q : ℕ) : Row.metaContact q ∈ items ↔ q ∈ ms := by
  rw [h.eq]
  simp

theorem mem_groups_of_row {items : List Row} {ms gs : List ℕ} (h : RowsAre items ms gs) (p : ℕ) :
    Row.group p ∈ items ↔ p ∈ gs := by
  rw [h.eq]
  simp

theorem RowsAre.nodup {items : List Row} {ms gs : List ℕ} (h : RowsAre items ms gs) :
    items.Nodup := by
  rw [h.eq, List.nodup_append]
  refine ⟨h.nodup_metaContacts.map fun _ _ => Row.metaContact.inj,
    h.nodup_groups.map fun _ _ => Row.group.inj, ?_⟩
  intro r hr r' hr'
  obtain ⟨q, -, rfl⟩ := List.mem_map.mp hr
  obtain ⟨p, -, rfl⟩ := List.mem_map.mp hr'
  exact fun h => nomatch h

theorem RowsAre.metaContactCount {item : GroupModelItem} {ms gs : List ℕ}
    (h : RowsAre item.items ms gs) : item.metaContactCount = ms.length := by
  rw [GroupModelItem.metaContactCount, h.eq, List.countP_append, List.countP_map, List.countP_map]
  have hMetaContacts : ms.countP ((fun r => !r.isGroup) ∘ Row.metaContact) = ms.length :=
    List.countP_eq_length.mpr fun _ _ => rfl
  have hGroups : gs.countP ((fun r => !r.isGroup) ∘ Row.group) = 0 :=
    List.countP_eq_zero.mpr fun _ _ => Bool.false_ne_true
  rw [hMetaContacts, hGroups, Nat.add_zero]

/-- Two groups do not have one item. -/
theorem Ok.group_injective (h : s.Ok) {g g' : Group} {p : ℕ} (hg : s.groups g = some p)
    (hg' : s.groups g' = some p) : g = g' :=
  (h.group hg).2.1.symm.trans (h.group hg').2.1

/-- Two pairs do not have one item. -/
theorem Ok.pair_injective (h : s.Ok) {g g' : Group} {mc mc' q : ℕ}
    (hq : s.metaContacts (g, mc) = some q) (hq' : s.metaContacts (g', mc') = some q) :
    g = g' ∧ mc = mc' := by
  obtain ⟨p, hp, hItem, -⟩ := h.pair hq
  obtain ⟨p', hp', hItem', -⟩ := h.pair hq'
  have hSame := Option.some.inj (hItem.symm.trans hItem')
  obtain rfl : p = p' := Option.some.inj (congrArg MetaContactModelItem.parent hSame)
  exact ⟨h.group_injective hp hp', congrArg MetaContactModelItem.metaContact hSame⟩

/-- **The rows of one group are changed.** The metacontacts among them are replaced, and the pairs
of the group are about the new ones. -/
theorem Ok.withRows (h : s.Ok) {s' : ContactListTreeModel} {g₀ : Group} {p₀ : ℕ}
    {ms ms' gs : List ℕ} (hg₀ : s.groups g₀ = some p₀)
    (hRows : RowsAre (s.groupItem p₀).items ms gs) (hNodup : ms'.Nodup)
    (hGroups : s'.groups = s.groups) (hTop : s'.topLevelGroup = s.topLevelGroup)
    (hLive : ∀ {p}, s.groupItems.Live p → s'.groupItems.Live p)
    (hItem : ∀ {p}, s.groupItems.Live p → s'.groupItem p =
      if p = p₀ then
        { s.groupItem p with items := ms'.map Row.metaContact ++ gs.map Row.group }
      else s.groupItem p)
    (hElse : ∀ {g mc}, g ≠ g₀ → s'.metaContacts (g, mc) = s.metaContacts (g, mc))
    (hElseItem : ∀ {g mc q}, g ≠ g₀ → s.metaContacts (g, mc) = some q →
      s'.metaContactItems.get? q = s.metaContactItems.get? q)
    (hHere : ∀ {mc q}, s'.metaContacts (g₀, mc) = some q →
      q ∈ ms' ∧ s'.metaContactItems.get? q = some ⟨mc, some p₀⟩)
    (hAll : ∀ q ∈ ms', ∃ mc, s'.metaContacts (g₀, mc) = some q) : s'.Ok := by
  have hRows' : RowsAre (ms'.map Row.metaContact ++ gs.map Row.group) ms' gs :=
    ⟨rfl, hNodup, hRows.nodup_groups⟩
  have hMemGroup : ∀ {p p'}, s.groupItems.Live p →
      (Row.group p' ∈ (s'.groupItem p).items ↔ Row.group p' ∈ (s.groupItem p).items) := by
    intro p p' hp
    rw [hItem hp]
    split
    · next hIs =>
      subst hIs
      rw [mem_groups_of_row hRows', mem_groups_of_row hRows]
    · rfl
  constructor
  case topLevel => rw [hGroups, hTop, h.topLevel]
  case group =>
    intro g p hg
    rw [hGroups] at hg
    obtain ⟨hp, hGroup, hSub⟩ := h.group hg
    have hSame : (s'.groupItem p).group = (s.groupItem p).group ∧
        (s'.groupItem p).parent = (s.groupItem p).parent := by
      rw [hItem hp]
      split <;> exact ⟨rfl, rfl⟩
    refine ⟨hLive hp, hSame.1.trans hGroup, fun hOther => ?_⟩
    obtain ⟨hParent, hMem⟩ := hSub hOther
    rw [hTop, hSame.2]
    exact ⟨hParent, (hMemGroup (h.group h.topLevel).1).mpr hMem⟩
  case pair =>
    intro g mc q hq
    rw [hGroups]
    by_cases hg : g = g₀
    · subst hg
      obtain ⟨hMem, hGet⟩ := hHere hq
      refine ⟨p₀, hg₀, hGet, ?_⟩
      rw [hItem (h.group hg₀).1, if_pos rfl]
      exact (mem_metaContacts_of_row hRows' q).mpr hMem
    · rw [hElse hg] at hq
      obtain ⟨p, hp, hGet, hMem⟩ := h.pair hq
      refine ⟨p, hp, (hElseItem hg hq).trans hGet, ?_⟩
      rw [hItem (h.group hp).1, if_neg]
      · exact hMem
      · rintro rfl
        exact hg (h.group_injective hp hg₀)
  case rows =>
    intro g p hg
    rw [hGroups] at hg ⊢
    rw [hItem (h.group hg).1]
    obtain ⟨ms₁, gs₁, hRows₁, hPairs, hSub⟩ := h.rows hg
    split
    · next hIs =>
      subst hIs
      obtain rfl := h.group_injective hg hg₀
      have hGs : ∀ p' ∈ gs, p' ∈ gs₁ := fun p' hp' =>
        (mem_groups_of_row hRows₁ p').mp ((mem_groups_of_row hRows p').mpr hp')
      exact ⟨ms', gs, hRows', hAll, fun p' hp' => hSub p' (hGs p' hp')⟩
    · next hNot =>
      have hOther : g ≠ g₀ := by
        rintro rfl
        exact hNot (Option.some.inj (hg.symm.trans hg₀))
      refine ⟨ms₁, gs₁, hRows₁, fun q hq => ?_, hSub⟩
      obtain ⟨mc, hmc⟩ := hPairs q hq
      exact ⟨mc, (hElse hOther).trans hmc⟩

/-! ## Rows that come and go -/

theorem RowsAre.insertIdx {items : List Row} {ms gs : List ℕ} (h : RowsAre items ms gs) (q : ℕ)
    {i : ℕ} (hi : i ≤ ms.length) :
    items.insertIdx i (.metaContact q) =
      (ms.insertIdx i q).map Row.metaContact ++ gs.map Row.group := by
  rw [h.eq, RowDrop.insertIdx_append _ _ _ (by rwa [List.length_map]), List.map_insertIdx]

theorem RowsAre.erase {items : List Row} {ms gs : List ℕ} (h : RowsAre items ms gs) {q : ℕ}
    (hq : q ∈ ms) :
    items.eraseIdx (items.idxOf (.metaContact q)) =
      (ms.erase q).map Row.metaContact ++ gs.map Row.group := by
  rw [List.eraseIdx_idxOf_eq_erase, h.eq,
    List.erase_append_left _ (List.mem_map_of_mem hq),
    List.map_erase fun _ _ => Row.metaContact.inj]

theorem idxOf_map {f : ℕ → Row} (hf : Function.Injective f) (l : List ℕ) (a : ℕ) :
    (l.map f).idxOf (f a) = l.idxOf a := by
  induction l with
  | nil => rfl
  | cons b l ih =>
    by_cases hSame : b = a
    · simp [hSame]
    · have hImages : f b ≠ f a := fun hSameImage => hSame (hf hSameImage)
      rw [List.map_cons, List.idxOf_cons_ne _ hImages, List.idxOf_cons_ne _ hSame, ih]

theorem RowsAre.idxOf_eq {items : List Row} {ms gs : List ℕ} (h : RowsAre items ms gs) {q : ℕ}
    (hq : q ∈ ms) : items.idxOf (.metaContact q) = ms.idxOf q := by
  rw [h.eq, List.idxOf_append_of_mem (List.mem_map_of_mem hq),
    idxOf_map fun _ _ => Row.metaContact.inj]

theorem RowsAre.idxOf_lt {items : List Row} {ms gs : List ℕ} (h : RowsAre items ms gs) {q : ℕ}
    (hq : q ∈ ms) : items.idxOf (.metaContact q) < ms.length := by
  rw [h.idxOf_eq hq]
  exact List.idxOf_lt_length_of_mem hq

theorem nodup_insertIdx {ms : List ℕ} {q i : ℕ} (hi : i ≤ ms.length) (hNodup : ms.Nodup)
    (hNew : q ∉ ms) : (ms.insertIdx i q).Nodup :=
  (List.perm_insertIdx q ms hi).nodup_iff.mpr (List.nodup_cons.mpr ⟨hNew, hNodup⟩)

@[simp] theorem metaContactItems_modifyRows (p : ℕ) (f : List Row → List Row) :
    (s.modifyRows p f).metaContactItems = s.metaContactItems := rfl

@[simp] theorem metaContacts_removeMetaContactItem (q : ℕ) :
    (s.removeMetaContactItem q).metaContacts = s.metaContacts := by
  unfold removeMetaContactItem
  simp only
  split
  · rfl
  · split <;> rfl

@[simp] theorem groups_removeMetaContactItem (q : ℕ) :
    (s.removeMetaContactItem q).groups = s.groups := by
  unfold removeMetaContactItem
  simp only
  split
  · rfl
  · split <;> rfl

theorem groupItem_modifyRows {p p' : ℕ} (f : List Row → List Row) (hp' : s.groupItems.Live p') :
    (s.modifyRows p f).groupItem p' =
      if p' = p then { s.groupItem p' with items := f (s.groupItem p').items }
      else s.groupItem p' := by
  obtain ⟨item, hItem⟩ := Option.isSome_iff_exists.mp hp'
  unfold groupItem modifyRows
  split
  · next hSame =>
    subst hSame
    simp [hItem]
  · next hOther => simp [Heap.get?_modify_ne _ hOther]

theorem groupItem_modifyRows_of {p p' : ℕ} {f : List Row → List Row} {items : List Row}
    (hf : f (s.groupItem p).items = items) (hp' : s.groupItems.Live p') :
    (s.modifyRows p f).groupItem p' =
      if p' = p then { s.groupItem p' with items := items } else s.groupItem p' := by
  rw [groupItem_modifyRows f hp']
  split
  · next hSame => rw [hSame, hf]
  · rfl

/-- The row of a metacontact is taken out. -/
theorem Ok.removeMetaContactItem_eq (h : s.Ok) {g : Group} {mc p q : ℕ}
    (hp : s.groups g = some p) (hq : s.metaContacts (g, mc) = some q) :
    s.index (s.metaContactItem q).parent (.metaContact q) =
        ((s.groupItem p).items.idxOf (.metaContact q) : Int) ∧
      s.removeMetaContactItem q =
        { s.modifyRows p fun items =>
            items.eraseIdx ((s.groupItem p).items.idxOf (.metaContact q)) with
          metaContactItems := s.metaContactItems.modify q fun item =>
            { item with parent := none } } := by
  obtain ⟨p', hp', hGet, hMem⟩ := h.pair hq
  obtain rfl : p = p' := Option.some.inj (hp.symm.trans hp')
  have hParent : (s.metaContactItem q).parent = some p := by
    rw [metaContactItem, hGet]
    rfl
  have hIndex : s.index (some p) (.metaContact q) =
      ((s.groupItem p).items.idxOf (.metaContact q) : Int) := if_pos hMem
  have hThere : ((s.groupItem p).items.idxOf (.metaContact q) : Int) ≠ -1 := by omega
  rw [removeMetaContactItem, hParent, hIndex]
  refine ⟨rfl, ?_⟩
  simp only [if_neg hThere, Int.toNat_natCast]
  rfl

/-! ## Metacontacts -/

variable (s) in
/-- The metacontact has a row in the group. -/
def Shows (g : Group) (mc : Nat) : Prop := (s.metaContacts (g, mc)).isSome

instance (g : Group) (mc : Nat) : Decidable (s.Shows g mc) :=
  inferInstanceAs (Decidable ((s.metaContacts (g, mc)).isSome = true))

variable (s) in
/-- The group has an item. -/
def ShowsGroup (g : Group) : Prop := (s.groups g).isSome

instance (g : Group) : Decidable (s.ShowsGroup g) :=
  inferInstanceAs (Decidable ((s.groups g).isSome = true))

theorem shows_congr {s' : ContactListTreeModel} (h : s'.metaContacts = s.metaContacts) (g : Group)
    (mc : Nat) : s'.Shows g mc ↔ s.Shows g mc := by
  rw [Shows, h, Shows]

theorem showsGroup_congr {s' : ContactListTreeModel} (h : s'.groups = s.groups) (g : Group) :
    s'.ShowsGroup g ↔ s.ShowsGroup g := by
  rw [ShowsGroup, h, ShowsGroup]

/-- **A metacontact leaves a group.** -/
theorem Ok.removeMetaContactFromGroup (h : s.Ok) (mc : Nat) (g : Group) :
    (s.removeMetaContactFromGroup mc g).Ok := by
  unfold ContactListTreeModel.removeMetaContactFromGroup
  split
  · exact h
  · next q hq =>
    obtain ⟨p, hp, -, hMem⟩ := h.pair hq
    obtain ⟨ms, gs, hRows, hPairs, -⟩ := h.rows hp
    have hqs : q ∈ ms := (mem_metaContacts_of_row hRows q).mp hMem
    rw [(h.removeMetaContactItem_eq hp hq).2]
    -- the items of other pairs are other items
    have hOtherItem : ∀ {g' mc' q'}, (g', mc') ≠ (g, mc) → s.metaContacts (g', mc') = some q' →
        q' ≠ q := by
      rintro g' mc' q' hOther hq' rfl
      obtain ⟨rfl, rfl⟩ := h.pair_injective hq' hq
      exact hOther rfl
    refine h.withRows hp hRows (hRows.nodup_metaContacts.erase q) rfl rfl
      (fun hLive => hLive.modify p _) (fun hLive => ?_) (fun hg => ?_)
      (fun hg hq' => ?_) (fun hq' => ?_) (fun q' hq' => ?_)
    · exact groupItem_modifyRows_of
        (f := fun items => items.eraseIdx ((s.groupItem p).items.idxOf (.metaContact q)))
        (hRows.erase hqs) hLive
    · exact Function.update_of_ne (fun hSame => hg (congrArg Prod.fst hSame)) _ _
    · have hNe := hOtherItem (fun hSame => hg (congrArg Prod.fst hSame)) hq'
      simp only [Heap.get?_delete_ne hNe, Heap.get?_modify_ne _ hNe]
    · rename_i mc' q'
      by_cases hmc : mc' = mc
      · subst hmc
        simp at hq'
      · have hPair : (g, mc') ≠ (g, mc) := fun hSame => hmc (congrArg Prod.snd hSame)
        have hq'' : s.metaContacts (g, mc') = some q' :=
          (Function.update_of_ne hPair _ _).symm.trans hq'
        have hNe := hOtherItem hPair hq''
        obtain ⟨p', hp', hGet, hMem'⟩ := h.pair hq''
        obtain rfl : p = p' := Option.some.inj (hp.symm.trans hp')
        refine ⟨(List.mem_erase_of_ne hNe).mpr ((mem_metaContacts_of_row hRows q').mp hMem'), ?_⟩
        simp only [Heap.get?_delete_ne hNe, Heap.get?_modify_ne _ hNe]
        exact hGet
    · obtain ⟨hNe, hq'⟩ := (hRows.nodup_metaContacts.mem_erase_iff).mp hq'
      obtain ⟨mc', hmc'⟩ := hPairs q' hq'
      refine ⟨mc', (Function.update_of_ne (fun hSame => hNe ?_) _ _).trans hmc'⟩
      rw [hSame] at hmc'
      exact Option.some.inj (hmc'.symm.trans hq)

theorem desiredIndex_fst (pair : GroupMetaContactPair) (count metaContactCount : ℕ) :
    0 ≤ (s.desiredIndex pair count metaContactCount).1 ∧
      (s.desiredIndex pair count metaContactCount).1 ≤ metaContactCount := by
  unfold desiredIndex
  simp only
  split <;> omega

theorem desiredIndex_snd (pair : GroupMetaContactPair) (count metaContactCount : ℕ) :
    ∃ positions, (s.desiredIndex pair count metaContactCount).2 =
      { s with addContactPosition := positions } := by
  unfold desiredIndex
  split
  · split
    · exact ⟨_, rfl⟩
    · exact ⟨_, rfl⟩
  · exact ⟨_, rfl⟩

theorem Ok.withPositions (h : s.Ok) (positions : GroupMetaContactPair → Option Int) :
    Ok { s with addContactPosition := positions } :=
  ⟨h.topLevel, h.group, h.pair, h.rows⟩

/-- What moving the row of a metacontact makes of the groups. -/
theorem Ok.groupItem_moveRow (h : s.Ok) {g : Group} {mc p q i : ℕ} {ms gs : List ℕ}
    (hp : s.groups g = some p) (hq : s.metaContacts (g, mc) = some q)
    (hRows : RowsAre (s.groupItem p).items ms gs) (hqs : q ∈ ms) (hi : i ≤ (ms.erase q).length)
    {p' : ℕ} (hLive : s.groupItems.Live p') :
    ((s.removeMetaContactItem q).insertMetaContactItem p i q).groupItem p' =
      if p' = p then
        { s.groupItem p' with
          items := ((ms.erase q).insertIdx i q).map Row.metaContact ++ gs.map Row.group }
      else s.groupItem p' := by
  have hErased : RowsAre ((ms.erase q).map Row.metaContact ++ gs.map Row.group) (ms.erase q) gs :=
    ⟨rfl, hRows.nodup_metaContacts.erase q, hRows.nodup_groups⟩
  have hLive' := hLive.modify p fun item : GroupModelItem =>
    { item with items := item.items.eraseIdx ((s.groupItem p).items.idxOf (.metaContact q)) }
  have hTwice : ((s.modifyRows p fun items =>
        items.eraseIdx ((s.groupItem p).items.idxOf (.metaContact q))).modifyRows p
      fun items => items.insertIdx i (.metaContact q)).groupItem p' =
      if p' = p then
        { s.groupItem p' with
          items := ((ms.erase q).insertIdx i q).map Row.metaContact ++ gs.map Row.group }
      else s.groupItem p' := by
    rw [groupItem_modifyRows _ hLive', groupItem_modifyRows_of (hRows.erase hqs) hLive]
    split
    · rw [hErased.insertIdx q hi]
    · rfl
  rw [(h.removeMetaContactItem_eq hp hq).2]
  exact hTwice

/-- The items of metacontacts are in the end what they were. -/
theorem Ok.get?_moveRow (h : s.Ok) {g : Group} {mc p q i : ℕ} (hp : s.groups g = some p)
    (hq : s.metaContacts (g, mc) = some q) (q' : ℕ) :
    ((s.removeMetaContactItem q).insertMetaContactItem p i q).metaContactItems.get? q' =
      s.metaContactItems.get? q' := by
  rw [(h.removeMetaContactItem_eq hp hq).2]
  by_cases hSame : q' = q
  · subst hSame
    obtain ⟨p', hp', hGet, -⟩ := h.pair hq
    obtain rfl : p = p' := Option.some.inj (hp.symm.trans hp')
    simp only [insertMetaContactItem, metaContactItems_modifyRows, Heap.get?_modify_self, hGet]
    rfl
  · simp only [insertMetaContactItem, metaContactItems_modifyRows, Heap.get?_modify_ne _ hSame]

/-- **The row of a metacontact is moved** within its group. -/
theorem Ok.moveRow (h : s.Ok) {g : Group} {mc p q i : ℕ} (hp : s.groups g = some p)
    (hq : s.metaContacts (g, mc) = some q) (hi : i < (s.groupItem p).metaContactCount) :
    ((s.removeMetaContactItem q).insertMetaContactItem p i q).Ok := by
  obtain ⟨p', hp', hGet, hMem⟩ := h.pair hq
  obtain rfl : p = p' := Option.some.inj (hp.symm.trans hp')
  obtain ⟨ms, gs, hRows, hPairs, -⟩ := h.rows hp
  have hqs : q ∈ ms := (mem_metaContacts_of_row hRows q).mp hMem
  have hLength : (ms.erase q).length = ms.length - 1 := List.length_erase_of_mem hqs
  rw [hRows.metaContactCount] at hi
  have hi' : i ≤ (ms.erase q).length := by omega
  have hMemRow : ∀ q', q' ∈ (ms.erase q).insertIdx i q ↔ q' ∈ ms := by
    intro q'
    rw [List.mem_insertIdx hi', hRows.nodup_metaContacts.mem_erase_iff]
    by_cases hSame : q' = q
    · simp [hSame, hqs]
    · simp [hSame]
  have hPairsSame : ((s.removeMetaContactItem q).insertMetaContactItem p i q).metaContacts =
      s.metaContacts := metaContacts_removeMetaContactItem q
  have hSameItem := h.get?_moveRow (i := i) hp hq
  refine h.withRows hp hRows (nodup_insertIdx hi' (hRows.nodup_metaContacts.erase q) ?_)
    (groups_removeMetaContactItem q) ?_ (fun hLive => ?_)
    (fun hLive => h.groupItem_moveRow hp hq hRows hqs hi' hLive)
    (fun _ => by rw [hPairsSame]) (fun _ _ => hSameItem _) (fun hq' => ?_) (fun q' hq' => ?_)
  · exact fun hStill => (hRows.nodup_metaContacts.mem_erase_iff.mp hStill).1 rfl
  · rw [(h.removeMetaContactItem_eq hp hq).2]
    rfl
  · rw [(h.removeMetaContactItem_eq hp hq).2]
    exact (hLive.modify p _).modify p _
  · rename_i mc' q'
    rw [hPairsSame] at hq'
    obtain ⟨p', hp', hGet', hMem'⟩ := h.pair hq'
    obtain rfl : p = p' := Option.some.inj (hp.symm.trans hp')
    refine ⟨(hMemRow q').mpr ((mem_metaContacts_of_row hRows q').mp hMem'), ?_⟩
    exact (hSameItem q').trans hGet'
  · rw [hPairsSame]
    exact hPairs q' ((hMemRow q').mp hq')

/-- What a new row makes of the groups. -/
theorem groupItem_newRow (g : Group) (mc : ℕ) {p i : ℕ} {ms gs : List ℕ}
    (hRows : RowsAre (s.groupItem p).items ms gs) (hi : i ≤ ms.length) {p' : ℕ}
    (hLive : s.groupItems.Live p') :
    (insertMetaContactItem
      { s with
        metaContactItems := s.metaContactItems.new ⟨mc, none⟩
        metaContacts := Function.update s.metaContacts (g, mc) (some s.metaContactItems.next) }
      p i s.metaContactItems.next).groupItem p' =
      if p' = p then
        { s.groupItem p' with
          items := (ms.insertIdx i s.metaContactItems.next).map Row.metaContact ++
            gs.map Row.group }
      else s.groupItem p' :=
  groupItem_modifyRows_of
    (f := fun items => items.insertIdx i (.metaContact s.metaContactItems.next))
    (hRows.insertIdx _ hi) hLive

theorem get?_newRow_of_live (g : Group) (mc p i : ℕ) {q : ℕ} (hLive : s.metaContactItems.Live q) :
    (insertMetaContactItem
      { s with
        metaContactItems := s.metaContactItems.new ⟨mc, none⟩
        metaContacts := Function.update s.metaContacts (g, mc) (some s.metaContactItems.next) }
      p i s.metaContactItems.next).metaContactItems.get? q = s.metaContactItems.get? q := by
  simp only [insertMetaContactItem, metaContactItems_modifyRows,
    Heap.get?_modify_ne _ hLive.ne_next, Heap.get?_new_of_live _ hLive]

theorem get?_newRow_self (g : Group) (mc p i : ℕ) :
    (insertMetaContactItem
      { s with
        metaContactItems := s.metaContactItems.new ⟨mc, none⟩
        metaContacts := Function.update s.metaContacts (g, mc) (some s.metaContactItems.next) }
      p i s.metaContactItems.next).metaContactItems.get? s.metaContactItems.next =
      some ⟨mc, some p⟩ := by
  simp only [insertMetaContactItem, metaContactItems_modifyRows, Heap.get?_modify_self,
    Heap.get?_new_self]
  rfl

theorem Ok.live_of_pair (h : s.Ok) {g : Group} {mc q : ℕ} (hq : s.metaContacts (g, mc) = some q) :
    s.metaContactItems.Live q := by
  obtain ⟨_, -, hGet, -⟩ := h.pair hq
  exact Option.isSome_iff_exists.mpr ⟨_, hGet⟩

/-- **A metacontact gets a row** in a group where it has none. -/
theorem Ok.newRow (h : s.Ok) {g : Group} {mc p i : ℕ} (hp : s.groups g = some p)
    (hNone : s.metaContacts (g, mc) = none) (hi : i ≤ (s.groupItem p).metaContactCount) :
    Ok (insertMetaContactItem
      { s with
        metaContactItems := s.metaContactItems.new ⟨mc, none⟩
        metaContacts := Function.update s.metaContacts (g, mc) (some s.metaContactItems.next) }
      p i s.metaContactItems.next) := by
  obtain ⟨ms, gs, hRows, hPairs, -⟩ := h.rows hp
  rw [hRows.metaContactCount] at hi
  have hNew : s.metaContactItems.next ∉ ms := by
    intro hOld
    obtain ⟨mc', hmc'⟩ := hPairs _ hOld
    exact (h.live_of_pair hmc').ne_next rfl
  refine h.withRows hp hRows (nodup_insertIdx hi hRows.nodup_metaContacts hNew) rfl rfl
    (fun hLive => hLive.modify p _) (fun hLive => ?_) (fun hg => ?_)
    (fun _ hq' => get?_newRow_of_live g mc p i (h.live_of_pair hq')) (fun hq' => ?_)
    (fun q' hq' => ?_)
  · exact groupItem_newRow g mc hRows hi hLive
  · exact Function.update_of_ne (fun hSame => hg (congrArg Prod.fst hSame)) _ _
  · rename_i mc' q'
    by_cases hmc : mc' = mc
    · subst hmc
      obtain rfl : s.metaContactItems.next = q' :=
        Option.some.inj ((Function.update_self (g, mc') _ s.metaContacts).symm.trans hq')
      exact ⟨(List.mem_insertIdx hi).mpr (.inl rfl), get?_newRow_self g mc' p i⟩
    · have hPair : (g, mc') ≠ (g, mc) := fun hSame => hmc (congrArg Prod.snd hSame)
      have hq'' : s.metaContacts (g, mc') = some q' :=
        (Function.update_of_ne hPair _ _).symm.trans hq'
      obtain ⟨p', hp', hGet, hMem⟩ := h.pair hq''
      obtain rfl : p = p' := Option.some.inj (hp.symm.trans hp')
      exact ⟨(List.mem_insertIdx hi).mpr (.inr ((mem_metaContacts_of_row hRows q').mp hMem)),
        (get?_newRow_of_live g mc p i (h.live_of_pair hq'')).trans hGet⟩
  · rcases (List.mem_insertIdx hi).mp hq' with rfl | hOld
    · exact ⟨mc, Function.update_self ..⟩
    · obtain ⟨mc', hmc'⟩ := hPairs q' hOld
      refine ⟨mc', (Function.update_of_ne (fun hSame => ?_) _ _).trans hmc'⟩
      rw [hSame, hNone] at hmc'
      cases hmc'

theorem Ok.placeMetaContact (h : s.Ok) {g : Group} {p : ℕ} (mc : Nat) (hp : s.groups g = some p) :
    (s.placeMetaContact mc g p).Ok := by
  unfold ContactListTreeModel.placeMetaContact
  have hBounds := desiredIndex_fst (s := s) (g, mc) (s.groupItem p).items.length
    (s.groupItem p).metaContactCount
  obtain ⟨positions, hSnd⟩ := desiredIndex_snd (s := s) (g, mc) (s.groupItem p).items.length
    (s.groupItem p).metaContactCount
  simp only [hSnd]
  generalize (s.desiredIndex (g, mc) (s.groupItem p).items.length
    (s.groupItem p).metaContactCount).1 = desired at hBounds ⊢
  have hOk := h.withPositions positions
  split
  · next q hq =>
    obtain ⟨ms, gs, hRows, -, -⟩ := h.rows hp
    obtain ⟨p', hp', -, hMem⟩ := h.pair hq
    obtain rfl : p = p' := Option.some.inj (hp.symm.trans hp')
    have hLt := hRows.idxOf_lt ((mem_metaContacts_of_row hRows q).mp hMem)
    rw [← hRows.metaContactCount] at hLt
    rw [(hOk.removeMetaContactItem_eq hp hq).1]
    split
    · exact hOk
    · next hMoves =>
      refine hOk.moveRow hp hq ?_
      -- behind its old place there is one row less
      change _ < (s.groupItem p).metaContactCount
      change ¬ ((s.groupItem p).items.idxOf (.metaContact q) : Int) = desired at hMoves
      change (if ((s.groupItem p).items.idxOf (.metaContact q) : Int) < desired then desired - 1
        else desired).toNat < _
      split <;> omega
  · next hNone =>
    refine hOk.newRow hp hNone ?_
    change _ ≤ (s.groupItem p).metaContactCount
    omega

end ContactListTreeModel

end Kopete.UI
