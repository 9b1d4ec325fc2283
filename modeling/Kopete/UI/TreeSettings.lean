import Kopete.UI.GroupOrder
import Kopete.UI.ModelSettings

/-!
# Contact list window — the order of the tree

The tree saves the positions of its groups, and those of the metacontacts of each group, and puts
its rows in that order with one stable sort of all items. Groups are known by their ids, which are
written as they are, but read as an `int`.

Main results:

* `Ok.sorted_sort` — what the sort makes of the rows of each item;
* `valueOf_readGroups`, `valueOf_readMetaContacts` — the positions that are read back.
-/

namespace Kopete.UI

open Status (toInt)
open XmlContactStorage (DomNode number)

namespace ContactListTreeModel

variable (s : ContactListTreeModel)

/-! ## Saving -/

/-- The items of the hash of groups, in the order in which an iterator comes by them. -/
structure Iterates (order : List ℕ) : Prop where
  nodup : order.Nodup
  mem : ∀ p, p ∈ order ↔ ∃ g, s.groups g = some p

/-- The elements of groups, in their order. -/
def groupElements (ids : ListIds) (groups : List Group) : List DomNode :=
  groups.zipIdx.map fun x => positionElement "Group" (number (ids.group x.1)) x.2

/-- The element of a group with those of its metacontacts. -/
def metaContactsElement (qt : QtTexts) (ids : ListIds) (gmi : ℕ) : DomNode :=
  ((Dom.Node.element "Group" [] []).setAttribute "uuid"
    (number (ids.group (s.groupItem gmi).group))).withChildren
      (metaContactElements qt ids (s.metaContactRows (s.groupItem gmi).items))

/-- `ContactListTreeModel::saveModelSettingsImpl`. -/
def saveModelSettingsImpl (qt : QtTexts) (ids : ListIds) (manualGroupSorting : Bool)
    (order : List ℕ) (rootElement : DomNode) : DomNode :=
  let rootElement :=
    if manualGroupSorting then
      Dom.replaceChild (.element "GroupPositions" [] (groupElements ids s.subgroups)) rootElement
    else rootElement
  if s.manualMetaContactSorting then
    Dom.replaceChild
      (.element "MetaContactPositions" [] (order.map (s.metaContactsElement qt ids))) rootElement
  else rootElement

/-! ## Loading -/

/-- The items of metacontacts among rows. -/
def metaContactItemsOf (items : List Row) : List ℕ :=
  items.filterMap fun r => match r with
    | .metaContact q => some q
    | .group _ => none

/-- The hash of groups by their ids. -/
def uuidToGroup (ids : ListIds) (order : List ℕ) : ℕ → Option ℕ :=
  SavedOrder.insertAll (fun gmi => some (ids.group (s.groupItem gmi).group)) id order fun _ => none

/-- The group of an element; its id is read as an `int`, and looked up as a `uint`. -/
def groupOfElement (ids : ListIds) (order : List ℕ) (groupElement : DomNode) : Option ℕ :=
  s.uuidToGroup ids order (toInt (groupElement.attr "uuid" (latin1 "-1")) % 2 ^ 32).toNat

/-- The loop over the elements of groups that have positions. -/
def readGroups (ids : ListIds) (order : List ℕ) (groupList : List DomNode)
    (positions : Row → Option Int) : Row → Option Int :=
  SavedOrder.insertAll (fun groupElement => (s.groupOfElement ids order groupElement).map Row.group)
    (fun groupElement => toInt (groupElement.attr "possition" (latin1 "-1"))) groupList positions

/-- The hash of the metacontacts of a group by their UUIDs. -/
def uuidToMetaContact (ids : ListIds) (gmi : ℕ) : BitVec 128 → Option ℕ :=
  SavedOrder.insertAll (fun q => some (ids.metaContact (s.metaContactItem q).metaContact)) id
    (metaContactItemsOf (s.groupItem gmi).items) fun _ => none

/-- The body of the loop over the elements of groups with metacontacts. -/
def readMetaContacts (qt : QtTexts) (ids : ListIds) (order : List ℕ)
    (positions : Row → Option Int) (groupElement : DomNode) : Row → Option Int :=
  match s.groupOfElement ids order groupElement with
  | none => positions
  | some gmi =>
    readPositions qt (fun uuid => (s.uuidToMetaContact ids gmi uuid).map Row.metaContact)
      ((Dom.elementsByTagName "MetaContact" groupElement).map (·.2)) positions

/-- `contactListModelItemSort`. -/
def contactListModelItemSort (positions : Row → Option Int) (item1 item2 : Row) : Prop :=
  if item1.isGroup ≠ item2.isGroup then item1.isGroup = false
  else valueOf positions item1 < valueOf positions item2

instance (positions : Row → Option Int) (item1 item2 : Row) :
    Decidable (contactListModelItemSort positions item1 item2) :=
  inferInstanceAs (Decidable (if item1.isGroup ≠ item2.isGroup then item1.isGroup = false
    else valueOf positions item1 < valueOf positions item2))

/-- `GroupModelItem::sort`, down to a depth. -/
def sortItems (lessThan : Row → Row → Prop) [DecidableRel lessThan] :
    ℕ → ℕ → ContactListTreeModel → ContactListTreeModel
  | 0, _, s => s
  | depth + 1, p, s =>
    let s := (s.groupItem p).items.foldl
      (fun s r => match r with
        | .metaContact _ => s
        | .group q => sortItems lessThan depth q s) s
    s.modifyRows p fun items => items.insertionSort fun r r' => ¬ lessThan r' r

/-- The positions of groups that are read. -/
def readGroupPositions (ids : ListIds) (order : List ℕ) (rootElement : DomNode) :
    Row → Option Int :=
  match Dom.firstChild "GroupPositions" rootElement with
  | none => fun _ => none
  | some groupRootElement =>
    s.readGroups ids order ((Dom.elementsByTagName "Group" groupRootElement).map (·.2))
      fun _ => none

/-- The positions of metacontacts that are read, after those of groups. -/
def readMetaContactPositions (qt : QtTexts) (ids : ListIds) (order : List ℕ)
    (rootElement : DomNode) (positions : Row → Option Int) : Row → Option Int :=
  match Dom.firstChild "MetaContactPositions" rootElement with
  | none => positions
  | some metaContactRootElement =>
    ((Dom.elementsByTagName "Group" metaContactRootElement).map (·.2)).foldl
      (s.readMetaContacts qt ids order) positions

/-- The positions that are read. -/
def readSettings (qt : QtTexts) (ids : ListIds) (manualGroupSorting : Bool) (order : List ℕ)
    (rootElement : DomNode) : Row → Option Int :=
  let positions : Row → Option Int :=
    if manualGroupSorting then s.readGroupPositions ids order rootElement else fun _ => none
  if s.manualMetaContactSorting then s.readMetaContactPositions qt ids order rootElement positions
  else positions

/-- `ContactListTreeModel::loadModelSettingsImpl`. No more than `next` items are above each
other. -/
def loadModelSettingsImpl (qt : QtTexts) (ids : ListIds) (manualGroupSorting : Bool)
    (order : List ℕ) (rootElement : Option DomNode) : ContactListTreeModel :=
  match rootElement with
  | none => s
  | some rootElement =>
    if manualGroupSorting ∨ s.manualMetaContactSorting then
      sortItems
        (contactListModelItemSort (s.readSettings qt ids manualGroupSorting order rootElement))
        (s.groupItems.next + 1) s.topLevelGroup s
    else s

variable {s}

/-! ## The sort -/

/-- The rows of some items have been sorted. -/
structure SortedItems (lessThan : Row → Row → Prop) [DecidableRel lessThan]
    (s : ContactListTreeModel) (ps : List ℕ) (s' : ContactListTreeModel) : Prop where
  groups : s'.groups = s.groups
  topLevelGroup : s'.topLevelGroup = s.topLevelGroup
  metaContactItem : s'.metaContactItem = s.metaContactItem
  live : ∀ {p}, s.groupItems.Live p → s'.groupItems.Live p
  item : ∀ {p}, s.groupItems.Live p → s'.groupItem p =
    if p ∈ ps then
      { s.groupItem p with
        items := (s.groupItem p).items.insertionSort fun r r' => ¬ lessThan r' r }
    else s.groupItem p

section

variable {lessThan : Row → Row → Prop} [DecidableRel lessThan]

theorem SortedItems.trans {s' s'' : ContactListTreeModel} {ps : List ℕ} {p : ℕ} (hNew : p ∉ ps)
    (h : SortedItems lessThan s ps s') (h' : SortedItems lessThan s' [p] s'') :
    SortedItems lessThan s (p :: ps) s'' := by
  refine ⟨h'.groups.trans h.groups, h'.topLevelGroup.trans h.topLevelGroup,
    h'.metaContactItem.trans h.metaContactItem, fun hLive => h'.live (h.live hLive),
    fun {p'} hLive => ?_⟩
  rw [h'.item (h.live hLive), h.item hLive]
  by_cases hIs : p' = p
  · subst hIs
    simp [hNew]
  · simp [hIs]

theorem sortedItems_modifyRows (p : ℕ) :
    SortedItems lessThan s [p]
      (s.modifyRows p fun items => items.insertionSort fun r r' => ¬ lessThan r' r) := by
  refine ⟨rfl, rfl, rfl, fun hLive => hLive.modify p _, fun {p'} hLive => ?_⟩
  rw [groupItem_modifyRows _ hLive]
  simp

/-- An item without groups among its rows. -/
theorem sortedItems_sortItems {p : ℕ} {ms : List ℕ}
    (hItems : (s.groupItem p).items = ms.map Row.metaContact) (depth : ℕ) :
    SortedItems lessThan s [p] (sortItems lessThan (depth + 1) p s) := by
  have hNothing : ((s.groupItem p).items.foldl
      (fun s r => match r with
        | .metaContact _ => s
        | .group q => sortItems lessThan depth q s) s) = s := by
    rw [hItems, List.foldl_map]
    exact List.foldl_fixed _
  rw [sortItems, hNothing]
  exact sortedItems_modifyRows p

/-- Items without groups among their rows, one after the other. -/
theorem sortedItems_foldl {gs : List ℕ} (hNodup : gs.Nodup)
    (hItems : ∀ p ∈ gs, s.groupItems.Live p ∧
      ∃ ms : List ℕ, (s.groupItem p).items = ms.map Row.metaContact) (depth : ℕ) :
    SortedItems lessThan s gs (gs.foldl (fun s p => sortItems lessThan (depth + 1) p s) s) := by
  induction gs using List.reverseRecOn with
  | nil => exact ⟨rfl, rfl, rfl, id, fun _ => (if_neg List.not_mem_nil).symm⟩
  | append_singleton gs p ih =>
    obtain ⟨hBefore, -, hApart⟩ := List.nodup_append.mp hNodup
    have hNew : p ∉ gs := fun hIn => hApart p hIn p (List.mem_singleton_self p) rfl
    obtain ⟨hLive, ms, hMs⟩ := hItems p (by simp)
    have hFirst := ih hBefore fun p' hp' => hItems p' (List.mem_append_left _ hp')
    have hMs' : ((gs.foldl (fun s p => sortItems lessThan (depth + 1) p s) s).groupItem p).items =
        ms.map Row.metaContact := by
      rw [hFirst.item hLive, if_neg hNew, hMs]
    have hBoth := hFirst.trans hNew (sortedItems_sortItems hMs' depth)
    rw [List.foldl_append, List.foldl_cons, List.foldl_nil]
    refine ⟨hBoth.groups, hBoth.topLevelGroup, hBoth.metaContactItem, hBoth.live, fun {p'} hp' => ?_⟩
    have hMem : p' ∈ p :: gs ↔ p' ∈ gs ++ [p] := by simp [or_comm]
    exact (hBoth.item hp').trans (if_congr hMem rfl rfl)

/-- The items of groups: the top level, and the rows of groups in it. -/
theorem Ok.iterates (h : s.Ok) {ms gs : List ℕ}
    (hRows : RowsAre (s.groupItem s.topLevelGroup).items ms gs) :
    s.Iterates (s.topLevelGroup :: gs) := by
  obtain ⟨ms', gs', hRows', -, hSub⟩ := h.rows h.topLevel
  obtain rfl := hRows.groups_eq hRows'
  refine ⟨List.nodup_cons.mpr ⟨fun hIn => ?_, hRows.nodup_groups⟩, fun p => ⟨fun hp => ?_, ?_⟩⟩
  · obtain ⟨-, g, hOther, hg⟩ := hSub _ hIn
    exact hOther (h.group_injective hg h.topLevel)
  · rcases List.mem_cons.mp hp with rfl | hp
    · exact ⟨.topLevel, h.topLevel⟩
    · obtain ⟨-, g, -, hg⟩ := hSub p hp
      exact ⟨g, hg⟩
  · rintro ⟨g, hp⟩
    by_cases hIs : g = .topLevel
    · subst hIs
      rw [Option.some.inj (hp.symm.trans h.topLevel)]
      exact List.mem_cons_self
    · exact List.mem_cons_of_mem _ ((mem_groups_of_row hRows p).mp ((h.group hp).2.2 hIs).2)

variable (lessThan) in
/-- **The sort** sorts the rows of each item. -/
theorem Ok.sorted_sort (h : s.Ok) (depth : ℕ) :
    ∃ ps, (∀ {g p}, s.groups g = some p → p ∈ ps) ∧
      SortedItems lessThan s ps (sortItems lessThan (depth + 2) s.topLevelGroup s) := by
  obtain ⟨ms, gs, hRows, -, hSub⟩ := h.rows h.topLevel
  have hIterates := h.iterates hRows
  have hItems : ∀ p ∈ gs, s.groupItems.Live p ∧
      ∃ ms : List ℕ, (s.groupItem p).items = ms.map Row.metaContact := by
    intro p hp
    obtain ⟨-, g, hOther, hg⟩ := hSub p hp
    obtain ⟨ms', gs', hRows', -, hSub'⟩ := h.rows hg
    have hNone : gs' = [] :=
      List.eq_nil_iff_forall_not_mem.mpr fun p' hp' => hOther (hSub' p' hp').1
    refine ⟨(h.group hg).1, ms', ?_⟩
    rw [hRows'.eq, hNone, List.map_nil, List.append_nil]
  have hBelow : (s.groupItem s.topLevelGroup).items.foldl
      (fun s r => match r with
        | .metaContact _ => s
        | .group q => sortItems lessThan (depth + 1) q s) s =
      gs.foldl (fun s p => sortItems lessThan (depth + 1) p s) s := by
    rw [hRows.eq, List.foldl_append, List.foldl_map, List.foldl_map]
    exact congrArg (gs.foldl _) (List.foldl_fixed _)
  have hFirst : SortedItems lessThan s gs
      (gs.foldl (fun s p => sortItems lessThan (depth + 1) p s) s) :=
    sortedItems_foldl hRows.nodup_groups hItems depth
  refine ⟨s.topLevelGroup :: gs, fun {g p} hp => (hIterates.mem p).mpr ⟨g, hp⟩, ?_⟩
  rw [sortItems, hBelow]
  exact hFirst.trans (List.nodup_cons.mp hIterates.nodup).1 (sortedItems_modifyRows _)

end

/-- Sorted rows: metacontacts come first, and then groups. -/
theorem RowsAre.insertionSort {items : List Row} {ms gs : List ℕ} (h : RowsAre items ms gs)
    (positions : Row → Option Int) :
    items.insertionSort (fun r r' => ¬ contactListModelItemSort positions r' r) =
      (ms.insertionSort fun q q' =>
        valueOf positions (.metaContact q) ≤ valueOf positions (.metaContact q')).map
          Row.metaContact ++
      (gs.insertionSort fun p p' =>
        valueOf positions (.group p) ≤ valueOf positions (.group p')).map Row.group := by
  rw [h.eq, SavedOrder.insertionSort_append, List.map_insertionSort _
    (fun r r' => ¬ contactListModelItemSort positions r' r), List.map_insertionSort _
    (fun r r' => ¬ contactListModelItemSort positions r' r)]
  · intro p _ p' _
    simp [contactListModelItemSort, Row.isGroup]
  · intro q _ q' _
    simp [contactListModelItemSort, Row.isGroup]
  · intro r hr r' hr'
    obtain ⟨q, -, rfl⟩ := List.mem_map.mp hr
    obtain ⟨p, -, rfl⟩ := List.mem_map.mp hr'
    simp [contactListModelItemSort, Row.isGroup]

section

variable {positions : Row → Option Int} {ps : List ℕ} {t : ContactListTreeModel}

/-- **The metacontacts of a group**, sorted by their positions. -/
theorem SortedItems.metaContactsOf (h : s.Ok)
    (hSorted : SortedItems (contactListModelItemSort positions) s ps t)
    (hAll : ∀ {g p}, s.groups g = some p → p ∈ ps) {g : Group} {position : Nat → Int}
    (hPosition : ∀ {mc q}, s.metaContacts (g, mc) = some q →
      valueOf positions (.metaContact q) = position mc) :
    t.metaContactsOf g =
      (s.metaContactsOf g).insertionSort fun mc mc' => position mc ≤ position mc' := by
  cases hp : s.groups g with
  | none => simp [ContactListTreeModel.metaContactsOf, hSorted.groups, hp]
  | some p =>
    obtain ⟨ms, gs, hRows, hOf, hPairs⟩ := h.exists_rows hp
    have hItems : (t.groupItem p).items = (s.groupItem p).items.insertionSort fun r r' =>
        ¬ contactListModelItemSort positions r' r := by
      rw [hSorted.item (h.group hp).1, if_pos (hAll hp)]
    rw [ContactListTreeModel.metaContactsOf, hSorted.groups, hp]
    simp only
    rw [hItems, hRows.insertionSort, metaContactRows_eq, hSorted.metaContactItem, hOf]
    refine List.map_insertionSort _ _ _ _ fun q hq q' hq' => ?_
    rw [hPosition (hPairs q hq), hPosition (hPairs q' hq')]

/-- **The groups**, sorted by their positions. -/
theorem SortedItems.subgroups (h : s.Ok)
    (hSorted : SortedItems (contactListModelItemSort positions) s ps t)
    (hAll : ∀ {g p}, s.groups g = some p → p ∈ ps) {position : Group → Int}
    (hPosition : ∀ {g p}, s.groups g = some p → valueOf positions (.group p) = position g) :
    t.subgroups = s.subgroups.insertionSort fun g g' => position g ≤ position g' := by
  obtain ⟨ms, gs, hRows, -, hSub⟩ := h.rows h.topLevel
  have hItems : (t.groupItem t.topLevelGroup).items =
      (s.groupItem s.topLevelGroup).items.insertionSort fun r r' =>
        ¬ contactListModelItemSort positions r' r := by
    rw [hSorted.topLevelGroup, hSorted.item (h.group h.topLevel).1, if_pos (hAll h.topLevel)]
  have hName : ∀ p ∈ gs, (t.groupItem p).group = (s.groupItem p).group ∧
      valueOf positions (.group p) = position (s.groupItem p).group := by
    intro p hp
    obtain ⟨-, g, -, hg⟩ := hSub p hp
    obtain ⟨hLive, hGroup, -⟩ := h.group hg
    rw [hSorted.item hLive, if_pos (hAll hg), hGroup]
    exact ⟨rfl, hPosition hg⟩
  rw [ContactListTreeModel.subgroups, hItems, hRows.insertionSort, groupRows_eq,
    ContactListTreeModel.subgroups, hRows.eq, groupRows_eq,
    List.map_congr_left fun p hp => (hName p ((List.mem_insertionSort _).mp hp)).1]
  refine List.map_insertionSort _ _ _ _ fun p hp p' hp' => ?_
  rw [(hName p hp).2, (hName p' hp').2]

end

/-! ## What is filled again -/

variable (s) in
/-- The groups that a tree shows have ids of their own, none of which is 0, and so have the
metacontacts. -/
structure Identifies (ids : ListIds) : Prop where
  group : ∀ {g}, s.ShowsGroup g → 0 < ids.group g ∧ ids.group g < 2 ^ 32
  group_injective : ∀ {g g'}, s.ShowsGroup g → s.ShowsGroup g' →
    ids.group g = ids.group g' → g = g'
  metaContact_injective : ∀ {g g' mc mc'}, s.Shows g mc → s.Shows g' mc' →
    ids.metaContact mc = ids.metaContact mc' → mc = mc'

/-- A tree that is filled again, maybe from a list that has changed: what has been there before has
the id that it had, and nothing else has that. -/
structure Refilled (s : ContactListTreeModel) (ids : ListIds) (s' : ContactListTreeModel)
    (ids' : ListIds) (order : List ℕ) : Prop where
  ok : s'.Ok
  manual : s'.manualMetaContactSorting = s.manualMetaContactSorting
  identifies : s'.Identifies ids'
  iterates : s'.Iterates order
  group : ∀ {g g'}, s.ShowsGroup g → s'.ShowsGroup g' → (ids.group g = ids'.group g' ↔ g = g')
  metaContact : ∀ {g g' mc mc'}, s.Shows g mc → s'.Shows g' mc' →
    (ids.metaContact mc = ids'.metaContact mc' ↔ mc = mc')

variable {s' : ContactListTreeModel} {ids ids' : ListIds} {order order' : List ℕ}

theorem showsGroup_of_eq {g : Group} {p : ℕ} (hp : s.groups g = some p) : s.ShowsGroup g :=
  Option.isSome_iff_exists.mpr ⟨p, hp⟩

theorem shows_of_eq {g : Group} {mc q : ℕ} (hq : s.metaContacts (g, mc) = some q) :
    s.Shows g mc :=
  Option.isSome_iff_exists.mpr ⟨q, hq⟩

theorem Ok.uuidToGroup_iff (h : s.Ok) (hIds : s.Identifies ids) (hOrder : s.Iterates order)
    {uuid p : ℕ} :
    s.uuidToGroup ids order uuid = some p ↔ ∃ g, s.groups g = some p ∧ ids.group g = uuid := by
  have hDistinct : ∀ p ∈ order, ∀ p' ∈ order,
      ids.group (s.groupItem p).group = ids.group (s.groupItem p').group → p = p' := by
    intro p hp p' hp' hSame
    obtain ⟨g, hg⟩ := (hOrder.mem p).mp hp
    obtain ⟨g', hg'⟩ := (hOrder.mem p').mp hp'
    rw [(h.group hg).2.1, (h.group hg').2.1] at hSame
    obtain rfl := hIds.group_injective (showsGroup_of_eq hg) (showsGroup_of_eq hg') hSame
    exact Option.some.inj (hg.symm.trans hg')
  rw [uuidToGroup, SavedOrder.insertAll_id_iff hDistinct, hOrder.mem]
  constructor
  · rintro ⟨⟨g, hg⟩, hUuid⟩
    rw [(h.group hg).2.1] at hUuid
    exact ⟨g, hg, hUuid⟩
  · rintro ⟨g, hg, hUuid⟩
    rw [(h.group hg).2.1]
    exact ⟨⟨g, hg⟩, hUuid⟩

/-- **The group of an element** is the one it has been written for, if its id is an `int`. -/
theorem Refilled.groupOfElement_iff (h : Refilled s ids s' ids' order')
    (hIds : s.Identifies ids) {g : Group} (hg : s.ShowsGroup g) {groupElement : DomNode}
    (hUuid : groupElement.attr "uuid" (latin1 "-1") = number (ids.group g)) {p : ℕ} :
    s'.groupOfElement ids' order' groupElement = some p ↔
      ids.group g < 2 ^ 31 ∧ s'.groups g = some p := by
  obtain ⟨-, hLt⟩ := hIds.group hg
  rw [groupOfElement, hUuid, toInt_number hLt, h.ok.uuidToGroup_iff h.identifies h.iterates]
  split
  · next hSmall =>
    have hKey : (((ids.group g : ℕ) : Int) % 2 ^ 32).toNat = ids.group g := by omega
    rw [hKey, and_iff_right hSmall]
    constructor
    · rintro ⟨g', hg', hSame⟩
      rwa [(h.group hg (showsGroup_of_eq hg')).mp hSame.symm]
    · intro hp
      exact ⟨g, hp, ((h.group hg (showsGroup_of_eq hp)).mpr rfl).symm⟩
  · next hLarge =>
    constructor
    · rintro ⟨g', hg', hSame⟩
      have hPos := (h.identifies.group (showsGroup_of_eq hg')).1
      have hZero : ((0 : Int) % 2 ^ 32).toNat = 0 := by decide
      omega
    · exact fun hBoth => absurd hBoth.1 hLarge

theorem Ok.uuidToMetaContact_iff (h : s.Ok) (hIds : s.Identifies ids) {g : Group} {p : ℕ}
    (hp : s.groups g = some p) {uuid : BitVec 128} {q : ℕ} :
    s.uuidToMetaContact ids p uuid = some q ↔
      ∃ mc, s.metaContacts (g, mc) = some q ∧ ids.metaContact mc = uuid := by
  obtain ⟨ms, gs, hRows, hPairs, -⟩ := h.rows hp
  have hItems : metaContactItemsOf (s.groupItem p).items = ms := by
    rw [hRows.eq]
    simp [metaContactItemsOf]
  have hDistinct : ∀ q ∈ ms, ∀ q' ∈ ms, ids.metaContact (s.metaContactItem q).metaContact =
      ids.metaContact (s.metaContactItem q').metaContact → q = q' := by
    intro q hq q' hq' hSame
    obtain ⟨mc, hmc⟩ := hPairs q hq
    obtain ⟨mc', hmc'⟩ := hPairs q' hq'
    rw [h.metaContact_metaContactItem hmc, h.metaContact_metaContactItem hmc'] at hSame
    obtain rfl := hIds.metaContact_injective (shows_of_eq hmc) (shows_of_eq hmc') hSame
    exact Option.some.inj (hmc.symm.trans hmc')
  rw [uuidToMetaContact, hItems, SavedOrder.insertAll_id_iff hDistinct]
  constructor
  · rintro ⟨hq, hUuid⟩
    obtain ⟨mc, hmc⟩ := hPairs q hq
    rw [h.metaContact_metaContactItem hmc] at hUuid
    exact ⟨mc, hmc, hUuid⟩
  · rintro ⟨mc, hmc, hUuid⟩
    obtain ⟨p', hp', -, hMem⟩ := h.pair hmc
    obtain rfl : p = p' := Option.some.inj (hp.symm.trans hp')
    rw [h.metaContact_metaContactItem hmc]
    exact ⟨(mem_metaContacts_of_row hRows q).mp hMem, hUuid⟩

/-! ## The positions that are read -/

variable (s) in
/-- The position that a group is saved with, as it is read. -/
def groupPosition (ids : ListIds) (g : Group) : Int :=
  if ids.group g < 2 ^ 31 then SavedOrder.position s.subgroups g else -1

variable (s) in
/-- The position that a metacontact is saved with in a group, as it is read. -/
def metaContactPosition (ids : ListIds) (g : Group) (mc : Nat) : Int :=
  if ids.group g < 2 ^ 31 then SavedOrder.position (s.metaContactsOf g) mc else -1

theorem Ok.showsGroup_of_mem (h : s.Ok) {g : Group} (hg : g ∈ s.subgroups) : s.ShowsGroup g := by
  obtain ⟨ms, gs, hRows, -⟩ := h.rows h.topLevel
  obtain ⟨p, -, hp, -⟩ := (h.mem_subgroups hRows).mp hg
  exact showsGroup_of_eq hp

/-- **The positions of groups** that are read. -/
theorem Refilled.valueOf_readGroups (h : Refilled s ids s' ids' order') (hOk : s.Ok)
    (hIds : s.Identifies ids) (hShort : s.subgroups.length ≤ 2 ^ 31) {g : Group} {p : ℕ}
    (hp : s'.groups g = some p) :
    valueOf (s'.readGroups ids' order' (groupElements ids s.subgroups) fun _ => none) (.group p) =
      s.groupPosition ids g := by
  have hKey : ∀ x ∈ s.subgroups.zipIdx, (s'.groupOfElement ids' order'
      (positionElement "Group" (number (ids.group x.1)) x.2)).map Row.group = some (.group p) ↔
      ids.group x.1 < 2 ^ 31 ∧ x.1 = g := by
    intro x hx
    have hShown := hOk.showsGroup_of_mem (List.fst_mem_of_mem_zipIdx hx)
    rw [Option.map_eq_some_iff]
    constructor
    · rintro ⟨p', hp', hSame⟩
      obtain ⟨hSmall, hx'⟩ :=
        (h.groupOfElement_iff hIds hShown (uuid_positionElement _ _ _ _)).mp hp'
      rw [Row.group.inj hSame] at hx'
      exact ⟨hSmall, h.ok.group_injective hx' hp⟩
    · rintro ⟨hSmall, rfl⟩
      exact ⟨p, (h.groupOfElement_iff hIds hShown (uuid_positionElement _ _ _ _)).mpr
        ⟨hSmall, hp⟩, rfl⟩
  have hValue : ∀ x ∈ s.subgroups.zipIdx,
      toInt ((positionElement "Group" (number (ids.group x.1)) x.2).attr "possition"
        (latin1 "-1")) = x.2 := by
    intro x hx
    have hLt := (List.mem_zipIdx' hx).1
    exact position_positionElement _ _ (by omega) _
  rw [groupPosition, valueOf, readGroups, groupElements]
  split
  · next hSmall =>
    have hKey' : ∀ x ∈ s.subgroups.zipIdx, (s'.groupOfElement ids' order'
        (positionElement "Group" (number (ids.group x.1)) x.2)).map Row.group = some (.group p) ↔
        x.1 = g := by
      intro x hx
      rw [hKey x hx]
      exact and_iff_right_of_imp fun hIs => hIs ▸ hSmall
    have hHash : SavedOrder.insertAll
        (fun groupElement => (s'.groupOfElement ids' order' groupElement).map Row.group)
        (fun groupElement => toInt (groupElement.attr "possition" (latin1 "-1")))
        (s.subgroups.zipIdx.map fun x => positionElement "Group" (number (ids.group x.1)) x.2)
        (fun _ => none) (.group p) =
        if g ∈ s.subgroups then some (s.subgroups.idxOf g : Int) else none :=
      SavedOrder.insertAll_zipIdx hOk.nodup_subgroups hKey' hValue
    rw [hHash, SavedOrder.position]
    split <;> rfl
  · next hLarge =>
    rw [SavedOrder.insertAll_of_not_mem]
    · rfl
    · intro e he hIs
      obtain ⟨x, hx, rfl⟩ := List.mem_map.mp he
      obtain ⟨hSmall, rfl⟩ := (hKey x hx).mp hIs
      exact hLarge hSmall

/-- Groups have no positions of metacontacts. -/
theorem readGroups_metaContact (groupList : List DomNode) (positions : Row → Option Int) (q : ℕ) :
    s'.readGroups ids' order' groupList positions (.metaContact q) =
      positions (.metaContact q) := by
  refine SavedOrder.insertAll_of_not_mem fun e _ hIs => ?_
  obtain ⟨p, -, hSame⟩ := Option.map_eq_some_iff.mp hIs
  cases hSame

/-- Metacontacts have no positions of groups. -/
theorem readMetaContacts_group (qt : QtTexts) (positions : Row → Option Int)
    (groupElement : DomNode) (p : ℕ) :
    s'.readMetaContacts qt ids' order' positions groupElement (.group p) =
      positions (.group p) := by
  rw [readMetaContacts]
  cases s'.groupOfElement ids' order' groupElement with
  | none => rfl
  | some gmi =>
    refine SavedOrder.insertAll_of_not_mem fun e _ hIs => ?_
    obtain ⟨q, -, hSame⟩ := Option.map_eq_some_iff.mp hIs
    cases hSame

theorem uuid_metaContactsElement (qt : QtTexts) (h : s.Ok) {g : Group} {p : ℕ}
    (hp : s.groups g = some p) (d : QString) :
    (s.metaContactsElement qt ids p).attr "uuid" d = number (ids.group g) := by
  have hAttr : (s.metaContactsElement qt ids p).attr "uuid" d =
      number (ids.group (s.groupItem p).group) := rfl
  rw [hAttr, (h.group hp).2.1]

/-- **One group** with its metacontacts is read. -/
theorem Refilled.readMetaContacts_metaContact {qt : QtTexts} (h : Refilled s ids s' ids' order')
    (hOk : s.Ok) (hIds : s.Identifies ids)
    (hUuid : ∀ id, qt.uuidOfString (qt.uuidToString id) = id)
    (hShort : ∀ g, (s.metaContactsOf g).length ≤ 2 ^ 31) {g₀ g : Group} {p₀ mc q : ℕ}
    (hp₀ : s.groups g₀ = some p₀) (hq : s'.metaContacts (g, mc) = some q)
    (positions : Row → Option Int) :
    s'.readMetaContacts qt ids' order' positions (s.metaContactsElement qt ids p₀)
        (.metaContact q) =
      if g₀ = g ∧ ids.group g < 2 ^ 31 ∧ mc ∈ s.metaContactsOf g then
        some ((s.metaContactsOf g).idxOf mc : Int)
      else positions (.metaContact q) := by
  have hIs : ∀ {p}, s'.groupOfElement ids' order' (s.metaContactsElement qt ids p₀) = some p ↔
      ids.group g₀ < 2 ^ 31 ∧ s'.groups g₀ = some p :=
    h.groupOfElement_iff hIds (showsGroup_of_eq hp₀) (uuid_metaContactsElement qt hOk hp₀ _)
  cases hGroup : s'.groupOfElement ids' order' (s.metaContactsElement qt ids p₀) with
  | none =>
    have hNot : ¬ (g₀ = g ∧ ids.group g < 2 ^ 31 ∧ mc ∈ s.metaContactsOf g) := by
      rintro ⟨rfl, hSmall, -⟩
      obtain ⟨p, hp, -⟩ := h.ok.pair hq
      rw [hIs.mpr ⟨hSmall, hp⟩] at hGroup
      cases hGroup
    rw [if_neg hNot]
    unfold readMetaContacts
    rw [hGroup]
  | some p =>
    obtain ⟨hSmall, hp⟩ := hIs.mp hGroup
    have hElements : (Dom.elementsByTagName "MetaContact"
        (s.metaContactsElement qt ids p₀)).map (·.2) =
        metaContactElements qt ids (s.metaContactsOf g₀) := by
      rw [metaContactsOf, hp₀]
      exact elementsByTagName_metaContactElements qt ids _ "Group" _
    have hFound : ∀ {uuid}, (s'.uuidToMetaContact ids' p uuid).map Row.metaContact =
        some (.metaContact q) ↔ g₀ = g ∧ ids'.metaContact mc = uuid := by
      intro uuid
      rw [Option.map_eq_some_iff]
      constructor
      · rintro ⟨q', hq', hSame⟩
        obtain ⟨mc', hmc', hKey⟩ := (h.ok.uuidToMetaContact_iff h.identifies hp).mp hq'
        rw [Row.metaContact.inj hSame] at hmc'
        obtain ⟨hg, rfl⟩ := h.ok.pair_injective hmc' hq
        exact ⟨hg, hKey⟩
      · rintro ⟨rfl, hKey⟩
        exact ⟨q, (h.ok.uuidToMetaContact_iff h.identifies hp).mpr ⟨mc, hq, hKey⟩, rfl⟩
    unfold readMetaContacts
    rw [hGroup]
    simp only
    rw [hElements]
    by_cases hg : g₀ = g
    · subst hg
      have hLookup : ∀ m' ∈ s.metaContactsOf g₀, (s'.uuidToMetaContact ids' p
          (ids.metaContact m')).map Row.metaContact = some (.metaContact q) ↔ m' = mc := by
        intro m' hm'
        rw [hFound, and_iff_right rfl, eq_comm]
        exact h.metaContact (hOk.mem_metaContactsOf.mp hm') (shows_of_eq hq)
      rw [readPositions_metaContactElements (fun m _ => hUuid _) (hOk.nodup_metaContactsOf g₀)
        (hShort g₀) hLookup]
      simp only [hSmall, true_and]
    · rw [if_neg fun hAll => hg hAll.1]
      exact SavedOrder.insertAll_of_not_mem fun e _ hThis => hg (hFound.mp hThis).1

end ContactListTreeModel

end Kopete.UI
