import Kopete.Libkopete.XmlRoundTrip
import Kopete.UI.TreeSettings

/-!
# Contact list window — the order that comes back

What is saved of one model, and loaded into another that has been filled again. What the saved
order does not know comes first, as it was; everything else comes in the saved order. The tree takes
no part of the order back that belongs to a group whose id is no `int`.

Main results:

* `Refilled.subgroups_load`, `Refilled.metaContactsOf_load` — the rows after loading;
* `orderRestored_iff` — when they are what has been saved.
-/

namespace Kopete.UI

open Status (toInt)
open XmlContactStorage (DomNode number plainTexts uuidDigit uuidDigits uuidValue)

namespace ContactListTreeModel

variable {s s' : ContactListTreeModel} {ids ids' : ListIds} {order order' : List ℕ}
  {qt : QtTexts}

/-! ## What is read of the file -/

/-- **All groups** with their metacontacts are read: only the element of the group of a metacontact
is about it. -/
theorem Refilled.foldl_readMetaContacts (h : Refilled s ids s' ids' order') (hOk : s.Ok)
    (hIds : s.Identifies ids) (hOrder : s.Iterates order)
    (hUuid : ∀ id, qt.uuidOfString (qt.uuidToString id) = id)
    (hShort : ∀ g, (s.metaContactsOf g).length ≤ 2 ^ 31) {g : Group} {mc q : ℕ}
    (hq : s'.metaContacts (g, mc) = some q) (positions : Row → Option Int) :
    (order.map (s.metaContactsElement qt ids)).foldl (s'.readMetaContacts qt ids' order')
        positions (.metaContact q) =
      if ids.group g < 2 ^ 31 ∧ mc ∈ s.metaContactsOf g then
        some ((s.metaContactsOf g).idxOf mc : Int)
      else positions (.metaContact q) := by
  have hRound : ∀ positions, ∀ p₀ ∈ order, ∀ g₀, s.groups g₀ = some p₀ →
      s'.readMetaContacts qt ids' order' positions (s.metaContactsElement qt ids p₀)
        (.metaContact q) =
      if g₀ = g ∧ ids.group g < 2 ^ 31 ∧ mc ∈ s.metaContactsOf g then
        some ((s.metaContactsOf g).idxOf mc : Int)
      else positions (.metaContact q) := fun positions p₀ _ g₀ hp₀ =>
    h.readMetaContacts_metaContact hOk hIds hUuid hShort hp₀ hq positions
  rw [List.foldl_map]
  split
  · next hKnown =>
    obtain ⟨p, hp⟩ : ∃ p, s.groups g = some p := by
      obtain ⟨_, hq₀⟩ := Option.isSome_iff_exists.mp (hOk.mem_metaContactsOf.mp hKnown.2)
      obtain ⟨p, hp, -⟩ := hOk.pair hq₀
      exact ⟨p, hp⟩
    have hIn : p ∈ order := (hOrder.mem p).mpr ⟨g, hp⟩
    have hElse : ∀ positions, ∀ p₀ ∈ order, p₀ ≠ p →
        s'.readMetaContacts qt ids' order' positions (s.metaContactsElement qt ids p₀)
          (.metaContact q) = positions (.metaContact q) := by
      intro positions p₀ hp₀ hOther
      obtain ⟨g₀, hg₀⟩ := (hOrder.mem p₀).mp hp₀
      rw [hRound positions p₀ hp₀ g₀ hg₀, if_neg]
      rintro ⟨rfl, -⟩
      exact hOther (Option.some.inj (hg₀.symm.trans hp))
    have hHere : ∀ positions,
        s'.readMetaContacts qt ids' order' positions (s.metaContactsElement qt ids p)
          (.metaContact q) = some ((s.metaContactsOf g).idxOf mc : Int) :=
      fun positions => (hRound positions p hIn g hp).trans (if_pos ⟨rfl, hKnown⟩)
    rw [SavedOrder.foldl_once (f := fun _ => some ((s.metaContactsOf g).idxOf mc : Int))
      hOrder.nodup hElse hHere, if_pos hIn]
  · next hUnknown =>
    refine SavedOrder.foldl_of_forall fun positions p₀ hp₀ => ?_
    obtain ⟨g₀, hg₀⟩ := (hOrder.mem p₀).mp hp₀
    rw [hRound positions p₀ hp₀ g₀ hg₀, if_neg fun hAll => hUnknown hAll.2]

theorem elementsByTagName_groupElements (groups : List Group) :
    (Dom.elementsByTagName "Group" (.element "GroupPositions" []
      (groupElements ids groups))).map (·.2) = groupElements ids groups := by
  refine Dom.elementsByTagName_children (fun c hc => ?_) fun c hc => ?_ <;>
    obtain ⟨x, -, rfl⟩ := List.mem_map.mp hc
  · rw [positionElement_eq]
    rfl
  · rw [positionElement_eq]
    rfl

theorem elementsByTagName_metaContactsElements :
    (Dom.elementsByTagName "Group" (.element "MetaContactPositions" []
      (order.map (s.metaContactsElement qt ids)))).map (·.2) =
      order.map (s.metaContactsElement qt ids) := by
  refine Dom.elementsByTagName_children (fun c hc => ?_) fun c hc => ?_ <;>
    obtain ⟨p, -, rfl⟩ := List.mem_map.mp hc
  · have hFlat : Dom.Flat "Group" (s.metaContactsElement qt ids p).children := by
      intro c hc
      obtain ⟨x, -, rfl⟩ := List.mem_map.mp hc
      rw [positionElement_eq]
      rfl
    rw [Dom.elementsByTagName_flat hFlat, List.filter_eq_nil_iff.mpr, List.map_nil]
    intro c hc
    obtain ⟨x, -, hx⟩ := List.mem_map.mp (List.fst_mem_of_mem_zipIdx hc)
    rw [← hx, positionElement_eq]
    simp [Dom.Node.tagName]
  · rfl

section

variable {manualGroupSorting : Bool} {rootElement : DomNode}

/-- The document has no more than one list of each kind. -/
structure OneList (rootElement : DomNode) : Prop where
  isElement : rootElement.isElement = true
  groups : rootElement.children.countP (fun c => c.tagName = "GroupPositions") ≤ 1
  metaContacts : rootElement.children.countP (fun c => c.tagName = "MetaContactPositions") ≤ 1

variable (s qt ids order manualGroupSorting) in
/-- **The lists that are found** in what has been saved. -/
theorem firstChild_saveModelSettingsImpl (hOne : OneList rootElement) :
    (manualGroupSorting = true → Dom.firstChild "GroupPositions"
      (s.saveModelSettingsImpl qt ids manualGroupSorting order rootElement) =
        some (.element "GroupPositions" [] (groupElements ids s.subgroups))) ∧
    (s.manualMetaContactSorting = true → Dom.firstChild "MetaContactPositions"
      (s.saveModelSettingsImpl qt ids manualGroupSorting order rootElement) =
        some (.element "MetaContactPositions" [] (order.map (s.metaContactsElement qt ids)))) := by
  let groups : DomNode := .element "GroupPositions" [] (groupElements ids s.subgroups)
  let metaContacts : DomNode :=
    .element "MetaContactPositions" [] (order.map (s.metaContactsElement qt ids))
  have hApart : metaContacts.tagName ≠ "GroupPositions" := by simp [metaContacts, Dom.Node.tagName]
  have hApart' : groups.tagName ≠ "MetaContactPositions" := by simp [groups, Dom.Node.tagName]
  have hGroups : Dom.firstChild "GroupPositions" (Dom.replaceChild groups rootElement) =
      some groups := Dom.firstChild_replaceChild (c := groups) hOne.isElement hOne.groups
  have hElement := Dom.isElement_replaceChild groups hOne.isElement
  rw [saveModelSettingsImpl]
  refine ⟨fun hManual => ?_, fun hManual => ?_⟩
  · rw [if_pos hManual]
    split
    · exact (Dom.firstChild_replaceChild_ne hApart hElement).trans hGroups
    · exact hGroups
  · rw [if_pos hManual]
    split
    · refine Dom.firstChild_replaceChild (c := metaContacts) hElement ?_
      exact (Dom.countP_replaceChild_ne hApart' hOne.isElement).trans_le hOne.metaContacts
    · exact Dom.firstChild_replaceChild (c := metaContacts) hOne.isElement hOne.metaContacts

theorem readSettings_saveModelSettingsImpl (hOne : OneList rootElement)
    (hManual : s'.manualMetaContactSorting = s.manualMetaContactSorting) :
    s'.readSettings qt ids' manualGroupSorting order'
        (s.saveModelSettingsImpl qt ids manualGroupSorting order rootElement) =
      let positions : Row → Option Int :=
        if manualGroupSorting then
          s'.readGroups ids' order' (groupElements ids s.subgroups) fun _ => none
        else fun _ => none
      if s.manualMetaContactSorting then
        (order.map (s.metaContactsElement qt ids)).foldl (s'.readMetaContacts qt ids' order')
          positions
      else positions := by
  obtain ⟨hGroups, hMetaContacts⟩ :=
    firstChild_saveModelSettingsImpl s ids order qt manualGroupSorting hOne
  have hFirst : (if manualGroupSorting then s'.readGroupPositions ids' order'
        (s.saveModelSettingsImpl qt ids manualGroupSorting order rootElement) else fun _ => none) =
      if manualGroupSorting then
        s'.readGroups ids' order' (groupElements ids s.subgroups) fun _ => none
      else fun _ => none := by
    refine ite_congr rfl (fun hIs => ?_) fun _ => rfl
    rw [readGroupPositions, hGroups hIs]
    simp only [elementsByTagName_groupElements]
  rw [readSettings, hFirst, hManual]
  refine ite_congr rfl (fun hIs => ?_) fun _ => rfl
  rw [readMetaContactPositions, hMetaContacts hIs]
  simp only [elementsByTagName_metaContactsElements]

variable (manualGroupSorting) in
/-- **The positions that are read.** -/
theorem Refilled.valueOf_readSettings (h : Refilled s ids s' ids' order') (hOk : s.Ok)
    (hIds : s.Identifies ids) (hOrder : s.Iterates order)
    (hUuid : ∀ id, qt.uuidOfString (qt.uuidToString id) = id)
    (hShort : s.subgroups.length ≤ 2 ^ 31) (hShort' : ∀ g, (s.metaContactsOf g).length ≤ 2 ^ 31)
    (hOne : OneList rootElement) :
    let positions := s'.readSettings qt ids' manualGroupSorting order'
      (s.saveModelSettingsImpl qt ids manualGroupSorting order rootElement)
    (∀ {g p}, s'.groups g = some p → valueOf positions (.group p) =
      if manualGroupSorting then s.groupPosition ids g else -1) ∧
    ∀ {g mc q}, s'.metaContacts (g, mc) = some q → valueOf positions (.metaContact q) =
      if s.manualMetaContactSorting then s.metaContactPosition ids g mc else -1 := by
  rw [readSettings_saveModelSettingsImpl hOne h.manual]
  refine ⟨fun {g p} hp => ?_, fun {g mc q} hq => ?_⟩
  · have hBefore : valueOf (if manualGroupSorting then
        s'.readGroups ids' order' (groupElements ids s.subgroups) fun _ => none
        else fun _ => none) (.group p) = if manualGroupSorting then s.groupPosition ids g else -1 := by
      split
      · exact h.valueOf_readGroups hOk hIds hShort hp
      · rfl
    simp only
    split
    · rw [valueOf, SavedOrder.foldl_of_forall]
      · exact hBefore
      · intro positions e _
        exact readMetaContacts_group qt positions e p
    · exact hBefore
  · have hBefore : (if manualGroupSorting then
        s'.readGroups ids' order' (groupElements ids s.subgroups) fun _ => none
        else fun _ => none : Row → Option Int) (.metaContact q) = none := by
      split
      · exact readGroups_metaContact _ _ q
      · rfl
    simp only
    split
    · rw [valueOf, h.foldl_readMetaContacts hOk hIds hOrder hUuid hShort' hq, hBefore,
        metaContactPosition, SavedOrder.position]
      split <;> split <;> simp_all
    · rw [valueOf, hBefore]
      rfl

/-- **The rows after loading**: each list is sorted by the positions that have been read. -/
theorem Refilled.rows_load (h : Refilled s ids s' ids' order') (hOk : s.Ok)
    (hIds : s.Identifies ids) (hOrder : s.Iterates order)
    (hUuid : ∀ id, qt.uuidOfString (qt.uuidToString id) = id)
    (hShort : s.subgroups.length ≤ 2 ^ 31) (hShort' : ∀ g, (s.metaContactsOf g).length ≤ 2 ^ 31)
    (hOne : OneList rootElement) :
    let t := s'.loadModelSettingsImpl qt ids' manualGroupSorting order'
      (some (s.saveModelSettingsImpl qt ids manualGroupSorting order rootElement))
    let position := fun g => if manualGroupSorting then s.groupPosition ids g else -1
    let position' := fun g mc =>
      if s.manualMetaContactSorting then s.metaContactPosition ids g mc else -1
    t.subgroups = s'.subgroups.insertionSort (fun g g' => position g ≤ position g') ∧
    ∀ g, t.metaContactsOf g =
      (s'.metaContactsOf g).insertionSort fun mc mc' => position' g mc ≤ position' g mc' := by
  simp only [loadModelSettingsImpl, h.manual]
  split
  · obtain ⟨hGroups, hMetaContacts⟩ :=
      h.valueOf_readSettings manualGroupSorting hOk hIds hOrder hUuid hShort hShort' hOne
    obtain ⟨depth, hDepth⟩ := Nat.exists_eq_succ_of_ne_zero
      (Nat.ne_of_gt (Nat.zero_lt_of_lt (h.ok.group h.ok.topLevel).1.lt_next))
    obtain ⟨ps, hAll, hSorted⟩ := h.ok.sorted_sort
      (contactListModelItemSort (s'.readSettings qt ids' manualGroupSorting order'
        (s.saveModelSettingsImpl qt ids manualGroupSorting order rootElement))) depth
    rw [hDepth]
    exact ⟨hSorted.subgroups h.ok hAll hGroups,
      fun g => hSorted.metaContactsOf h.ok hAll hMetaContacts⟩
  · next hNeither =>
    -- all positions are the same
    obtain ⟨hNot, hNot'⟩ := not_or.mp hNeither
    have hStays : ∀ {α : Type} (l : List α), l.insertionSort (fun _ _ => (-1 : Int) ≤ -1) = l :=
      fun l => List.Pairwise.insertionSort_eq (List.pairwise_of_forall fun _ _ => le_rfl)
    simp only [if_neg hNot, if_neg hNot', hStays, implies_true, and_self]

end

theorem tagName_saveModelSettingsImpl (manualGroupSorting : Bool) (rootElement : DomNode) :
    (s.saveModelSettingsImpl qt ids manualGroupSorting order rootElement).tagName =
      rootElement.tagName := by
  rw [saveModelSettingsImpl]
  split <;> split <;> simp

theorem attributes_saveModelSettingsImpl (manualGroupSorting : Bool) (rootElement : DomNode) :
    (s.saveModelSettingsImpl qt ids manualGroupSorting order rootElement).attributes =
      rootElement.attributes := by
  rw [saveModelSettingsImpl]
  split <;> split <;> simp

/-! ## What comes back -/

/-- A tree `t` that has been filled like `s'` shows everything in the order of `s`; what `s` does not
know comes first, and nothing is lost. -/
structure Restored (manualGroupSorting : Bool) (s s' t : ContactListTreeModel) : Prop where
  groups : t.subgroups =
    if manualGroupSorting then SavedOrder.arranged s.subgroups s'.subgroups else s'.subgroups
  metaContacts : ∀ g, t.metaContactsOf g =
    if s.manualMetaContactSorting then
      SavedOrder.arranged (s.metaContactsOf g) (s'.metaContactsOf g)
    else s'.metaContactsOf g
  keptGroups : t.subgroups.Perm s'.subgroups
  keptMetaContacts : ∀ g, (t.metaContactsOf g).Perm (s'.metaContactsOf g)

/-- The ids of the groups that are saved are read back: they are `int`s. -/
def GroupIdsFit (manualGroupSorting : Bool) (s : ContactListTreeModel) (ids : ListIds) : Prop :=
  (manualGroupSorting = true → ∀ g ∈ s.subgroups, ids.group g < 2 ^ 31) ∧
    (s.manualMetaContactSorting = true →
      ∀ g, s.metaContactsOf g ≠ [] → ids.group g < 2 ^ 31)

/-- The tree that is loaded from what has been saved. -/
def reloaded (s : ContactListTreeModel) (qt : QtTexts) (ids : ListIds) (manualGroupSorting : Bool)
    (order : List ℕ) (doc : DomNode) (s' : ContactListTreeModel) (ids' : ListIds)
    (order' : List ℕ) : ContactListTreeModel :=
  s'.loadModelSettingsImpl qt ids' manualGroupSorting order'
    (loadModelSettings (latin1 "Tree")
      (saveModelSettings (latin1 "Tree")
        (s.saveModelSettingsImpl qt ids manualGroupSorting order) doc))

/-- The order is saved under these conditions: the ids are different, the texts of UUIDs are read
back, no list is longer than an `int` counts, and the document is one. -/
structure Savable (s : ContactListTreeModel) (qt : QtTexts) (ids : ListIds) (order : List ℕ)
    (doc : DomNode) : Prop where
  ok : s.Ok
  identifies : s.Identifies ids
  iterates : s.Iterates order
  uuid : ∀ id, qt.uuidOfString (qt.uuidToString id) = id
  groups : s.subgroups.length ≤ 2 ^ 31
  metaContacts : ∀ g, (s.metaContactsOf g).length ≤ 2 ^ 31
  isElement : doc.isElement = true
  oneList : OneList ((loadModelSettings (latin1 "Tree") doc).getD (newModelElement (latin1 "Tree")))

variable {manualGroupSorting : Bool} {doc : DomNode}

/-- **The rows of the tree that is loaded.** -/
theorem Savable.rows_reloaded (h : s.Savable qt ids order doc)
    (hRefilled : Refilled s ids s' ids' order') :
    let t := s.reloaded qt ids manualGroupSorting order doc s' ids' order'
    let position := fun g => if manualGroupSorting then s.groupPosition ids g else -1
    let position' := fun g mc =>
      if s.manualMetaContactSorting then s.metaContactPosition ids g mc else -1
    t.subgroups = s'.subgroups.insertionSort (fun g g' => position g ≤ position g') ∧
    ∀ g, t.metaContactsOf g =
      (s'.metaContactsOf g).insertionSort fun mc mc' => position' g mc ≤ position' g mc' := by
  rw [reloaded, loadModelSettings_saveModelSettings (tagName_saveModelSettingsImpl _)
    (attributes_saveModelSettingsImpl _) h.isElement]
  exact hRefilled.rows_load h.ok h.identifies h.iterates h.uuid h.groups h.metaContacts h.oneList

/-- A list that is sorted by what has been read of its saved order. -/
theorem insertionSort_read {α : Type} [DecidableEq α] {saved l : List α} (hSaved : saved.Nodup)
    (hl : l.Nodup) {manual : Bool} {fits : α → Prop} [DecidablePred fits]
    (hFits : manual = true → ∀ a ∈ saved, fits a) :
    l.insertionSort (fun a b =>
        (if manual then if fits a then SavedOrder.position saved a else -1 else -1) ≤
          if manual then if fits b then SavedOrder.position saved b else -1 else -1) =
      if manual then SavedOrder.arranged saved l else l := by
  split
  · next hManual =>
    refine Eq.trans ?_ (SavedOrder.insertionSort_position hl hSaved)
    have hRead : ∀ a, (if fits a then SavedOrder.position saved a else -1) =
        SavedOrder.position saved a := by
      intro a
      split
      · rfl
      · next hNot =>
        rw [SavedOrder.position, if_neg fun hMem => hNot (hFits hManual a hMem)]
    simp only [hRead]
  · exact List.Pairwise.insertionSort_eq (List.pairwise_of_forall fun _ _ => le_rfl)

/-- **The order comes back** where the ids of the groups are `int`s. -/
theorem Savable.restored (h : s.Savable qt ids order doc)
    (hFit : GroupIdsFit manualGroupSorting s ids) (hRefilled : Refilled s ids s' ids' order') :
    Restored manualGroupSorting s s'
      (s.reloaded qt ids manualGroupSorting order doc s' ids' order') := by
  obtain ⟨hGroups, hMetaContacts⟩ := h.rows_reloaded hRefilled
  refine ⟨hGroups.trans ?_, fun g => (hMetaContacts g).trans ?_, ?_, fun g => ?_⟩
  · exact insertionSort_read h.ok.nodup_subgroups hRefilled.ok.nodup_subgroups hFit.1
  · refine insertionSort_read (h.ok.nodup_metaContactsOf g) (hRefilled.ok.nodup_metaContactsOf g)
      fun hManual mc hmc => hFit.2 hManual g (List.ne_nil_of_mem hmc)
  · rw [hGroups]
    exact List.perm_insertionSort _ _
  · rw [hMetaContacts g]
    exact List.perm_insertionSort _ _

/-! ## Something that the saved order does not know -/

/-- A number that is not in a list. -/
theorem exists_fresh (l : List ℕ) {lo hi : ℕ} (h : lo + l.length < hi) :
    ∃ n, lo ≤ n ∧ n < hi ∧ n ∉ l := by
  have hCard : l.toFinset.card < (Finset.Ico lo hi).card := by
    have hLe := l.toFinset_card_le
    rw [Nat.card_Ico]
    omega
  obtain ⟨n, hn, hNot⟩ := Finset.exists_mem_notMem_of_card_lt_card hCard
  obtain ⟨hLo, hHi⟩ := Finset.mem_Ico.mp hn
  exact ⟨n, hLo, hHi, fun hIn => hNot (List.mem_toFinset.mpr hIn)⟩

theorem Ok.showsGroup_iff (h : s.Ok) {g : Group} :
    s.ShowsGroup g ↔ g ∈ .topLevel :: s.subgroups := by
  obtain ⟨ms, gs, hRows, -⟩ := h.rows h.topLevel
  rw [List.mem_cons, h.mem_subgroups hRows]
  constructor
  · intro hg
    obtain ⟨p, hp⟩ := Option.isSome_iff_exists.mp hg
    by_cases hTop : g = .topLevel
    · exact .inl hTop
    · exact .inr ⟨p, (mem_groups_of_row hRows p).mp ((h.group hp).2.2 hTop).2, hp, hTop⟩
  · rintro (rfl | ⟨p, -, hp, -⟩)
    · exact showsGroup_of_eq h.topLevel
    · exact showsGroup_of_eq hp

theorem Ok.showsGroup_of_shows (h : s.Ok) {g : Group} {mc : Nat} (hShows : s.Shows g mc) :
    s.ShowsGroup g := by
  obtain ⟨q, hq⟩ := Option.isSome_iff_exists.mp hShows
  obtain ⟨p, hp, -⟩ := h.pair hq
  exact showsGroup_of_eq hp

/-- A new group comes last. -/
theorem Ok.subgroups_addGroup (h : s.Ok) {u : Group} (hNew : ¬ s.ShowsGroup u) :
    (s.addGroup u).subgroups = s.subgroups ++ [u] := by
  have hTop : u ≠ .topLevel := fun hIs => hNew (hIs ▸ showsGroup_of_eq h.topLevel)
  have hAdd : s.addGroup u = s.newGroupItem u := (if_neg hTop).trans (if_neg hNew)
  obtain ⟨ms, gs, hRows, -, hSub⟩ := h.rows h.topLevel
  obtain ⟨hTopLive, -, -⟩ := h.group h.topLevel
  have hItems : ((s.newGroupItem u).groupItem (s.newGroupItem u).topLevelGroup).items =
      ms.map Row.metaContact ++ (gs ++ [s.groupItems.next]).map Row.group := by
    refine (congrArg GroupModelItem.items (groupItem_newGroupItem u hTopLive)).trans ?_
    rw [if_pos rfl]
    simp [hRows.eq]
  have hNames : ∀ p ∈ gs,
      ((s.newGroupItem u).groupItem p).group = (s.groupItem p).group := by
    intro p hp
    obtain ⟨-, g, -, hg⟩ := hSub p hp
    rw [groupItem_newGroupItem u (h.group hg).1]
    split <;> rfl
  rw [hAdd, subgroups, hItems, groupRows_eq, List.map_append, List.map_congr_left hNames,
    subgroups, hRows.eq, groupRows_eq, List.map_singleton,
    groupItem_newGroupItem_next u hTopLive]

instance : Infinite Group := .of_injective Group.normal fun _ _ => Group.normal.inj

/-- **A list with a new group.** -/
theorem Savable.refilled_addGroup (h : s.Savable qt ids order doc) :
    ∃ u ids' order', ¬ s.ShowsGroup u ∧ Refilled s ids (s.addGroup u) ids' order' := by
  obtain ⟨u, hu⟩ := Infinite.exists_notMem_finset (Group.topLevel :: s.subgroups).toFinset
  have hNew : ¬ s.ShowsGroup u := fun hShown =>
    hu (List.mem_toFinset.mpr (h.ok.showsGroup_iff.mp hShown))
  have hLength : 1 + ((Group.topLevel :: s.subgroups).map ids.group).length < 2 ^ 32 := by
    have hShort := h.groups
    simp only [List.length_map, List.length_cons]
    omega
  obtain ⟨id, hPos, hLt, hId⟩ := exists_fresh _ hLength
  let ids' : ListIds := { ids with group := Function.update ids.group u id }
  have hIs : ids'.group u = id := Function.update_self u id ids.group
  have hStays : ∀ g, s.ShowsGroup g → ids'.group g = ids.group g := by
    intro g hg
    refine Function.update_of_ne ?_ id ids.group
    rintro rfl
    exact hNew hg
  have hGroup : ∀ {g g'}, s.ShowsGroup g → (s.addGroup u).ShowsGroup g' →
      (ids.group g = ids'.group g' ↔ g = g') := by
    intro g g' hg hg'
    rcases (h.ok.showsGroup_addGroup u g').mp hg' with rfl | hOld
    · rw [hIs]
      refine iff_of_false (fun hSame => hId ?_) ?_
      · rw [← hSame]
        exact List.mem_map_of_mem (h.ok.showsGroup_iff.mp hg)
      · rintro rfl
        exact hNew hg
    · rw [hStays g' hOld]
      exact ⟨h.identifies.group_injective hg hOld, congrArg ids.group⟩
  have hOk := h.ok.addGroup u
  obtain ⟨ms, gs, hRows, -⟩ := hOk.rows hOk.topLevel
  have hManual : (s.addGroup u).manualMetaContactSorting = s.manualMetaContactSorting := by
    unfold ContactListTreeModel.addGroup
    split
    · rfl
    · split <;> rfl
  have hIds : (s.addGroup u).Identifies ids' := by
    constructor
    case group =>
      intro g hg
      rcases (h.ok.showsGroup_addGroup u g).mp hg with rfl | hOld
      · rw [hIs]
        exact ⟨hPos, hLt⟩
      · rw [hStays g hOld]
        exact h.identifies.group hOld
    case group_injective =>
      intro g g' hg hg' hSame
      rcases (h.ok.showsGroup_addGroup u g).mp hg with rfl | hOld
      · rcases (h.ok.showsGroup_addGroup g g').mp hg' with rfl | hOld'
        · rfl
        · rw [hStays g' hOld'] at hSame
          exact ((hGroup hOld' hg).mp hSame.symm).symm
      · rw [hStays g hOld] at hSame
        exact (hGroup hOld hg').mp hSame
    case metaContact_injective =>
      intro g g' mc mc' hShows hShows' hSame
      rw [shows_addGroup] at hShows hShows'
      exact h.identifies.metaContact_injective hShows hShows' hSame
  refine ⟨u, ids', _, hNew, hOk, hManual, hIds, hOk.iterates hRows, hGroup,
    fun {g g' mc mc'} hShows hShows' => ?_⟩
  rw [shows_addGroup] at hShows'
  exact ⟨h.identifies.metaContact_injective hShows hShows', congrArg ids.metaContact⟩

/-- A metacontact that is shown, among those of all groups. -/
theorem Ok.mem_flatMap (h : s.Ok) {g : Group} {mc : Nat} (hShows : s.Shows g mc) :
    mc ∈ (.topLevel :: s.subgroups).flatMap s.metaContactsOf :=
  List.mem_flatMap.mpr ⟨g, h.showsGroup_iff.mp (h.showsGroup_of_shows hShows),
    h.mem_metaContactsOf.mpr hShows⟩

/-- **A list with a new metacontact**, which comes last in its group. -/
theorem Savable.refilled_addMetaContact (h : s.Savable qt ids order doc)
    (hManual : s.manualMetaContactSorting = true) {g : Group} (hg : s.ShowsGroup g) :
    ∃ u s' ids' order', u ∉ s.metaContactsOf g ∧ s'.metaContactsOf g = s.metaContactsOf g ++ [u] ∧
      Refilled s ids s' ids' order' := by
  let shown := (.topLevel :: s.subgroups).flatMap s.metaContactsOf
  have hLength : 0 + (shown.map fun mc => (ids.metaContact mc).toNat).length < 2 ^ 128 := by
    have hSum : ((Group.topLevel :: s.subgroups).map fun g => (s.metaContactsOf g).length).sum ≤
        (Group.topLevel :: s.subgroups).length • 2 ^ 31 := by
      refine (List.sum_le_card_nsmul _ _ fun n hn => ?_).trans_eq (by rw [List.length_map])
      obtain ⟨g, -, rfl⟩ := List.mem_map.mp hn
      exact h.metaContacts g
    have hShort := h.groups
    rw [List.length_map, List.length_flatMap]
    rw [List.length_cons, smul_eq_mul] at hSum
    have hBound : (s.subgroups.length + 1) * 2 ^ 31 ≤ (2 ^ 31 + 1) * 2 ^ 31 :=
      Nat.mul_le_mul_right _ (Nat.add_le_add_right hShort 1)
    omega
  obtain ⟨u, hu⟩ := Infinite.exists_notMem_finset shown.toFinset
  obtain ⟨id, -, hLt, hId⟩ := exists_fresh _ hLength
  have hNew : ∀ g, ¬ s.Shows g u := fun g hShows =>
    hu (List.mem_toFinset.mpr (h.ok.mem_flatMap hShows))
  let ids' : ListIds :=
    { ids with metaContact := Function.update ids.metaContact u (BitVec.ofNat 128 id) }
  let s' := ({ s with addContactPosition := fun _ => none } : ContactListTreeModel)
  have hOk : s'.Ok := h.ok.withPositions _
  have hPlaced : Placed s' g u (RowDrop.place (s.metaContactsOf g) (s.metaContactsOf g).length u)
      (s'.addMetaContactToGroup u g) :=
    hOk.placed_addMetaContactToGroup u hg hManual (Nat.le_refl _)
  have hShows : ∀ {g' mc}, (s'.addMetaContactToGroup u g).Shows g' mc → mc = u ∨ s.Shows g' mc := by
    intro g' mc hShown
    rcases (hOk.shows_addMetaContactToGroup u g g' mc).mp hShown with hSame | hOld
    · exact .inl (congrArg Prod.snd hSame)
    · exact .inr hOld
  have hGroups : ∀ {g'}, (s'.addMetaContactToGroup u g).ShowsGroup g' → s.ShowsGroup g' :=
    fun {g'} => (showsGroup_congr hPlaced.groups g').mp
  have hIs : ids'.metaContact u = BitVec.ofNat 128 id := Function.update_self u _ ids.metaContact
  have hStays : ∀ {g' mc}, s.Shows g' mc → ids'.metaContact mc = ids.metaContact mc := by
    intro g' mc hShown
    refine Function.update_of_ne ?_ _ ids.metaContact
    rintro rfl
    exact hNew g' hShown
  have hMetaContact : ∀ {g₁ g₂ mc mc'}, s.Shows g₁ mc → (s'.addMetaContactToGroup u g).Shows g₂ mc' →
      (ids.metaContact mc = ids'.metaContact mc' ↔ mc = mc') := by
    intro g₁ g₂ mc mc' hShown hShown'
    rcases hShows hShown' with rfl | hOld
    · rw [hIs]
      refine iff_of_false (fun hSame => hId ?_) ?_
      · have hNat : (ids.metaContact mc).toNat = id := by
          rw [hSame, BitVec.toNat_ofNat, Nat.mod_eq_of_lt hLt]
        exact List.mem_map.mpr ⟨mc, h.ok.mem_flatMap hShown, hNat⟩
      · rintro rfl
        exact hNew g₁ hShown
    · rw [hStays hOld]
      exact ⟨h.identifies.metaContact_injective hShown hOld, congrArg ids.metaContact⟩
  have hIds : (s'.addMetaContactToGroup u g).Identifies ids' := by
    refine ⟨fun {g'} hg' => h.identifies.group (hGroups hg'),
      fun hg hg' => h.identifies.group_injective (hGroups hg) (hGroups hg'), ?_⟩
    intro g₁ g₂ mc mc' hShown hShown' hSame
    rcases hShows hShown with rfl | hOld
    · rcases hShows hShown' with rfl | hOld'
      · rfl
      · rw [hStays hOld'] at hSame
        exact ((hMetaContact hOld' hShown).mp hSame.symm).symm
    · rw [hStays hOld] at hSame
      exact (hMetaContact hOld hShown').mp hSame
  have hNotIn : u ∉ s.metaContactsOf g := fun hIn => hNew g (h.ok.mem_metaContactsOf.mp hIn)
  obtain ⟨ms, gs, hRows, -⟩ := hPlaced.ok.rows hPlaced.ok.topLevel
  refine ⟨u, s'.addMetaContactToGroup u g, ids', _, hNotIn, ?_, hPlaced.ok, hPlaced.manual, hIds,
    hPlaced.ok.iterates hRows, fun hg hg' => ?_, hMetaContact⟩
  · rw [hPlaced.rows, RowDrop.place_of_length_le (Nat.le_refl _), QList.removeAll_of_not_mem hNotIn]
  · exact ⟨h.identifies.group_injective hg (hGroups hg'), congrArg ids.group⟩

/-! ## When the order comes back -/

/-- **The order of groups** does not come back when the id of one of them is no `int`: a new group is
not put before it. -/
theorem Savable.groups_fit (h : s.Savable qt ids order doc) (hManual : manualGroupSorting = true)
    (hAll : ∀ {s' ids' order'}, Refilled s ids s' ids' order' → Restored manualGroupSorting s s'
      (s.reloaded qt ids manualGroupSorting order doc s' ids' order')) {g : Group}
    (hg : g ∈ s.subgroups) : ids.group g < 2 ^ 31 := by
  by_contra hLarge
  obtain ⟨u, ids', order', hNew, hRefilled⟩ := h.refilled_addGroup
  have hNotIn : u ∉ s.subgroups := fun hIn => hNew (h.ok.showsGroup_of_mem hIn)
  have hRows := (h.rows_reloaded hRefilled).1.symm.trans (hAll hRefilled).groups
  rw [if_pos hManual, h.ok.subgroups_addGroup hNew] at hRows
  refine SavedOrder.insertionSort_ne_arranged hg hNotIn ?_ hRows
  simp only [hManual, if_true]
  rw [groupPosition, if_neg hLarge, groupPosition, SavedOrder.position, if_neg hNotIn]
  split <;> exact Int.le_refl _

/-- **The order of metacontacts** does not come back in a group whose id is no `int`. -/
theorem Savable.metaContacts_fit (h : s.Savable qt ids order doc)
    (hManual : s.manualMetaContactSorting = true)
    (hAll : ∀ {s' ids' order'}, Refilled s ids s' ids' order' → Restored manualGroupSorting s s'
      (s.reloaded qt ids manualGroupSorting order doc s' ids' order')) {g : Group}
    (hg : s.metaContactsOf g ≠ []) : ids.group g < 2 ^ 31 := by
  by_contra hLarge
  obtain ⟨mc, hmc⟩ := List.exists_mem_of_ne_nil _ hg
  have hShown := h.ok.showsGroup_of_shows (h.ok.mem_metaContactsOf.mp hmc)
  obtain ⟨u, s', ids', order', hNotIn, hOf, hRefilled⟩ := h.refilled_addMetaContact hManual hShown
  have hRows := ((h.rows_reloaded hRefilled).2 g).symm.trans ((hAll hRefilled).metaContacts g)
  rw [if_pos hManual, hOf] at hRows
  refine SavedOrder.insertionSort_ne_arranged hmc hNotIn ?_ hRows
  simp only [hManual, if_true]
  rw [metaContactPosition, if_neg hLarge, metaContactPosition, if_neg hLarge]

end ContactListTreeModel

/-! ## Both models -/

namespace ContactListPlainModel

/-- The plain model when it is filled again, maybe from a list that has changed. -/
structure Refilled (s : ContactListPlainModel) (ids : ListIds) (s' : ContactListPlainModel)
    (ids' : ListIds) : Prop where
  manual : s'.manualMetaContactSorting = s.manualMetaContactSorting
  nodup : s.contacts.Nodup
  nodup' : s'.contacts.Nodup
  short : s.contacts.length ≤ 2 ^ 31
  injective : ∀ m ∈ s'.contacts, ∀ m' ∈ s'.contacts,
    ids'.metaContact m = ids'.metaContact m' → m = m'
  metaContact : ∀ m ∈ s.contacts, ∀ m' ∈ s'.contacts,
    ids.metaContact m = ids'.metaContact m' ↔ m = m'

/-- The plain model that is loaded from what has been saved. -/
def reloaded (s : ContactListPlainModel) (qt : QtTexts) (ids : ListIds) (doc : DomNode)
    (s' : ContactListPlainModel) (ids' : ListIds) : ContactListPlainModel :=
  s'.loadModelSettingsImpl qt ids'
    (loadModelSettings (latin1 "Plain")
      (saveModelSettings (latin1 "Plain") (s.saveModelSettingsImpl qt ids) doc))

variable {s s' : ContactListPlainModel} {ids ids' : ListIds} {qt : QtTexts} {doc : DomNode}

theorem contacts_reloaded (hUuid : ∀ id, qt.uuidOfString (qt.uuidToString id) = id)
    (hDoc : doc.isElement = true) (hOne : ContactListTreeModel.OneList
      ((loadModelSettings (latin1 "Plain") doc).getD (newModelElement (latin1 "Plain"))))
    (h : Refilled s ids s' ids') :
    (s.reloaded qt ids doc s' ids').contacts =
      if s.manualMetaContactSorting then SavedOrder.arranged s.contacts s'.contacts
      else s'.contacts := by
  have hTag : ∀ n, (s.saveModelSettingsImpl qt ids n).tagName = n.tagName := by
    intro n
    rw [saveModelSettingsImpl]
    split <;> simp
  have hAttributes : ∀ n, (s.saveModelSettingsImpl qt ids n).attributes = n.attributes := by
    intro n
    rw [saveModelSettingsImpl]
    split <;> simp
  rw [reloaded, loadModelSettings_saveModelSettings hTag hAttributes hDoc]
  split
  · next hManual =>
    exact contacts_load_save hManual (h.manual.trans hManual) h.nodup h.nodup' h.short
      (fun m _ => hUuid _) h.injective h.metaContact hOne.isElement hOne.metaContacts
  · next hNot =>
    rw [loadModelSettingsImpl, if_neg (h.manual ▸ hNot)]

end ContactListPlainModel

open ContactListTreeModel in
/-- **The order that is saved comes back** in both models, whatever order they are filled in again:
in the plain model always, in the tree if and only if the ids of the groups that it is about are
`int`s. -/
theorem orderRestored_iff {s : ContactListTreeModel} {qt : QtTexts} {ids : ListIds}
    {order : List ℕ} {doc : DomNode} (h : s.Savable qt ids order doc) (hPlain : OneList
      ((loadModelSettings (latin1 "Plain") doc).getD (newModelElement (latin1 "Plain"))))
    (manualGroupSorting : Bool) :
    (∀ {s' ids' order'}, Refilled s ids s' ids' order' → Restored manualGroupSorting s s'
      (s.reloaded qt ids manualGroupSorting order doc s' ids' order')) ∧
    (∀ {p p' : ContactListPlainModel} {ids ids'}, p.Refilled ids p' ids' →
      (p.reloaded qt ids doc p' ids').contacts =
        if p.manualMetaContactSorting then SavedOrder.arranged p.contacts p'.contacts
        else p'.contacts) ↔
    GroupIdsFit manualGroupSorting s ids := by
  rw [and_iff_left fun {p p' ids ids'} hRefilled =>
    ContactListPlainModel.contacts_reloaded h.uuid h.isElement hPlain hRefilled]
  constructor
  · intro hAll
    exact ⟨fun hManual g hg => h.groups_fit hManual hAll hg,
      fun hManual g hg => h.metaContacts_fit hManual hAll hg⟩
  · exact fun hFit s' ids' order' hRefilled => h.restored hFit hRefilled

/-! ## Two groups -/

/-- The digits of a number, and their value. -/
theorem foldl_digits (n u : ℕ) :
    ((List.range n).map fun i => u / 16 ^ (n - 1 - i) % 16).foldl (16 * · + ·) 0 = u % 16 ^ n := by
  induction n generalizing u with
  | zero => simp [Nat.mod_one]
  | succ n ih =>
    have hFirst : (List.range n).map (fun i => u / 16 ^ (n + 1 - 1 - i) % 16) =
        (List.range n).map fun i => u / 16 / 16 ^ (n - 1 - i) % 16 := by
      refine List.map_congr_left fun i hi => ?_
      have hLt := List.mem_range.mp hi
      have hPow : n + 1 - 1 - i = n - 1 - i + 1 := by omega
      rw [hPow, Nat.pow_succ', Nat.div_div_eq_div_mul]
    have hLast : u / 16 ^ (n + 1 - 1 - n) % 16 = u % 16 := by simp
    rw [List.range_succ, List.map_append, List.foldl_append, hFirst, ih, List.map_singleton,
      hLast, Nat.pow_succ', Nat.mod_mul]
    exact Nat.add_comm _ _

theorem uuidValue_uuidDigit {n : ℕ} (h : n < 16) : uuidValue (uuidDigit n) = some n := by
  have hAll : ∀ n < 16, uuidValue (uuidDigit n) = some n := by decide
  exact hAll n h

theorem uuid_plainTexts (id : BitVec 128) :
    plainTexts.uuidOfString (plainTexts.uuidToString id) = id := by
  have hDigits : (uuidDigits id).filterMap uuidValue =
      (List.range 32).map fun i => id.toNat / 16 ^ (32 - 1 - i) % 16 := by
    rw [uuidDigits, List.filterMap_map, ← List.filterMap_eq_map]
    refine List.filterMap_congr fun i _ => ?_
    exact uuidValue_uuidDigit (Nat.mod_lt _ (by decide))
  have hText : (plainTexts.uuidToString id).filterMap uuidValue =
      (uuidDigits id).filterMap uuidValue := by
    have hParts : uuidDigits id = (uuidDigits id).take 8 ++ (((uuidDigits id).drop 8).take 4 ++
        (((uuidDigits id).drop 12).take 4 ++ (((uuidDigits id).drop 16).take 4 ++
          (uuidDigits id).drop 20))) := by
      have hCut : ∀ n k, (uuidDigits id).drop n =
          ((uuidDigits id).drop n).take k ++ (uuidDigits id).drop (n + k) := fun n k => by
        rw [← List.drop_drop, List.take_append_drop]
      rw [← hCut 16 4, ← hCut 12 4, ← hCut 8 4, List.take_append_drop]
    have hDash : (latin1 "-").filterMap uuidValue = [] := by decide
    have hOpen : (latin1 "\x7b").filterMap uuidValue = [] := by decide
    have hClose : (latin1 "\x7d").filterMap uuidValue = [] := by decide
    conv_rhs => rw [hParts]
    simp only [plainTexts, List.filterMap_append, hDash, hOpen, hClose, List.append_nil,
      List.nil_append, List.append_assoc]
  have hValue : plainTexts.uuidOfString (plainTexts.uuidToString id) =
      BitVec.ofNat 128 (((plainTexts.uuidToString id).filterMap uuidValue).foldl (16 * · + ·) 0) :=
    rfl
  rw [hValue, hText, hDigits, foldl_digits, Nat.mod_eq_of_lt (by exact id.isLt),
    BitVec.ofNat_toNat, BitVec.setWidth_eq]

open ContactListTreeModel

/-- Two groups, and a metacontact in the first of them. -/
def savedGroups : ContactListTreeModel :=
  (((new true).addGroup (.normal 1)).addGroup (.normal 2)).addMetaContactToGroup 0 (.normal 1)

/-- The second group has this id. -/
def idsWith (id : Nat) : ListIds where
  group g := if g = .normal 2 then id else if g = .normal 1 then 2 else 1
  metaContact mc := BitVec.ofNat 128 mc

/-- A file without any order. -/
def emptyDocument : DomNode := .element "kopete-contact-list-settings" [] []

theorem ok_savedGroups : savedGroups.Ok :=
  (((ok_new true).addGroup (.normal 1)).addGroup (.normal 2)).addMetaContactToGroup 0 (.normal 1)

theorem showsGroup_savedGroups {g : Group} (hg : savedGroups.ShowsGroup g) :
    g = .normal 1 ∨ g = .normal 2 ∨ g = .topLevel := by
  have hNew := ok_new true
  rcases (((hNew.addGroup (.normal 1)).addGroup (.normal 2)).showsGroup_addMetaContactToGroup 0
    (.normal 1) g).mp hg with rfl | hg
  · exact .inl rfl
  rcases ((hNew.addGroup (.normal 1)).showsGroup_addGroup (.normal 2) g).mp hg with rfl | hg
  · exact .inr (.inl rfl)
  rcases (hNew.showsGroup_addGroup (.normal 1) g).mp hg with rfl | hg
  · exact .inl rfl
  obtain ⟨p, hp⟩ := Option.isSome_iff_exists.mp hg
  exact .inr (.inr (groups_new.mp hp).1)

theorem shows_savedGroups {g : Group} {mc : Nat} (h : savedGroups.Shows g mc) : mc = 0 := by
  have hOk := ((ok_new true).addGroup (.normal 1)).addGroup (.normal 2)
  rcases (hOk.shows_addMetaContactToGroup 0 (.normal 1) g mc).mp h with hSame | hOld
  · exact congrArg Prod.snd hSame
  · rw [shows_addGroup, shows_addGroup] at hOld
    cases hOld

theorem identifies_savedGroups {id : Nat} (hId : 2 < id) (hLt : id < 2 ^ 32) :
    savedGroups.Identifies (idsWith id) := by
  have hFirst : (idsWith id).group (.normal 1) = 2 := rfl
  have hSecond : (idsWith id).group (.normal 2) = id := rfl
  have hTop : (idsWith id).group .topLevel = 1 := rfl
  constructor
  case group =>
    intro g hg
    rcases showsGroup_savedGroups hg with rfl | rfl | rfl
    · rw [hFirst]
      decide
    · rw [hSecond]
      omega
    · rw [hTop]
      decide
  case group_injective =>
    intro g g' hg hg' hSame
    rcases showsGroup_savedGroups hg with rfl | rfl | rfl <;>
      rcases showsGroup_savedGroups hg' with rfl | rfl | rfl <;>
      simp only [hFirst, hSecond, hTop] at hSame <;> first | rfl | omega
  case metaContact_injective =>
    intro g g' mc mc' hShows hShows' _
    rw [shows_savedGroups hShows, shows_savedGroups hShows']

theorem iterates_savedGroups : savedGroups.Iterates [0, 1, 2] := by
  have hRows : RowsAre (savedGroups.groupItem savedGroups.topLevelGroup).items [] [1, 2] :=
    ⟨by decide +kernel, by decide, by decide⟩
  exact ok_savedGroups.iterates hRows

theorem savable_savedGroups {id : Nat} (hId : 2 < id) (hLt : id < 2 ^ 32) :
    savedGroups.Savable plainTexts (idsWith id) [0, 1, 2] emptyDocument where
  ok := ok_savedGroups
  identifies := identifies_savedGroups hId hLt
  iterates := iterates_savedGroups
  uuid := uuid_plainTexts
  groups := by decide +kernel
  metaContacts g := by
    have hSub : savedGroups.metaContactsOf g ⊆ [0] := fun mc hmc =>
      List.mem_singleton.mpr (shows_savedGroups (ok_savedGroups.mem_metaContactsOf.mp hmc))
    have hLength := ((ok_savedGroups.nodup_metaContactsOf g).subperm hSub).length_le
    exact hLength.trans (by decide)
  isElement := rfl
  oneList := ⟨rfl, by decide +kernel, by decide +kernel⟩

theorem refilled_savedGroups {id : Nat} (hId : 2 < id) (hLt : id < 2 ^ 32) :
    Refilled savedGroups (idsWith id) savedGroups (idsWith id) [0, 1, 2] where
  ok := ok_savedGroups
  manual := rfl
  identifies := identifies_savedGroups hId hLt
  iterates := iterates_savedGroups
  group hg hg' := ⟨(identifies_savedGroups hId hLt).group_injective hg hg', congrArg _⟩
  metaContact h h' := ⟨(identifies_savedGroups hId hLt).metaContact_injective h h', congrArg _⟩

theorem orderRestored_iff_savedGroups :
    savedGroups.Savable plainTexts (idsWith 3) [0, 1, 2] emptyDocument ∧
    (∀ {s' ids' order'}, Refilled savedGroups (idsWith 3) s' ids' order' →
      Restored true savedGroups s' (savedGroups.reloaded plainTexts (idsWith 3) true [0, 1, 2]
        emptyDocument s' ids' order')) := by
  have hSavable : savedGroups.Savable plainTexts (idsWith 3) [0, 1, 2] emptyDocument :=
    savable_savedGroups (by decide) (by decide)
  have hPlain : OneList
      ((loadModelSettings (latin1 "Plain") emptyDocument).getD (newModelElement (latin1 "Plain"))) :=
    ⟨rfl, by decide +kernel, by decide +kernel⟩
  refine ⟨hSavable, ((orderRestored_iff hSavable hPlain true).mpr
    ⟨fun _ g hg => ?_, fun _ g hg => ?_⟩).1⟩
  · rcases showsGroup_savedGroups (ok_savedGroups.showsGroup_of_mem hg) with rfl | rfl | rfl <;> decide
  · obtain ⟨mc, hmc⟩ := List.exists_mem_of_ne_nil _ hg
    have hShown := ok_savedGroups.showsGroup_of_shows (ok_savedGroups.mem_metaContactsOf.mp hmc)
    rcases showsGroup_savedGroups hShown with rfl | rfl | rfl <;> decide

/-- A group with a large id comes first, although it has been saved as the second one. -/
theorem orderRestored_fails :
    savedGroups.Savable plainTexts (idsWith (2 ^ 31)) [0, 1, 2] emptyDocument ∧
    Refilled savedGroups (idsWith (2 ^ 31)) savedGroups (idsWith (2 ^ 31)) [0, 1, 2] ∧
    savedGroups.subgroups = [.normal 1, .normal 2] ∧
    (savedGroups.reloaded plainTexts (idsWith (2 ^ 31)) true [0, 1, 2] emptyDocument savedGroups
      (idsWith (2 ^ 31)) [0, 1, 2]).subgroups = [.normal 2, .normal 1] ∧
    ¬ Restored true savedGroups savedGroups (savedGroups.reloaded plainTexts (idsWith (2 ^ 31)) true
      [0, 1, 2] emptyDocument savedGroups (idsWith (2 ^ 31)) [0, 1, 2]) := by
  have hSavable : savedGroups.Savable plainTexts (idsWith (2 ^ 31)) [0, 1, 2] emptyDocument :=
    savable_savedGroups (by decide) (by decide)
  have hRefilled : Refilled savedGroups (idsWith (2 ^ 31)) savedGroups (idsWith (2 ^ 31)) [0, 1, 2] :=
    refilled_savedGroups (by decide) (by decide)
  have hBefore : savedGroups.subgroups = [.normal 1, .normal 2] := by decide +kernel
  have hAfter : (savedGroups.reloaded plainTexts (idsWith (2 ^ 31)) true [0, 1, 2] emptyDocument
      savedGroups (idsWith (2 ^ 31)) [0, 1, 2]).subgroups = [.normal 2, .normal 1] := by
    rw [(hSavable.rows_reloaded hRefilled).1]
    decide +kernel
  refine ⟨hSavable, hRefilled, hBefore, hAfter, fun hRestored => ?_⟩
  have hGroups := hRestored.groups
  rw [hAfter, if_pos rfl, hBefore] at hGroups
  exact absurd hGroups (by decide)

end Kopete.UI
