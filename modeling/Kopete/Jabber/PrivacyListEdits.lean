import Kopete.Jabber.PrivacyManager
import Kopete.Lib.Swap
import Mathlib

/-!
# Jabber — editing a privacy list

The items of a list are where their numbers say. An item that is inserted gets all numbers made
anew; one that is moved exchanges its number with its neighbour, and its place. Where both have
the same number the numbers are made anew as well, and the item stays where it is.

Main results:

* `sorted_reNumber_iff` — new numbers go up as long as they last;
* `exchange_iff` — when a move does what it should;
* `rightEdits_iff` — the same for all edits of a run.
-/

namespace XMPP

open PrivacyListItem (content)

namespace PrivacyList

variable (l : PrivacyList)

/-! ## Edits -/

/-- The items are sorted by their numbers. -/
def Sorted : Prop := l.items.Pairwise fun a b => a.order ≤ b.order

/-- `PrivacyList::updateItem`. -/
def updateItem (index : Nat) (item : PrivacyListItem) : PrivacyList :=
  match l.items[index]? with
  | some old => { l with items := l.items.set index (item.setOrder old.order) }
  | none => l

/-- What the two moves do with an item and its neighbour. -/
def exchange (index neighbour : Nat) : PrivacyList :=
  match l.items[index]?, l.items[neighbour]? with
  | some item, some other =>
    if item.order = other.order then { l with items := reNumber 100 l.items }
    else
      let items := l.items.set index (item.setOrder other.order)
      let items := items.set neighbour (other.setOrder item.order)
      { l with items := QList.swap items index neighbour }
  | _, _ => l

/-- `PrivacyList::moveItemUp`. -/
def moveItemUp (index : Nat) : Bool × PrivacyList :=
  if index < l.items.length ∧ 0 < index then (true, l.exchange index (index - 1)) else (false, l)

/-- `PrivacyList::moveItemDown`. -/
def moveItemDown (index : Nat) : Bool × PrivacyList :=
  if index + 1 < l.items.length then (true, l.exchange index (index + 1)) else (false, l)

inductive Edit
  | insertItem (index : Nat) (item : PrivacyListItem)
  | updateItem (index : Nat) (item : PrivacyListItem)
  | moveItemUp (index : Nat)
  | moveItemDown (index : Nat)

/-- The list after an edit. -/
def edit : Edit → PrivacyList
  | .insertItem index item => l.insertItem index item
  | .updateItem index item => l.updateItem index item
  | .moveItemUp index => (l.moveItemUp index).2
  | .moveItemDown index => (l.moveItemDown index).2

/-- The index of the edit is in range. -/
def InRange : Edit → Prop
  | .insertItem index _ => index ≤ l.items.length
  | .updateItem index _ => index < l.items.length
  | .moveItemUp index => index < l.items.length
  | .moveItemDown index => index < l.items.length

/-- The items but for their numbers. -/
def contents : List PrivacyListItem := l.items.map content

/-- What a move should do: it exchanges the item with its neighbour if there is one, and says so. -/
structure Moves (moved : Bool × PrivacyList) (index neighbour : Nat) (There : Prop) : Prop where
  returns : moved.1 = true ↔ There
  contents : There → moved.2.contents = QList.swap l.contents index neighbour
  stays : ¬ There → moved.2 = l

/-- What an edit should do to the items. -/
def Does : Edit → Prop
  | .insertItem index item =>
    (l.insertItem index item).contents = l.contents.insertIdx index item.content
  | .updateItem index item =>
    (l.updateItem index item).contents = l.contents.set index item.content
  | .moveItemUp index => l.Moves (l.moveItemUp index) index (index - 1) (0 < index)
  | .moveItemDown index =>
    l.Moves (l.moveItemDown index) index (index + 1) (index + 1 < l.items.length)

/-- What an edit should do: the items are in order again, and the list keeps its name. -/
structure Right (e : Edit) : Prop where
  sorted : (l.edit e).Sorted
  name : (l.edit e).name = l.name
  does : l.Does e

/-- There are numbers for so many items. -/
def NumbersLast (n : Nat) : Prop := n ≤ 429496720

/-- The two items have different numbers, or there is nothing else to tell them apart. -/
def Apart (index neighbour : Nat) : Prop :=
  ∀ item other, l.items[index]? = some item → l.items[neighbour]? = some other →
    item.order ≠ other.order ∨ item.content = other.content ∧ NumbersLast l.items.length

/-- What an edit needs. -/
def Fits : Edit → Prop
  | .insertItem _ _ => NumbersLast (l.items.length + 1)
  | .updateItem _ _ => True
  | .moveItemUp index => 0 < index → l.Apart index (index - 1)
  | .moveItemDown index => l.Apart index (index + 1)

/-! ## New numbers -/

theorem getElem?_reNumber {order : Nat} (h : order < 2 ^ 32) (items : List PrivacyListItem)
    (k : Nat) :
    (reNumber order items)[k]? = items[k]?.map (·.setOrder ((order + 10 * k) % 2 ^ 32)) := by
  induction items generalizing order k with
  | nil => rfl
  | cons item items ih =>
    unfold reNumber
    cases k with
    | zero =>
      rw [List.getElem?_cons_zero, List.getElem?_cons_zero, Nat.mul_zero, Nat.add_zero,
        Nat.mod_eq_of_lt h]
      rfl
    | succ k =>
      have hNext : ((order + 10) % 2 ^ 32 + 10 * k) % 2 ^ 32 = (order + 10 * (k + 1)) % 2 ^ 32 := by
        omega
      rw [List.getElem?_cons_succ, List.getElem?_cons_succ, ih (Nat.mod_lt _ (by decide)), hNext]

/-- **New numbers** go up exactly as long as they last. -/
theorem sorted_reNumber_iff (items : List PrivacyListItem) :
    ((reNumber 100 items).Pairwise fun a b => a.order ≤ b.order) ↔ NumbersLast items.length := by
  constructor
  · intro hSorted
    by_contra hMany
    have hLast : 429496719 < items.length := by
      unfold NumbersLast at hMany
      omega
    have hNext : 429496720 < items.length := by
      unfold NumbersLast at hMany
      omega
    have hBefore : (reNumber 100 items)[429496719]? =
        some (items[429496719].setOrder 4294967290) := by
      rw [getElem?_reNumber (by decide), List.getElem?_eq_getElem hLast]
      rfl
    -- the sum wraps around here
    have hAfter : (reNumber 100 items)[429496720]? =
        some (items[429496720].setOrder 4) := by
      rw [getElem?_reNumber (by decide), List.getElem?_eq_getElem hNext]
      rfl
    obtain ⟨hi, hBeforeGet⟩ := List.getElem?_eq_some_iff.1 hBefore
    obtain ⟨hj, hAfterGet⟩ := List.getElem?_eq_some_iff.1 hAfter
    have hLe := List.pairwise_iff_getElem.1 hSorted 429496719 429496720 hi hj (by decide)
    rw [hBeforeGet, hAfterGet] at hLe
    exact absurd (show 4294967290 ≤ 4 from hLe) (by decide)
  · intro hFew
    refine (reNumber_sorted ?_).2
    unfold NumbersLast at hFew
    omega

/-! ## One edit -/

variable {l}

theorem right_insertItem_iff (index : Nat) (item : PrivacyListItem)
    (hRange : index ≤ l.items.length) :
    l.Right (.insertItem index item) ↔ l.Fits (.insertItem index item) := by
  have hSorted : (l.insertItem index item).Sorted ↔ NumbersLast (l.items.length + 1) := by
    show ((reNumber 100 (l.items.insertIdx index item)).Pairwise _) ↔ _
    rw [sorted_reNumber_iff, List.length_insertIdx_of_le_length hRange]
  refine ⟨fun hRight => hSorted.1 hRight.sorted, fun hFits => ⟨hSorted.2 hFits, rfl, ?_⟩⟩
  show (reNumber 100 (l.items.insertIdx index item)).map content = _
  rw [map_content_reNumber, List.map_insertIdx]
  rfl

theorem sorted_of_orders {l' : PrivacyList} (h : l.Sorted)
    (hOrders : l'.items.map PrivacyListItem.order = l.items.map PrivacyListItem.order) :
    l'.Sorted := by
  unfold Sorted at h ⊢
  rw [← List.pairwise_map, hOrders, List.pairwise_map]
  exact h

/-- An update keeps the number. -/
theorem right_updateItem (h : l.Sorted) {index : Nat} (item : PrivacyListItem)
    (hRange : index < l.items.length) : l.Right (.updateItem index item) := by
  have hNew : l.updateItem index item =
      { l with items := l.items.set index (item.setOrder l.items[index].order) } := by
    unfold updateItem
    rw [List.getElem?_eq_getElem hRange]
  refine ⟨?_, ?_, ?_⟩
  · show (l.updateItem index item).Sorted
    rw [hNew]
    refine sorted_of_orders h ?_
    rw [List.map_set]
    refine QList.set_of_getElem? ?_
    rw [List.getElem?_map, List.getElem?_eq_getElem hRange]
    rfl
  · show (l.updateItem index item).name = _
    rw [hNew]
  · show (l.updateItem index item).contents = _
    rw [hNew]
    exact List.map_set

/-- An exchange of items with different numbers exchanges all but the numbers. -/
theorem exchange_of_ne {index neighbour : Nat} {item other : PrivacyListItem}
    (hItem : l.items[index]? = some item) (hOther : l.items[neighbour]? = some other)
    (hNe : item.order ≠ other.order) :
    (l.exchange index neighbour).items.map PrivacyListItem.order =
        l.items.map PrivacyListItem.order ∧
      (l.exchange index neighbour).contents = QList.swap l.contents index neighbour := by
  have hNew : (l.exchange index neighbour).items = QList.swap ((l.items.set index
      (item.setOrder other.order)).set neighbour (other.setOrder item.order)) index neighbour := by
    unfold exchange
    rw [hItem, hOther]
    simp only [if_neg hNe]
  have hGet : ∀ {β : Type} (f : PrivacyListItem → β),
      (l.items.map f)[index]? = some (f item) ∧ (l.items.map f)[neighbour]? = some (f other) := by
    intro β f
    rw [List.getElem?_map, List.getElem?_map, hItem, hOther]
    exact ⟨rfl, rfl⟩
  refine ⟨?_, ?_⟩
  · -- the numbers are exchanged twice
    obtain ⟨hItemOrder, hOtherOrder⟩ := hGet PrivacyListItem.order
    have hOnce : ((l.items.set index (item.setOrder other.order)).set neighbour
        (other.setOrder item.order)).map PrivacyListItem.order =
          QList.swap (l.items.map PrivacyListItem.order) index neighbour := by
      rw [QList.swap_of_getElem? hItemOrder hOtherOrder, List.map_set, List.map_set]
      rfl
    rw [hNew, QList.map_swap, hOnce, QList.swap_swap]
  · obtain ⟨hItemContent, hOtherContent⟩ := hGet content
    have hSame : ((l.items.set index (item.setOrder other.order)).set neighbour
        (other.setOrder item.order)).map content = l.contents := by
      rw [List.map_set, List.map_set, PrivacyListItem.content_setOrder,
        PrivacyListItem.content_setOrder, QList.set_of_getElem? hItemContent]
      exact QList.set_of_getElem? hOtherContent
    rw [contents, hNew, QList.map_swap, hSame]

/-- With the same numbers nothing is exchanged. -/
theorem exchange_of_eq {index neighbour : Nat} {item other : PrivacyListItem}
    (hItem : l.items[index]? = some item) (hOther : l.items[neighbour]? = some other)
    (hSame : item.order = other.order) :
    l.exchange index neighbour = { l with items := reNumber 100 l.items } := by
  unfold exchange
  rw [hItem, hOther]
  simp only [if_pos hSame]

/-- **An exchange** does what it should exactly where the items are apart. -/
theorem exchange_iff (h : l.Sorted) {index neighbour : Nat} (hIndex : index < l.items.length)
    (hNeighbour : neighbour < l.items.length) :
    (l.exchange index neighbour).Sorted ∧
        (l.exchange index neighbour).contents = QList.swap l.contents index neighbour ↔
      l.Apart index neighbour := by
  have hItem : l.items[index]? = some l.items[index] := List.getElem?_eq_getElem hIndex
  have hOther : l.items[neighbour]? = some l.items[neighbour] :=
    List.getElem?_eq_getElem hNeighbour
  have hApart : l.Apart index neighbour ↔ l.items[index].order ≠ l.items[neighbour].order ∨
      l.items[index].content = l.items[neighbour].content ∧ NumbersLast l.items.length := by
    refine ⟨fun hAll => hAll _ _ hItem hOther, fun hThese item other hi ho => ?_⟩
    obtain rfl := Option.some.inj (hItem.symm.trans hi)
    obtain rfl := Option.some.inj (hOther.symm.trans ho)
    exact hThese
  rw [hApart]
  by_cases hSame : l.items[index].order = l.items[neighbour].order
  · have hItemContent : l.contents[index]? = some l.items[index].content := by
      rw [contents, List.getElem?_map, hItem]
      rfl
    have hOtherContent : l.contents[neighbour]? = some l.items[neighbour].content := by
      rw [contents, List.getElem?_map, hOther]
      rfl
    have hContents : contents { l with items := reNumber 100 l.items } = l.contents :=
      map_content_reNumber 100 l.items
    rw [exchange_of_eq hItem hOther hSame, hContents, Sorted, sorted_reNumber_iff,
      eq_comm (a := l.contents), QList.swap_eq_self_iff hItemContent hOtherContent, and_comm]
    exact (or_iff_right (not_not.2 hSame)).symm
  · obtain ⟨hOrders, hContents⟩ := exchange_of_ne hItem hOther hSame
    exact iff_of_true ⟨sorted_of_orders h hOrders, hContents⟩ (Or.inl hSame)

theorem exchange_name (index neighbour : Nat) : (l.exchange index neighbour).name = l.name := by
  unfold exchange
  split
  · split
    · rfl
    · rfl
  · rfl

/-- One of the two moves, with its neighbour. -/
theorem oneMove_iff (h : l.Sorted) {index neighbour : Nat} {There : Prop} [Decidable There]
    (hIndex : index < l.items.length) (hNeighbour : There → neighbour < l.items.length)
    {moved : Bool × PrivacyList}
    (hMoved : moved = if There then (true, l.exchange index neighbour) else (false, l)) :
    (moved.2.Sorted ∧ l.Moves moved index neighbour There) ↔
      (There → l.Apart index neighbour) := by
  subst hMoved
  by_cases hThere : There
  · rw [if_pos hThere, ← exchange_iff h hIndex (hNeighbour hThere)]
    constructor
    · rintro ⟨hSorted, hMoves⟩ _
      exact ⟨hSorted, hMoves.contents hThere⟩
    · intro hDone
      obtain ⟨hSorted, hContents⟩ := hDone hThere
      exact ⟨hSorted, iff_of_true rfl hThere, fun _ => hContents, fun hNot => absurd hThere hNot⟩
  · rw [if_neg hThere]
    refine iff_of_true ⟨h, ?_, fun hNot => absurd hNot hThere, fun _ => rfl⟩
      fun hNot => absurd hNot hThere
    exact iff_of_false (fun hNot => nomatch hNot) hThere

theorem right_moveItemUp_iff (h : l.Sorted) {index : Nat} (hRange : index < l.items.length) :
    l.Right (.moveItemUp index) ↔ l.Fits (.moveItemUp index) := by
  have hMoved : l.moveItemUp index =
      if 0 < index then (true, l.exchange index (index - 1)) else (false, l) := by
    unfold moveItemUp
    simp only [hRange, true_and]
  have hMoves := oneMove_iff h hRange (fun _ => (Nat.sub_le index 1).trans_lt hRange) hMoved
  have hName : (l.moveItemUp index).2.name = l.name := by
    rw [hMoved]
    split
    · exact exchange_name index (index - 1)
    · rfl
  refine ⟨fun hRight => hMoves.1 ⟨hRight.sorted, hRight.does⟩, fun hFits => ?_⟩
  obtain ⟨hSorted, hDoes⟩ := hMoves.2 hFits
  exact ⟨hSorted, hName, hDoes⟩

theorem right_moveItemDown_iff (h : l.Sorted) {index : Nat} (hRange : index < l.items.length) :
    l.Right (.moveItemDown index) ↔ l.Fits (.moveItemDown index) := by
  have hMoves := oneMove_iff h hRange (fun hThere => hThere)
    (show l.moveItemDown index =
      if index + 1 < l.items.length then (true, l.exchange index (index + 1)) else (false, l)
      from rfl)
  have hName : (l.moveItemDown index).2.name = l.name := by
    unfold moveItemDown
    split
    · exact exchange_name index (index + 1)
    · rfl
  -- below the last item there is nothing to be apart from
  have hApart : l.Fits (.moveItemDown index) ↔
      (index + 1 < l.items.length → l.Apart index (index + 1)) := by
    refine ⟨fun hFits _ => hFits, fun hFits item other hItem hOther => ?_⟩
    exact hFits (List.getElem?_eq_some_iff.1 hOther).1 item other hItem hOther
  rw [hApart]
  refine ⟨fun hRight => hMoves.1 ⟨hRight.sorted, hRight.does⟩, fun hFits => ?_⟩
  obtain ⟨hSorted, hDoes⟩ := hMoves.2 hFits
  exact ⟨hSorted, hName, hDoes⟩

/-- **One edit** does what it should under exactly this condition. -/
theorem right_edit_iff (h : l.Sorted) (e : Edit) (hRange : l.InRange e) :
    l.Right e ↔ l.Fits e := by
  cases e with
  | insertItem index item => exact right_insertItem_iff index item hRange
  | updateItem index item => exact iff_of_true (right_updateItem h item hRange) trivial
  | moveItemUp index => exact right_moveItemUp_iff h hRange
  | moveItemDown index => exact right_moveItemDown_iff h hRange

/-! ## Runs -/

/-- **All edits** of a run do what they should exactly when each finds what it needs. -/
theorem rightEdits_iff {l : PrivacyList} {edits : List Edit} (hSorted : l.Sorted)
    (hRange : Run.StepsMeet edit InRange l edits) :
    Run.StepsMeet edit Right l edits ↔ Run.StepsMeet edit Fits l edits := by
  refine Run.stepsMeet_iff (fun l e h hIn => right_edit_iff h e hIn) ?_ hSorted hRange
  intro l e h hIn hFits
  exact ((right_edit_iff h e hIn).2 hFits).sorted

/-- Two contacts that are denied messages and queries, and everybody else. -/
def someItems : List PrivacyListItem :=
  [⟨.jidType, .deny, true, false, false, false, 1, [97]⟩,
    ⟨.jidType, .deny, false, false, false, true, 1, [98]⟩,
    ⟨.fallthroughType, .allow, true, true, true, true, 7, []⟩]

theorem sorted_someItems : (⟨[112], someItems⟩ : PrivacyList).Sorted := by
  show List.Pairwise _ [_, _, _]
  simp [List.pairwise_cons]

/-- The last one is moved up, and one is put at the end. -/
theorem rightEdits_iff_someItems : Run.StepsMeet edit Right ⟨[112], someItems⟩
    [.moveItemUp 2, .insertItem 3 (PrivacyListItem.blockItem [99])] := by
  have hRange : Run.StepsMeet edit InRange ⟨[112], someItems⟩
      [.moveItemUp 2, .insertItem 3 (PrivacyListItem.blockItem [99])] :=
    ⟨show 2 < 3 by decide, show 3 ≤ 3 by decide, trivial⟩
  refine (rightEdits_iff sorted_someItems hRange).2 ⟨?_, ?_, trivial⟩
  · rintro - item other hItem hOther
    obtain rfl := Option.some.inj hItem
    obtain rfl := Option.some.inj hOther
    exact Or.inl (by decide)
  · show 4 ≤ 429496720
    decide

/-- The second one is moved up, and is the second one still. -/
theorem rightEdits_someItems : (⟨[112], someItems⟩ : PrivacyList).Sorted ∧
    ¬ Run.StepsMeet edit Right ⟨[112], someItems⟩ [.moveItemUp 1] := by
  refine ⟨sorted_someItems, ?_⟩
  rintro ⟨hRight, -⟩
  exact absurd (hRight.does.contents (by decide)) (by decide)

end PrivacyList

end XMPP
