import Kopete.Jabber.PrivacyListEdits
import Kopete.Libkopete.XmlContactStorage

/-!
# Jabber — privacy lists as XML

An item is for all kinds of stanzas, or for some of them. The element of an item has a child
for each kind that the item is for, and none where it is for all. So an item that is for no
kind at all is written like one that is for all, and is read as that.

Main results:

* `PrivacyListItem.fromXml_toXml` — what is read of an item that has been written;
* `PrivacyList.readAsWritten_iff` — when a list is read as it has been written.
-/

namespace XMPP

open Kopete (latin1)
open Kopete.XmlContactStorage (number toUInt toUInt_number)

/-- `QDomElement`, or another node. -/
abbrev DomNode := Dom.Node UInt16

/-! ## Items -/

namespace PrivacyListItem

/-- `PrivacyListItem::all`. -/
def all (it : PrivacyListItem) : Bool := it.iq && it.presenceIn && it.presenceOut && it.message

/-- `PrivacyListItem::setAll`. -/
def setAll (it : PrivacyListItem) : PrivacyListItem :=
  { it with iq := true, presenceIn := true, presenceOut := true, message := true }

/-- `PrivacyListItem::toXml`. -/
def toXml (it : PrivacyListItem) : DomNode :=
  let item : DomNode := .element "item" [] []
  let item :=
    match it.type with
    | .jidType => item.setAttribute "type" (latin1 "jid")
    | .groupType => item.setAttribute "type" (latin1 "group")
    | .subscriptionType => item.setAttribute "type" (latin1 "subscription")
    | .fallthroughType => item
  let item := if it.type ≠ .fallthroughType then item.setAttribute "value" it.value else item
  let item :=
    if it.action = .allow then item.setAttribute "action" (latin1 "allow")
    else item.setAttribute "action" (latin1 "deny")
  let item := item.setAttribute "order" (number it.order)
  if !(it.message && it.presenceIn && it.presenceOut && it.iq) then
    let item := if it.message then item.appendChild (.element "message" [] []) else item
    let item := if it.presenceIn then item.appendChild (.element "presence-in" [] []) else item
    let item := if it.presenceOut then item.appendChild (.element "presence-out" [] []) else item
    if it.iq then item.appendChild (.element "iq" [] []) else item
  else item

/-- `!el.firstChildElement(tag).isNull()`. -/
def hasChildElement (el : DomNode) (tag : String) : Bool := el.children.any (·.tagName = tag)

def readType (type : QString) : ItemType :=
  if type = latin1 "jid" then .jidType
  else if type = latin1 "group" then .groupType
  else if type = latin1 "subscription" then .subscriptionType
  else .fallthroughType

/-- The action of an item; one that is not known leaves it as it is. -/
def readAction (action_ : Action) (action : QString) : Action :=
  if action = latin1 "allow" then .allow
  else if action = latin1 "deny" then .deny
  else action_

/-- The item is for the stanzas of a tag. -/
def readStanza (el : DomNode) (tag : String) : Bool :=
  if el.children.isEmpty then true else hasChildElement el tag

/-- `PrivacyListItem::fromXml`: what an item becomes. A value that does not fit the type is only
warned about, and so is an order that is no number. -/
def fromXml (it : PrivacyListItem) (el : DomNode) : PrivacyListItem :=
  if el.tagName ≠ "item" then it
  else
    { type := readType (el.attr "type" [])
      action := readAction it.action (el.attr "action" [])
      message := readStanza el "message"
      presenceIn := readStanza el "presence-in"
      presenceOut := readStanza el "presence-out"
      iq := readStanza el "iq"
      order := toUInt (el.attr "order" [])
      value := el.attr "value" [] }

/-- The order is a number of type `unsigned int`, and there is no value where none is needed. -/
structure WellTyped (it : PrivacyListItem) : Prop where
  order_lt : it.order < 2 ^ 32
  value_eq : it.type = .fallthroughType → it.value = []

/-- The item is for a kind of stanzas. -/
def Applies (it : PrivacyListItem) : Prop :=
  (it.message || it.presenceIn || it.presenceOut || it.iq) = true

instance (it : PrivacyListItem) : Decidable it.Applies := inferInstanceAs (Decidable (_ = true))

/-! ## What is written and read -/

/-- The attribute `type` of an item, and the attribute `value`. -/
def typeAttributes (it : PrivacyListItem) : List (String × QString) :=
  match it.type with
  | .jidType => [("type", latin1 "jid"), ("value", it.value)]
  | .groupType => [("type", latin1 "group"), ("value", it.value)]
  | .subscriptionType => [("type", latin1 "subscription"), ("value", it.value)]
  | .fallthroughType => []

def actionName : Action → QString
  | .allow => latin1 "allow"
  | .deny => latin1 "deny"

/-- The children of an item. -/
def stanzas (it : PrivacyListItem) : List DomNode :=
  if it.all then []
  else
    (if it.message then [.element "message" [] []] else []) ++
      (if it.presenceIn then [.element "presence-in" [] []] else []) ++
      (if it.presenceOut then [.element "presence-out" [] []] else []) ++
      (if it.iq then [.element "iq" [] []] else [])

theorem toXml_eq (it : PrivacyListItem) :
    it.toXml = .element "item"
      (it.typeAttributes ++ [("action", actionName it.action), ("order", number it.order)])
      it.stanzas := by
  obtain ⟨type, action, message, presenceIn, presenceOut, iq, order, value⟩ := it
  cases type <;> cases action <;> cases message <;> cases presenceIn <;> cases presenceOut <;>
    cases iq <;> rfl

/-- An item without stanzas is for all of them. -/
def readBack (it : PrivacyListItem) : PrivacyListItem := if it.Applies then it else it.setAll

theorem attr_toXml (it : PrivacyListItem) :
    readType (it.toXml.attr "type" []) = it.type ∧
      it.toXml.attr "value" [] = (if it.type = .fallthroughType then [] else it.value) ∧
      it.toXml.attr "action" [] = actionName it.action ∧
      it.toXml.attr "order" [] = number it.order := by
  rw [toXml_eq]
  obtain ⟨type, _⟩ := it
  cases type <;> exact ⟨rfl, rfl, rfl, rfl⟩

theorem readAction_actionName (action_ action : Action) :
    readAction action_ (actionName action) = action := by
  cases action <;> rfl

theorem readStanza_toXml (it : PrivacyListItem) :
    readStanza it.toXml "message" = it.readBack.message ∧
      readStanza it.toXml "presence-in" = it.readBack.presenceIn ∧
      readStanza it.toXml "presence-out" = it.readBack.presenceOut ∧
      readStanza it.toXml "iq" = it.readBack.iq := by
  rw [toXml_eq]
  obtain ⟨_, _, message, presenceIn, presenceOut, iq, _, _⟩ := it
  cases message <;> cases presenceIn <;> cases presenceOut <;> cases iq <;>
    exact ⟨rfl, rfl, rfl, rfl⟩

/-- Reading changes nothing but the stanzas. -/
theorem readBack_eq (it : PrivacyListItem) :
    it.readBack = { it with
      message := it.readBack.message, presenceIn := it.readBack.presenceIn
      presenceOut := it.readBack.presenceOut, iq := it.readBack.iq } := by
  unfold readBack
  split
  · rfl
  · rfl

/-- **An item** is read as it is, or as one for all stanzas. -/
theorem fromXml_toXml {it : PrivacyListItem} (h : it.WellTyped) (fresh : PrivacyListItem) :
    fresh.fromXml it.toXml = it.readBack := by
  obtain ⟨hType, hValue, hAction, hOrder⟩ := attr_toXml it
  obtain ⟨hMessage, hPresenceIn, hPresenceOut, hIq⟩ := readStanza_toXml it
  have hTag : it.toXml.tagName = "item" := by
    rw [toXml_eq]
    rfl
  have hSame : (if it.type = .fallthroughType then [] else it.value) = it.value := by
    split
    · next hFall => rw [h.value_eq hFall]
    · rfl
  rw [fromXml, if_neg (not_not.2 hTag), hType, hValue, hAction, hOrder, hMessage, hPresenceIn,
    hPresenceOut, hIq, readAction_actionName, toUInt_number h.order_lt, hSame, readBack_eq it]

theorem applies_readBack (it : PrivacyListItem) : it.readBack.Applies := by
  unfold readBack
  split
  · next hApplies => exact hApplies
  · rfl

theorem readBack_eq_self {it : PrivacyListItem} (h : it.Applies) : it.readBack = it := if_pos h

end PrivacyListItem

/-! ## Lists -/

namespace PrivacyList

open PrivacyListItem (Applies WellTyped readBack)

/-- `PrivacyList::toXml`. -/
def toXml (l : PrivacyList) : DomNode :=
  let list : DomNode := Dom.Node.setAttribute (.element "list" [] []) "name" l.name
  l.items.foldl (fun list it => list.appendChild it.toXml) list

/-- The items of the children that are elements. What the members of the items are before they
are read is not known; it stays for an element that is no item. -/
def readItems (fresh : Nat → PrivacyListItem) : List DomNode → List PrivacyListItem
  | [] => []
  | n :: ns =>
    if n.isElement then (fresh ns.length).fromXml n :: readItems fresh ns else readItems fresh ns

/-- `PrivacyList::PrivacyList` from an element, which is `PrivacyList::fromXml`. -/
def ofXml (std : StdSort) (fresh : Nat → PrivacyListItem) (el : DomNode) : PrivacyList :=
  if el.tagName ≠ "list" then ⟨[], []⟩
  else ⟨el.attr "name" [], std.sort (readItems fresh el.children)⟩

/-- The same list, up to the order of items with the same number. -/
structure SameUpToTies (l l' : PrivacyList) : Prop where
  name : l.name = l'.name
  items : l.items.Perm l'.items
  orders : l.items.map PrivacyListItem.order = l'.items.map PrivacyListItem.order

theorem toXml_eq (l : PrivacyList) :
    l.toXml = .element "list" [("name", l.name)] (l.items.map PrivacyListItem.toXml) := by
  have hFold : ∀ (items : List PrivacyListItem) (children : List DomNode),
      items.foldl (fun (list : DomNode) it => list.appendChild it.toXml)
          (.element "list" [("name", l.name)] children) =
        .element "list" [("name", l.name)] (children ++ items.map PrivacyListItem.toXml) := by
    intro items
    induction items with
    | nil =>
      intro children
      rw [List.map_nil, List.append_nil]
      rfl
    | cons it items ih =>
      intro children
      rw [List.foldl_cons, List.map_cons, List.append_cons]
      exact ih (children ++ [it.toXml])
  exact hFold l.items []

theorem readItems_toXml {items : List PrivacyListItem} (h : ∀ it ∈ items, it.WellTyped)
    (fresh : Nat → PrivacyListItem) :
    readItems fresh (items.map PrivacyListItem.toXml) = items.map readBack := by
  induction items with
  | nil => rfl
  | cons it items ih =>
    have hElement : it.toXml.isElement = true := by
      rw [PrivacyListItem.toXml_eq]
      rfl
    rw [List.map_cons, readItems, if_pos hElement,
      PrivacyListItem.fromXml_toXml (h it List.mem_cons_self), List.map_cons,
      ih fun other hOther => h other (List.mem_cons_of_mem _ hOther)]

/-- **What is read** of a list that has been written. -/
theorem ofXml_toXml (std : StdSort) (fresh : Nat → PrivacyListItem) {l : PrivacyList}
    (h : ∀ it ∈ l.items, it.WellTyped) :
    ofXml std fresh l.toXml = ⟨l.name, std.sort (l.items.map readBack)⟩ := by
  rw [toXml_eq]
  show (⟨l.name, std.sort (readItems fresh (l.items.map PrivacyListItem.toXml))⟩ : PrivacyList) = _
  rw [readItems_toXml h]

/-- Sorting what is sorted leaves the orders as they are. -/
theorem orders_sort (std : StdSort) {items : List PrivacyListItem}
    (hSorted : items.Pairwise fun a b => a.order ≤ b.order) :
    (std.sort items).map PrivacyListItem.order = items.map PrivacyListItem.order := by
  have hOnce : ((std.sort items).map PrivacyListItem.order).Pairwise (· ≤ ·) :=
    List.pairwise_map.2 (std.sorted items)
  have hTwice : (items.map PrivacyListItem.order).Pairwise (· ≤ ·) := List.pairwise_map.2 hSorted
  exact ((std.perm items).map _).eq_of_pairwise' hOnce hTwice

/-- **Exactly the lists** all of whose items are for some stanzas are read as they have been
written. -/
theorem readAsWritten_iff (std : StdSort) (fresh : Nat → PrivacyListItem) (l : PrivacyList)
    (hSorted : l.Sorted) (hTyped : ∀ it ∈ l.items, it.WellTyped) :
    (ofXml std fresh l.toXml).SameUpToTies l ↔ ∀ it ∈ l.items, it.Applies := by
  rw [ofXml_toXml std fresh hTyped]
  constructor
  · intro hSame it hIt
    -- all that is read is for some stanzas
    obtain ⟨old, _, rfl⟩ := List.mem_map.1 ((std.perm _).mem_iff.1 (hSame.items.mem_iff.2 hIt))
    exact PrivacyListItem.applies_readBack old
  · intro hApplies
    have hItems : l.items.map readBack = l.items := by
      refine (List.map_congr_left fun it hIt => ?_).trans (List.map_id _)
      exact PrivacyListItem.readBack_eq_self (hApplies it hIt)
    rw [hItems]
    exact ⟨rfl, std.perm l.items, orders_sort std hSorted⟩

/-- Messages of one contact are denied, and all else is allowed under the same number. -/
def noMessages : PrivacyList :=
  ⟨[112], [⟨.jidType, .deny, true, false, false, false, 100, [97]⟩,
    ⟨.fallthroughType, .allow, true, true, true, true, 100, []⟩]⟩

theorem readAsWritten_iff_noMessages :
    (ofXml insertionSort (fun _ => PrivacyListItem.blockItem []) noMessages.toXml).SameUpToTies
      noMessages := by
  have hSorted : noMessages.Sorted := List.pairwise_pair.2 le_rfl
  have hTyped : ∀ it ∈ noMessages.items, it.WellTyped := by
    intro it hIt
    rcases List.mem_pair.1 hIt with rfl | rfl
    · exact ⟨by decide, fun h => nomatch h⟩
    · exact ⟨by decide, fun _ => rfl⟩
  refine (readAsWritten_iff insertionSort _ noMessages hSorted hTyped).2 fun it hIt => ?_
  rcases List.mem_pair.1 hIt with rfl | rfl
  · rfl
  · rfl

/-- A contact is denied nothing. -/
def noStanza : PrivacyList := ⟨[112], [⟨.jidType, .deny, false, false, false, false, 100, [97]⟩]⟩

/-- Then all of it is denied. -/
theorem readAsWritten_noStanza : noStanza.Sorted ∧ (∀ it ∈ noStanza.items, it.WellTyped) ∧
    ¬ (ofXml insertionSort (fun _ => PrivacyListItem.blockItem []) noStanza.toXml).SameUpToTies
      noStanza := by
  have hTyped : ∀ it ∈ noStanza.items, it.WellTyped := by
    intro it hIt
    rw [List.mem_singleton.1 hIt]
    exact ⟨by decide, fun h => nomatch h⟩
  refine ⟨List.pairwise_singleton _ _, hTyped, fun hSame => ?_⟩
  have hRead : (ofXml insertionSort (fun _ => PrivacyListItem.blockItem []) noStanza.toXml).items =
      [⟨.jidType, .deny, true, true, true, true, 100, [97]⟩] := by
    rw [ofXml_toXml _ _ hTyped]
    rfl
  have hItems := hSame.items
  rw [hRead] at hItems
  exact absurd (List.perm_singleton.1 hItems) (by decide)

end PrivacyList

end XMPP
