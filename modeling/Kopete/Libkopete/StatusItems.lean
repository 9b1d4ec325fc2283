import Kopete.Libkopete.XmlContactStorage
import Kopete.Lib.Dom

/-!
# libkopete — the tree of statuses

Statuses are kept in groups, which can have groups in them. A tree is written to elements,
one within another, and read from them; it is copied when it is edited; and a table says
which status there is under a uid. The table is made anew when another tree takes the place
of the old one.

Main results:

* `parseStatusItem_storeStatusItem`, `copy_eq` — a tree is read back, and a copy is the same;
* `itemForUid_iff` — what is found under a uid;
* `statusTrees` — both, for every tree and after every sequence of trees.
-/

namespace Kopete.Status

/-- `OnlineStatusManager::Categories`: flags, none of which is the sign. -/
structure Categories where
  bits : Nat
  lt : bits < 2 ^ 31
deriving DecidableEq, Repr

/-- `Status::Status` and `Status::StatusGroup`. -/
inductive StatusItem where
  | status (uid title : QString) (category : Categories) (message : QString)
  | group (uid title : QString) (category : Categories) (children : List StatusItem)

namespace StatusItem

def uid : StatusItem → QString
  | status uid _ _ _ | group uid _ _ _ => uid

def isGroup : StatusItem → Bool
  | status _ _ _ _ => false
  | group _ _ _ _ => true

/-- `StatusGroup::insertChild`. -/
def insertChild (g : StatusItem) (i : Nat) (item : StatusItem) : StatusItem :=
  match g with
  | status uid title category message => status uid title category message
  | group uid title category children => group uid title category (children.insertIdx i item)

/-- `StatusGroup::appendChild`. -/
def appendChild (g : StatusItem) (item : StatusItem) : StatusItem :=
  match g with
  | status uid title category message => status uid title category message
  | group _ _ _ children => g.insertChild children.length item

mutual

/-- `Status::copy` and `StatusGroup::copy`. -/
def copy : StatusItem → StatusItem
  | status uid title category message => status uid title category message
  | group uid title category children => copyChildren (group uid title category []) children

def copyChildren (newGroup : StatusItem) : List StatusItem → StatusItem
  | [] => newGroup
  | item :: items => copyChildren (newGroup.appendChild (copy item)) items

end

end StatusItem

/-! ## Elements -/

open XmlContactStorage Kopete.Status.StatusItem

/-- `QString::toInt`. -/
def toInt (s : QString) : Int :=
  match trimmed s with
  | 45 :: digits =>
    let n := digitsToUInt digits
    if n ≤ 2 ^ 31 then -n else 0
  | _ =>
    let n := toUInt s
    if n < 2 ^ 31 then n else 0

theorem toInt_lt (s : QString) : (toInt s).toNat < 2 ^ 31 := by
  unfold toInt
  split
  · simp only
    split
    · omega
    · decide
  · simp only
    split
    · omega
    · decide

/-- The number is taken for a combination of flags; a negative one is none. -/
def parseCategory (s : QString) : Categories := ⟨(toInt s).toNat, toInt_lt s⟩

/-- What the elements of statuses and of groups have in common. -/
def storeHeader (rootName : String) (uid title : QString) (category : Categories) : DomNode :=
  let element := ((Dom.Node.element rootName [] []).setAttribute "uid" uid).setAttribute "category"
    (number category.bits)
  element.appendChild (.element "title" [] [.text title])

mutual

/-- `StatusManager::storeStatusItem`. -/
def storeStatusItem : StatusItem → DomNode
  | status uid title category message =>
    (storeHeader "status" uid title category).appendChild (.element "message" [] [.text message])
  | group uid title category children =>
    storeChildren (storeHeader "group" uid title category) children

def storeChildren (element : DomNode) : List StatusItem → DomNode
  | [] => element
  | child :: children => storeChildren (element.appendChild (storeStatusItem child)) children

end

/-- The loop over what is in the element of a status: its title and its message. -/
def parseStatusChildren : List DomNode → QString × QString → QString × QString
  | [], texts => texts
  | child :: children, (title, message) =>
    parseStatusChildren children
      (if child.tagName = "title" then (Dom.textOf child, message)
      else if child.tagName = "message" then (title, Dom.textOf child)
      else (title, message))

mutual

/-- `StatusManager::parseStatusItem`. -/
def parseStatusItem : DomNode → Option StatusItem
  | .text _ => none
  | .element tag attributes children =>
    let element : DomNode := .element tag attributes children
    let uid := element.attr "uid" []
    let category := parseCategory (element.attr "category" (latin1 "0"))
    if tag = "group" then
      let (title, items) := parseGroupChildren children ([], [])
      some (.group uid title category items)
    else if tag = "status" then
      let (title, message) := parseStatusChildren children ([], [])
      some (.status uid title category message)
    else none

/-- The loop over what is in the element of a group: its title and its items. -/
def parseGroupChildren : List DomNode → QString × List StatusItem → QString × List StatusItem
  | [], parsed => parsed
  | child :: children, (title, items) =>
    parseGroupChildren children
      (if child.tagName = "title" then (Dom.textOf child, items)
      else if child.tagName = "group" ∨ child.tagName = "status" then
        (title, items ++ (parseStatusItem child).toList)
      else (title, items))

end

/-! ## The tree in use -/

mutual

/-- `StatusManager::updateUidHash`. -/
def updateUidHash (hash : QString → Option StatusItem) :
    StatusItem → QString → Option StatusItem
  | status uid title category message =>
    Function.update hash uid (some (.status uid title category message))
  | group _ _ _ children => updateUidHashAll hash children

def updateUidHashAll (hash : QString → Option StatusItem) :
    List StatusItem → QString → Option StatusItem
  | [] => hash
  | child :: children => updateUidHashAll (updateUidHash hash child) children

end

/-- What the status manager has of the tree: the root group, by its address, and the table. -/
structure StatusRoot where
  root : Nat
  uidHash : QString → Option StatusItem

variable (groups : Nat → StatusItem)

/-- The end of `StatusManager::loadXML`, where this is the group that has been read or made. -/
def loadXML (root : Nat) : StatusRoot := ⟨root, updateUidHash (fun _ => none) (groups root)⟩

/-- `StatusManager::setRootGroup`. -/
def setRootGroup (s : StatusRoot) (rootGroup : Option Nat) : StatusRoot :=
  match rootGroup with
  | none => s
  | some rootGroup =>
    if rootGroup = s.root then s
    else ⟨rootGroup, updateUidHash (fun _ => none) (groups rootGroup)⟩

/-- `StatusManager::itemForUid`. -/
def itemForUid (s : StatusRoot) (uid : QString) : Option StatusItem := s.uidHash uid

mutual

/-- The statuses of a tree. -/
def statuses : StatusItem → List StatusItem
  | status uid title category message => [.status uid title category message]
  | group _ _ _ children => statusesAll children

def statusesAll : List StatusItem → List StatusItem
  | [] => []
  | child :: children => statuses child ++ statusesAll children

end

/-! ## Copies -/

theorem appendChild_group (uid title : QString) (category : Categories)
    (children : List StatusItem) (item : StatusItem) :
    (group uid title category children).appendChild item =
      group uid title category (children ++ [item]) := by
  show group uid title category (children.insertIdx children.length item) = _
  rw [List.insertIdx_length_self]

mutual

/-- **A copy is the same.** -/
theorem copy_eq : ∀ item : StatusItem, item.copy = item
  | status _ _ _ _ => rfl
  | group uid title category children => copyChildren_eq uid title category [] children

theorem copyChildren_eq (uid title : QString) (category : Categories) :
    ∀ before children : List StatusItem,
      copyChildren (group uid title category before) children =
        group uid title category (before ++ children)
  | before, [] => by rw [copyChildren, List.append_nil]
  | before, child :: children => by
    rw [copyChildren, copy_eq child, appendChild_group, copyChildren_eq uid title category,
      List.append_assoc]
    rfl

end

/-! ## Elements that are read back -/

/-- A number is read back, but for one that is too large. -/
theorem toInt_number {n : Nat} (h : n < 2 ^ 32) :
    toInt (number n) = if n < 2 ^ 31 then (n : Int) else 0 := by
  have hDigits : ∀ c ∈ number n, isDigit c = true := fun c hc => isDigit_number hc
  unfold toInt
  rw [trimmed_digits hDigits, toUInt_number h]
  split
  · next digits hMinus =>
    have hFirst := isDigit_bounds (hDigits 45 (by rw [hMinus]; exact List.mem_cons_self))
    exact absurd hFirst.1 (by decide)
  · rfl

theorem parseCategory_number (category : Categories) :
    parseCategory (number category.bits) = category := by
  obtain ⟨bits, hLt⟩ := category
  simp only [parseCategory, toInt_number (Nat.lt_trans hLt (by decide)), if_pos hLt,
    Int.toNat_natCast]

/-- The element with its attributes, title and what else there is in it. -/
def itemElement (rootName : String) (uid title : QString) (category : Categories)
    (rest : List DomNode) : DomNode :=
  .element rootName [("uid", uid), ("category", number category.bits)]
    (.element "title" [] [.text title] :: rest)

theorem storeHeader_eq (rootName : String) (uid title : QString) (category : Categories) :
    storeHeader rootName uid title category = itemElement rootName uid title category [] := by
  simp [storeHeader, itemElement, Dom.Node.setAttribute, Dom.Node.appendChild]

theorem storeChildren_eq (rootName : String) (uid title : QString) (category : Categories)
    (rest : List DomNode) (children : List StatusItem) :
    storeChildren (itemElement rootName uid title category rest) children =
      itemElement rootName uid title category (rest ++ children.map storeStatusItem) := by
  induction children generalizing rest with
  | nil => rw [storeChildren, List.map_nil, List.append_nil]
  | cons child children ih =>
    have hAppend : (itemElement rootName uid title category rest).appendChild
        (storeStatusItem child) =
          itemElement rootName uid title category (rest ++ [storeStatusItem child]) := rfl
    rw [storeChildren, hAppend, ih, List.append_assoc, List.map_cons]
    rfl

theorem storeStatusItem_status (uid title : QString) (category : Categories) (message : QString) :
    storeStatusItem (.status uid title category message) =
      itemElement "status" uid title category [.element "message" [] [.text message]] := by
  rw [storeStatusItem, storeHeader_eq]
  rfl

theorem storeStatusItem_group (uid title : QString) (category : Categories)
    (children : List StatusItem) :
    storeStatusItem (.group uid title category children) =
      itemElement "group" uid title category (children.map storeStatusItem) := by
  rw [storeStatusItem, storeHeader_eq, storeChildren_eq, List.nil_append]

theorem tagName_storeStatusItem (item : StatusItem) :
    (storeStatusItem item).tagName = if item.isGroup then "group" else "status" := by
  cases item with
  | status uid title category message =>
    rw [storeStatusItem_status]
    rfl
  | group uid title category children =>
    rw [storeStatusItem_group]
    rfl

theorem attr_itemElement (rootName : String) (uid title : QString) (category : Categories)
    (rest : List DomNode) :
    (itemElement rootName uid title category rest).attr "uid" [] = uid ∧
      parseCategory ((itemElement rootName uid title category rest).attr "category" (latin1 "0")) =
        category := by
  refine ⟨rfl, ?_⟩
  have hAttr : (itemElement rootName uid title category rest).attr "category" (latin1 "0") =
      number category.bits := by
    simp [itemElement, Dom.Node.attr, Dom.Node.attributes]
  rw [hAttr, parseCategory_number]

theorem textOf_element (tag : String) (s : QString) :
    Dom.textOf (.element tag [] [.text s] : DomNode) = s := by
  simp [Dom.textOf, Dom.textOfAll]

mutual

/-- **A tree is read back.** -/
theorem parseStatusItem_storeStatusItem :
    ∀ item : StatusItem, parseStatusItem (storeStatusItem item) = some item
  | status uid title category message => by
    obtain ⟨hUid, hCategory⟩ := attr_itemElement "status" uid title category
      [.element "message" [] [.text message]]
    unfold itemElement at hUid hCategory
    rw [storeStatusItem_status, itemElement, parseStatusItem]
    simp only [hUid, hCategory]
    rw [if_neg (by decide), if_pos trivial]
    simp [parseStatusChildren, Dom.Node.tagName, textOf_element]
  | group uid title category children => by
    obtain ⟨hUid, hCategory⟩ := attr_itemElement "group" uid title category
      (children.map storeStatusItem)
    unfold itemElement at hUid hCategory
    rw [storeStatusItem_group, itemElement, parseStatusItem]
    simp only [hUid, hCategory]
    rw [if_pos trivial, parseGroupChildren]
    simp only [Dom.Node.tagName, if_true, textOf_element]
    rw [parseGroupChildren_map, List.nil_append]

theorem parseGroupChildren_map (title : QString) : ∀ before children : List StatusItem,
    parseGroupChildren (children.map storeStatusItem) (title, before) =
      (title, before ++ children)
  | before, [] => by rw [List.map_nil, parseGroupChildren, List.append_nil]
  | before, child :: children => by
    have hTag := tagName_storeStatusItem child
    have hTitle : (storeStatusItem child).tagName ≠ "title" := by
      rw [hTag]
      split <;> decide
    have hItem : (storeStatusItem child).tagName = "group" ∨
        (storeStatusItem child).tagName = "status" := by
      rw [hTag]
      split
      · exact .inl rfl
      · exact .inr rfl
    rw [List.map_cons, parseGroupChildren, if_neg hTitle, if_pos hItem,
      parseStatusItem_storeStatusItem child, parseGroupChildren_map title, List.append_assoc]
    rfl

end

/-! ## What is found -/

/-- A status is put into the table. -/
def insertStatus (hash : QString → Option StatusItem) (item : StatusItem) :
    QString → Option StatusItem :=
  Function.update hash item.uid (some item)

mutual

theorem updateUidHash_eq (hash : QString → Option StatusItem) : ∀ item : StatusItem,
    updateUidHash hash item = (statuses item).foldl insertStatus hash
  | status _ _ _ _ => rfl
  | group _ _ _ children => updateUidHashAll_eq hash children

theorem updateUidHashAll_eq (hash : QString → Option StatusItem) : ∀ children : List StatusItem,
    updateUidHashAll hash children = (statusesAll children).foldl insertStatus hash
  | [] => rfl
  | child :: children => by
    rw [updateUidHashAll, updateUidHash_eq hash child,
      updateUidHashAll_eq ((statuses child).foldl insertStatus hash) children, statusesAll,
      List.foldl_append]

end

mutual

/-- No group is among them. -/
theorem isGroup_of_mem_statuses : ∀ tree item : StatusItem, item ∈ statuses tree →
    item.isGroup = false
  | status _ _ _ _, item, hItem => by
    rw [statuses] at hItem
    obtain rfl := List.mem_singleton.1 hItem
    rfl
  | group _ _ _ children, item, hItem => by
    rw [statuses] at hItem
    exact isGroup_of_mem_statusesAll children item hItem

theorem isGroup_of_mem_statusesAll : ∀ (children : List StatusItem) (item : StatusItem),
    item ∈ statusesAll children → item.isGroup = false
  | [], _, hItem => by cases hItem
  | child :: children, item, hItem => by
    rw [statusesAll] at hItem
    rcases List.mem_append.1 hItem with hHere | hRest
    · exact isGroup_of_mem_statuses child item hHere
    · exact isGroup_of_mem_statusesAll children item hRest

end

/-- Where the uids are different, the table says what has been put into it. -/
theorem foldl_insertStatus_iff {items : List StatusItem} (h : (items.map uid).Nodup)
    (hash : QString → Option StatusItem) (u : QString) (item : StatusItem) :
    items.foldl insertStatus hash u = some item ↔
      (item ∈ items ∧ item.uid = u) ∨ (u ∉ items.map uid ∧ hash u = some item) := by
  induction items generalizing hash with
  | nil => simp
  | cons first items ih =>
    obtain ⟨hFirst, hRest⟩ := List.nodup_cons.1 h
    rw [List.foldl_cons, ih hRest, List.mem_cons, List.map_cons, List.mem_cons, not_or]
    by_cases hu : u = first.uid
    · subst hu
      have hHere : insertStatus hash first first.uid = some item ↔ item = first := by
        rw [insertStatus, Function.update_self, Option.some.injEq]
        exact eq_comm
      have hNot : ∀ other ∈ items, other.uid ≠ first.uid := fun other hOther hSame =>
        hFirst (hSame ▸ List.mem_map_of_mem hOther)
      rw [hHere]
      constructor
      · rintro (⟨hItem, hSame⟩ | ⟨-, rfl⟩)
        · exact absurd hSame (hNot item hItem)
        · exact .inl ⟨.inl rfl, rfl⟩
      · rintro (⟨rfl | hItem, hSame⟩ | ⟨⟨hOther, -⟩, -⟩)
        · exact .inr ⟨hFirst, rfl⟩
        · exact absurd hSame (hNot item hItem)
        · exact absurd rfl hOther
    · have hHere : insertStatus hash first u = hash u := Function.update_of_ne hu _ _
      rw [hHere, and_iff_right hu]
      refine or_congr_left ⟨fun hItem => ⟨.inr hItem.1, hItem.2⟩, ?_⟩
      rintro ⟨rfl | hItem, hSame⟩
      · exact absurd hSame.symm hu
      · exact ⟨hItem, hSame⟩

/-- The table is that of the root. -/
def Describes (s : StatusRoot) : Prop := s.uidHash = updateUidHash (fun _ => none) (groups s.root)

theorem describes_setRootGroup {s : StatusRoot} (h : Describes groups s)
    (rootGroup : Option Nat) : Describes groups (setRootGroup groups s rootGroup) := by
  unfold setRootGroup
  split
  · exact h
  · split
    · exact h
    · rfl

theorem root_setRootGroup (s : StatusRoot) (rootGroup : Nat) :
    (setRootGroup groups s (some rootGroup)).root = rootGroup := by
  unfold setRootGroup
  split
  · next hSame => cases hSame
  · next other hSome =>
    cases hSome
    split
    · next hSame => exact hSame.symm
    · rfl

/-- **What is found** are the statuses of the tree. -/
theorem itemForUid_iff {s : StatusRoot} (h : Describes groups s)
    (hUids : ((statuses (groups s.root)).map uid).Nodup) (u : QString) (item : StatusItem) :
    itemForUid s u = some item ↔ item ∈ statuses (groups s.root) ∧ item.uid = u := by
  rw [itemForUid, h, updateUidHash_eq, foldl_insertStatus_iff hUids]
  simp

/-- What the status manager has after it has been loaded, and given these trees. -/
def run (first : Nat) (roots : List (Option Nat)) : StatusRoot :=
  roots.foldl (setRootGroup groups) (loadXML groups first)

theorem describes_run (first : Nat) (roots : List (Option Nat)) :
    Describes groups (run groups first roots) := by
  suffices h : ∀ s, Describes groups s → Describes groups (roots.foldl (setRootGroup groups) s) from
    h _ rfl
  induction roots with
  | nil => exact fun _ hs => hs
  | cons root roots ih => exact fun _ hs => ih _ (describes_setRootGroup groups hs root)

/-- **Trees of statuses**: any of them is read back and copied as it is; and when a tree whose
statuses have different uids takes the place of those before it, these and no others are found,
each under its uid. -/
theorem statusTrees :
    (∀ tree : StatusItem,
      parseStatusItem (storeStatusItem tree) = some tree ∧ tree.copy = tree) ∧
    ∀ (first : Nat) (before : List (Option Nat)) (rootGroup : Nat),
      ((statuses (groups rootGroup)).map uid).Nodup →
      ∀ u item, itemForUid (setRootGroup groups (run groups first before) (some rootGroup)) u =
          some item ↔
        item ∈ statuses (groups rootGroup) ∧ item.isGroup = false ∧ item.uid = u := by
  refine ⟨fun tree => ⟨parseStatusItem_storeStatusItem tree, copy_eq tree⟩,
    fun first before rootGroup hUids u item => ?_⟩
  have hDescribes := describes_setRootGroup groups (describes_run groups first before)
    (some rootGroup)
  have hRoot := root_setRootGroup groups (run groups first before) rootGroup
  rw [← hRoot] at hUids
  rw [itemForUid_iff groups hDescribes hUids, hRoot]
  exact and_congr_right fun hItem =>
    (and_iff_right (isGroup_of_mem_statuses _ item hItem)).symm

/-- Busy, in a group of its own. -/
def lunch : StatusItem :=
  .status (latin1 "3") (latin1 "Lunch") ⟨1 <<< 5, by decide⟩ (latin1 "Back at two")

/-- The statuses that are there first, and those that are set. -/
def office : Nat → StatusItem
  | 0 => .group (latin1 "0") [] ⟨0, by decide⟩ [.status (latin1 "3") [] ⟨2, by decide⟩ []]
  | _ => .group (latin1 "1") [] ⟨0, by decide⟩
      [.status (latin1 "2") [] ⟨2, by decide⟩ [], .group (latin1 "4") [] ⟨0, by decide⟩ [lunch]]

theorem statusTrees_lunch :
    itemForUid (setRootGroup office (run office 0 []) (some 1)) (latin1 "3") = some lunch := by
  refine ((statusTrees office).2 0 [] 1 ?_ (latin1 "3") lunch).2 ⟨?_, rfl, rfl⟩
  · show [latin1 "2", latin1 "3"].Nodup
    decide
  · show lunch ∈ [.status (latin1 "2") [] ⟨2, by decide⟩ [], lunch]
    exact List.mem_cons_of_mem _ List.mem_cons_self

end Kopete.Status
