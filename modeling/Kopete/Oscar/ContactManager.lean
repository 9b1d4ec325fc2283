import Kopete.Oscar.Buffer
import Mathlib

/-!
# Oscar — `ContactManager`

The local copy of the server-side list: the items in the order they came in,
and two sets of the ids in use, one for groups (`gid`) and one for all other
items (`bid`).

`QString::toLower` is a parameter: nothing here depends on what it does. A
lookup that finds nothing returns the invalid item, as in the source. The
signals, the server's limits and the fields of an item that are derived from
its TLVs are left out.
-/

namespace Oscar

def ROSTER_CONTACT : Nat := 0x0000
def ROSTER_GROUP : Nat := 0x0001

/-- `OContact`. -/
structure OContact where
  name : String
  gid : Nat
  bid : Nat
  type : Nat
  tlvList : List TLV
deriving DecidableEq, Repr

namespace OContact

/-- `OContact()`, the item of the failed lookups. -/
def invalid : OContact := ⟨"", 0, 0, 0xFFFF, []⟩

/-- `isValid` and `operator bool`. -/
def isValid (i : OContact) : Bool := i.type ≠ 0xFFFF

/-- `operator==`: the TLVs do not count. -/
def same (i j : OContact) : Bool :=
  i.name == j.name && i.gid == j.gid && i.bid == j.bid && i.type == j.type

/-- The id an item takes up: a group its `gid`, any other item its `bid`. -/
def key (i : OContact) : Bool × Nat :=
  if i.type = ROSTER_GROUP then (true, i.gid) else (false, i.bid)

theorem same_iff {i j : OContact} :
    i.same j ↔ i.name = j.name ∧ i.gid = j.gid ∧ i.bid = j.bid ∧ i.type = j.type := by
  simp [same, and_assoc]

theorem same_refl (i : OContact) : i.same i := same_iff.mpr ⟨rfl, rfl, rfl, rfl⟩

end OContact

/-- `QList::removeAll`. -/
def removeAll (x : OContact) (l : List OContact) : List OContact := l.filter fun i => !i.same x

/-- `QList::contains`. -/
def contains (x : OContact) (l : List OContact) : Bool := l.any fun i => i.same x

theorem mem_removeAll {x i : OContact} {l : List OContact} :
    i ∈ removeAll x l ↔ i ∈ l ∧ ¬ i.same x := by
  simp [removeAll]

theorem contains_iff {x : OContact} {l : List OContact} :
    contains x l ↔ ∃ i ∈ l, i.same x := by
  simp [contains]

/-- The members of `ContactManager`. -/
structure ContactManagerPrivate where
  contactList : List OContact
  itemIdSet : Finset Nat
  groupIdSet : Finset Nat
  complete : Bool
  lastModTime : Nat
  nextContactId : Nat
  nextGroupId : Nat

namespace ContactManager

/-- `ContactManager()`. -/
def init : ContactManagerPrivate := ⟨[], ∅, ∅, false, 0, 0, 0⟩

/-- `clear`. -/
def clear (_d : ContactManagerPrivate) : ContactManagerPrivate := ⟨[], ∅, ∅, false, 0, 0, 0⟩

/-! ## Ids -/

/-- `addID`. -/
def addID (item : OContact) (d : ContactManagerPrivate) : ContactManagerPrivate :=
  if item.type = ROSTER_GROUP then { d with groupIdSet := insert item.gid d.groupIdSet }
  else { d with itemIdSet := insert item.bid d.itemIdSet }

/-- `removeID`. -/
def removeID (item : OContact) (d : ContactManagerPrivate) : ContactManagerPrivate :=
  if item.type = ROSTER_GROUP then
    { d with
      groupIdSet := d.groupIdSet.erase item.gid
      nextGroupId := if d.nextGroupId > item.gid then item.gid else d.nextGroupId }
  else
    { d with
      itemIdSet := d.itemIdSet.erase item.bid
      nextContactId := if d.nextContactId > item.bid then item.bid else d.nextContactId }

/-- `findFreeId`: the first id from `fromId` below `0x8000` that is not in the
set. -/
def findFreeId (idSet : Finset Nat) (fromId : Nat) : Nat :=
  ((List.range' fromId (0x8000 - fromId)).find? fun id => id ∉ idSet).getD 0xFFFF

/-- `nextContactId`. -/
def nextContactId (d : ContactManagerPrivate) : Nat × ContactManagerPrivate :=
  let next := if d.nextContactId = 0 then 1 else d.nextContactId
  let id := findFreeId d.itemIdSet next
  if id = 0xFFFF then (0xFFFF, { d with nextContactId := id })
  else (id, { d with itemIdSet := insert id d.itemIdSet, nextContactId := id + 1 })

/-- `nextGroupId`. -/
def nextGroupId (d : ContactManagerPrivate) : Nat × ContactManagerPrivate :=
  let next := if d.nextGroupId = 0 then 1 else d.nextGroupId
  let id := findFreeId d.groupIdSet next
  if id = 0xFFFF then (0xFFFF, { d with nextGroupId := id })
  else (id, { d with groupIdSet := insert id d.groupIdSet, nextGroupId := id + 1 })

/-! ## Lookups -/

/-- The first item of the list with a property, or the invalid one. -/
def findFirst (p : OContact → Bool) (d : ContactManagerPrivate) : OContact :=
  (d.contactList.find? p).getD .invalid

/-- `findGroup( const QString& )`. -/
def findGroup (toLower : String → String) (group : String) (d : ContactManagerPrivate) :
    OContact :=
  findFirst (fun i => i.type == ROSTER_GROUP && toLower i.name == toLower group) d

/-- `findGroup( int )`. -/
def findGroupOfId (groupId : Nat) (d : ContactManagerPrivate) : OContact :=
  findFirst (fun i => i.type == ROSTER_GROUP && i.gid == groupId) d

/-- `findContact( const QString& )`. -/
def findContact (contact : String) (d : ContactManagerPrivate) : OContact :=
  findFirst (fun i => i.type == ROSTER_CONTACT && i.name == contact) d

/-- `findItem`. -/
def findItem (contact : String) (type : Nat) (d : ContactManagerPrivate) : OContact :=
  findFirst (fun i => i.type == type && i.name == contact) d

/-! ## Changes -/

/-- An item at the end of the list, with its id. -/
def append (item : OContact) (d : ContactManagerPrivate) : ContactManagerPrivate :=
  let d := addID item d
  { d with contactList := d.contactList ++ [item] }

/-- The body `newContact` and `newItem` share. -/
def appendNew (item : OContact) (d : ContactManagerPrivate) : Bool × ContactManagerPrivate :=
  if contains item d.contactList then (false, d) else (true, append item d)

/-- The id of an item and the items equal to it, taken off the list. -/
def drop (item : OContact) (d : ContactManagerPrivate) : ContactManagerPrivate :=
  let d := removeID item d
  { d with contactList := removeAll item d.contactList }

/-- The body of the three updates: `oldItem` is what their lookup found. -/
def replace (oldItem item : OContact) (d : ContactManagerPrivate) :
    Bool × ContactManagerPrivate :=
  appendNew item (if oldItem.isValid then drop oldItem d else d)

/-- The body of the three removals: the id goes first, then the items. -/
def remove (item : OContact) (d : ContactManagerPrivate) : Bool × ContactManagerPrivate :=
  (contains item d.contactList, drop item d)

/-- `newGroup`. -/
def newGroup (toLower : String → String) (group : OContact) (d : ContactManagerPrivate) :
    Bool × ContactManagerPrivate :=
  if (findGroup toLower group.name d).isValid then (false, d)
  else if group.name ≠ "" then (true, append group d) -- avoid the group with gid 0 and bid 0
  else (false, d)

/-- `newContact`. -/
def newContact (contact : OContact) (d : ContactManagerPrivate) : Bool × ContactManagerPrivate :=
  appendNew contact d

/-- `newItem`. -/
def newItem (item : OContact) (d : ContactManagerPrivate) : Bool × ContactManagerPrivate :=
  appendNew item d

/-- `updateGroup`. -/
def updateGroup (toLower : String → String) (group : OContact) (d : ContactManagerPrivate) :
    Bool × ContactManagerPrivate :=
  replace (findGroup toLower group.name d) group d

/-- `updateContact`. -/
def updateContact (contact : OContact) (d : ContactManagerPrivate) :
    Bool × ContactManagerPrivate :=
  replace (findContact contact.name d) contact d

/-- `updateItem`. -/
def updateItem (item : OContact) (d : ContactManagerPrivate) : Bool × ContactManagerPrivate :=
  replace (findItem item.name item.type d) item d

/-- `removeGroup( const OContact& )`. -/
def removeGroup (group : OContact) (d : ContactManagerPrivate) : Bool × ContactManagerPrivate :=
  remove group d

/-- `removeContact( const OContact& )`. -/
def removeContact (contact : OContact) (d : ContactManagerPrivate) :
    Bool × ContactManagerPrivate :=
  remove contact d

/-- `removeItem`. -/
def removeItem (item : OContact) (d : ContactManagerPrivate) : Bool × ContactManagerPrivate :=
  remove item d

/-- `removeGroup( const QString& )`. -/
def removeGroupNamed (toLower : String → String) (group : String) (d : ContactManagerPrivate) :
    Bool × ContactManagerPrivate :=
  let gr := findGroup toLower group d
  if gr.isValid then removeGroup gr d else (false, d)

/-- `removeContact( const QString& )`. -/
def removeContactNamed (contact : String) (d : ContactManagerPrivate) :
    Bool × ContactManagerPrivate :=
  let ct := findContact contact d
  if ct.isValid then removeContact ct d else (false, d)

/-! ## What the building blocks do -/

@[simp] theorem addID_contactList (item : OContact) (d : ContactManagerPrivate) :
    (addID item d).contactList = d.contactList := by
  unfold addID
  split <;> rfl

@[simp] theorem removeID_contactList (item : OContact) (d : ContactManagerPrivate) :
    (removeID item d).contactList = d.contactList := by
  unfold removeID
  split <;> rfl

@[simp] theorem append_contactList (item : OContact) (d : ContactManagerPrivate) :
    (append item d).contactList = d.contactList ++ [item] := by
  simp [append]

@[simp] theorem drop_contactList (item : OContact) (d : ContactManagerPrivate) :
    (drop item d).contactList = removeAll item d.contactList := by
  simp [drop]

@[simp] theorem nextContactId_contactList (d : ContactManagerPrivate) :
    (nextContactId d).2.contactList = d.contactList := by
  simp only [nextContactId]
  split <;> split <;> rfl

@[simp] theorem nextGroupId_contactList (d : ContactManagerPrivate) :
    (nextGroupId d).2.contactList = d.contactList := by
  simp only [nextGroupId]
  split <;> split <;> rfl

/-- A lookup found an item of the list, or nothing. -/
theorem findFirst_cases (p : OContact → Bool) (d : ContactManagerPrivate) :
    (findFirst p d ∈ d.contactList ∧ p (findFirst p d)) ∨
      (findFirst p d = .invalid ∧ ∀ i ∈ d.contactList, ¬ p i) := by
  unfold findFirst
  cases h : d.contactList.find? p with
  | none => exact Or.inr ⟨rfl, by simpa using h⟩
  | some i => exact Or.inl ⟨List.mem_of_find?_eq_some h, List.find?_some h⟩

theorem isValid_of_group {i : OContact} (h : i.type = ROSTER_GROUP) : i.isValid := by
  simp [OContact.isValid, h, ROSTER_GROUP]

theorem isValid_of_contact {i : OContact} (h : i.type = ROSTER_CONTACT) : i.isValid := by
  simp [OContact.isValid, h, ROSTER_CONTACT]

end ContactManager

end Oscar
