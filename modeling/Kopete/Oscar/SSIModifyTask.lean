import Kopete.Oscar.ContactManager

/-!
# Oscar — `SSIModifyTask`

A change of the server-side list: the task looks its items up when it is set
up, sends them to the server and brings the local list up to date when the
server acknowledges. A static task takes the changes the server pushes.

The packets are the items they carry. TLVs are those of a list that was
received whole: the data of a TLV is as long as its length says.
-/

namespace Oscar

/-- `m_opType`. -/
inductive OpType
  | NoType | Add | Remove | Rename | Change
deriving DecidableEq, Repr

/-- `m_opSubject`. -/
inductive OpSubject
  | NoSubject | Group | Contact
deriving DecidableEq, Repr

/-- `Oscar::normalize`. -/
def normalize (toLower : String → String) (contact : String) : String :=
  String.ofList ((toLower contact).toList.filter (· ≠ ' '))

/-- `Oscar::operator==( TLV, TLV )`: the data does not count. -/
def TLV.same (a b : TLV) : Bool := a.type == b.type && a.length == b.length

/-- `Oscar::findTLV`. -/
def findTLV (list : List TLV) (type : Nat) : TLV :=
  (list.find? fun t => t.type == type).getD .empty

/-- `QList<TLV>::removeAll`. -/
def removeTLV (t : TLV) (list : List TLV) : List TLV := list.filter fun u => !u.same t

/-- The bytes `addWord` appends. -/
def wordBytes (w : Nat) : List UInt8 := [UInt8.ofNat (w / 2 ^ 8), UInt8.ofNat w]

/-- The words of a buffer, read with `getWord` until nothing is left. Behind a
single last byte `getWord` reads a zero. -/
def words : List UInt8 → List Nat
  | [] => []
  | [b] => [b.toNat * 2 ^ 8]
  | b :: c :: rest => (b.toNat * 2 ^ 8 + c.toNat) :: words rest

/-- The members of a task that its items are kept in. -/
structure SSIModifyTask where
  opType : OpType
  opSubject : OpSubject
  oldItem : OContact
  newItem : OContact
  groupItem : OContact

namespace SSIModifyTask

open ContactManager

/-- `SSIModifyTask()`. -/
def init : SSIModifyTask := ⟨.NoType, .NoSubject, .invalid, .invalid, .invalid⟩

/-! ## Setting up. `none` is a task that refuses and is deleted. -/

/-- `addContact`. -/
def addContact (toLower : String → String) (contact group : String) (requiresAuth : Bool)
    (t : SSIModifyTask) (d : ContactManagerPrivate) :
    Option SSIModifyTask × ContactManagerPrivate :=
  let newContact := normalize toLower contact
  let groupItem := findGroup toLower group d
  if !groupItem.isValid then (none, d)
  else
    let tlvList := if requiresAuth then [⟨0x0066, 0, []⟩] else []
    let (id, d) := nextContactId d
    (some { t with
      opType := .Add
      opSubject := .Contact
      newItem := ⟨newContact, groupItem.gid, id, ROSTER_CONTACT, tlvList⟩ }, d)

/-- `removeContact`. -/
def removeContact (toLower : String → String) (contact : String) (t : SSIModifyTask)
    (d : ContactManagerPrivate) : Option SSIModifyTask × ContactManagerPrivate :=
  (some { t with
    opType := .Remove
    opSubject := .Contact
    oldItem := findContact (normalize toLower contact) d }, d)

/-- `changeGroup`. -/
def changeGroup (toLower : String → String) (contact newGroup : String) (t : SSIModifyTask)
    (d : ContactManagerPrivate) : Option SSIModifyTask × ContactManagerPrivate :=
  let oldItem := findContact (normalize toLower contact) d
  if !oldItem.isValid then (none, d)
  else
    let oldGroupItem := findGroup toLower newGroup d
    if oldItem.gid = oldGroupItem.gid then (none, d) -- buddy already exists in this group
    else
      let groupItem := findGroup toLower newGroup d
      if !groupItem.isValid then (none, d) -- couldn't find group
      else
        (some { t with
          opType := .Change
          opSubject := .Group
          oldItem := oldItem
          groupItem := groupItem
          newItem := ⟨oldItem.name, groupItem.gid, oldItem.bid, ROSTER_CONTACT, oldItem.tlvList⟩ },
          d)

/-- `addGroup`. -/
def addGroup (groupName : String) (t : SSIModifyTask) (d : ContactManagerPrivate) :
    Option SSIModifyTask × ContactManagerPrivate :=
  let (id, d) := nextGroupId d
  (some { t with
    opType := .Add
    opSubject := .Group
    newItem := ⟨groupName, id, 0, ROSTER_GROUP, []⟩ }, d)

/-- `removeGroup`. -/
def removeGroup (toLower : String → String) (groupName : String) (t : SSIModifyTask)
    (d : ContactManagerPrivate) : Option SSIModifyTask × ContactManagerPrivate :=
  (some { t with
    opType := .Remove
    opSubject := .Group
    oldItem := findGroup toLower groupName d }, d)

/-- `renameGroup`. -/
def renameGroup (toLower : String → String) (oldName newName : String) (t : SSIModifyTask)
    (d : ContactManagerPrivate) : Option SSIModifyTask × ContactManagerPrivate :=
  if oldName = newName then (none, d)
  else
    let oldItem := findGroup toLower oldName d
    (some { t with
      opType := .Rename
      opSubject := .Group
      oldItem := oldItem
      newItem := ⟨newName, oldItem.gid, oldItem.bid, ROSTER_GROUP, oldItem.tlvList⟩ }, d)

/-! ## changeGroupOnServer -/

/-- The items of the three packets of a move: the contact that is removed, the
one that is added, and the two groups. -/
structure Move where
  removed : OContact
  added : OContact
  oldGroup : OContact
  newGroup : OContact

/-- The old group with the moved id taken off its list. -/
def withoutId (bid : Nat) (group : OContact) : OContact :=
  let oldIds := findTLV group.tlvList 0x00C8
  if oldIds.type = 0x00C8 then
    let newTLVData := ((words oldIds.data).filter (· ≠ bid)).flatMap wordBytes
    { group with
      tlvList := removeTLV oldIds group.tlvList ++
        [⟨0x00C8, newTLVData.length % 2 ^ 16, newTLVData⟩] }
  else group

/-- The new group with the moved id added. The TLV that is taken off its list is
`oldIds`, the one of the old group. -/
def withId (bid : Nat) (oldIds : TLV) (group : OContact) : OContact :=
  let oldIds2 := findTLV group.tlvList 0x00C8
  if oldIds2.type = 0x00C8 then
    let tlvBuffer := oldIds2.data ++ wordBytes bid
    { group with
      tlvList := removeTLV oldIds group.tlvList ++
        [⟨0x00C8, tlvBuffer.length % 2 ^ 16, tlvBuffer⟩] }
  else group

/-- `changeGroupOnServer`. -/
def changeGroupOnServer (t : SSIModifyTask) (d : ContactManagerPrivate) : Move :=
  let oldGroupItem := findGroupOfId t.oldItem.gid d
  { removed := { t.oldItem with tlvList := [] }
    added := t.newItem
    oldGroup := withoutId t.oldItem.bid oldGroupItem
    newGroup := withId t.newItem.bid (findTLV oldGroupItem.tlvList 0x00C8) t.groupItem }

/-! ## Acknowledgements -/

/-- `updateContactManager`. -/
def updateContactManager (toLower : String → String) (t : SSIModifyTask)
    (d : ContactManagerPrivate) : ContactManagerPrivate :=
  if t.oldItem.isValid && t.newItem.isValid then
    match t.opSubject with
    | .Contact => (newContact t.newItem (removeContactNamed t.oldItem.name d).2).2
    | .Group =>
      match t.opType with
      | .Rename => (updateGroup toLower t.newItem d).2
      | .Change => (updateContact t.newItem d).2
      | _ => d
    | .NoSubject => (ContactManager.newItem t.newItem (removeItem t.oldItem d).2).2
  else if t.oldItem.isValid then
    match t.opSubject with
    | .Group => (removeGroupNamed toLower t.oldItem.name d).2
    | .Contact => (removeContactNamed t.oldItem.name d).2
    | .NoSubject => (removeItem t.oldItem d).2
  else if t.newItem.isValid then
    match t.opSubject with
    | .Group => (newGroup toLower t.newItem d).2
    | .Contact => (newContact t.newItem d).2
    | .NoSubject => (ContactManager.newItem t.newItem d).2
  else d

/-- The ids `freeIdOnError` gives back: those of the new item, if the task has
taken new ones. -/
def freesId (t : SSIModifyTask) : Bool :=
  if t.oldItem.isValid && t.newItem.isValid then
    match t.opSubject with
    | .Contact | .NoSubject => t.oldItem.bid != t.newItem.bid
    | .Group => t.oldItem.gid != t.newItem.gid
  else t.newItem.isValid && !t.oldItem.isValid

/-- `freeIdOnError`. -/
def freeIdOnError (t : SSIModifyTask) (d : ContactManagerPrivate) : ContactManagerPrivate :=
  if t.freesId then removeID t.newItem d else d

/-! ## Pushed changes, one item of the packet -/

/-- `handleContactAdd`. -/
def handleContactAdd (toLower : String → String) (item : OContact) (d : ContactManagerPrivate) :
    ContactManagerPrivate :=
  if item.type = ROSTER_GROUP then (newGroup toLower item d).2
  else if item.type = ROSTER_CONTACT then (newContact item d).2
  else (ContactManager.newItem item d).2

/-- `handleContactUpdate`. -/
def handleContactUpdate (toLower : String → String) (item : OContact)
    (d : ContactManagerPrivate) : ContactManagerPrivate :=
  if item.type = ROSTER_GROUP then (updateGroup toLower item d).2
  else if item.type = ROSTER_CONTACT then (updateContact item d).2
  else (updateItem item d).2

/-- `handleContactRemove`. -/
def handleContactRemove (item : OContact) (d : ContactManagerPrivate) : ContactManagerPrivate :=
  if item.type = ROSTER_GROUP then (ContactManager.removeGroup item d).2
  else if item.type = ROSTER_CONTACT then (ContactManager.removeContact item d).2
  else (removeItem item d).2

end SSIModifyTask

end Oscar
