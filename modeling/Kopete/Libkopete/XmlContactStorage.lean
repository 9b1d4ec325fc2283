import Kopete.Lib.Html
import Kopete.Libkopete.AddContact
import Kopete.Libkopete.XmlUpdate
import Mathlib

/-!
# libkopete — the contact list as a document

The contact list is kept in a document: an element for each group, and one for each
metacontact that is not temporary. Groups are referred to by their ids; a group that has
none is given the next one when it is first asked for it. The groups for the top level,
for what is temporary and for what is offline are there once, and only the first of them
is looked up by its id.

Main results:

* `toUInt_number` — numbers are read back.
-/

namespace Kopete

/-! ## Elements of the contact list -/

/-- `ContactListElement::IconState`. -/
inductive IconState where
  | none
  | opened
  | closed
  | online
  | away
  | offline
  | unknown
deriving DecidableEq, Repr

def IconState.value : IconState → Nat
  | .none => 0
  | .opened => 1
  | .closed => 2
  | .online => 3
  | .away => 4
  | .offline => 5
  | .unknown => 6

theorem IconState.value_injective : Function.Injective IconState.value := by
  intro a b h
  cases a <;> cases b <;> first | rfl | cases h

instance : LinearOrder IconState := LinearOrder.lift' IconState.value IconState.value_injective

abbrev PluginData := QMap QString QString

/-- `ContactListElement`. -/
structure ListElement where
  pluginData : QMap QString PluginData
  pluginContactData : QMap QString (List PluginData)
  icons : QMap IconState QString
  useCustomIcon : Bool

namespace ListElement

/-- `ContactListElement::ContactListElement`. -/
def new : ListElement := ⟨.empty, .empty, .empty, false⟩

variable (e : ListElement)

/-- `ContactListElement::setPluginData`. -/
def setPluginData (pluginId : QString) (data : PluginData) : ListElement :=
  { e with
    pluginData :=
      if data.isEmpty then e.pluginData.erase pluginId else e.pluginData.insert pluginId data }

/-- `ContactListElement::appendPluginContactData`. -/
def appendPluginContactData (pluginId : QString) (data : PluginData) : ListElement :=
  { e with
    pluginContactData :=
      if data.isEmpty then e.pluginContactData.erase pluginId
      else e.pluginContactData.insert pluginId
        ((e.pluginContactData.find? pluginId).getD [] ++ [data]) }

/-- `ContactListElement::setPluginContactData`. -/
def setPluginContactData (pluginId : QString) (dataList : List PluginData) : ListElement :=
  { e with
    pluginContactData :=
      if dataList.isEmpty then e.pluginContactData.erase pluginId
      else e.pluginContactData.insert pluginId dataList }

/-- `ContactListElement::setIcon` with an icon that is not null. -/
def setIcon (icon : QString) (state : IconState) : ListElement :=
  { e with icons := e.icons.insert state icon }

/-- `ContactListElement::pluginData` of a plugin. -/
def pluginDataOf (pluginId : QString) : PluginData := (e.pluginData.find? pluginId).getD .empty

/-- `ContactListElement::pluginContactData` of a plugin. -/
def pluginContactDataOf (pluginId : QString) : List PluginData :=
  (e.pluginContactData.find? pluginId).getD []

end ListElement

/-- `Group`, without its type: the group itself says what that is. -/
structure GroupData where
  displayName : QString
  expanded : Bool
  /-- `uint`. -/
  groupId : Nat
  element : ListElement

/-- A contact: its ids, and what its protocol's `serialize` has to say of it. -/
structure ContactInfo where
  pluginId : QString
  accountId : QString
  contactId : QString
  serialized : PluginData

/-- The ids of a contact that a metacontact takes its name or its photo from. -/
structure SourceIds where
  pluginId : QString
  accountId : QString
  contactId : QString
deriving DecidableEq, Repr

def SourceIds.none : SourceIds := ⟨[], [], []⟩

def ContactInfo.sourceIds (c : ContactInfo) : SourceIds := ⟨c.pluginId, c.accountId, c.contactId⟩

/-- `QUuid` and `QUrl`, which are Qt's: their texts. -/
structure QtTexts where
  uuidToString : BitVec 128 → QString
  uuidOfString : QString → BitVec 128
  toLocalFile : QString → QString
  fromLocalFile : QString → QString

/-- `MetaContact` with what is stored of it. -/
structure StoredMetaContact extends MetaContact where
  /-- `QUuid`. -/
  metaContactId : BitVec 128
  /-- The path of `d->customPicture`. -/
  customPicture : QString
  photoSyncedWithKABC : Bool
  photoSource : PropertySource
  photoSourceContact : Option Nat
  /-- The contact to take the name from when it comes: `d->nameSourcePID` and so on. -/
  nameSourceIds : SourceIds
  /-- `d->photoSourcePID` and so on. -/
  photoSourceIds : SourceIds
  addressBook : QMap QString PluginData
  element : ListElement

namespace StoredMetaContact

/-- `MetaContact::MetaContact`, with the id that `createUuid` makes. -/
def new (uuid : BitVec 128) : StoredMetaContact where
  toMetaContact := MetaContact.new
  metaContactId := uuid
  customPicture := []
  photoSyncedWithKABC := false
  photoSource := .custom
  photoSourceContact := none
  nameSourceIds := .none
  photoSourceIds := .none
  addressBook := .empty
  element := .new

variable (mc : StoredMetaContact) (contact : Nat → ContactInfo) (qt : QtTexts)

/-- `MetaContact::customPhoto`, by its text. -/
def customPhoto : QString := if mc.customPicture = [] then [] else qt.fromLocalFile mc.customPicture

/-- `MetaContact::setPhoto` with the text of a URL. -/
def setPhoto (url : QString) : StoredMetaContact :=
  { mc with customPicture := qt.toLocalFile url }

/-- `MetaContact::setDisplayNameSource`. -/
def setDisplayNameSource (source : PropertySource) : StoredMetaContact :=
  { mc with toMetaContact := mc.toMetaContact.setDisplayNameSource source }

/-- `MetaContact::setDisplayName` while loading. -/
def setDisplayName (name : QString) : StoredMetaContact := { mc with displayName := name }

/-- `MetaContact::kabcId`. -/
def kabcIdText : QString :=
  if mc.kabcId = [] then
    match mc.contacts with
    | [] => []
    | c :: _ =>
      (contact c).pluginId ++ latin1 ":" ++ (contact c).accountId ++ latin1 ":" ++
        (contact c).contactId
  else mc.kabcId

/-- `MetaContact::addressBookField`. -/
def addressBookField (app key : QString) : QString :=
  (((mc.addressBook.find? app).getD .empty).find? key).getD []

/-- `MetaContact::setAddressBookField`. -/
def setAddressBookField (app key value : QString) : StoredMetaContact :=
  { mc with
    addressBook :=
      mc.addressBook.insert app (((mc.addressBook.find? app).getD .empty).insert key value) }

/-- `MetaContact::addToGroup` with a pointer. -/
def addToGroup : Option Group → StoredMetaContact
  | none => mc
  | some target => { mc with toMetaContact := mc.toMetaContact.addToGroup target }

/-- `Protocol::serialize` of the protocol with that id. -/
def serializeProtocol (pluginId : QString) : StoredMetaContact :=
  { mc with
    element := mc.element.setPluginContactData pluginId
      ((mc.contacts.filter fun c => (contact c).pluginId = pluginId).map fun c =>
        (contact c).serialized) }

/-- `MetaContact::serialize`: the protocols of the contacts, each once. -/
def serialize : StoredMetaContact :=
  let cleared := { mc with element := { mc.element with pluginContactData := .empty } }
  ((mc.contacts.map fun c => (contact c).pluginId).dedup).foldl
    (fun mc pluginId => mc.serializeProtocol contact pluginId) cleared

end StoredMetaContact

namespace XmlContactStorage

/-! ## Numbers -/

/-- `QString::number`. -/
def number (n : Nat) : QString := (Nat.toDigits 10 n).map fun c => UInt16.ofNat c.toNat

def isDigit (c : UInt16) : Bool := 48 ≤ c ∧ c ≤ 57

/-- `QString::trimmed`. -/
def trimmed (s : QString) : QString :=
  ((s.dropWhile Html.isSpace).reverse.dropWhile Html.isSpace).reverse

/-- The number that some digits say: 0 for what is no number, or too large. -/
def digitsToUInt (digits : QString) : Nat :=
  let n : Nat := Nat.ofDigitChars 10 (digits.map fun c => Char.ofNat c.toNat) 0
  if digits ≠ [] ∧ digits.all isDigit = true ∧ n < 2 ^ 32 then n else 0

/-- `QString::toUInt`. -/
def toUInt (s : QString) : Nat :=
  digitsToUInt
    (match trimmed s with
    | 43 :: digits => digits
    | digits => digits)

/-- A digit is one unit. -/
theorem digit_unit {c : Char} (h : c.isDigit = true) :
    isDigit (UInt16.ofNat c.toNat) = true ∧ Char.ofNat (UInt16.ofNat c.toNat).toNat = c := by
  obtain ⟨hLow, hHigh⟩ : 48 ≤ c.toNat ∧ c.toNat ≤ 57 := by
    simpa [Char.isDigit, UInt32.le_iff_toNat_le] using h
  have hUnit : (UInt16.ofNat c.toNat).toNat = c.toNat := by
    rw [UInt16.toNat_ofNat', Nat.mod_eq_of_lt (by omega)]
  rw [hUnit, Char.ofNat_toNat]
  refine ⟨decide_eq_true ⟨?_, ?_⟩, rfl⟩ <;>
    · rw [UInt16.le_iff_toNat_le, hUnit]
      simpa

theorem isDigit_number {n : Nat} {c : UInt16} (h : c ∈ number n) : isDigit c = true := by
  obtain ⟨d, hd, rfl⟩ := List.mem_map.mp h
  exact (digit_unit (Nat.isDigit_of_mem_toDigits (by decide) (by decide) hd)).1

theorem number_ne_nil (n : Nat) : number n ≠ [] := by
  unfold number
  rw [Ne, List.map_eq_nil_iff]
  exact Nat.toDigits_ne_nil

theorem isDigit_bounds {c : UInt16} (h : isDigit c = true) : 48 ≤ c.toNat ∧ c.toNat ≤ 57 := by
  simpa [isDigit, UInt16.le_iff_toNat_le] using h

theorem not_isSpace_of_isDigit {c : UInt16} (h : isDigit c = true) : Html.isSpace c = false := by
  refine Html.isSpace_of_isName ?_
  have hDigit : 48 ≤ c ∧ c ≤ 57 := by simpa [isDigit] using h
  simp [Html.isName, hDigit]

theorem trimmed_digits {s : QString} (h : ∀ c ∈ s, isDigit c = true) : trimmed s = s := by
  have hDrop : ∀ t : QString, (∀ c ∈ t, isDigit c = true) → t.dropWhile Html.isSpace = t := by
    intro t ht
    cases t with
    | nil => rfl
    | cons c t =>
      rw [List.dropWhile_cons, not_isSpace_of_isDigit (ht c List.mem_cons_self)]
      rfl
  unfold trimmed
  rw [hDrop s h, hDrop s.reverse fun c hc => h c (List.mem_reverse.1 hc), List.reverse_reverse]

/-- **Numbers** are read back. -/
theorem toUInt_number {n : Nat} (h : n < 2 ^ 32) : toUInt (number n) = n := by
  have hDigits : ∀ c ∈ number n, isDigit c = true := fun c hc => isDigit_number hc
  have hSame : (number n).map (fun c => Char.ofNat c.toNat) = Nat.toDigits 10 n := by
    rw [number, List.map_map]
    refine (List.map_congr_left fun c hc => ?_).trans (List.map_id _)
    exact (digit_unit (Nat.isDigit_of_mem_toDigits (by decide) (by decide) hc)).2
  have hValue : Nat.ofDigitChars 10 ((number n).map fun c => Char.ofNat c.toNat) 0 = n := by
    rw [hSame, Nat.ofDigitChars_ten_toDigits]
  have hSign : (match trimmed (number n) with
      | 43 :: digits => digits
      | digits => digits) = number n := by
    rw [trimmed_digits hDigits]
    split
    · next digits hPlus =>
      -- a plus is no digit
      have hFirst := isDigit_bounds (hDigits 43 (by rw [hPlus]; exact List.mem_cons_self))
      exact absurd hFirst.1 (by decide)
    · rfl
  unfold toUInt digitsToUInt
  simp only [hSign]
  rw [if_pos ⟨number_ne_nil n, List.all_eq_true.2 hDigits, by rw [hValue]; exact h⟩, hValue]

end XmlContactStorage

/-! ## Groups and the storage -/

/-- `XmlContactStorage` with what it has read, and the groups there are. -/
structure XmlStorage where
  data : Group → GroupData
  /-- `Group::Private::uniqueGroupId`, a `uint`. -/
  uniqueGroupId : Nat
  /-- The next group that is made. -/
  nextGroup : Nat
  groupList : List Group
  metaContactList : List StoredMetaContact

/-- `Group::Group` with a name. -/
def GroupData.named (name : QString) : GroupData := ⟨name, true, 0, .new⟩

namespace XmlStorage

/-- Before anything is loaded: the three groups have their names, and nobody an id. -/
def new : XmlStorage where
  data
    | .topLevel => .named (latin1 "Top Level")
    | .temporary => .named (latin1 "Not in your contact list")
    | .offline => .named (latin1 "Offline Users")
    | .normal _ => .named []
  uniqueGroupId := 0
  nextGroup := 0
  groupList := []
  metaContactList := []

variable (s : XmlStorage)

/-- A call of a setter of a group. -/
def setGroup (g : Group) (f : GroupData → GroupData) : XmlStorage :=
  { s with data := Function.update s.data g (f (s.data g)) }

/-- `Group::groupId`, which makes an id when there is none. -/
def groupId (g : Group) : Nat × XmlStorage :=
  if (s.data g).groupId = 0 then
    let id := (s.uniqueGroupId + 1) % 2 ^ 32
    (id, { s with uniqueGroupId := id }.setGroup g fun d => { d with groupId := id })
  else ((s.data g).groupId, s)

/-- `Group::setGroupId`. -/
def setGroupId (g : Group) (id : Nat) : XmlStorage :=
  s.setGroup g fun d => { d with groupId := id }

/-- `new Group`. -/
def newGroup (name : QString) : Group × XmlStorage :=
  let g := Group.normal s.nextGroup
  (g, { s with nextGroup := s.nextGroup + 1 }.setGroup g fun _ => .named name)

/-- `delete` of a group. -/
def deleteGroup (g : Group) : XmlStorage := s.setGroup g fun _ => .named []

/-- `ContactListStorage::addGroup`. -/
def addGroup (g : Group) : XmlStorage := { s with groupList := s.groupList ++ [g] }

/-- `ContactListStorage::addMetaContact`. -/
def addMetaContact (mc : StoredMetaContact) : XmlStorage :=
  { s with metaContactList := s.metaContactList ++ [mc] }

/-- The loop of `ContactListStorage::group`. -/
def groupAmong (id : Nat) : List Group → XmlStorage → Option Group × XmlStorage
  | [], s => (none, s)
  | g :: gs, s =>
    let (groupId, s) := s.groupId g
    if groupId = id then (some g, s) else groupAmong id gs s

/-- `ContactListStorage::group`. -/
def group (id : Nat) : Option Group × XmlStorage := groupAmong id s.groupList s

end XmlStorage

/-- The type of the group is `Group::Normal`. -/
def Group.isNormal : Group → Bool
  | .normal _ => true
  | _ => false

/-- `ContactListStorage::findGroup` of a normal group. -/
def XmlStorage.findGroup (s : XmlStorage) (displayName : QString) : Group × XmlStorage :=
  match s.groupList.find? fun g => g.isNormal ∧ (s.data g).displayName = displayName with
  | some g => (g, s)
  | none =>
    let (g, s) := s.newGroup displayName
    (g, s.addGroup g)

namespace XmlContactStorage

/-! ## Reading -/

/-- `XmlContactStorage::stringToSource`. -/
def stringToSource (name : QString) : PropertySource :=
  if name = latin1 "custom" then .custom
  else if name = latin1 "addressbook" then .kabc
  else if name = latin1 "contact" then .contact
  else .custom

/-- The state of an icon. -/
def stringToState (state : QString) : IconState :=
  if state = latin1 "open" then .opened
  else if state = latin1 "closed" then .closed
  else if state = latin1 "online" then .online
  else if state = latin1 "offline" then .offline
  else if state = latin1 "away" then .away
  else if state = latin1 "unknown" then .unknown
  else .none

/-- `XmlContactStorage::parseContactListElement`. -/
def parseContactListElement (e : ListElement) (element : DomNode) : ListElement :=
  if element.tagName = "plugin-data" then
    e.setPluginData (element.attr "plugin-id" []) (.ofList (fieldsOf element))
  else if element.tagName = "plugin-contact-data" then
    e.appendPluginContactData (element.attr "plugin-id" []) (.ofList (fieldsOf element))
  else if element.tagName = "custom-icons" then
    (element.children.filter (·.tagName = "icon")).foldl
      (fun e icon => e.setIcon (Dom.textOf icon) (stringToState (icon.attr "state" [])))
      { e with useCustomIcon := element.attr "use" (latin1 "1") = latin1 "1" }
  else e

/-- The id that an element has for a group; the counter keeps up with it. -/
def readGroupId (g : Group) (element : DomNode) (s : XmlStorage) : XmlStorage :=
  if element.attr "groupId" [] = [] then s
  else
    let (id, s) := (s.setGroupId g (toUInt (element.attr "groupId" []))).groupId g
    if s.uniqueGroupId < id then { s with uniqueGroupId := id } else s

/-- A child of the element of a group. -/
def parseGroupChild (g : Group) (s : XmlStorage) (groupElement : DomNode) : XmlStorage :=
  if groupElement.tagName = "display-name" then
    if g.isNormal then s.setGroup g fun d => { d with displayName := Dom.textOf groupElement }
    else s
  else s.setGroup g fun d => { d with element := parseContactListElement d.element groupElement }

/-- The name of a group that would have none. -/
def sanityName : Group → Option QString
  | .temporary => some (latin1 "Temporary")
  | .topLevel => some (latin1 "Top-Level")
  | .offline => some (latin1 "Offline")
  | .normal _ => none

/-- What `parseGroup` does once it is clear whose element this is. -/
def parseGroupContents (g : Group) (element : DomNode) (s : XmlStorage) : Bool × XmlStorage :=
  let expanded : Bool := element.attr "view" (latin1 "expanded") ≠ latin1 "collapsed"
  let s := s.setGroup g fun d => { d with expanded := expanded }
  let s := element.children.foldl (parseGroupChild g) s
  if (s.data g).displayName = [] then
    match sanityName g with
    | some name => (g.isNormal, s.setGroup g fun d => { d with displayName := name })
    | none => (false, s)
  else (g.isNormal, s)

/-- The group there is once that an element is about. -/
def specialGroup (element : DomNode) : Option Group :=
  let type := element.attr "type" (latin1 "standard")
  if type = latin1 "temporary" then some .temporary
  else if type = latin1 "top-level" then some .topLevel
  else if type = latin1 "offline" then some .offline
  else none

/-- `XmlContactStorage::parseGroup` of a new group. -/
def parseGroup (g : Group) (element : DomNode) (s : XmlStorage) : Bool × XmlStorage :=
  let s := readGroupId g element s
  match specialGroup element with
  | some special => (false, (parseGroupContents special element (readGroupId special element s)).2)
  | none => parseGroupContents g element s

/-- What `parseMetaContact` has read so far. -/
structure Parsing where
  metaContact : StoredMetaContact
  storage : XmlStorage
  oldNameTracking : Bool
  oldPhotoTracking : Bool
  nameSource : SourceIds
  photoSource : SourceIds

/-- The ids of `nameSourceContactId` and so on. -/
def nameSourceIds (element : DomNode) : SourceIds where
  pluginId := element.attr "nameSourcePluginId" []
  accountId := element.attr "nameSourceAccountId" []
  contactId := element.attr "nameSourceContactId" []

/-- The ids of `photoSourceContactId` and so on. -/
def photoSourceIds (element : DomNode) : SourceIds where
  pluginId := element.attr "photoSourcePluginId" []
  accountId := element.attr "photoSourceAccountId" []
  contactId := element.attr "photoSourceContactId" []

/-- `display-name`. -/
def parseDisplayName (p : Parsing) (contactElement : DomNode) : Parsing :=
  let name := (Dom.textOf contactElement).filter (· ≠ 10)
  let p := { p with metaContact := p.metaContact.setDisplayName name }
  if contactElement.hasAttribute "nameSourceContactId" &&
      contactElement.hasAttribute "nameSourcePluginId" &&
      contactElement.hasAttribute "nameSourceAccountId" then
    { p with oldNameTracking := true, nameSource := nameSourceIds contactElement }
  else p

/-- `photo`. -/
def parsePhoto (qt : QtTexts) (p : Parsing) (contactElement : DomNode) : Parsing :=
  let sync := contactElement.attr "syncWithKABC" []
  let mc := p.metaContact.setPhoto qt (Dom.textOf contactElement)
  let p := { p with
    metaContact :=
      { mc with photoSyncedWithKABC := sync = latin1 "1" ∨ sync = latin1 "true" } }
  if contactElement.hasAttribute "photoSourceContactId" &&
      contactElement.hasAttribute "photoSourcePluginId" &&
      contactElement.hasAttribute "photoSourceAccountId" then
    { p with oldPhotoTracking := true, photoSource := photoSourceIds contactElement }
  else p

/-- The ids in the last `contact-source` of a property, if there is one. -/
def contactSource (propertyElement : DomNode) (old : SourceIds) : SourceIds :=
  (propertyElement.children.filter (·.tagName = "contact-source")).foldl
    (fun _ param => nameSourceIds param) old

/-- A child of `property-sources`. -/
def parseProperty (p : Parsing) (propertyElement : DomNode) : Parsing :=
  let source := stringToSource (propertyElement.attr "source" [])
  if propertyElement.tagName = "name" then
    { p with
      metaContact := p.metaContact.setDisplayNameSource source
      nameSource := contactSource propertyElement p.nameSource }
  else if propertyElement.tagName = "photo" then
    { p with
      metaContact := { p.metaContact with photoSource := source }
      photoSource := contactSource propertyElement p.photoSource }
  else p

/-- A child of `groups`. -/
def parseGroupRef (p : Parsing) (groupElement : DomNode) : Parsing :=
  if groupElement.tagName = "group" then
    let id := groupElement.attr "id" []
    if id ≠ [] then
      let (g, s) := p.storage.group (toUInt id)
      { p with metaContact := p.metaContact.addToGroup g, storage := s }
    else
      let (g, s) := p.storage.findGroup (Dom.textOf groupElement)
      { p with metaContact := p.metaContact.addToGroup (some g), storage := s }
  else if groupElement.tagName = "top-level" then
    { p with metaContact := p.metaContact.addToGroup (some .topLevel) }
  else p

/-- A child of a metacontact. -/
def parseMetaContactChild (qt : QtTexts) (p : Parsing) (contactElement : DomNode) : Parsing :=
  if contactElement.tagName = "display-name" then parseDisplayName p contactElement
  else if contactElement.tagName = "photo" then parsePhoto qt p contactElement
  else if contactElement.tagName = "property-sources" then
    contactElement.children.foldl parseProperty p
  else if contactElement.tagName = "groups" then contactElement.children.foldl parseGroupRef p
  else if contactElement.tagName = "address-book-field" then
    { p with
      metaContact := p.metaContact.setAddressBookField (contactElement.attr "app" [])
        (contactElement.attr "key" []) (Dom.textOf contactElement) }
  else
    { p with
      metaContact := { p.metaContact with
        element := parseContactListElement p.metaContact.element contactElement } }

/-- The sources of a contact list that has them where they were once. The address book is
empty: no name and no photo come from there. -/
def convertTracking (p : Parsing) : StoredMetaContact :=
  let mc := p.metaContact
  let mc :=
    if p.oldNameTracking then
      if p.nameSource.contactId ≠ [] then mc.setDisplayNameSource .contact
      else if mc.kabcId ≠ [] ∧ mc.displayName = [] then mc.setDisplayNameSource .kabc
      else mc.setDisplayNameSource .custom
    else mc
  if p.oldPhotoTracking then
    if p.photoSource.contactId ≠ [] then { mc with photoSource := .contact }
    else { mc with photoSource := .custom }
  else mc

/-- The nodes up to the first that is no element: those that a loop with `toElement` sees. -/
def elementsOf (ns : List DomNode) : List DomNode := ns.takeWhile Dom.Node.isElement

/-- `XmlContactStorage::parseMetaContact` of a new metacontact. -/
def parseMetaContact (qt : QtTexts) (mc : StoredMetaContact) (element : DomNode)
    (s : XmlStorage) : Option StoredMetaContact × XmlStorage :=
  let contactId := element.attr "contactId" []
  if element.children = [] ∨ contactId = [] then (none, s)
  else
    let kabcId := element.attr "kabcId" []
    let mc := { mc with metaContactId := qt.uuidOfString contactId, loading := true }
    let mc := if kabcId ≠ [] then { mc with kabcId := kabcId } else mc
    let p := (elementsOf element.children).foldl (parseMetaContactChild qt)
      ⟨mc, s, false, false, .none, .none⟩
    (some { convertTracking p with
      photoSourceIds := p.photoSource
      nameSourceIds := p.nameSource
      loading := false }, p.storage)

/-- A child of the root, while groups are loaded. -/
def loadGroup (s : XmlStorage) (element : DomNode) : XmlStorage :=
  if element.tagName = "kopete-group" then
    let (g, s) := s.newGroup []
    let (parsed, s) := parseGroup g element s
    if parsed then s.addGroup g else s.deleteGroup g
  else s

/-- A child of the root, while metacontacts are loaded; `createUuid` has made an id for each
of them, which does not last. -/
def loadMetaContact (qt : QtTexts) (s : XmlStorage) (element : DomNode) : XmlStorage :=
  if element.tagName = "meta-contact" then
    match parseMetaContact qt (.new 0) element s with
    | (some mc, s) => s.addMetaContact mc
    | (none, s) => s
  else s

/-- The ids of some groups, until one comes again: whether it did, and which ids there are. -/
def repeatedId : List Group → List Nat → XmlStorage → Bool × XmlStorage
  | [], _, s => (false, s)
  | g :: gs, seen, s =>
    let (id, s) := s.groupId g
    if id ∈ seen then (true, s) else repeatedId gs (id :: seen) s

/-- The groups of the list get the numbers that follow. -/
def renumber : List Group → Nat → XmlStorage → Nat × XmlStorage
  | [], n, s => (n, s)
  | g :: gs, n, s => renumber gs (n + 1) (s.setGroupId g (n + 1))

/-- `XmlContactStorage::checkGroupIds`. -/
def checkGroupIds (s : XmlStorage) : XmlStorage :=
  let (repeated, s) := repeatedId s.groupList [] s
  let s := (s.groupId .topLevel).2
  if repeated then
    let s := (s.setGroupId .topLevel 1).setGroupId .temporary 2
    let (n, s) := renumber s.groupList 2 s
    { s with uniqueGroupId := n }
  else s

/-- `XmlContactStorage::load` of a list of the version it knows. -/
def load (qt : QtTexts) (list : DomNode) (s : XmlStorage) : XmlStorage :=
  let elements := elementsOf list.children
  let s := elements.foldl loadGroup s
  let s := s.addGroup .topLevel
  let s := elements.foldl (loadMetaContact qt) s
  checkGroupIds s

/-! ## Writing -/

/-- `XmlContactStorage::sourceToString`. -/
def sourceToString : PropertySource → QString
  | .custom => latin1 "custom"
  | .kabc => latin1 "addressbook"
  | .contact => latin1 "contact"

def stateToString : IconState → QString
  | .opened => latin1 "open"
  | .closed => latin1 "closed"
  | .online => latin1 "online"
  | .away => latin1 "away"
  | .offline => latin1 "offline"
  | .unknown => latin1 "unknown"
  | .none => latin1 "none"

/-- `type` of a group. -/
def typeToString : Group → QString
  | .temporary => latin1 "temporary"
  | .topLevel => latin1 "top-level"
  | .offline => latin1 "offline"
  | .normal _ => latin1 "standard"

/-- An element with the fields of plugin data. -/
def dataElement (tag : String) (pluginId : QString) (data : PluginData) : DomNode :=
  .element tag [("plugin-id", pluginId)]
    (data.entries.map fun e => .element "plugin-data-field" [("key", e.1)] [.text e.2])

/-- `XmlContactStorage::storeContactListElement`. -/
def storeContactListElement (e : ListElement) : List DomNode :=
  e.pluginData.entries.map (fun plugin => dataElement "plugin-data" plugin.1 plugin.2) ++
    e.pluginContactData.entries.flatMap (fun plugin =>
      plugin.2.map (dataElement "plugin-contact-data" plugin.1)) ++
    if e.icons.isEmpty then []
    else
      [.element "custom-icons" [("use", latin1 (if e.useCustomIcon then "1" else "0"))]
        (e.icons.entries.map fun icon =>
          .element "icon" [("state", stateToString icon.1)] [.text icon.2])]

/-- `XmlContactStorage::storeGroup`. -/
def storeGroup (g : Group) (s : XmlStorage) : DomNode × XmlStorage :=
  let (id, s) := s.groupId g
  let d := s.data g
  (.element "kopete-group"
    [("groupId", number id), ("type", typeToString g),
      ("view", latin1 (if d.expanded then "expanded" else "collapsed"))]
    (.element "display-name" [] [.text d.displayName] :: storeContactListElement d.element), s)

/-- The element of a contact that a name or a photo comes from. -/
def contactSourceElement (contact : Nat → ContactInfo) : Option Nat → List DomNode
  | none => []
  | some c =>
    [.element "contact-source"
      [("nameSourceContactId", (contact c).contactId),
        ("nameSourcePluginId", (contact c).pluginId),
        ("nameSourceAccountId", (contact c).accountId)] []]

/-- The elements of the groups of a metacontact. -/
def storeGroupRefs : List Group → XmlStorage → List DomNode × XmlStorage
  | [], s => ([], s)
  | g :: gs, s =>
    let (id, s) := s.groupId g
    let (refs, s) := storeGroupRefs gs s
    (.element "group" [("id", number id)] [] :: refs, s)

/-- `XmlContactStorage::storeMetaContact`: the element, and the metacontact after
`serialize`. -/
def storeMetaContact (qt : QtTexts) (contact : Nat → ContactInfo) (mc : StoredMetaContact)
    (s : XmlStorage) : DomNode × StoredMetaContact × XmlStorage :=
  let mc := mc.serialize contact
  let kabcId := mc.kabcIdText contact
  let sync := latin1 (if mc.photoSyncedWithKABC then "true" else "false")
  let (refs, s) := storeGroupRefs mc.groups s
  (.element "meta-contact"
    [("contactId", qt.uuidToString mc.metaContactId), ("kabcId", kabcId)]
    ([.element "display-name" [] [.text mc.displayName],
      .element "photo" (if kabcId = [] then [] else [("syncWithKABC", sync)])
        [.text (mc.customPhoto qt)],
      .element "property-sources" []
        [.element "name" [("source", sourceToString mc.displayNameSource)]
          (contactSourceElement contact mc.displayNameSourceContact),
        .element "photo" [("source", sourceToString mc.photoSource)]
          (contactSourceElement contact mc.photoSourceContact)]] ++
      (if mc.groups = [] then [] else [.element "groups" [] refs]) ++
      storeContactListElement mc.element), mc, s)

/-- The groups of the list. -/
def storeGroups : List Group → XmlStorage → List DomNode × XmlStorage
  | [], s => ([], s)
  | g :: gs, s =>
    let (group, s) := storeGroup g s
    let (groups, s) := storeGroups gs s
    (group :: groups, s)

/-- The metacontacts of the list; temporary ones are left out. -/
def storeMetaContacts (qt : QtTexts) (contact : Nat → ContactInfo) :
    List StoredMetaContact → XmlStorage → List DomNode × List StoredMetaContact × XmlStorage
  | [], s => ([], [], s)
  | mc :: mcs, s =>
    if mc.temporary then
      let (elements, stored, s) := storeMetaContacts qt contact mcs s
      (elements, mc :: stored, s)
    else
      let (element, mc, s) := storeMetaContact qt contact mc s
      let (elements, stored, s) := storeMetaContacts qt contact mcs s
      (element :: elements, mc :: stored, s)

/-- `XmlContactStorage::save`: the document, and what is then in memory. -/
def save (qt : QtTexts) (contact : Nat → ContactInfo) (s : XmlStorage) : DomNode × XmlStorage :=
  let (groups, s) := storeGroups (.topLevel :: s.groupList) s
  let (elements, mcs, s) := storeMetaContacts qt contact s.metaContactList s
  (.element "kopete-contact-list" [("version", latin1 "1.2")] (groups ++ elements),
    { s with metaContactList := mcs })

end XmlContactStorage

end Kopete
