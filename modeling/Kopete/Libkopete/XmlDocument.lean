import Kopete.Libkopete.XmlElements
import Mathlib

/-!
# libkopete — what a contact list is stored as

What there is to a contact list, and the document that is written of it when its groups
have ids, no two of them the same.

Main results:

* `serialize_eq` — what the contacts say replaces what plugins kept of them;
* `save_given` — the document, element by element.
-/

namespace Kopete

/-! ## What there is to a contact list -/

/-- `Group::GroupType`. -/
inductive GroupType where
  | normal
  | temporary
  | topLevel
  | offline
deriving DecidableEq, Repr

/-- `Group::type`. -/
def Group.type : Group → GroupType
  | .normal _ => .normal
  | .temporary => .temporary
  | .topLevel => .topLevel
  | .offline => .offline

/-- What there is to a group. -/
structure GroupContents where
  type : GroupType
  groupId : Nat
  displayName : QString
  expanded : Bool
  pluginData : QString → PluginData

/-- What there is to a metacontact; its groups are those with these ids, and a name or a
photo may come from the contact with these ids. -/
structure MetaContactContents where
  metaContactId : BitVec 128
  kabcId : QString
  displayName : QString
  nameSource : PropertySource
  nameSourceContact : SourceIds
  photoSource : PropertySource
  photoSourceContact : SourceIds
  pluginData : QString → PluginData
  pluginContactData : QString → List PluginData
  addressBook : QString → QString → QString
  icons : QMap IconState QString
  useCustomIcon : Bool
  groups : Set Nat

/-- What there is to a contact list. -/
structure Contents where
  groups : Set GroupContents
  metaContacts : List MetaContactContents

namespace XmlStorage

variable (s : XmlStorage) (contact : Nat → ContactInfo)

def groupContents (g : Group) : GroupContents where
  type := g.type
  groupId := (s.data g).groupId
  displayName := (s.data g).displayName
  expanded := (s.data g).expanded
  pluginData := (s.data g).element.pluginDataOf

def metaContactContents (nameSource photoSource : SourceIds) (mc : StoredMetaContact) :
    MetaContactContents where
  metaContactId := mc.metaContactId
  kabcId := mc.kabcIdText contact
  displayName := mc.displayName.filter (· ≠ 10)
  nameSource := mc.displayNameSource
  nameSourceContact := nameSource
  photoSource := mc.photoSource
  photoSourceContact := photoSource
  pluginData := mc.element.pluginDataOf
  pluginContactData := mc.element.pluginContactDataOf
  addressBook := mc.addressBookField
  icons := mc.element.icons
  useCustomIcon := mc.element.useCustomIcon
  groups := (fun g => (s.data g).groupId) '' {g | g ∈ mc.groups}

/-- The ids of a contact, if there is one. -/
def sourceIdsOf : Option Nat → SourceIds
  | none => .none
  | some c => (contact c).sourceIds

/-- The metacontacts that are not temporary. -/
def lasting : List StoredMetaContact := s.metaContactList.filter fun mc => !mc.temporary

/-- The contact list in memory: its metacontacts but the temporary ones, and its groups, of
which the top level always is one. -/
def contents : Contents where
  groups := s.groupContents '' {g | g ∈ .topLevel :: s.groupList}
  metaContacts := s.lasting.map fun mc =>
    s.metaContactContents contact (sourceIdsOf contact mc.displayNameSourceContact)
      (sourceIdsOf contact mc.photoSourceContact) mc

/-- The contact list as it is loaded; where a name or a photo comes from is looked up when the
contacts are there. -/
def loadedContents : Contents where
  groups := s.groupContents '' {g | g ∈ .topLevel :: s.groupList}
  metaContacts := s.lasting.map fun mc =>
    s.metaContactContents contact mc.nameSourceIds mc.photoSourceIds mc

/-- The groups whose ids are stored. -/
def storedGroups : List Group :=
  .topLevel :: s.groupList ++ s.lasting.flatMap fun mc => mc.groups

/-- Groups have ids, and no two of them the same. -/
structure DistinctIds : Prop where
  nodup : s.groupList.Nodup
  given : ∀ g ∈ s.storedGroups, (s.data g).groupId ≠ 0 ∧ (s.data g).groupId < 2 ^ 32
  distinct : ∀ g ∈ s.storedGroups, ∀ g' ∈ s.storedGroups,
    (s.data g).groupId = (s.data g').groupId → g = g'

theorem groupId_given {s : XmlStorage} {g : Group} (h : (s.data g).groupId ≠ 0) :
    s.groupId g = ((s.data g).groupId, s) := if_neg h

theorem setGroup_setGroup (s : XmlStorage) (g : Group) (f f' : GroupData → GroupData) :
    (s.setGroup g f).setGroup g f' = s.setGroup g fun d => f' (f d) := by
  unfold setGroup
  simp

theorem setGroup_id (s : XmlStorage) (g : Group) : (s.setGroup g fun d => d) = s := by
  unfold setGroup
  simp

end XmlStorage

namespace XmlContactStorage

open ListElement XmlStorage

/-! ## The document -/

variable (qt : QtTexts) (contact : Nat → ContactInfo) (s : XmlStorage)

/-- The element of a group that has an id. -/
def groupElement (g : Group) : DomNode :=
  .element "kopete-group"
    [("groupId", number (s.data g).groupId), ("type", typeToString g),
      ("view", latin1 (if (s.data g).expanded then "expanded" else "collapsed"))]
    (.element "display-name" [] [.text (s.data g).displayName] ::
      storeContactListElement (s.data g).element)

/-- A reference to a group that has an id. -/
def groupRef (g : Group) : DomNode := .element "group" [("id", number (s.data g).groupId)] []

/-- The elements of a metacontact before those of its groups. -/
def ownElements (mc : StoredMetaContact) : List DomNode :=
  [.element "display-name" [] [.text mc.displayName],
    .element "photo"
      (if mc.kabcIdText contact = [] then []
      else [("syncWithKABC", latin1 (if mc.photoSyncedWithKABC then "true" else "false"))])
      [.text (mc.customPhoto qt)],
    .element "property-sources" []
      [.element "name" [("source", sourceToString mc.displayNameSource)]
        (contactSourceElement contact mc.displayNameSourceContact),
      .element "photo" [("source", sourceToString mc.photoSource)]
        (contactSourceElement contact mc.photoSourceContact)]]

/-- The element of a metacontact whose groups have ids. -/
def metaContactElement (mc : StoredMetaContact) : DomNode :=
  let mc := mc.serialize contact
  .element "meta-contact"
    [("contactId", qt.uuidToString mc.metaContactId), ("kabcId", mc.kabcIdText contact)]
    (ownElements qt contact mc ++
      (if mc.groups = [] then [] else [.element "groups" [] (mc.groups.map (groupRef s))]) ++
      storeContactListElement mc.element)

variable {s}

theorem storeGroups_given (gs : List Group) (h : ∀ g ∈ gs, (s.data g).groupId ≠ 0) :
    storeGroups gs s = (gs.map (groupElement s), s) := by
  induction gs with
  | nil => rfl
  | cons g gs ih =>
    have hHere : storeGroup g s = (groupElement s g, s) := by
      unfold storeGroup
      rw [groupId_given (h g List.mem_cons_self)]
      rfl
    unfold storeGroups
    rw [hHere]
    simp only
    rw [ih fun g' hg' => h g' (List.mem_cons_of_mem _ hg')]
    rfl

theorem storeGroupRefs_given (gs : List Group) (h : ∀ g ∈ gs, (s.data g).groupId ≠ 0) :
    storeGroupRefs gs s = (gs.map (groupRef s), s) := by
  induction gs with
  | nil => rfl
  | cons g gs ih =>
    unfold storeGroupRefs
    rw [groupId_given (h g List.mem_cons_self)]
    simp only
    rw [ih fun g' hg' => h g' (List.mem_cons_of_mem _ hg')]
    rfl

/-- The records that the contacts of a plugin serialize. -/
def serializedRecords (mc : StoredMetaContact) (pluginId : QString) : List PluginData :=
  (mc.contacts.filter fun c => (contact c).pluginId = pluginId).map fun c =>
    (contact c).serialized

theorem foldl_serializeProtocol (ids : List QString) (mc : StoredMetaContact) :
    ∃ m, ids.foldl (fun mc pluginId => mc.serializeProtocol contact pluginId) mc =
        { mc with element := { mc.element with pluginContactData := m } } ∧
      ∀ k, (m.find? k).getD [] =
        if k ∈ ids then serializedRecords contact mc k else mc.element.pluginContactDataOf k := by
  induction ids generalizing mc with
  | nil => exact ⟨mc.element.pluginContactData, rfl, fun k => by simp [pluginContactDataOf]⟩
  | cons pluginId ids ih =>
    obtain ⟨m, hFold, hFind⟩ := ih (mc.serializeProtocol contact pluginId)
    refine ⟨m, hFold, ?_⟩
    intro k
    have hRecords : serializedRecords contact (mc.serializeProtocol contact pluginId) k =
      serializedRecords contact mc k := rfl
    have hHere : (mc.serializeProtocol contact pluginId).element.pluginContactDataOf k =
        if k = pluginId then serializedRecords contact mc pluginId
        else mc.element.pluginContactDataOf k :=
      pluginContactDataOf_setPluginContactData _ _ _ _
    rw [hFind, hRecords, hHere]
    by_cases hSame : k = pluginId
    · subst hSame
      simp
    · simp [hSame]

/-- **Serializing** brings the records of contacts up to date. -/
theorem serialize_eq (mc : StoredMetaContact) :
    ∃ m, mc.serialize contact = { mc with element := { mc.element with pluginContactData := m } } ∧
      ∀ k, (m.find? k).getD [] = serializedRecords contact mc k := by
  obtain ⟨m, hFold, hFind⟩ := foldl_serializeProtocol contact
    ((mc.contacts.map fun c => (contact c).pluginId).dedup)
    { mc with element := { mc.element with pluginContactData := .empty } }
  refine ⟨m, hFold, ?_⟩
  intro k
  rw [hFind]
  split
  · rfl
  · next hNone =>
    rw [List.mem_dedup, List.mem_map] at hNone
    have hFilter : mc.contacts.filter (fun c => (contact c).pluginId = k) = [] := by
      refine List.filter_eq_nil_iff.2 ?_
      intro c hc hSame
      exact hNone ⟨c, hc, of_decide_eq_true hSame⟩
    rw [serializedRecords, hFilter]
    rfl

theorem groups_serialize (mc : StoredMetaContact) :
    (mc.serialize contact).groups = mc.groups := by
  obtain ⟨m, hEq, -⟩ := serialize_eq contact mc
  rw [hEq]

theorem storeMetaContact_given (mc : StoredMetaContact)
    (h : ∀ g ∈ mc.groups, (s.data g).groupId ≠ 0) :
    storeMetaContact qt contact mc s =
      (metaContactElement qt contact s mc, mc.serialize contact, s) := by
  unfold storeMetaContact
  simp only
  rw [storeGroupRefs_given _ (by rw [groups_serialize]; exact h)]
  rfl

theorem storeMetaContacts_given (mcs : List StoredMetaContact)
    (h : ∀ mc ∈ mcs, mc.temporary = false → ∀ g ∈ mc.groups, (s.data g).groupId ≠ 0) :
    (storeMetaContacts qt contact mcs s).1 =
      (mcs.filter fun mc => !mc.temporary).map (metaContactElement qt contact s) := by
  induction mcs with
  | nil => rfl
  | cons mc mcs ih =>
    have hRest := ih fun mc' hmc' => h mc' (List.mem_cons_of_mem _ hmc')
    unfold storeMetaContacts
    by_cases hTemporary : mc.temporary = true
    · rw [if_pos hTemporary, List.filter_cons_of_neg (by simp [hTemporary])]
      exact hRest
    · have hLasting : mc.temporary = false := by simpa using hTemporary
      rw [if_neg hTemporary, List.filter_cons_of_pos (by simp [hLasting]),
        storeMetaContact_given qt contact mc (h mc List.mem_cons_self hLasting)]
      simp only [List.map_cons]
      exact congrArg _ hRest

/-- **The document** of a contact list whose groups have ids. -/
theorem save_given (h : s.DistinctIds) :
    (save qt contact s).1 =
      .element "kopete-contact-list" [("version", latin1 "1.2")]
        ((.topLevel :: s.groupList).map (groupElement s) ++
          s.lasting.map (metaContactElement qt contact s)) := by
  have hGroups : ∀ g ∈ .topLevel :: s.groupList, (s.data g).groupId ≠ 0 := fun g hg =>
    (h.given g (List.mem_append_left _ hg)).1
  have hMetaContacts : ∀ mc ∈ s.metaContactList, mc.temporary = false →
      ∀ g ∈ mc.groups, (s.data g).groupId ≠ 0 := by
    intro mc hmc hLasting g hg
    refine (h.given g (List.mem_append_right _ ?_)).1
    exact List.mem_flatMap.2 ⟨mc, List.mem_filter.2 ⟨hmc, by simp [hLasting]⟩, hg⟩
  unfold save
  rw [storeGroups_given _ hGroups]
  simp only
  rw [storeMetaContacts_given qt contact _ hMetaContacts]
  rfl

end XmlContactStorage

end Kopete
