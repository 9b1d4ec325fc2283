import Kopete.Lib.Dom
import Kopete.Lib.QMap
import Kopete.Libkopete.ContactList
import Mathlib

/-!
# libkopete — contact lists of version 1.1

In a contact list of version 1.1 the plugin data of a protocol has the values of all
contacts of a metacontact in one field, separated by a character from the private use
area. In version 1.2 each contact has an element of its own. The update reads the
elements of all protocols, takes them out, and puts the new ones at the end.

Main results:

* `mem_fieldsOf_contactRecord` — what the record of a contact has;
* `migrate_eq` — what becomes of a metacontact;
* `updateFrom11to12_splits` — what becomes of the whole list.
-/

namespace Kopete

/-- `QLatin1String`. -/
def latin1 (s : String) : QString := s.toList.map fun c => UInt16.ofNat c.toNat

namespace XmlContactStorage

abbrev DomNode := Dom.Node UInt16

/-! ## The update -/

/-- The separator of the values of a field. -/
def separator : UInt16 := 0xE000

/-- The children `plugin-data-field` of an element: their keys and texts. -/
def fieldsOf (element : DomNode) : List (QString × QString) :=
  (element.children.filter (·.tagName = "plugin-data-field")).map fun field =>
    (field.attr "key" (latin1 "undefined-key"), Dom.textOf field)

/-- `serializedData`. -/
def serializedData (element : DomNode) : QMap QString (List QString) :=
  .ofList ((fieldsOf element).map fun field => (field.1, field.2.splitOn separator))

/-- `QMap::operator[]`, which puts an empty list where there is none. -/
def getOrInsert (m : QMap QString (List QString)) (key : QString) :
    List QString × QMap QString (List QString) :=
  match m.find? key with
  | some l => (l, m)
  | none => ([], m.insert key [])

/-- The data of the contact `i`. -/
def contactData (data : QMap QString (List QString)) (i : Nat) : QMap QString QString :=
  .ofList (data.entries.filterMap fun e => if h : i < e.2.length then some (e.1, e.2[i]) else none)

/-- What `newList` gets of an element: its plugin id, and the data of each contact. -/
def contactsOf (element : DomNode) : List (QString × QMap QString QString) :=
  let (ids, data) := getOrInsert (serializedData element) (latin1 "contactId")
  (List.range ids.length).map fun i => (element.attr "plugin-id" [], contactData data i)

/-- The element of a contact. -/
def pluginElement (pdp : QString × QMap QString QString) : DomNode :=
  .element "plugin-contact-data" [("plugin-id", pdp.1)]
    (pdp.2.entries.map fun e => .element "plugin-data-field" [("key", e.1)] [.text e.2])

/-- The plugin of the element is a protocol. -/
def isProtocolData (element : DomNode) : Bool :=
  (latin1 "Protocol").isSuffixOf (element.attr "plugin-id" [])

/-- What is done to one metacontact. -/
def migrate (metaContactElement : DomNode) : DomNode :=
  let removeList := (Dom.elementsByTagName "plugin-data" metaContactElement).filter
    fun e => isProtocolData e.2
  let newList := removeList.flatMap fun e => contactsOf e.2
  newList.foldl (fun metaContactElement pdp => metaContactElement.appendChild (pluginElement pdp))
    (Dom.removeChildren (removeList.map (·.1)) metaContactElement)

/-- `XmlContactStorage::updateFrom11to12`; `none` when the fuel runs out. -/
def updateFrom11to12 (fuel : Nat) (rootElement : DomNode) : Option (Bool × DomNode) :=
  (Dom.editEach "meta-contact" migrate fuel 0 rootElement).map fun rootElement =>
    (true, rootElement.setAttribute "version" (latin1 "1.2"))

/-! ## Values and records -/

/-- The values that an element has for a key; where the key is given twice, the last counts. -/
def valuesOf (element : DomNode) (key : QString) : List QString :=
  match (fieldsOf element).reverse.find? (·.1 = key) with
  | some field => field.2.splitOn separator
  | none => []

/-- How many contacts an element is about. -/
def contactCount (element : DomNode) : Nat := (valuesOf element (latin1 "contactId")).length

/-- The record of the contact `i`. -/
def contactRecord (element : DomNode) (i : Nat) : DomNode :=
  pluginElement (element.attr "plugin-id" [],
    contactData (getOrInsert (serializedData element) (latin1 "contactId")).2 i)

theorem find?_serializedData (element : DomNode) (key : QString) :
    ((serializedData element).find? key).getD [] = valuesOf element key := by
  unfold serializedData valuesOf
  rw [QMap.find?_ofList _ fun e => decide_eq_true_iff, ← List.map_reverse, List.find?_map]
  have hKey : ((fun e : QString × List QString => decide (e.1 = key)) ∘
      fun field : QString × QString => (field.1, field.2.splitOn separator)) =
      fun field => decide (field.1 = key) := rfl
  rw [hKey]
  cases (fieldsOf element).reverse.find? fun field => decide (field.1 = key) with
  | none => rfl
  | some field => rfl

/-- What is put where there is nothing has no values. -/
theorem find?_getOrInsert (m : QMap QString (List QString)) (key k : QString) :
    ((getOrInsert m key).2.find? k).getD [] = (m.find? k).getD [] := by
  unfold getOrInsert
  split
  · rfl
  · next hNone =>
    rw [QMap.find?_insert]
    split
    · next hSame => rw [hSame, hNone]; rfl
    · rfl

theorem entries_contactData (data : QMap QString (List QString)) (i : Nat) :
    (contactData data i).entries =
      data.entries.filterMap fun e => if h : i < e.2.length then some (e.1, e.2[i]) else none := by
  refine QMap.entries_ofList ?_
  rw [List.pairwise_filterMap]
  refine data.sorted.imp ?_
  rintro e e' hLess f hf f' hf'
  have hKey : ∀ {e : QString × List QString} {f : QString × QString},
      (if h : i < e.2.length then some (e.1, e.2[i]) else none) = some f → f.1 = e.1 := by
    intro e f hf
    split at hf
    · exact (congrArg Prod.fst (Option.some.inj hf)).symm
    · cases hf
  rw [hKey hf, hKey hf']
  exact hLess

theorem mem_contactData {data : QMap QString (List QString)} {i : Nat} {k v : QString} :
    (k, v) ∈ (contactData data i).entries ↔ ((data.find? k).getD [])[i]? = some v := by
  rw [entries_contactData, List.mem_filterMap]
  constructor
  · rintro ⟨⟨k', sl⟩, hMem, hValue⟩
    simp only at hValue
    split at hValue
    · next hIndex =>
      obtain ⟨rfl, rfl⟩ := Prod.mk.inj (Option.some.inj hValue)
      rw [QMap.mem_entries_iff.1 hMem]
      exact List.getElem?_eq_getElem hIndex
    · cases hValue
  · intro hValue
    cases hFind : data.find? k with
    | none =>
      rw [hFind] at hValue
      cases hValue
    | some sl =>
      rw [hFind] at hValue
      obtain ⟨hIndex, hEq⟩ := List.getElem?_eq_some_iff.1 hValue
      refine ⟨(k, sl), QMap.mem_entries_iff.2 hFind, ?_⟩
      simp only [Option.getD_some] at hIndex hEq
      simp [hIndex, hEq]

theorem fieldsOf_pluginElement (pluginId : QString) (m : QMap QString QString) :
    fieldsOf (pluginElement (pluginId, m)) = m.entries := by
  have hField : ∀ e : QString × QString,
      ((Dom.Node.element "plugin-data-field" [("key", e.1)] [.text e.2] : DomNode).attr "key"
        (latin1 "undefined-key"), Dom.textOf
          (Dom.Node.element "plugin-data-field" [("key", e.1)] [.text e.2] : DomNode)) = e := by
    intro e
    simp [Dom.Node.attr, Dom.Node.attributes, Dom.textOf, Dom.textOfAll]
  unfold fieldsOf pluginElement
  rw [Dom.Node.children, List.filter_eq_self.2, List.map_map]
  · exact (List.map_congr_left fun e _ => hField e).trans (List.map_id _)
  · intro c hc
    obtain ⟨e, -, rfl⟩ := List.mem_map.1 hc
    exact decide_eq_true rfl

/-- **The record of a contact** has its value of every key. -/
theorem mem_fieldsOf_contactRecord {element : DomNode} {i : Nat} {k v : QString} :
    (k, v) ∈ fieldsOf (contactRecord element i) ↔ (valuesOf element k)[i]? = some v := by
  unfold contactRecord
  rw [fieldsOf_pluginElement, mem_contactData, find?_getOrInsert, find?_serializedData]

/-- No key twice. -/
theorem nodup_contactRecord (element : DomNode) (i : Nat) :
    ((fieldsOf (contactRecord element i)).map (·.1)).Nodup := by
  unfold contactRecord
  rw [fieldsOf_pluginElement]
  exact QMap.nodup_keys _

theorem contactsOf_eq (element : DomNode) :
    (contactsOf element).map pluginElement =
      (List.range (contactCount element)).map (contactRecord element) := by
  have hCount : (getOrInsert (serializedData element) (latin1 "contactId")).1.length =
      contactCount element := by
    unfold contactCount
    rw [← find?_serializedData]
    unfold getOrInsert
    split
    · next hFind => rw [hFind]; rfl
    · next hNone => rw [hNone]; rfl
  unfold contactsOf
  simp only
  rw [hCount, List.map_map]
  rfl

/-! ## A metacontact -/

/-- The element is plugin data of a protocol. -/
def IsProtocolData (c : DomNode) : Prop := c.tagName = "plugin-data" ∧ isProtocolData c = true

instance (c : DomNode) : Decidable (IsProtocolData c) :=
  inferInstanceAs (Decidable (c.tagName = "plugin-data" ∧ isProtocolData c = true))

/-- The elements of protocols, each as the records of its contacts. -/
def migrated (metaContactElement : DomNode) : DomNode :=
  metaContactElement.withChildren
    (metaContactElement.children.filter (fun c => ¬ IsProtocolData c) ++
      (metaContactElement.children.filter fun c => IsProtocolData c).flatMap fun element =>
        (List.range (contactCount element)).map (contactRecord element))

theorem foldl_appendChild (t : String) (a : List (String × QString)) (cs : List DomNode)
    (pdps : List (QString × QMap QString QString)) :
    pdps.foldl (fun (n : DomNode) pdp => n.appendChild (pluginElement pdp)) (.element t a cs) =
      Dom.Node.element t a (cs ++ pdps.map pluginElement) := by
  induction pdps generalizing cs with
  | nil => simp
  | cons pdp pdps ih =>
    rw [List.foldl_cons, Dom.Node.appendChild, ih, List.map_cons, List.append_assoc,
      List.singleton_append]

/-- **A metacontact.** -/
theorem migrate_eq {mc : DomNode} (hElement : mc.tagName ≠ "")
    (hFlat : Dom.Flat "plugin-data" mc.children) : migrate mc = migrated mc := by
  cases mc with
  | text s => exact absurd rfl hElement
  | element t a cs =>
    have hRemoved := Dom.removeChildren_flat hFlat isProtocolData
    have hNodes := Dom.filter_elementsByTagName hFlat isProtocolData
    unfold migrate migrated
    simp only
    rw [hRemoved, Dom.Node.withChildren, foldl_appendChild, List.map_flatMap,
      Dom.Node.withChildren]
    have hRecords : ∀ l : List (Dom.Path × DomNode),
        (l.flatMap fun e => (contactsOf e.2).map pluginElement) =
          (l.map (·.2)).flatMap fun element =>
            (List.range (contactCount element)).map (contactRecord element) := by
      intro l
      rw [List.flatMap_map]
      refine List.flatMap_congr ?_
      intro e _
      exact contactsOf_eq e.2
    rw [hRecords, hNodes]
    rfl

/-! ## The list -/

/-- A contact list of version 1.1: metacontacts are children of the root, and their plugin
data are children of theirs. -/
structure IsContactList (rootElement : DomNode) : Prop where
  metaContacts : Dom.Flat "meta-contact" rootElement.children
  pluginData : ∀ mc ∈ rootElement.children, mc.tagName = "meta-contact" →
    Dom.Flat "plugin-data" mc.children

theorem migrate_element (t : String) (a : List (String × QString)) (cs : List DomNode) :
    ∃ ds, migrate (.element t a cs) = .element t a ds ∧
      ∀ d ∈ ds, d ∈ cs ∨ ∃ pdp, d = pluginElement pdp := by
  unfold migrate Dom.removeChildren
  simp only [Dom.Node.withChildren, foldl_appendChild]
  refine ⟨_, rfl, ?_⟩
  intro d hd
  rcases List.mem_append.1 hd with hd | hd
  · left
    obtain ⟨⟨c, k⟩, hc, rfl⟩ := List.mem_map.1 hd
    exact (List.mem_zipIdx' (List.mem_filter.1 hc).1).2 ▸ List.getElem_mem _
  · right
    obtain ⟨pdp, -, rfl⟩ := List.mem_map.1 hd
    exact ⟨pdp, rfl⟩

theorem tagName_migrate (c : DomNode) (hElement : c.tagName = "meta-contact") :
    (migrate c).tagName = "meta-contact" := by
  cases c with
  | text s => exact absurd (show "" = "meta-contact" from hElement) (by decide)
  | element t a cs =>
    obtain ⟨ds, hEq, -⟩ := migrate_element t a cs
    rw [hEq]
    exact hElement

/-- The new elements have no metacontacts in them. -/
theorem elements_pluginElement (pdp : QString × QMap QString QString) :
    Dom.elementsByTagName "meta-contact" (pluginElement pdp) = [] := by
  unfold pluginElement
  rw [Dom.elementsByTagName, Dom.elementsOfAll_eq_nil]
  intro c hc
  obtain ⟨e, -, rfl⟩ := List.mem_map.1 hc
  refine ⟨by simp [Dom.Node.tagName], ?_⟩
  simp [Dom.elementsByTagName, Dom.elementsOfAll, Dom.Node.tagName]

theorem elements_migrate (c : DomNode) (hElement : c.tagName = "meta-contact")
    (hFlat : Dom.elementsByTagName "meta-contact" c = []) :
    Dom.elementsByTagName "meta-contact" (migrate c) = [] := by
  cases c with
  | text s => exact absurd (show "" = "meta-contact" from hElement) (by decide)
  | element t a cs =>
    obtain ⟨ds, hEq, hFrom⟩ := migrate_element t a cs
    rw [hEq, Dom.elementsByTagName, Dom.elementsOfAll_eq_nil]
    rw [Dom.elementsByTagName, Dom.elementsOfAll_eq_nil] at hFlat
    intro d hd
    rcases hFrom d hd with hOld | ⟨pdp, rfl⟩
    · exact hFlat d hOld
    · exact ⟨by simp [pluginElement, Dom.Node.tagName], elements_pluginElement pdp⟩

/-- **The update.** Each metacontact keeps its children but the plugin data of protocols, in
their order, and after them come the records of these, element by element; the record of a
contact has, for every key, the value of the contact, and where every key has a value for
every contact, none is lost. -/
theorem updateFrom11to12_splits {rootElement : DomNode} (hRoot : IsContactList rootElement)
    {fuel : Nat} (hFuel : rootElement.children.length < fuel) :
    updateFrom11to12 fuel rootElement =
        some (true, (rootElement.withChildren (rootElement.children.map fun c =>
          if c.tagName = "meta-contact" then migrated c else c)).setAttribute "version"
            (latin1 "1.2")) ∧
      (∀ element i, (contactRecord element i).tagName = "plugin-contact-data" ∧
        (contactRecord element i).attributes = [("plugin-id", element.attr "plugin-id" [])] ∧
        ((fieldsOf (contactRecord element i)).map (·.1)).Nodup ∧
        ∀ k v, (k, v) ∈ fieldsOf (contactRecord element i) ↔ (valuesOf element k)[i]? = some v) ∧
      ∀ element, (∀ k, valuesOf element k ≠ [] →
          (valuesOf element k).length = contactCount element) →
        ∀ k i v, (valuesOf element k)[i]? = some v →
          i < contactCount element ∧ (k, v) ∈ fieldsOf (contactRecord element i) := by
  refine ⟨?_, ?_, ?_⟩
  · have hLoop := Dom.editEach_flat tagName_migrate elements_migrate hRoot.metaContacts hFuel
    have hChildren : rootElement.children.map (Dom.edit "meta-contact" migrate) =
        rootElement.children.map fun c =>
          if c.tagName = "meta-contact" then migrated c else c := by
      refine List.map_congr_left ?_
      intro c hc
      unfold Dom.edit
      split
      · next hTag =>
        refine migrate_eq ?_ (hRoot.pluginData c hc hTag)
        rw [hTag]
        decide
      · rfl
    unfold updateFrom11to12
    rw [hLoop, hChildren]
    rfl
  · intro element i
    exact ⟨rfl, rfl, nodup_contactRecord element i, fun k v => mem_fieldsOf_contactRecord⟩
  · intro element hEven k i v hValue
    obtain ⟨hIndex, -⟩ := List.getElem?_eq_some_iff.1 hValue
    refine ⟨?_, mem_fieldsOf_contactRecord.2 hValue⟩
    rwa [← hEven k (List.ne_nil_of_length_pos (Nat.zero_lt_of_lt hIndex))]

/-- An element of a protocol with two contacts. -/
def twoContacts : DomNode :=
  .element "plugin-data" [("plugin-id", latin1 "ICQProtocol")]
    [.element "plugin-data-field" [("key", latin1 "contactId")]
        [.text (latin1 "1" ++ [separator] ++ latin1 "2")],
      .element "plugin-data-field" [("key", latin1 "displayName")]
        [.text (latin1 "a" ++ [separator] ++ latin1 "b")]]

def someList : DomNode :=
  .element "kopete-contact-list" [("version", latin1 "1.1")]
    [.element "meta-contact" [] [.element "display-name" [] [.text (latin1 "A")], twoContacts]]

theorem updateFrom11to12_someList :
    (updateFrom11to12 2 someList).isSome = true ∧
      (latin1 "displayName", latin1 "b") ∈ fieldsOf (contactRecord twoContacts 1) := by
  have hRoot : IsContactList someList := by
    refine ⟨?_, ?_⟩
    · intro c hc
      obtain rfl := List.mem_singleton.1 hc
      rfl
    · intro c hc _
      obtain rfl := List.mem_singleton.1 hc
      intro d hd
      rcases List.mem_cons.1 hd with rfl | hd
      · rfl
      · obtain rfl := List.mem_singleton.1 hd
        rfl
  obtain ⟨hResult, hRecord, -⟩ := updateFrom11to12_splits hRoot (show someList.children.length < 2 by decide)
  refine ⟨by rw [hResult]; rfl, ?_⟩
  exact ((hRecord twoContacts 1).2.2.2 _ _).2 (by decide)

end XmlContactStorage

end Kopete
