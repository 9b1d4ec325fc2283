import Kopete.Lib.DomEdit
import Kopete.Lib.SavedOrder
import Kopete.Libkopete.StatusItems
import Kopete.UI.ContactListPlainModel

/-!
# Contact list window — the order that is saved

With manual sorting the models save the positions of their rows in a file that both have an element
in, and put their rows in that order when they are filled again. The plain model knows its
metacontacts by their UUIDs.

Main results:

* `loadModelSettings_saveModelSettings` — a model finds the element that it has saved;
* `toInt_number` — numbers are read back, unless they are too large for an `int`;
* `ContactListPlainModel.contacts_load_save` — the order of the plain model.
-/

namespace Kopete.UI

open Status (toInt)
open XmlContactStorage (DomNode number toUInt)

/-- What groups and metacontacts are saved under: `Group::groupId`, a `uint`, and
`MetaContact::metaContactId`. -/
structure ListIds where
  group : Group → Nat
  metaContact : Nat → BitVec 128

/-! ## The file -/

/-- The element of a model. -/
def modelElement (modelType : QString) (rootElement : DomNode) : Option (Dom.Path × DomNode) :=
  (Dom.elementsByTagName "Model" rootElement).find? fun e => e.2.attr "type" [] = modelType

/-- The element of a model that has none yet. -/
def newModelElement (modelType : QString) : DomNode :=
  (Dom.Node.element "Model" [] []).setAttribute "type" modelType

/-- `ContactListModel::loadModelSettings`: what `loadModelSettingsImpl` gets. -/
def loadModelSettings (modelType : QString) (doc : DomNode) : Option DomNode :=
  (Dom.firstChild "Models" doc).bind fun rootElement =>
    (modelElement modelType rootElement).map (·.2)

/-- The element of a model is edited, or made. -/
def editModel (modelType : QString) (saveModelSettingsImpl : DomNode → DomNode)
    (rootElement : DomNode) : DomNode :=
  match modelElement modelType rootElement with
  | some e => Dom.modify saveModelSettingsImpl e.1 rootElement
  | none => rootElement.appendChild (saveModelSettingsImpl (newModelElement modelType))

/-- `ContactListModel::saveModelSettings`. -/
def saveModelSettings (modelType : QString) (saveModelSettingsImpl : DomNode → DomNode)
    (doc : DomNode) : DomNode :=
  Dom.editFirstChild "Models" (editModel modelType saveModelSettingsImpl) doc

section

variable {modelType : QString} {impl : DomNode → DomNode}

/-- The element of a model is found again after it has been edited. -/
theorem modelElement_modify (hTag : ∀ n, (impl n).tagName = n.tagName)
    (hAttributes : ∀ n, (impl n).attributes = n.attributes) {rootElement : DomNode}
    {e : Dom.Path × DomNode} (h : modelElement modelType rootElement = some e) :
    (∃ i path, e.1 = i :: path) ∧
      modelElement modelType (Dom.modify impl e.1 rootElement) = some (e.1, impl e.2) := by
  have hType : ∀ c c' : DomNode, c.attributes = c'.attributes →
      decide (c.attr "type" [] = modelType) = decide (c'.attr "type" [] = modelType) := by
    intro c c' hSame
    rw [Dom.Node.attr, Dom.Node.attr, hSame]
  exact Dom.find?_modify hTag hAttributes hType rootElement h

theorem tagName_editModel (hTag : ∀ n, (impl n).tagName = n.tagName)
    (hAttributes : ∀ n, (impl n).attributes = n.attributes) (rootElement : DomNode) :
    (editModel modelType impl rootElement).tagName = rootElement.tagName := by
  unfold editModel
  split
  · next e hFound =>
    obtain ⟨⟨i, path, hPath⟩, -⟩ := modelElement_modify hTag hAttributes hFound
    rw [hPath]
    exact (Dom.modify_cons i path rootElement).1
  · cases rootElement <;> rfl

/-- What is found in the root element afterwards. -/
theorem modelElement_editModel (hTag : ∀ n, (impl n).tagName = n.tagName)
    (hAttributes : ∀ n, (impl n).attributes = n.attributes) {rootElement : DomNode}
    (hRoot : rootElement.isElement = true) :
    (modelElement modelType (editModel modelType impl rootElement)).map (·.2) =
      some (impl (((modelElement modelType rootElement).map (·.2)).getD
        (newModelElement modelType))) := by
  unfold editModel
  split
  · next e hFound =>
    rw [(modelElement_modify hTag hAttributes hFound).2, hFound]
    rfl
  · next hNone =>
    have hNew : (impl (newModelElement modelType)).attr "type" [] = modelType := by
      rw [Dom.Node.attr, hAttributes]
      simp [newModelElement, Dom.Node.setAttribute, Dom.Node.attributes]
    have hNewTag : (impl (newModelElement modelType)).tagName = "Model" := by
      rw [hTag]
      rfl
    rw [hNone]
    cases rootElement with
    | element t a cs =>
      rw [modelElement, Dom.elementsByTagName] at hNone
      rw [Dom.Node.appendChild, modelElement, Dom.elementsByTagName, Dom.elementsOfAll_append,
        List.find?_append, hNone, Option.none_or, Dom.elementsOfAll, if_pos hNewTag,
        List.append_assoc, List.singleton_append, List.find?_cons_of_pos]
      · rfl
      · exact decide_eq_true hNew
    | text s => cases hRoot

/-- **A model finds the element that it has saved.** -/
theorem loadModelSettings_saveModelSettings (hTag : ∀ n, (impl n).tagName = n.tagName)
    (hAttributes : ∀ n, (impl n).attributes = n.attributes) {doc : DomNode}
    (hDoc : doc.isElement = true) :
    loadModelSettings modelType (saveModelSettings modelType impl doc) =
      some (impl ((loadModelSettings modelType doc).getD (newModelElement modelType))) := by
  have hFound : Dom.firstChild "Models" (saveModelSettings modelType impl doc) =
      some (editModel modelType impl
        ((Dom.firstChild "Models" doc).getD (.element "Models" [] []))) :=
    Dom.firstChild_editFirstChild (tagName_editModel hTag hAttributes) hDoc
  rw [loadModelSettings, hFound, Option.bind_some]
  cases hRoot : Dom.firstChild "Models" doc with
  | none =>
    rw [loadModelSettings, hRoot]
    exact modelElement_editModel hTag hAttributes rfl
  | some rootElement =>
    have hIs : rootElement.tagName = "Models" := by
      simpa using List.find?_some hRoot
    have hElement : rootElement.isElement = true := by
      refine Dom.isElement_of_tagName ?_
      rw [hIs]
      decide
    rw [loadModelSettings, hRoot]
    exact modelElement_editModel hTag hAttributes hElement

end

/-! ## Positions -/

/-- **Numbers** are read back, but those that are no `int` as 0. -/
theorem toInt_number {n : Nat} (h : n < 2 ^ 32) :
    toInt (number n) = if n < 2 ^ 31 then (n : Int) else 0 := by
  have hDigits : ∀ c ∈ number n, XmlContactStorage.isDigit c = true :=
    fun c hc => XmlContactStorage.isDigit_number hc
  unfold Status.toInt
  rw [XmlContactStorage.trimmed_digits hDigits]
  split
  · next digits hMinus =>
    -- a minus is no digit
    have hFirst := XmlContactStorage.isDigit_bounds
      (hDigits 45 (by rw [hMinus]; exact List.mem_cons_self))
    exact absurd hFirst.1 (by decide)
  · rw [XmlContactStorage.toUInt_number h]

/-- The element of something that has a position. -/
def positionElement (tag : String) (uuid : QString) (index : Nat) : DomNode :=
  ((Dom.Node.element tag [] []).setAttribute "uuid" uuid).setAttribute "possition" (number index)

theorem positionElement_eq (tag : String) (uuid : QString) (index : Nat) :
    positionElement tag uuid index =
      .element tag [("uuid", uuid), ("possition", number index)] [] := by
  simp [positionElement, Dom.Node.setAttribute]

theorem uuid_positionElement (tag : String) (uuid : QString) (index : Nat) (d : QString) :
    (positionElement tag uuid index).attr "uuid" d = uuid := by
  rw [positionElement_eq]
  rfl

theorem position_positionElement (tag : String) (uuid : QString) {index : Nat} (h : index < 2 ^ 31)
    (d : QString) : toInt ((positionElement tag uuid index).attr "possition" d) = index := by
  have hAttr : (positionElement tag uuid index).attr "possition" d = number index := by
    rw [positionElement_eq]
    rfl
  rw [hAttr, toInt_number (by omega), if_pos h]

/-- `QHash::value` with −1 for what is not there. -/
def valueOf {κ : Type*} (positions : κ → Option Int) (k : κ) : Int := (positions k).getD (-1)

/-- The elements of metacontacts, in their order. -/
def metaContactElements (qt : QtTexts) (ids : ListIds) (mcs : List Nat) : List DomNode :=
  mcs.zipIdx.map fun x =>
    positionElement "MetaContact" (qt.uuidToString (ids.metaContact x.1)) x.2

theorem elementsByTagName_metaContactElements (qt : QtTexts) (ids : ListIds) (mcs : List Nat)
    (tag : String) (attributes : List (String × QString)) :
    (Dom.elementsByTagName "MetaContact" (.element tag attributes
      (metaContactElements qt ids mcs))).map (·.2) = metaContactElements qt ids mcs := by
  refine Dom.elementsByTagName_children (fun c hc => ?_) fun c hc => ?_ <;>
    obtain ⟨x, -, rfl⟩ := List.mem_map.mp hc
  · rw [positionElement_eq]
    rfl
  · rw [positionElement_eq]
    rfl

/-- The loop that reads positions: whoever has the UUID of an element gets its position. -/
def readPositions {κ : Type*} [DecidableEq κ] (qt : QtTexts)
    (uuidToMetaContact : BitVec 128 → Option κ) (elements : List DomNode)
    (positions : κ → Option Int) : κ → Option Int :=
  SavedOrder.insertAll
    (fun element => uuidToMetaContact (qt.uuidOfString (element.attr "uuid" [])))
    (fun element => toInt (element.attr "possition" (latin1 "-1"))) elements positions

/-- **Positions are read back.** -/
theorem readPositions_metaContactElements {κ : Type*} [DecidableEq κ] {qt : QtTexts} {ids : ListIds}
    {mcs : List Nat} (hUuid : ∀ m ∈ mcs,
      qt.uuidOfString (qt.uuidToString (ids.metaContact m)) = ids.metaContact m)
    (hNodup : mcs.Nodup) (hShort : mcs.length ≤ 2 ^ 31) {lookup : BitVec 128 → Option κ} {k : κ}
    {m : Nat} (hLookup : ∀ m' ∈ mcs, lookup (ids.metaContact m') = some k ↔ m' = m)
    (positions : κ → Option Int) :
    readPositions qt lookup (metaContactElements qt ids mcs) positions k =
      if m ∈ mcs then some (mcs.idxOf m : Int) else positions k := by
  refine SavedOrder.insertAll_zipIdx hNodup (fun x hx => ?_) fun x hx => ?_
  · have hMem := List.fst_mem_of_mem_zipIdx hx
    rw [uuid_positionElement, hUuid x.1 hMem]
    exact hLookup x.1 hMem
  · have hLt := (List.mem_zipIdx' hx).1
    exact position_positionElement _ _ (by omega) _

/-! ## The plain model -/

namespace ContactListPlainModel

variable (s : ContactListPlainModel)

/-- `ContactListPlainModel::saveModelSettingsImpl`. -/
def saveModelSettingsImpl (qt : QtTexts) (ids : ListIds) (rootElement : DomNode) : DomNode :=
  if s.manualMetaContactSorting then
    Dom.replaceChild
      (.element "MetaContactPositions" [] (metaContactElements qt ids s.contacts)) rootElement
  else rootElement

/-- `manualMetaContactSort`. -/
def manualMetaContactSort (positions : Nat → Option Int) (mc1 mc2 : Nat) : Prop :=
  valueOf positions mc1 < valueOf positions mc2

instance (positions : Nat → Option Int) (mc1 mc2 : Nat) :
    Decidable (manualMetaContactSort positions mc1 mc2) := inferInstanceAs (Decidable (_ < _))

/-- `ContactListPlainModel::loadModelSettingsImpl`. -/
def loadModelSettingsImpl (qt : QtTexts) (ids : ListIds) (rootElement : Option DomNode) :
    ContactListPlainModel :=
  if s.manualMetaContactSorting then
    match rootElement.bind (Dom.firstChild "MetaContactPositions") with
    | none => s
    | some metaContactRootElement =>
      let uuidToMetaContact :=
        SavedOrder.insertAll (fun mc => some (ids.metaContact mc)) id s.contacts fun _ => none
      let metaContactList :=
        (Dom.elementsByTagName "MetaContact" metaContactRootElement).map (·.2)
      let positions := readPositions qt uuidToMetaContact metaContactList fun _ => none
      { s with
        contacts := s.contacts.insertionSort fun mc1 mc2 =>
          ¬ manualMetaContactSort positions mc2 mc1 }
  else s

variable {s}

/-- **The order of the plain model** is the saved one; what is not known to that comes first, as it
was. -/
theorem contacts_load_save {qt : QtTexts} {ids ids' : ListIds} {s' : ContactListPlainModel}
    (hManual : s.manualMetaContactSorting = true) (hManual' : s'.manualMetaContactSorting = true)
    (hNodup : s.contacts.Nodup) (hNodup' : s'.contacts.Nodup)
    (hShort : s.contacts.length ≤ 2 ^ 31)
    (hUuid : ∀ m ∈ s.contacts,
      qt.uuidOfString (qt.uuidToString (ids.metaContact m)) = ids.metaContact m)
    (hDistinct : ∀ m ∈ s'.contacts, ∀ m' ∈ s'.contacts,
      ids'.metaContact m = ids'.metaContact m' → m = m')
    (hSame : ∀ m ∈ s.contacts, ∀ m' ∈ s'.contacts,
      ids.metaContact m = ids'.metaContact m' ↔ m = m')
    {rootElement : DomNode} (hRoot : rootElement.isElement = true)
    (hOne : rootElement.children.countP (fun c => c.tagName = "MetaContactPositions") ≤ 1) :
    (s'.loadModelSettingsImpl qt ids'
        (some (s.saveModelSettingsImpl qt ids rootElement))).contacts =
      s'.contacts.filter (· ∉ s.contacts) ++ s.contacts.filter (· ∈ s'.contacts) := by
  have hFound : Dom.firstChild "MetaContactPositions" (s.saveModelSettingsImpl qt ids rootElement) =
      some (.element "MetaContactPositions" [] (metaContactElements qt ids s.contacts)) := by
    rw [saveModelSettingsImpl, if_pos hManual]
    exact Dom.firstChild_replaceChild
      (c := .element "MetaContactPositions" [] (metaContactElements qt ids s.contacts)) hRoot hOne
  have hPosition : ∀ m ∈ s'.contacts, valueOf (readPositions qt
      (SavedOrder.insertAll (fun mc => some (ids'.metaContact mc)) id s'.contacts fun _ => none)
      (metaContactElements qt ids s.contacts) fun _ => none) m =
      SavedOrder.position s.contacts m := by
    intro m hm
    have hLookup : ∀ m' ∈ s.contacts,
        SavedOrder.insertAll (fun mc => some (ids'.metaContact mc)) id s'.contacts (fun _ => none)
          (ids.metaContact m') = some m ↔ m' = m := by
      intro m' hm'
      rw [SavedOrder.insertAll_id_iff hDistinct, and_iff_right hm, ← hSame m' hm' m hm, eq_comm]
    rw [valueOf, readPositions_metaContactElements hUuid hNodup hShort hLookup,
      SavedOrder.position]
    split <;> rfl
  rw [loadModelSettingsImpl, if_pos hManual', Option.bind_some, hFound]
  simp only [elementsByTagName_metaContactElements]
  rw [← SavedOrder.insertionSort_position hNodup' hNodup]
  refine SavedOrder.insertionSort_congr fun a ha b hb => ?_
  rw [manualMetaContactSort, hPosition a ha, hPosition b hb, not_lt]

end ContactListPlainModel

end Kopete.UI
