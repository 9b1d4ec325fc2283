import Kopete.Libkopete.XmlContactStorage

/-!
# libkopete — elements of the contact list, read back

The data of plugins, the data that plugins keep of contacts, and the icons are written one
element after the other, and read one by one. A record that is empty takes those before it
with it; whether icons are used is only written when there are some.

Main results:

* `reread_new` — what is read of what is written.
-/

namespace Kopete

/-! ## Elements of the contact list -/

namespace ListElement

variable (e : ListElement)

@[simp] theorem pluginDataOf_new (k : QString) : new.pluginDataOf k = .empty := rfl

@[simp] theorem pluginContactDataOf_new (k : QString) : new.pluginContactDataOf k = [] := rfl

theorem pluginDataOf_setPluginData (pluginId : QString) (data : PluginData) (k : QString) :
    (e.setPluginData pluginId data).pluginDataOf k =
      if k = pluginId then data else e.pluginDataOf k := by
  unfold setPluginData pluginDataOf
  simp only
  split
  · next hEmpty =>
    rw [QMap.find?_erase]
    split
    · exact (QMap.isEmpty_iff.1 hEmpty).symm
    · rfl
  · rw [QMap.find?_insert]
    split <;> rfl

/-- One more record, or none when it is empty. -/
def addRecord (records : List PluginData) (data : PluginData) : List PluginData :=
  if data.isEmpty then [] else records ++ [data]

theorem pluginContactDataOf_appendPluginContactData (pluginId : QString) (data : PluginData)
    (k : QString) :
    (e.appendPluginContactData pluginId data).pluginContactDataOf k =
      if k = pluginId then addRecord (e.pluginContactDataOf k) data
      else e.pluginContactDataOf k := by
  unfold appendPluginContactData pluginContactDataOf addRecord
  simp only
  by_cases hEmpty : data.isEmpty = true
  · rw [if_pos hEmpty, QMap.find?_erase]
    by_cases hSame : k = pluginId <;> simp [hSame, hEmpty]
  · rw [if_neg hEmpty, QMap.find?_insert]
    by_cases hSame : k = pluginId <;> simp [hSame, hEmpty]

theorem pluginContactDataOf_setPluginContactData (pluginId : QString)
    (dataList : List PluginData) (k : QString) :
    (e.setPluginContactData pluginId dataList).pluginContactDataOf k =
      if k = pluginId then dataList else e.pluginContactDataOf k := by
  unfold setPluginContactData pluginContactDataOf
  simp only
  split
  · next hEmpty =>
    rw [QMap.find?_erase]
    split
    · exact (List.isEmpty_iff.1 hEmpty).symm
    · rfl
  · rw [QMap.find?_insert]
    split <;> rfl

end ListElement

namespace XmlContactStorage

open ListElement

theorem parse_pluginData (e : ListElement) (pluginId : QString) (data : PluginData) :
    parseContactListElement e (dataElement "plugin-data" pluginId data) =
      e.setPluginData pluginId data := by
  have hFields : fieldsOf (dataElement "plugin-data" pluginId data) = data.entries :=
    fieldsOf_pluginElement pluginId data
  have hTag : (dataElement "plugin-data" pluginId data).tagName = "plugin-data" := rfl
  unfold parseContactListElement
  rw [if_pos hTag, hFields, QMap.ofList_entries]
  rfl

theorem parse_pluginContactData (e : ListElement) (pluginId : QString) (data : PluginData) :
    parseContactListElement e (dataElement "plugin-contact-data" pluginId data) =
      e.appendPluginContactData pluginId data := by
  have hFields : fieldsOf (dataElement "plugin-contact-data" pluginId data) = data.entries :=
    fieldsOf_pluginElement pluginId data
  have hTag : (dataElement "plugin-contact-data" pluginId data).tagName =
    "plugin-contact-data" := rfl
  unfold parseContactListElement
  rw [hTag, if_neg (by decide), if_pos rfl, hFields, QMap.ofList_entries]
  rfl

/-- A key does not come again. -/
theorem find?_eq_none_of_nodup {ν : Type*} {p : QString × ν} {es : List (QString × ν)}
    (h : ((p :: es).map (·.1)).Nodup) {q : QString × ν → Bool}
    (hq : ∀ p', q p' = true ↔ p'.1 = p.1) : es.find? q = none := by
  refine List.find?_eq_none.2 ?_
  intro p' hp' hSame
  exact (List.nodup_cons.1 h).1 (List.mem_map.2 ⟨p', hp', (hq p').1 hSame⟩)

/-- The data of plugins. -/
theorem pluginDataOf_foldl (es : List (QString × PluginData)) (h : (es.map (·.1)).Nodup)
    (e : ListElement) {k : QString} {q : QString × PluginData → Bool}
    (hq : ∀ p, q p = true ↔ p.1 = k) :
    (es.foldl (fun e p => e.setPluginData p.1 p.2) e).pluginDataOf k =
      ((es.find? q).map (·.2)).getD (e.pluginDataOf k) := by
  induction es generalizing e with
  | nil => rfl
  | cons p es ih =>
    rw [List.foldl_cons, ih (List.nodup_cons.1 h).2, pluginDataOf_setPluginData, List.find?_cons]
    by_cases hSame : p.1 = k
    · subst hSame
      simp [find?_eq_none_of_nodup h hq, (hq p).2 rfl]
    · have hOther : q p = false := Bool.eq_false_iff.2 fun hHere => hSame ((hq p).1 hHere)
      simp [hOther, Ne.symm hSame]

/-- The records of one plugin. -/
theorem pluginContactDataOf_records (pluginId : QString) (ds : List PluginData)
    (e : ListElement) (k : QString) :
    (ds.foldl (fun e d => e.appendPluginContactData pluginId d) e).pluginContactDataOf k =
      if k = pluginId then ds.foldl addRecord (e.pluginContactDataOf k)
      else e.pluginContactDataOf k := by
  induction ds generalizing e with
  | nil => simp
  | cons d ds ih =>
    rw [List.foldl_cons, ih, pluginContactDataOf_appendPluginContactData]
    by_cases hSame : k = pluginId
    · simp only [hSame, if_true, List.foldl_cons]
    · simp only [hSame, if_false]

/-- The records of all plugins. -/
theorem pluginContactDataOf_foldl (es : List (QString × List PluginData))
    (h : (es.map (·.1)).Nodup) (e : ListElement) {k : QString}
    {q : QString × List PluginData → Bool} (hq : ∀ p, q p = true ↔ p.1 = k) :
    (es.foldl (fun e p => p.2.foldl (fun e d => e.appendPluginContactData p.1 d) e)
        e).pluginContactDataOf k =
      (((es.find? q).map (·.2)).getD []).foldl addRecord (e.pluginContactDataOf k) := by
  induction es generalizing e with
  | nil => rfl
  | cons p es ih =>
    rw [List.foldl_cons, ih (List.nodup_cons.1 h).2, pluginContactDataOf_records, List.find?_cons]
    by_cases hSame : p.1 = k
    · subst hSame
      simp [find?_eq_none_of_nodup h hq, (hq p).2 rfl]
    · have hOther : q p = false := Bool.eq_false_iff.2 fun hHere => hSame ((hq p).1 hHere)
      simp [hOther, Ne.symm hSame]

theorem stringToState_stateToString (state : IconState) :
    stringToState (stateToString state) = state := by
  cases state <;> decide

/-- The icons, read into an element that has none. -/
theorem parse_icons (e : ListElement) (use : Bool) (icons : QMap IconState QString)
    (hNone : e.icons = .empty) :
    parseContactListElement e (.element "custom-icons" [("use", latin1 (if use then "1" else "0"))]
        (icons.entries.map fun icon =>
          .element "icon" [("state", stateToString icon.1)] [.text icon.2])) =
      { e with icons := icons, useCustomIcon := use } := by
  generalize hElement : (Dom.Node.element "custom-icons" _ _ : DomNode) = element
  have hTag : element.tagName = "custom-icons" := by rw [← hElement]; rfl
  have hUse : decide (element.attr "use" (latin1 "1") = latin1 "1") = use := by
    have hAttr : element.attr "use" (latin1 "1") = latin1 (if use then "1" else "0") := by
      rw [← hElement]
      simp [Dom.Node.attr, Dom.Node.attributes]
    rw [hAttr]
    cases use <;> decide
  have hFilter : element.children.filter (·.tagName = "icon") = element.children := by
    rw [← hElement]
    refine List.filter_eq_self.2 ?_
    intro c hc
    obtain ⟨icon, -, rfl⟩ := List.mem_map.1 hc
    exact decide_eq_true rfl
  have hFold : ∀ (es : List (IconState × QString)) (e : ListElement),
      (es.map fun icon => (Dom.Node.element "icon" [("state", stateToString icon.1)]
        [.text icon.2] : DomNode)).foldl
          (fun e icon => e.setIcon (Dom.textOf icon) (stringToState (icon.attr "state" []))) e =
        { e with icons := es.foldl (fun m icon => m.insert icon.1 icon.2) e.icons } := by
    intro es
    induction es with
    | nil => exact fun _ => rfl
    | cons icon es ih =>
      intro e
      rw [List.map_cons, List.foldl_cons, ih, List.foldl_cons]
      simp [setIcon, Dom.Node.attr, Dom.Node.attributes, Dom.textOf, Dom.textOfAll,
        stringToState_stateToString]
  unfold parseContactListElement
  rw [hTag, if_neg (by decide), if_neg (by decide), if_pos rfl, hUse, hFilter, ← hElement,
    Dom.Node.children, hFold]
  simp only [hNone]
  exact congrArg (fun m => { e with icons := m, useCustomIcon := use }) (QMap.ofList_entries icons)

theorem foldl_setPluginData_frame (es : List (QString × PluginData)) (e : ListElement) :
    let e' := es.foldl (fun e p => e.setPluginData p.1 p.2) e
    e'.pluginContactData = e.pluginContactData ∧ e'.icons = e.icons ∧
      e'.useCustomIcon = e.useCustomIcon := by
  induction es generalizing e with
  | nil => exact ⟨rfl, rfl, rfl⟩
  | cons p es ih => exact ih (e.setPluginData p.1 p.2)

theorem foldl_appendPluginContactData_frame (es : List (QString × PluginData))
    (e : ListElement) :
    let e' := es.foldl (fun e p => e.appendPluginContactData p.1 p.2) e
    e'.pluginData = e.pluginData ∧ e'.icons = e.icons ∧ e'.useCustomIcon = e.useCustomIcon := by
  induction es generalizing e with
  | nil => exact ⟨rfl, rfl, rfl⟩
  | cons p es ih => exact ih (e.appendPluginContactData p.1 p.2)

/-- Icons are no data of plugins. -/
theorem pluginData_parse_icons (e : ListElement) (a : List (String × QString))
    (cs : List DomNode) :
    (parseContactListElement e (.element "custom-icons" a cs)).pluginData = e.pluginData := by
  have hFold : ∀ (icons : List DomNode) (e : ListElement),
      (icons.foldl (fun e icon => e.setIcon (Dom.textOf icon)
        (stringToState (icon.attr "state" []))) e).pluginData = e.pluginData := by
    intro icons
    induction icons with
    | nil => exact fun _ => rfl
    | cons icon icons ih => exact fun e => ih _
  exact hFold _ _

/-- The records of contacts, each with its plugin. -/
def recordsOf (e : ListElement) : List (QString × PluginData) :=
  e.pluginContactData.entries.flatMap fun p => p.2.map fun d => (p.1, d)

/-- The element with the icons, if there are any. -/
def iconsOf (e : ListElement) : List DomNode :=
  if e.icons.isEmpty then []
  else
    [.element "custom-icons" [("use", latin1 (if e.useCustomIcon then "1" else "0"))]
      (e.icons.entries.map fun icon =>
        .element "icon" [("state", stateToString icon.1)] [.text icon.2])]

/-- The element, read from what is stored of `e` into `e₀`. -/
def reread (e₀ e : ListElement) : ListElement :=
  (storeContactListElement e).foldl parseContactListElement e₀

/-- Reading is first the data of plugins, then the records of contacts, then icons. -/
theorem reread_eq (e₀ e : ListElement) :
    reread e₀ e =
      (iconsOf e).foldl parseContactListElement
        ((recordsOf e).foldl (fun e p => e.appendPluginContactData p.1 p.2)
          (e.pluginData.entries.foldl (fun e p => e.setPluginData p.1 p.2) e₀)) := by
  have hRecords : (e.pluginContactData.entries.flatMap fun plugin =>
      plugin.2.map (dataElement "plugin-contact-data" plugin.1)) =
        (recordsOf e).map fun p => dataElement "plugin-contact-data" p.1 p.2 := by
    unfold recordsOf
    rw [List.map_flatMap]
    refine List.flatMap_congr ?_
    intro p _
    rw [List.map_map]
    rfl
  unfold reread storeContactListElement
  rw [List.foldl_append, List.foldl_append, hRecords, List.foldl_map, List.foldl_map]
  simp only [parse_pluginData, parse_pluginContactData]
  rfl

/-- **The data of plugins** takes the place of older data. -/
theorem pluginDataOf_reread (e₀ e : ListElement) (k : QString) :
    (reread e₀ e).pluginDataOf k = (e.pluginData.find? k).getD (e₀.pluginDataOf k) := by
  have hIcons : ∀ e' : ListElement,
      ((iconsOf e).foldl parseContactListElement e').pluginData = e'.pluginData := by
    intro e'
    unfold iconsOf
    split
    · rfl
    · exact pluginData_parse_icons _ _ _
  have hData := pluginDataOf_foldl e.pluginData.entries (QMap.nodup_keys _) e₀
    (k := k) fun _ => decide_eq_true_iff
  have hFrame := foldl_appendPluginContactData_frame (recordsOf e)
    (e.pluginData.entries.foldl (fun e p => e.setPluginData p.1 p.2) e₀)
  unfold pluginDataOf at hData ⊢
  rw [reread_eq, hIcons, hFrame.1, hData,
    QMap.find?_eq (m := e.pluginData) fun _ => decide_eq_true_iff]

theorem pluginDataOf_reread_same {e₀ e : ListElement}
    (h : e₀ = .new ∨ e₀.pluginDataOf = e.pluginDataOf) :
    (reread e₀ e).pluginDataOf = e.pluginDataOf := by
  funext k
  rw [pluginDataOf_reread]
  cases hFind : e.pluginData.find? k with
  | some data => simp [pluginDataOf, hFind]
  | none =>
    rw [Option.getD_none]
    rcases h with rfl | h
    · have hNone : e.pluginDataOf k = .empty := by simp [pluginDataOf, hFind]
      rw [hNone]
      rfl
    · rw [h]

/-- **Data and icons of an element**, read into a new one. -/
theorem reread_new (e : ListElement) :
    (∀ k, (reread .new e).pluginDataOf k = e.pluginDataOf k) ∧
      (∀ k, (reread .new e).pluginContactDataOf k =
        (e.pluginContactDataOf k).foldl addRecord []) ∧
      (reread .new e).icons = e.icons ∧
      (reread .new e).useCustomIcon = (!e.icons.isEmpty && e.useCustomIcon) := by
  refine ⟨pluginDataOf_reread .new e, ?_⟩
  rw [reread_eq]
  obtain ⟨hContact, hIcons, hUse⟩ :=
    foldl_setPluginData_frame e.pluginData.entries ListElement.new
  generalize e.pluginData.entries.foldl (fun (e : ListElement) p => e.setPluginData p.1 p.2)
    ListElement.new = e₁ at *
  obtain ⟨-, hIcons', hUse'⟩ := foldl_appendPluginContactData_frame (recordsOf e) e₁
  have hRecords : ∀ k, ((recordsOf e).foldl (fun e p => e.appendPluginContactData p.1 p.2)
      e₁).pluginContactDataOf k = (e.pluginContactDataOf k).foldl addRecord [] := by
    intro k
    unfold recordsOf
    rw [List.foldl_flatMap]
    simp only [List.foldl_map]
    rw [pluginContactDataOf_foldl _ (QMap.nodup_keys _) _ fun _ => decide_eq_true_iff]
    unfold pluginContactDataOf
    rw [hContact, QMap.find?_eq (m := e.pluginContactData) fun _ => decide_eq_true_iff]
    rfl
  generalize (recordsOf e).foldl
    (fun (e : ListElement) p => e.appendPluginContactData p.1 p.2) e₁ = e₂ at *
  have hNone : e₂.icons = .empty := hIcons'.trans hIcons
  unfold iconsOf
  split
  · next hEmpty =>
    refine ⟨hRecords, ?_, ?_⟩
    · exact hNone.trans (QMap.isEmpty_iff.1 hEmpty).symm
    · rw [hEmpty]
      exact hUse'.trans hUse
  · next hSome =>
    rw [List.foldl_cons, List.foldl_nil, parse_icons _ _ _ hNone]
    refine ⟨hRecords, rfl, ?_⟩
    simp [hSome]

end XmlContactStorage

end Kopete
