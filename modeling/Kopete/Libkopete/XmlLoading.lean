import Kopete.Libkopete.XmlDocument
import Mathlib

/-!
# libkopete — loading what was stored

Groups come first, each with the id it had; then the metacontacts, whose groups are looked
up by their ids among those that are there. The name of the top level is written, but not
read.

Main results:

* `groupsRead` — the groups that are there after theirs were read;
* `parse_metaContactElement` — what is read of a metacontact.
-/

namespace Kopete

namespace XmlContactStorage

open ListElement XmlStorage

variable (qt : QtTexts) (contact : Nat → ContactInfo) {s t : XmlStorage}

/-! ## Loading groups -/

theorem tagName_stored {e : ListElement} {n : DomNode} (h : n ∈ storeContactListElement e) :
    n.tagName = "plugin-data" ∨ n.tagName = "plugin-contact-data" ∨
      n.tagName = "custom-icons" := by
  unfold storeContactListElement at h
  rcases List.mem_append.1 h with h | h
  · rcases List.mem_append.1 h with h | h
    · obtain ⟨p, -, rfl⟩ := List.mem_map.1 h
      exact Or.inl rfl
    · obtain ⟨p, -, h⟩ := List.mem_flatMap.1 h
      obtain ⟨d, -, rfl⟩ := List.mem_map.1 h
      exact Or.inr (Or.inl rfl)
  · split at h
    · cases h
    · rw [List.mem_singleton.1 h]
      exact Or.inr (Or.inr rfl)

theorem isElement_of_tagName {n : DomNode}
    (h : n.tagName = "plugin-data" ∨ n.tagName = "plugin-contact-data" ∨
      n.tagName = "custom-icons") : n.isElement = true := by
  cases n with
  | element tag a cs => rfl
  | text s =>
    have hNone : (Dom.Node.text s : DomNode).tagName = "" := rfl
    rw [hNone] at h
    rcases h with h | h | h <;> exact absurd h (by decide)

/-- Children that are no names. -/
theorem foldl_parseGroupChild_data (g : Group) (ns : List DomNode)
    (h : ∀ n ∈ ns, n.tagName ≠ "display-name") (t : XmlStorage) :
    ns.foldl (parseGroupChild g) t =
      t.setGroup g fun d => { d with element := ns.foldl parseContactListElement d.element } := by
  induction ns generalizing t with
  | nil => exact (setGroup_id t g).symm
  | cons n ns ih =>
    have hHere : parseGroupChild g t n =
        t.setGroup g fun d => { d with element := parseContactListElement d.element n } :=
      if_neg (h n List.mem_cons_self)
    rw [List.foldl_cons, hHere, ih fun n' hn' => h n' (List.mem_cons_of_mem _ hn'),
      setGroup_setGroup]
    rfl

theorem specialGroup_groupElement (g : Group) :
    specialGroup (groupElement s g) = if g.isNormal then none else some g := by
  have hType : (groupElement s g).attr "type" (latin1 "standard") = typeToString g := by
    simp [groupElement, Dom.Node.attr, Dom.Node.attributes]
  unfold specialGroup
  simp only [hType]
  cases g with
  | normal k =>
    have hNone : typeToString (.normal k) = latin1 "standard" := rfl
    rw [hNone, if_neg (by decide), if_neg (by decide), if_neg (by decide)]
    rfl
  | _ => decide

/-- The id of a stored group. -/
theorem readGroupId_stored {g : Group} (h : (s.data g).groupId ≠ 0)
    (hLt : (s.data g).groupId < 2 ^ 32) (g' : Group) :
    ∃ n, readGroupId g' (groupElement s g) t =
      { t.setGroupId g' (s.data g).groupId with uniqueGroupId := n } := by
  have hAttr : (groupElement s g).attr "groupId" [] = number (s.data g).groupId := by
    simp [groupElement, Dom.Node.attr, Dom.Node.attributes]
  have hGiven : ((t.setGroupId g' (s.data g).groupId).data g').groupId = (s.data g).groupId := by
    simp [setGroupId, setGroup]
  unfold readGroupId
  rw [hAttr, if_neg (number_ne_nil _), toUInt_number hLt, groupId_given (by rwa [hGiven])]
  simp only
  split
  · exact ⟨_, rfl⟩
  · exact ⟨t.uniqueGroupId, rfl⟩

/-- What a stored group says, in the group `g'`, which has its name if it is a normal one. -/
def readInto (s t : XmlStorage) (g g' : Group) : XmlStorage :=
  t.setGroup g' fun d =>
    ⟨if g'.isNormal then (s.data g).displayName else d.displayName, (s.data g).expanded,
      d.groupId, reread d.element (s.data g).element⟩

theorem foldl_parseGroupChild_stored (g g' : Group) :
    (groupElement s g).children.foldl (parseGroupChild g')
        (t.setGroup g' fun d => { d with expanded := (s.data g).expanded }) =
      readInto s t g g' := by
  have hTags : ∀ n ∈ storeContactListElement (s.data g).element, n.tagName ≠ "display-name" := by
    intro n hn
    rcases tagName_stored hn with h | h | h <;> rw [h] <;> decide
  have hName : parseGroupChild g'
      (t.setGroup g' fun d => { d with expanded := (s.data g).expanded })
        (.element "display-name" [] [.text (s.data g).displayName]) =
      t.setGroup g' fun d =>
        { d with
          expanded := (s.data g).expanded
          displayName := if g'.isNormal then (s.data g).displayName else d.displayName } := by
    have hText : Dom.textOf (.element "display-name" [] [.text (s.data g).displayName] : DomNode) =
        (s.data g).displayName := List.append_nil _
    have hTag : (.element "display-name" [] [.text (s.data g).displayName] : DomNode).tagName =
        "display-name" := rfl
    unfold parseGroupChild
    rw [if_pos hTag, hText]
    by_cases hNormal : g'.isNormal = true
    · simp only [hNormal, if_true]
      rw [setGroup_setGroup]
    · simp [hNormal]
  unfold groupElement
  rw [Dom.Node.children, List.foldl_cons, foldl_parseGroupChild_data _ _ hTags, hName,
    setGroup_setGroup]
  rfl

/-- **The element of a group.** A normal group must have a name. -/
theorem parseGroupContents_stored (g g' : Group)
    (h : ((readInto s t g g').data g').displayName ≠ [] ∨ g'.isNormal = true) :
    parseGroupContents g' (groupElement s g) t =
      (decide (((readInto s t g g').data g').displayName ≠ [] ∧ g'.isNormal = true),
        readInto s t g g') := by
  have hView : decide ((groupElement s g).attr "view" (latin1 "expanded") ≠
      latin1 "collapsed") = (s.data g).expanded := by
    have hAttr : (groupElement s g).attr "view" (latin1 "expanded") =
        latin1 (if (s.data g).expanded then "expanded" else "collapsed") := by
      simp [groupElement, Dom.Node.attr, Dom.Node.attributes]
    rw [hAttr]
    cases (s.data g).expanded <;> decide
  unfold parseGroupContents
  simp only [hView, foldl_parseGroupChild_stored]
  by_cases hNamed : ((readInto s t g g').data g').displayName = []
  · rw [if_pos hNamed]
    cases g' with
    | normal k => simp [sanityName, hNamed]
    | _ =>
      rcases h with h | h
      · exact absurd hNamed h
      · cases h
  · rw [if_neg hNamed]
    simp [hNamed]

/-- The group is kept: one that is normal and has a name. -/
def isKept (s : XmlStorage) (g : Group) : Bool := g.isNormal ∧ (s.data g).displayName ≠ []

/-- What loading a stored group leaves. Other groups stay as they are. -/
structure GroupLoaded (s t : XmlStorage) (g : Group) (t' : XmlStorage) : Prop where
  nextGroup : t'.nextGroup = t.nextGroup + 1
  metaContactList : t'.metaContactList = t.metaContactList
  groupList : t'.groupList = t.groupList ++ (if isKept s g then [.normal t.nextGroup] else [])
  other : ∀ x, x ≠ .normal t.nextGroup → (x = g → g.isNormal = true) → t'.data x = t.data x
  kept : isKept s g = true → t'.data (.normal t.nextGroup) =
    ⟨(s.data g).displayName, (s.data g).expanded, (s.data g).groupId,
      reread .new (s.data g).element⟩
  special : g.isNormal = false → t'.data g =
    ⟨(t.data g).displayName, (s.data g).expanded, (s.data g).groupId,
      reread (t.data g).element (s.data g).element⟩

/-- A group has been made that has the id of the stored one. -/
def withGroupId (t : XmlStorage) (id n : Nat) : XmlStorage :=
  { (t.newGroup []).2.setGroupId (.normal t.nextGroup) id with uniqueGroupId := n }

/-- The element of a group makes a new one, which is added if it is parsed. -/
theorem loadGroup_groupElement (g : Group) :
    loadGroup t (groupElement s g) =
      if (parseGroup (.normal t.nextGroup) (groupElement s g) (t.newGroup []).2).1 then
        (parseGroup (.normal t.nextGroup) (groupElement s g) (t.newGroup []).2).2.addGroup
          (.normal t.nextGroup)
      else
        (parseGroup (.normal t.nextGroup) (groupElement s g) (t.newGroup []).2).2.deleteGroup
          (.normal t.nextGroup) := rfl

theorem loadGroup_of_normal {g : Group} (hId : (s.data g).groupId ≠ 0)
    (hLt : (s.data g).groupId < 2 ^ 32) (hNormal : g.isNormal = true) :
    ∃ n, loadGroup t (groupElement s g) =
      let u := readInto s (withGroupId t (s.data g).groupId n) g (.normal t.nextGroup)
      if isKept s g then u.addGroup (.normal t.nextGroup)
      else u.deleteGroup (.normal t.nextGroup) := by
  obtain ⟨n, hRead⟩ := readGroupId_stored (t := (t.newGroup []).2) hId hLt (.normal t.nextGroup)
  refine ⟨n, ?_⟩
  rw [loadGroup_groupElement]
  have hKept : decide (((readInto s (withGroupId t (s.data g).groupId n) g
      (.normal t.nextGroup)).data (.normal t.nextGroup)).displayName ≠ [] ∧
        (Group.normal t.nextGroup).isNormal = true) = isKept s g := by
    have hNew : (Group.normal t.nextGroup).isNormal = true := rfl
    simp [isKept, hNormal, readInto, setGroup, hNew]
  unfold parseGroup
  rw [hRead, specialGroup_groupElement, hNormal, if_pos rfl]
  simp only
  rw [show { (t.newGroup []).2.setGroupId (.normal t.nextGroup) (s.data g).groupId with
    uniqueGroupId := n } = withGroupId t (s.data g).groupId n from rfl,
    parseGroupContents_stored g _ (Or.inr rfl)]
  simp only [hKept]

theorem loaded_of_normal {g : Group} (hId : (s.data g).groupId ≠ 0)
    (hLt : (s.data g).groupId < 2 ^ 32) (hNormal : g.isNormal = true) :
    GroupLoaded s t g (loadGroup t (groupElement s g)) := by
  obtain ⟨n, hLoad⟩ := loadGroup_of_normal (t := t) hId hLt hNormal
  have hData : (readInto s (withGroupId t (s.data g).groupId n) g (.normal t.nextGroup)).data =
      Function.update t.data (.normal t.nextGroup)
        ⟨(s.data g).displayName, (s.data g).expanded, (s.data g).groupId,
          reread .new (s.data g).element⟩ := by
    simp [readInto, withGroupId, newGroup, setGroup, setGroupId, GroupData.named, Group.isNormal]
  have hSpecial : g.isNormal ≠ false := by rw [hNormal]; exact Bool.true_eq_false_eq_False
  rw [hLoad]
  by_cases hKeep : isKept s g = true
  · simp only [if_pos hKeep]
    refine ⟨rfl, rfl, ?_, fun x hx _ => ?_, fun _ => ?_, fun hNot => absurd hNot hSpecial⟩
    · rw [if_pos hKeep]
      rfl
    · exact (congrFun hData x).trans (Function.update_of_ne hx _ _)
    · exact (congrFun hData _).trans (Function.update_self ..)
  · simp only [if_neg hKeep]
    refine ⟨rfl, rfl, ?_, fun x hx _ => ?_, fun hKeep' => absurd hKeep' hKeep,
      fun hNot => absurd hNot hSpecial⟩
    · rw [if_neg hKeep, List.append_nil]
      rfl
    · simp only [deleteGroup, setGroup, Function.update_of_ne hx, hData]

theorem loadGroup_of_special {g : Group} (hId : (s.data g).groupId ≠ 0)
    (hLt : (s.data g).groupId < 2 ^ 32) (hSpecial : g.isNormal = false)
    (hNamed : (t.data g).displayName ≠ []) :
    ∃ n n', loadGroup t (groupElement s g) =
      (readInto s { (withGroupId t (s.data g).groupId n).setGroupId g (s.data g).groupId with
        uniqueGroupId := n' } g g).deleteGroup (.normal t.nextGroup) := by
  obtain ⟨n, hRead⟩ := readGroupId_stored (t := (t.newGroup []).2) hId hLt (.normal t.nextGroup)
  obtain ⟨n', hRead'⟩ := readGroupId_stored (s := s)
    (t := withGroupId t (s.data g).groupId n) hId hLt g
  refine ⟨n, n', ?_⟩
  rw [loadGroup_groupElement]
  have hNe : g ≠ .normal t.nextGroup := by
    rintro rfl
    cases hSpecial
  have hStillNamed : ((readInto s { (withGroupId t (s.data g).groupId n).setGroupId g
      (s.data g).groupId with uniqueGroupId := n' } g g).data g).displayName ≠ [] := by
    simpa [readInto, withGroupId, newGroup, setGroup, setGroupId, hSpecial,
      Function.update_of_ne hNe] using hNamed
  unfold parseGroup
  rw [hRead, specialGroup_groupElement, hSpecial, if_neg (by simp)]
  simp only
  rw [show { (t.newGroup []).2.setGroupId (.normal t.nextGroup) (s.data g).groupId with
    uniqueGroupId := n } = withGroupId t (s.data g).groupId n from rfl, if_neg Bool.false_ne_true]
  simp only
  rw [hRead', parseGroupContents_stored g g (Or.inl hStillNamed)]

theorem loaded_of_special {g : Group} (hId : (s.data g).groupId ≠ 0)
    (hLt : (s.data g).groupId < 2 ^ 32) (hSpecial : g.isNormal = false)
    (hNamed : (t.data g).displayName ≠ []) :
    GroupLoaded s t g (loadGroup t (groupElement s g)) := by
  obtain ⟨n, n', hLoad⟩ := loadGroup_of_special hId hLt hSpecial hNamed
  have hNe : g ≠ .normal t.nextGroup := by
    rintro rfl
    cases hSpecial
  have hNotKept : isKept s g ≠ true := by simp [isKept, hSpecial]
  rw [hLoad]
  refine ⟨rfl, rfl, ?_, fun x hx hOther => ?_, fun hKeep => absurd hKeep hNotKept, fun _ => ?_⟩
  · rw [if_neg hNotKept, List.append_nil]
    rfl
  · have hNotHere : x ≠ g := fun hSame => by
      rw [hOther hSame] at hSpecial
      cases hSpecial
    simp [deleteGroup, readInto, withGroupId, newGroup, setGroup, setGroupId,
      Function.update_of_ne hx, Function.update_of_ne hNotHere]
  · simp [deleteGroup, readInto, withGroupId, newGroup, setGroup, setGroupId, hSpecial,
      Function.update_of_ne hNe]

/-- **A stored group that is loaded.** -/
theorem loadGroup_stored {g : Group} (hId : (s.data g).groupId ≠ 0)
    (hLt : (s.data g).groupId < 2 ^ 32)
    (hNamed : g.isNormal = false → (t.data g).displayName ≠ []) :
    GroupLoaded s t g (loadGroup t (groupElement s g)) := by
  cases hNormal : g.isNormal with
  | true => exact loaded_of_normal hId hLt hNormal
  | false => exact loaded_of_special hId hLt hNormal (hNamed hNormal)

/-- The name that the top level has in a new process. -/
def topLevelName : QString := latin1 "Top Level"

/-- The groups `gs` have been loaded: those that are kept are listed, one after the other,
and the top level has all but its name. -/
structure GroupsRead (s t : XmlStorage) (gs : List Group) : Prop where
  kept : t.groupList.map t.groupContents = (gs.filter (isKept s)).map s.groupContents
  normal : ∀ g ∈ t.groupList, ∃ k < t.nextGroup, g = .normal k
  named : ∀ g, g.isNormal = false → (t.data g).displayName ≠ []
  topLevelName : (t.data .topLevel).displayName = topLevelName
  topLevel : .topLevel ∈ gs → t.groupContents .topLevel =
    { s.groupContents .topLevel with displayName := XmlContactStorage.topLevelName }
  untouched : .topLevel ∉ gs → (t.data .topLevel).element = .new
  metaContacts : t.metaContactList = []

theorem groupsRead_new : GroupsRead s .new [] := by
  refine ⟨rfl, ?_, ?_, rfl, ?_, fun _ => rfl, rfl⟩
  · intro g hg
    cases hg
  · intro g hg
    cases g with
    | normal k => cases hg
    | _ => decide
  · intro hMem
    cases hMem

theorem GroupLoaded.unchanged {g : Group} {t' : XmlStorage} (h : GroupLoaded s t g t')
    {x : Group} (hx : x.isNormal = false) (hNe : x ≠ g) : t'.data x = t.data x := by
  refine h.other x ?_ fun hSame => absurd hSame hNe
  rintro rfl
  cases hx

/-- The groups that are listed already are older than the new one. -/
theorem GroupLoaded.groupContents_old {g : Group} {t' : XmlStorage} (h : GroupLoaded s t g t')
    (hNormal : ∀ g ∈ t.groupList, ∃ k < t.nextGroup, g = .normal k) :
    t.groupList.map t'.groupContents = t.groupList.map t.groupContents := by
  refine List.map_congr_left fun g' hg' => ?_
  have hOld : t'.data g' = t.data g' := by
    obtain ⟨k, hk, rfl⟩ := hNormal g' hg'
    refine h.other _ ?_ ?_
    · intro hSame
      rw [Group.normal.inj hSame] at hk
      exact lt_irrefl _ hk
    · rintro rfl
      rfl
  unfold groupContents
  rw [hOld]

theorem GroupLoaded.groupContents_new {g : Group} {t' : XmlStorage} (h : GroupLoaded s t g t')
    (hKeep : isKept s g = true) :
    t'.groupContents (.normal t.nextGroup) = s.groupContents g := by
  have hNormal : g.isNormal = true := by
    simp only [isKept, decide_eq_true_eq] at hKeep
    exact hKeep.1
  have hType : Group.type (.normal t.nextGroup) = g.type := by
    cases g with
    | normal k => rfl
    | _ => cases hNormal
  unfold groupContents
  rw [h.kept hKeep, hType]
  congr 1
  exact pluginDataOf_reread_same (Or.inl rfl)

/-- The top level is given all but its name, whether or not it has been read before. -/
theorem GroupsRead.topLevel_loaded {gs : List Group} (h : GroupsRead s t gs) {g : Group}
    {t' : XmlStorage} (hLoaded : GroupLoaded s t g t') (hMem : .topLevel ∈ gs ++ [g]) :
    t'.groupContents .topLevel =
      { s.groupContents .topLevel with displayName := XmlContactStorage.topLevelName } := by
  by_cases hSame : Group.topLevel = g
  · subst hSame
    unfold groupContents
    rw [hLoaded.special rfl, h.topLevelName]
    congr 1
    refine pluginDataOf_reread_same ?_
    by_cases hBefore : .topLevel ∈ gs
    · exact Or.inr (congrArg GroupContents.pluginData (h.topLevel hBefore))
    · exact Or.inl (h.untouched hBefore)
  · have hBefore : .topLevel ∈ gs := by
      rcases List.mem_append.1 hMem with hMem | hMem
      · exact hMem
      · exact absurd (List.mem_singleton.1 hMem) hSame
    have hContents := h.topLevel hBefore
    unfold groupContents at hContents ⊢
    rw [hLoaded.unchanged rfl hSame]
    exact hContents

/-- **One more group.** -/
theorem GroupsRead.loadGroup {gs : List Group} (h : GroupsRead s t gs) {g : Group}
    (hId : (s.data g).groupId ≠ 0) (hLt : (s.data g).groupId < 2 ^ 32) :
    GroupsRead s (loadGroup t (groupElement s g)) (gs ++ [g]) := by
  have hLoaded := loadGroup_stored hId hLt (h.named g)
  refine ⟨?_, fun g' hg' => ?_, fun x hx => ?_, ?_, h.topLevel_loaded hLoaded, fun hNone => ?_,
    hLoaded.metaContactList.trans h.metaContacts⟩
  · rw [List.filter_append, hLoaded.groupList, List.map_append, List.map_append,
      hLoaded.groupContents_old h.normal, h.kept]
    by_cases hKeep : isKept s g = true
    · rw [if_pos hKeep, List.filter_cons_of_pos hKeep, List.filter_nil, List.map_singleton,
        List.map_singleton, hLoaded.groupContents_new hKeep]
    · rw [if_neg hKeep, List.filter_cons_of_neg hKeep]
      rfl
  · rw [hLoaded.groupList] at hg'
    rw [hLoaded.nextGroup]
    rcases List.mem_append.1 hg' with hg' | hg'
    · obtain ⟨k, hk, hEq⟩ := h.normal g' hg'
      exact ⟨k, Nat.lt_succ_of_lt hk, hEq⟩
    · split at hg'
      · exact ⟨t.nextGroup, Nat.lt_succ_self _, List.mem_singleton.1 hg'⟩
      · cases hg'
  · by_cases hSame : x = g
    · subst hSame
      rw [hLoaded.special hx]
      exact h.named x hx
    · rw [hLoaded.unchanged hx hSame]
      exact h.named x hx
  · by_cases hSame : Group.topLevel = g
    · subst hSame
      rw [hLoaded.special rfl]
      exact h.topLevelName
    · rw [hLoaded.unchanged rfl hSame]
      exact h.topLevelName
  · rw [List.mem_append, List.mem_singleton, not_or] at hNone
    rw [hLoaded.unchanged rfl hNone.2]
    exact h.untouched hNone.1

/-- **The groups of a document.** -/
theorem groupsRead (gs : List Group)
    (h : ∀ g ∈ gs, (s.data g).groupId ≠ 0 ∧ (s.data g).groupId < 2 ^ 32) :
    GroupsRead s ((gs.map (groupElement s)).foldl loadGroup .new) gs := by
  induction gs using List.reverseRecOn with
  | nil => exact groupsRead_new
  | append_singleton gs g ih =>
    rw [List.map_append, List.foldl_append]
    have hGiven := h g (List.mem_append_right _ (List.mem_singleton_self g))
    exact (ih fun g' hg' => h g' (List.mem_append_left _ hg')).loadGroup hGiven.1 hGiven.2

/-! ## Loading a metacontact -/

/-- The group on the list that has the id. -/
def lookup (t : XmlStorage) (id : Nat) : Option Group :=
  t.groupList.find? fun g => (t.data g).groupId = id

theorem groupAmong_given (id : Nat) (gs : List Group) (h : ∀ g ∈ gs, (t.data g).groupId ≠ 0) :
    groupAmong id gs t = (gs.find? fun g => (t.data g).groupId = id, t) := by
  induction gs with
  | nil => rfl
  | cons g gs ih =>
    unfold groupAmong
    rw [groupId_given (h g List.mem_cons_self), List.find?_cons]
    by_cases hSame : (t.data g).groupId = id
    · simp [hSame]
    · simp only [if_neg hSame, decide_eq_false hSame]
      exact ih fun g' hg' => h g' (List.mem_cons_of_mem _ hg')

/-- A list of groups, each added in turn: the top level gives way. -/
def addGroups (gs added : List Group) : List Group :=
  added.foldl (fun gs g => if g ∈ gs then gs else QList.removeAll gs .topLevel ++ [g]) gs

/-- The references of a metacontact that is not temporary. -/
theorem foldl_parseGroupRef (ht : ∀ g ∈ t.groupList, (t.data g).groupId ≠ 0) (gs : List Group)
    (hgs : ∀ g ∈ gs, (s.data g).groupId < 2 ^ 32) (p : Parsing) (hp : p.storage = t)
    (hLasting : p.metaContact.temporary = false) :
    (gs.map (groupRef s)).foldl parseGroupRef p =
      { p with metaContact := { p.metaContact with
        groups := addGroups p.metaContact.groups
          (gs.filterMap fun g => lookup t (s.data g).groupId) } } := by
  induction gs generalizing p with
  | nil => rfl
  | cons g gs ih =>
    have hAttr : (groupRef s g).attr "id" [] = number (s.data g).groupId := by
      simp [groupRef, Dom.Node.attr, Dom.Node.attributes]
    have hTag : (groupRef s g).tagName = "group" := rfl
    have hHere : parseGroupRef p (groupRef s g) =
        { p with metaContact := p.metaContact.addToGroup (lookup t (s.data g).groupId) } := by
      unfold parseGroupRef
      rw [if_pos hTag, hAttr]
      simp only
      rw [if_pos (number_ne_nil _), toUInt_number (hgs g List.mem_cons_self), hp,
        XmlStorage.group, groupAmong_given _ _ ht]
      simp only [← hp]
      rfl
    rw [List.map_cons, List.foldl_cons, hHere]
    have hRest : ∀ g' ∈ gs, (s.data g').groupId < 2 ^ 32 := fun g' hg' =>
      hgs g' (List.mem_cons_of_mem _ hg')
    cases hLookup : lookup t (s.data g).groupId with
    | none =>
      rw [List.filterMap_cons_none (f := fun g => lookup t (s.data g).groupId) hLookup]
      exact ih hRest p hp hLasting
    | some g' =>
      have hAdd : p.metaContact.addToGroup (some g') = { p.metaContact with
          groups := if g' ∈ p.metaContact.groups then p.metaContact.groups
            else QList.removeAll p.metaContact.groups .topLevel ++ [g'] } := by
        have hMeta : p.metaContact.toMetaContact.addToGroup g' = { p.metaContact.toMetaContact with
            groups := if g' ∈ p.metaContact.groups then p.metaContact.groups
              else QList.removeAll p.metaContact.groups .topLevel ++ [g'] } := by
          unfold MetaContact.addToGroup
          by_cases hMem : g' ∈ p.metaContact.groups
          · rw [if_pos hMem, if_pos hMem]
          · rw [if_neg hMem, if_neg hMem, if_neg (by simp [hLasting])]
        exact congrArg (fun m => { p.metaContact with toMetaContact := m }) hMeta
      rw [List.filterMap_cons_some (f := fun g => lookup t (s.data g).groupId) hLookup, hAdd]
      refine (ih hRest _ ?_ ?_).trans rfl
      · exact hp
      · exact hLasting

theorem contactSource_stored (tag : String) (a : List (String × QString)) (o : Option Nat) :
    contactSource (.element tag a (contactSourceElement contact o)) .none =
      sourceIdsOf contact o := by
  cases o with
  | none => rfl
  | some c =>
    simp [contactSource, contactSourceElement, Dom.Node.children, Dom.Node.tagName,
      nameSourceIds, Dom.Node.attr, Dom.Node.attributes, sourceIdsOf, ContactInfo.sourceIds]

theorem stringToSource_sourceToString (source : PropertySource) :
    stringToSource (sourceToString source) = source := by
  cases source <;> decide

theorem textOf_element (tag : String) (a : List (String × QString)) (text : QString) :
    Dom.textOf (.element tag a [.text text] : DomNode) = text := List.append_nil _

/-- The name. -/
theorem parse_displayName (p : Parsing) (name : QString) :
    parseMetaContactChild qt p (.element "display-name" [] [.text name]) =
      { p with metaContact := p.metaContact.setDisplayName (name.filter (· ≠ 10)) } := by
  generalize hElement : (.element "display-name" [] [.text name] : DomNode) = element
  have hTag : element.tagName = "display-name" := by rw [← hElement]; rfl
  have hText : Dom.textOf element = name := by rw [← hElement]; exact textOf_element _ _ _
  have hNoAttribute : ∀ a, element.hasAttribute a = false := by rw [← hElement]; exact fun _ => rfl
  unfold parseMetaContactChild
  rw [if_pos hTag]
  unfold parseDisplayName
  simp only [hText, hNoAttribute]
  rfl

/-- The photo. -/
theorem parse_photo (p : Parsing) (url : QString) (isKabc sync : Bool) :
    parseMetaContactChild qt p (.element "photo"
        (if isKabc then [("syncWithKABC", latin1 (if sync then "true" else "false"))] else [])
        [.text url]) =
      { p with metaContact := { p.metaContact.setPhoto qt url with
        photoSyncedWithKABC := isKabc && sync } } := by
  generalize hElement : (Dom.Node.element "photo" _ [.text url] : DomNode) = element
  have hTag : element.tagName = "photo" := by rw [← hElement]; rfl
  have hText : Dom.textOf element = url := by rw [← hElement]; exact textOf_element _ _ _
  have hNoAttribute : element.hasAttribute "photoSourceContactId" = false := by
    rw [← hElement]
    cases isKabc <;> rfl
  have hSync : decide (element.attr "syncWithKABC" [] = latin1 "1" ∨
      element.attr "syncWithKABC" [] = latin1 "true") = (isKabc && sync) := by
    rw [← hElement]
    cases isKabc with
    | false => rfl
    | true =>
      have hAttr : (Dom.Node.element "photo"
          (if true then [("syncWithKABC", latin1 (if sync then "true" else "false"))] else [])
          [.text url] : DomNode).attr "syncWithKABC" [] =
            latin1 (if sync then "true" else "false") := by
        simp [Dom.Node.attr, Dom.Node.attributes]
      rw [hAttr]
      cases sync <;> decide
  unfold parseMetaContactChild
  rw [hTag, if_neg (by decide), if_pos rfl]
  unfold parsePhoto
  simp only [hText, hNoAttribute, hSync]
  rfl

/-- Where the name and the photo come from. -/
theorem parse_sources (p : Parsing) (hContacts : p.metaContact.contacts = [])
    (hSource : p.metaContact.displayNameSourceContact = none) (hName : p.nameSource = .none)
    (hPhoto : p.photoSource = .none) (name photo : PropertySource) (o o' : Option Nat) :
    parseMetaContactChild qt p (.element "property-sources" []
        [.element "name" [("source", sourceToString name)] (contactSourceElement contact o),
          .element "photo" [("source", sourceToString photo)]
            (contactSourceElement contact o')]) =
      { p with
        metaContact := { p.metaContact with displayNameSource := name, photoSource := photo }
        nameSource := sourceIdsOf contact o
        photoSource := sourceIdsOf contact o' } := by
  have hSet : p.metaContact.setDisplayNameSource name =
      { p.metaContact with displayNameSource := name } := by
    have hTrack : ∀ mc : MetaContact, mc.contacts = [] → mc.displayNameSourceContact = none →
        mc.track = mc := by
      intro mc hc hs
      unfold MetaContact.track
      split
      · cases mc
        cases hc
        cases hs
        rfl
      · rfl
    have hMeta : p.metaContact.toMetaContact.setDisplayNameSource name =
        { p.metaContact.toMetaContact with displayNameSource := name } := by
      unfold MetaContact.setDisplayNameSource
      rw [hTrack _ hContacts hSource]
      exact hTrack _ hContacts hSource
    exact congrArg (fun m => { p.metaContact with toMetaContact := m }) hMeta
  generalize hNameElement : (.element "name" [("source", sourceToString name)]
    (contactSourceElement contact o) : DomNode) = nameElement
  generalize hPhotoElement : (.element "photo" [("source", sourceToString photo)]
    (contactSourceElement contact o') : DomNode) = photoElement
  have hNameTag : nameElement.tagName = "name" := by rw [← hNameElement]; rfl
  have hPhotoTag : photoElement.tagName = "photo" := by rw [← hPhotoElement]; rfl
  have hNameAttr : stringToSource (nameElement.attr "source" []) = name := by
    rw [← hNameElement]
    simp [Dom.Node.attr, Dom.Node.attributes, stringToSource_sourceToString]
  have hPhotoAttr : stringToSource (photoElement.attr "source" []) = photo := by
    rw [← hPhotoElement]
    simp [Dom.Node.attr, Dom.Node.attributes, stringToSource_sourceToString]
  have hNameContact : contactSource nameElement p.nameSource = sourceIdsOf contact o := by
    rw [← hNameElement, hName]
    exact contactSource_stored contact _ _ o
  have hPhotoContact : contactSource photoElement p.photoSource = sourceIdsOf contact o' := by
    rw [← hPhotoElement, hPhoto]
    exact contactSource_stored contact _ _ o'
  have hNameChild : parseProperty p nameElement =
      { p with
        metaContact := { p.metaContact with displayNameSource := name }
        nameSource := sourceIdsOf contact o } := by
    unfold parseProperty
    rw [if_pos hNameTag, hNameAttr, hNameContact, hSet]
  have hPhotoChild : ∀ p' : Parsing, p'.photoSource = p.photoSource →
      parseProperty p' photoElement =
        { p' with
          metaContact := { p'.metaContact with photoSource := photo }
          photoSource := sourceIdsOf contact o' } := by
    intro p' hp'
    unfold parseProperty
    rw [hPhotoTag, if_neg (by decide), if_pos rfl, hPhotoAttr, hp', hPhotoContact]
  generalize hElement : (.element "property-sources" [] [nameElement, photoElement] : DomNode) =
    element
  have hTag : element.tagName = "property-sources" := by rw [← hElement]; rfl
  have hChildren : element.children = [nameElement, photoElement] := by rw [← hElement]; rfl
  unfold parseMetaContactChild
  rw [hTag, if_neg (by decide), if_neg (by decide), if_pos rfl, hChildren, List.foldl_cons,
    hNameChild, List.foldl_cons, List.foldl_nil, hPhotoChild]
  rfl

/-- What is read of a metacontact besides its groups and its data. -/
theorem parse_ownElements (mc : StoredMetaContact) (p : Parsing)
    (hContacts : p.metaContact.contacts = [])
    (hSource : p.metaContact.displayNameSourceContact = none) (hName : p.nameSource = .none)
    (hPhoto : p.photoSource = .none) :
    (ownElements qt contact mc).foldl (parseMetaContactChild qt) p =
      { p with
        metaContact := { p.metaContact with
          displayName := mc.displayName.filter (· ≠ 10)
          customPicture := qt.toLocalFile (mc.customPhoto qt)
          photoSyncedWithKABC := decide (mc.kabcIdText contact ≠ []) && mc.photoSyncedWithKABC
          displayNameSource := mc.displayNameSource
          photoSource := mc.photoSource }
        nameSource := sourceIdsOf contact mc.displayNameSourceContact
        photoSource := sourceIdsOf contact mc.photoSourceContact } := by
  have hSync : (if mc.kabcIdText contact = [] then []
      else [("syncWithKABC", latin1 (if mc.photoSyncedWithKABC then "true" else "false"))]) =
        if decide (mc.kabcIdText contact ≠ []) then
          [("syncWithKABC", latin1 (if mc.photoSyncedWithKABC then "true" else "false"))]
        else [] := by
    by_cases hNone : mc.kabcIdText contact = [] <;> simp [hNone]
  unfold ownElements
  rw [List.foldl_cons, List.foldl_cons, List.foldl_cons, List.foldl_nil, parse_displayName, hSync,
    parse_photo, parse_sources]
  · rfl
  · exact hContacts
  · exact hSource
  · exact hName
  · exact hPhoto

/-- The data of a metacontact. -/
theorem foldl_parse_data (ns : List DomNode)
    (h : ∀ n ∈ ns, n.tagName = "plugin-data" ∨ n.tagName = "plugin-contact-data" ∨
      n.tagName = "custom-icons") (p : Parsing) :
    ns.foldl (parseMetaContactChild qt) p =
      { p with metaContact := { p.metaContact with
        element := ns.foldl parseContactListElement p.metaContact.element } } := by
  induction ns generalizing p with
  | nil => rfl
  | cons n ns ih =>
    have hHere : parseMetaContactChild qt p n =
        { p with metaContact := { p.metaContact with
          element := parseContactListElement p.metaContact.element n } } := by
      unfold parseMetaContactChild
      rcases h n List.mem_cons_self with hTag | hTag | hTag <;>
        rw [hTag, if_neg (by decide), if_neg (by decide), if_neg (by decide), if_neg (by decide),
          if_neg (by decide)]
    rw [List.foldl_cons, hHere, ih fun n' hn' => h n' (List.mem_cons_of_mem _ hn')]
    rfl

/-- The element of the groups of a metacontact. -/
theorem parse_groups (ht : ∀ g ∈ t.groupList, (t.data g).groupId ≠ 0) (gs : List Group)
    (hgs : ∀ g ∈ gs, (s.data g).groupId < 2 ^ 32) (p : Parsing) (hp : p.storage = t)
    (hLasting : p.metaContact.temporary = false) :
    (if gs = [] then [] else [.element "groups" [] (gs.map (groupRef s))]).foldl
        (parseMetaContactChild qt) p =
      { p with metaContact := { p.metaContact with
        groups := addGroups p.metaContact.groups
          (gs.filterMap fun g => lookup t (s.data g).groupId) } } := by
  by_cases hNone : gs = []
  · rw [if_pos hNone, hNone]
    rfl
  · rw [if_neg hNone, List.foldl_cons, List.foldl_nil]
    generalize hElement : (.element "groups" [] (gs.map (groupRef s)) : DomNode) = element
    have hTag : element.tagName = "groups" := by rw [← hElement]; rfl
    have hChildren : element.children = gs.map (groupRef s) := by rw [← hElement]; rfl
    unfold parseMetaContactChild
    rw [hTag, if_neg (by decide), if_neg (by decide), if_neg (by decide), if_pos rfl, hChildren]
    exact foldl_parseGroupRef ht gs hgs p hp hLasting

/-- The metacontact that comes of a stored one. -/
def reloaded (s t : XmlStorage) (mc : StoredMetaContact) : StoredMetaContact :=
  { StoredMetaContact.new (qt.uuidOfString (qt.uuidToString mc.metaContactId)) with
    kabcId := mc.kabcIdText contact
    displayName := mc.displayName.filter (· ≠ 10)
    customPicture := qt.toLocalFile (mc.customPhoto qt)
    photoSyncedWithKABC := decide (mc.kabcIdText contact ≠ []) && mc.photoSyncedWithKABC
    displayNameSource := mc.displayNameSource
    photoSource := mc.photoSource
    nameSourceIds := sourceIdsOf contact mc.displayNameSourceContact
    photoSourceIds := sourceIdsOf contact mc.photoSourceContact
    groups := addGroups [.topLevel] (mc.groups.filterMap fun g => lookup t (s.data g).groupId)
    element := reread .new (mc.serialize contact).element }

/-- **The element of a metacontact.** -/
theorem parse_metaContactElement (ht : ∀ g ∈ t.groupList, (t.data g).groupId ≠ 0)
    (mc : StoredMetaContact) (hgs : ∀ g ∈ mc.groups, (s.data g).groupId < 2 ^ 32)
    (hUuid : qt.uuidToString mc.metaContactId ≠ []) :
    parseMetaContact qt (.new 0) (metaContactElement qt contact s mc) t =
      (some (reloaded qt contact s t mc), t) := by
  obtain ⟨m, hSerialize, -⟩ := serialize_eq contact mc
  generalize hElement : metaContactElement qt contact s mc = element
  have hContactId : element.attr "contactId" [] = qt.uuidToString mc.metaContactId := by
    rw [← hElement]
    simp [metaContactElement, hSerialize, Dom.Node.attr, Dom.Node.attributes]
  have hKabcId : element.attr "kabcId" [] = mc.kabcIdText contact := by
    rw [← hElement]
    simp [metaContactElement, hSerialize, Dom.Node.attr, Dom.Node.attributes]
    rfl
  have hChildren : element.children =
      ownElements qt contact mc ++
        (if mc.groups = [] then [] else [.element "groups" [] (mc.groups.map (groupRef s))]) ++
        storeContactListElement (mc.serialize contact).element := by
    rw [← hElement, metaContactElement, hSerialize]
    rfl
  have hElements : elementsOf element.children = element.children := by
    refine List.takeWhile_eq_self_iff.2 ?_
    intro n hn
    rw [hChildren] at hn
    rcases List.mem_append.1 hn with hn | hn
    · rcases List.mem_append.1 hn with hn | hn
      · simp only [ownElements, List.mem_cons, List.not_mem_nil, or_false] at hn
        rcases hn with rfl | rfl | rfl <;> rfl
      · split at hn
        · cases hn
        · rw [List.mem_singleton.1 hn]
          rfl
    · exact isElement_of_tagName (tagName_stored hn)
  have hNonempty : element.children ≠ [] := by
    rw [hChildren]
    simp [ownElements]
  generalize hStart : ({ StoredMetaContact.new (qt.uuidOfString
    (qt.uuidToString mc.metaContactId)) with
      kabcId := mc.kabcIdText contact, loading := true } : StoredMetaContact) = start
  have hKabc : (if mc.kabcIdText contact ≠ [] then
      { StoredMetaContact.new 0 with
        metaContactId := qt.uuidOfString (qt.uuidToString mc.metaContactId), loading := true,
        kabcId := mc.kabcIdText contact }
      else { StoredMetaContact.new 0 with
        metaContactId := qt.uuidOfString (qt.uuidToString mc.metaContactId),
        loading := true }) = start := by
    rw [← hStart]
    by_cases hNone : mc.kabcIdText contact = []
    · rw [if_neg (not_not.2 hNone), hNone]
      rfl
    · rw [if_pos hNone]
      rfl
  unfold parseMetaContact
  simp only [hContactId, hKabcId, hElements]
  rw [if_neg (by simp [hNonempty, hUuid]), hKabc, hChildren, List.foldl_append,
    List.foldl_append, parse_ownElements, parse_groups qt ht _ hgs, foldl_parse_data]
  · rw [← hStart]
    rfl
  · intro n hn
    exact tagName_stored hn
  · rfl
  · rw [← hStart]
    rfl
  · rw [← hStart]
    rfl
  · rw [← hStart]
    rfl
  · rfl
  · rfl

end XmlContactStorage

end Kopete
