import Kopete.Lib.LazyIds
import Kopete.Lib.Run
import Kopete.Libkopete.XmlContactStorage

/-!
# libkopete — ids of loaded groups

A file gives ids to groups, and groups without one get the next of a counter that has
gone past all ids in the file. If two groups on the list have the same id all of them are
numbered anew; the group for what is temporary is given a number then, but its id is not
looked at before, and that of the offline group never is.

Main results:

* `groupIds_distinct_iff` — for which files the ids of all groups are distinct.
-/

namespace Kopete

namespace XmlStorage

/-! ## Ids -/

/-- The ids of groups. -/
def ids (s : XmlStorage) : LazyIds Group := ⟨fun g => (s.data g).groupId, s.uniqueGroupId⟩

variable {s : XmlStorage} {g : Group}

theorem groupId_eq : (s.groupId g).1 = (s.ids.ask (2 ^ 32) g).1 ∧
    (s.groupId g).2.ids = (s.ids.ask (2 ^ 32) g).2 := by
  unfold groupId LazyIds.ask
  by_cases hNone : (s.data g).groupId = 0
  · have hIds : s.ids.id g = 0 := hNone
    rw [if_pos hNone, if_pos hIds]
    refine ⟨rfl, LazyIds.ext ?_ rfl⟩
    funext g'
    simp only [ids, setGroup, Function.update_apply]
    split <;> rfl
  · have hIds : s.ids.id g ≠ 0 := hNone
    rw [if_neg hNone, if_neg hIds]
    exact ⟨rfl, rfl⟩

@[simp] theorem groupList_groupId : (s.groupId g).2.groupList = s.groupList := by
  unfold groupId
  split <;> rfl

@[simp] theorem nextGroup_groupId : (s.groupId g).2.nextGroup = s.nextGroup := by
  unfold groupId
  split <;> rfl

/-- What does not touch the id of a group leaves all ids alone. -/
theorem ids_setGroup {f : GroupData → GroupData}
    (h : (f (s.data g)).groupId = (s.data g).groupId) : (s.setGroup g f).ids = s.ids := by
  refine LazyIds.ext ?_ rfl
  funext g'
  simp only [ids, setGroup, Function.update_apply]
  split
  · next hSame => rw [h, hSame]
  · rfl

theorem ids_setGroup_update (f : GroupData → GroupData) :
    (s.setGroup g f).ids.id = Function.update s.ids.id g (f (s.data g)).groupId := by
  funext g'
  simp only [ids, setGroup, Function.update_apply]
  split <;> rfl

@[simp] theorem counter_setGroup (f : GroupData → GroupData) :
    (s.setGroup g f).ids.counter = s.ids.counter := rfl

end XmlStorage

namespace XmlContactStorage

open XmlStorage

/-! ## The numbers of a file -/

/-- The numbers that the entries of a file give to groups, 0 where they give none. -/
structure GroupNumbers where
  /-- The highest so far. -/
  counter : Nat
  special : Group → Nat
  /-- Of the groups on the list, in order. -/
  listed : List Nat

/-- The number that a text gives, and the highest afterwards: what is no number stands for
one more than the highest. -/
def readNumber (text : QString) (old counter : Nat) : Nat × Nat :=
  if text = [] then (old, counter)
  else
    let n := if toUInt text = 0 then counter + 1 else toUInt text
    (n, max counter n)

/-- The last name that the children of an entry have for a group. -/
def lastName (elements : List DomNode) (old : QString) : QString :=
  ((elements.filter (·.tagName = "display-name")).map Dom.textOf).getLast?.getD old

def isNamed (element : DomNode) : Bool := lastName element.children [] ≠ []

/-- The numbers after one more entry. -/
def GroupNumbers.add (ns : GroupNumbers) (element : DomNode) : GroupNumbers :=
  let text := element.attr "groupId" []
  let (n, counter) := readNumber text 0 ns.counter
  match specialGroup element with
  | some g =>
    let (n, counter) := readNumber text (ns.special g) counter
    { ns with counter := counter, special := Function.update ns.special g n }
  | none =>
    if isNamed element then { ns with counter := counter, listed := ns.listed ++ [n] }
    else { ns with counter := counter }

/-- The numbers of a file. -/
def groupNumbers (list : DomNode) : GroupNumbers :=
  ((elementsOf list.children).filter (·.tagName = "kopete-group")).foldl GroupNumbers.add
    ⟨0, fun _ => 0, []⟩

theorem readNumber_le (text : QString) {old counter : Nat} (h : old ≤ counter) :
    (readNumber text old counter).1 ≤ (readNumber text old counter).2 ∧
      counter ≤ (readNumber text old counter).2 := by
  unfold readNumber
  split
  · exact ⟨h, le_rfl⟩
  · exact ⟨le_max_right _ _, le_max_left _ _⟩

theorem counter_le_readNumber (text : QString) (old counter : Nat) :
    counter ≤ (readNumber text old counter).2 := by
  unfold readNumber
  split
  · exact le_rfl
  · exact le_max_left _ _

theorem counter_le_add (ns : GroupNumbers) (element : DomNode) :
    ns.counter ≤ (ns.add element).counter := by
  have hFirst := counter_le_readNumber (element.attr "groupId" []) 0 ns.counter
  unfold GroupNumbers.add
  simp only
  split
  · exact hFirst.trans (counter_le_readNumber _ _ _)
  · split
    · exact hFirst
    · exact hFirst

theorem counter_le_foldl (elements : List DomNode) (ns : GroupNumbers) :
    ns.counter ≤ (elements.foldl GroupNumbers.add ns).counter := by
  induction elements generalizing ns with
  | nil => exact le_rfl
  | cons element elements ih => exact (counter_le_add ns element).trans (ih _)

/-! ## Reading the entry of a group -/

variable {s : XmlStorage}

@[simp] theorem groupList_readGroupId (g : Group) (element : DomNode) :
    (readGroupId g element s).groupList = s.groupList := by
  unfold readGroupId
  split
  · rfl
  · simp only
    split <;> simp [setGroupId, setGroup]

@[simp] theorem nextGroup_readGroupId (g : Group) (element : DomNode) :
    (readGroupId g element s).nextGroup = s.nextGroup := by
  unfold readGroupId
  split
  · rfl
  · simp only
    split <;> simp [setGroupId, setGroup]

theorem displayName_readGroupId (g g' : Group) (element : DomNode) :
    ((readGroupId g element s).data g').displayName = (s.data g').displayName := by
  have hUpdate : ∀ (f : GroupData → GroupData) (t : XmlStorage),
      (∀ d, (f d).displayName = d.displayName) →
      ((t.setGroup g f).data g').displayName = (t.data g').displayName := by
    intro f t hf
    simp only [setGroup, Function.update_apply]
    split
    · next hSame => rw [hf, hSame]
    · rfl
  have hId : ∀ t : XmlStorage, ((t.groupId g).2.data g').displayName =
      (t.data g').displayName := by
    intro t
    unfold groupId
    split
    · simp only
      rw [hUpdate]
      intro _
      rfl
    · rfl
  unfold readGroupId
  split
  · rfl
  · simp only
    split
    · exact (hId _).trans (hUpdate _ _ fun _ => rfl)
    · exact (hId _).trans (hUpdate _ _ fun _ => rfl)

/-- **The id of an entry.** -/
theorem ids_readGroupId {g : Group} (element : DomNode)
    (hRoom : (readNumber (element.attr "groupId" []) (s.ids.id g) s.ids.counter).2 < 2 ^ 32) :
    (readGroupId g element s).ids =
      ⟨Function.update s.ids.id g
        (readNumber (element.attr "groupId" []) (s.ids.id g) s.ids.counter).1,
        (readNumber (element.attr "groupId" []) (s.ids.id g) s.ids.counter).2⟩ := by
  unfold readGroupId
  unfold readNumber at hRoom ⊢
  by_cases hText : element.attr "groupId" [] = []
  · rw [if_pos hText, if_pos hText, Function.update_eq_self]
  · rw [if_neg hText] at hRoom
    rw [if_neg hText, if_neg hText]
    simp only at hRoom ⊢
    generalize toUInt (element.attr "groupId" []) = v at hRoom ⊢
    have hSet : (s.setGroupId g v).ids = ⟨Function.update s.ids.id g v, s.ids.counter⟩ :=
      LazyIds.ext (ids_setGroup_update _) rfl
    obtain ⟨hId, hIds⟩ := groupId_eq (s := s.setGroupId g v) (g := g)
    have hHere : (s.setGroupId g v).ids.id g = v := by
      rw [hSet]
      exact Function.update_self ..
    by_cases hZero : v = 0
    · rw [if_pos hZero] at hRoom ⊢
      have hMax : max s.ids.counter (s.ids.counter + 1) = s.ids.counter + 1 := by omega
      rw [hMax] at hRoom ⊢
      have hRoom' : (s.setGroupId g v).ids.Room (2 ^ 32) g := fun _ => by
        rw [hSet]
        exact hRoom
      have hAsk := LazyIds.ask_of_room (hHere.trans hZero) hRoom'
      rw [hAsk] at hId hIds
      have hCounter : (s.setGroupId g v |>.groupId g).2.uniqueGroupId = s.ids.counter + 1 :=
        (congrArg LazyIds.counter hIds).trans (by rw [hSet])
      rw [hId, hCounter, hSet, if_neg (lt_irrefl _), hIds, hSet]
      simp
    · rw [if_neg hZero] at hRoom ⊢
      rw [LazyIds.ask_of_id (by rw [hHere]; exact hZero), hHere, hSet] at hIds
      rw [LazyIds.ask_of_id (by rw [hHere]; exact hZero), hHere] at hId
      have hCounter : (s.setGroupId g v |>.groupId g).2.uniqueGroupId = s.ids.counter :=
        congrArg LazyIds.counter hIds
      rw [hId, hCounter]
      split
      · next hLess =>
        rw [max_eq_right hLess.le]
        have hSame := congrArg LazyIds.id hIds
        exact LazyIds.ext hSame rfl
      · next hNot => rw [max_eq_left (not_lt.1 hNot), hIds]

/-- A child of an entry is no matter of ids. -/
theorem ids_parseGroupChild (g : Group) (element : DomNode) :
    (parseGroupChild g s element).ids = s.ids := by
  unfold parseGroupChild
  split
  · split
    · exact ids_setGroup rfl
    · rfl
  · exact ids_setGroup rfl

theorem groupList_parseGroupChild (g : Group) (element : DomNode) :
    (parseGroupChild g s element).groupList = s.groupList ∧
      (parseGroupChild g s element).nextGroup = s.nextGroup := by
  unfold parseGroupChild
  split
  · split <;> exact ⟨rfl, rfl⟩
  · exact ⟨rfl, rfl⟩

theorem foldl_parseGroupChild (g : Group) (elements : List DomNode) (s : XmlStorage) :
    (elements.foldl (parseGroupChild g) s).ids = s.ids ∧
      (elements.foldl (parseGroupChild g) s).groupList = s.groupList ∧
      (elements.foldl (parseGroupChild g) s).nextGroup = s.nextGroup := by
  induction elements generalizing s with
  | nil => exact ⟨rfl, rfl, rfl⟩
  | cons element elements ih =>
    obtain ⟨hIds, hList, hNext⟩ := ih (parseGroupChild g s element)
    obtain ⟨hList', hNext'⟩ := groupList_parseGroupChild (s := s) g element
    exact ⟨hIds.trans (ids_parseGroupChild g element), hList.trans hList', hNext.trans hNext'⟩

/-- A normal group takes the last name that it is given. -/
theorem displayName_foldl (k : Nat) (elements : List DomNode) (s : XmlStorage) :
    ((elements.foldl (parseGroupChild (.normal k)) s).data (.normal k)).displayName =
      lastName elements (s.data (.normal k)).displayName := by
  unfold lastName
  induction elements using List.reverseRecOn with
  | nil => rfl
  | append_singleton elements element ih =>
    rw [List.foldl_append, List.foldl_cons, List.foldl_nil, List.filter_append]
    by_cases hTag : element.tagName = "display-name"
    · simp [parseGroupChild, hTag, Group.isNormal, setGroup]
    · simp [parseGroupChild, hTag, setGroup, ih]

theorem parseGroupContents_frame (g : Group) (element : DomNode) :
    (parseGroupContents g element s).2.ids = s.ids ∧
      (parseGroupContents g element s).2.groupList = s.groupList ∧
      (parseGroupContents g element s).2.nextGroup = s.nextGroup := by
  unfold parseGroupContents
  simp only
  generalize hStart : s.setGroup g (fun d => { d with
    expanded := decide (element.attr "view" (latin1 "expanded") ≠ latin1 "collapsed") }) = t
  obtain ⟨hIds, hList, hNext⟩ := foldl_parseGroupChild g element.children t
  have hIdsStart : t.ids = s.ids := by
    rw [← hStart]
    exact ids_setGroup rfl
  have hListStart : t.groupList = s.groupList := by rw [← hStart]; rfl
  have hNextStart : t.nextGroup = s.nextGroup := by rw [← hStart]; rfl
  split
  · split
    · refine ⟨?_, hList.trans hListStart, hNext.trans hNextStart⟩
      simp only
      rw [ids_setGroup rfl, hIds, hIdsStart]
    · exact ⟨hIds.trans hIdsStart, hList.trans hListStart, hNext.trans hNextStart⟩
  · exact ⟨hIds.trans hIdsStart, hList.trans hListStart, hNext.trans hNextStart⟩

/-- A new group is kept if it has a name. -/
theorem parseGroupContents_fst {k : Nat} (element : DomNode)
    (hNew : (s.data (.normal k)).displayName = []) :
    (parseGroupContents (.normal k) element s).1 = isNamed element := by
  unfold parseGroupContents isNamed
  simp only
  generalize hStart : s.setGroup (.normal k) (fun d => { d with
    expanded := decide (element.attr "view" (latin1 "expanded") ≠ latin1 "collapsed") }) = t
  have hName : (t.data (.normal k)).displayName = [] := by
    rw [← hStart]
    simp [setGroup, hNew]
  have hFold := displayName_foldl k element.children t
  rw [hName] at hFold
  rw [hFold]
  split
  · next hEmpty =>
    rw [hEmpty]
    rfl
  · next hNamed => exact (decide_eq_true hNamed).symm

/-! ## The entries of a file -/

/-- Groups have the numbers that the entries so far have given them. -/
structure Numbered (s : XmlStorage) (ns : GroupNumbers) : Prop where
  counter : s.ids.counter = ns.counter
  special : ∀ g, g.isNormal = false → s.ids.id g = ns.special g
  listed : s.groupList.map s.ids.id = ns.listed
  normal : ∀ g ∈ s.groupList, ∃ k < s.nextGroup, g = .normal k
  nodup : s.groupList.Nodup
  unlisted : ∀ k, Group.normal k ∉ s.groupList → s.ids.id (.normal k) = 0
  bounded : s.ids.Bounded

theorem numbered_new : Numbered .new ⟨0, fun _ => 0, []⟩ := by
  have hIds : ∀ g, XmlStorage.new.ids.id g = 0 := by
    intro g
    cases g <;> rfl
  refine ⟨rfl, fun g _ => hIds g, rfl, ?_, List.nodup_nil, fun k _ => hIds _, ?_⟩
  · intro g hg
    cases hg
  · intro g
    rw [hIds]
    exact Nat.zero_le _

theorem isNormal_specialGroup {element : DomNode} {g : Group}
    (h : specialGroup element = some g) : g.isNormal = false := by
  unfold specialGroup at h
  simp only at h
  split at h
  · cases h; rfl
  split at h
  · cases h; rfl
  split at h
  · cases h; rfl
  · cases h

namespace Numbered

variable {ns : GroupNumbers}

/-- A group that is made has no id, and is not on the list. -/
theorem fresh (h : Numbered s ns) : Group.normal s.nextGroup ∉ s.groupList := by
  intro hMem
  obtain ⟨k, hk, hEq⟩ := h.normal _ hMem
  obtain rfl := Group.normal.inj hEq
  exact lt_irrefl _ hk

theorem ids_newGroup (h : Numbered s ns) (name : QString) : (s.newGroup name).2.ids = s.ids := by
  have hNone : (s.data (.normal s.nextGroup)).groupId = 0 := h.unlisted _ h.fresh
  exact ids_setGroup (s := { s with nextGroup := s.nextGroup + 1 }) (g := .normal s.nextGroup)
    (f := fun _ => .named name) hNone.symm

/-- The group that was made goes again; a special one may have got a number. -/
theorem drop (h : Numbered s ns) {t : XmlStorage} {c : Nat} {special : Group → Nat}
    (hList : t.groupList = s.groupList) (hNext : t.nextGroup = s.nextGroup + 1)
    (hCounter : t.ids.counter = c) (hLe : ns.counter ≤ c)
    (hSpecial : ∀ g, g.isNormal = false → t.ids.id g = special g ∧ special g ≤ c)
    (hNormal : ∀ k ≠ s.nextGroup, t.ids.id (.normal k) = s.ids.id (.normal k)) :
    Numbered (t.deleteGroup (.normal s.nextGroup)) ⟨c, special, ns.listed⟩ := by
  have hIds : (t.deleteGroup (.normal s.nextGroup)).ids.id =
      Function.update t.ids.id (.normal s.nextGroup) 0 := ids_setGroup_update _
  have hOld : ∀ k ≠ s.nextGroup,
      (t.deleteGroup (.normal s.nextGroup)).ids.id (.normal k) = s.ids.id (.normal k) := by
    intro k hk
    rw [hIds, Function.update_of_ne fun hEq => hk (Group.normal.inj hEq)]
    exact hNormal k hk
  have hGone : (t.deleteGroup (.normal s.nextGroup)).ids.id (.normal s.nextGroup) = 0 := by
    rw [hIds, Function.update_self]
  have hOther : ∀ g, g.isNormal = false →
      (t.deleteGroup (.normal s.nextGroup)).ids.id g = special g := by
    intro g hg
    rw [hIds, Function.update_of_ne]
    · exact (hSpecial g hg).1
    · rintro rfl
      cases hg
  have hSame : (t.deleteGroup (.normal s.nextGroup)).groupList = s.groupList := hList
  refine ⟨hCounter, hOther, ?_, ?_, ?_, ?_, ?_⟩
  · rw [hSame, ← h.listed]
    refine List.map_congr_left ?_
    intro g hg
    obtain ⟨k, hk, rfl⟩ := h.normal g hg
    exact hOld k (Nat.ne_of_lt hk)
  · intro g hg
    rw [hSame] at hg
    obtain ⟨k, hk, hEq⟩ := h.normal g hg
    refine ⟨k, ?_, hEq⟩
    have hNext' : (t.deleteGroup (.normal s.nextGroup)).nextGroup = s.nextGroup + 1 := hNext
    omega
  · rw [hSame]
    exact h.nodup
  · intro k hk
    rw [hSame] at hk
    by_cases hEq : k = s.nextGroup
    · rw [hEq, hGone]
    · rw [hOld k hEq]
      exact h.unlisted k hk
  · intro g
    have hCounter' : (t.deleteGroup (.normal s.nextGroup)).ids.counter = c := hCounter
    rw [hCounter']
    cases g with
    | normal k =>
      by_cases hEq : k = s.nextGroup
      · rw [hEq, hGone]
        exact Nat.zero_le _
      · rw [hOld k hEq]
        exact (h.bounded _).trans (h.counter ▸ hLe)
    | _ =>
      rw [hOther _ rfl]
      exact (hSpecial _ rfl).2

/-- The group that was made stays. -/
theorem keep (h : Numbered s ns) {t : XmlStorage} {n c : Nat}
    (hList : t.groupList = s.groupList) (hNext : t.nextGroup = s.nextGroup + 1)
    (hIds : t.ids = ⟨Function.update s.ids.id (.normal s.nextGroup) n, c⟩)
    (hLe : ns.counter ≤ c) (hn : n ≤ c) :
    Numbered (t.addGroup (.normal s.nextGroup)) ⟨c, ns.special, ns.listed ++ [n]⟩ := by
  have hSame : (t.addGroup (.normal s.nextGroup)).ids = t.ids := rfl
  have hListed : (t.addGroup (.normal s.nextGroup)).groupList =
      s.groupList ++ [.normal s.nextGroup] := congrArg (· ++ _) hList
  have hNext' : (t.addGroup (.normal s.nextGroup)).nextGroup = s.nextGroup + 1 := hNext
  have hFresh := h.fresh
  refine ⟨?_, ?_, ?_, ?_, ?_, ?_, ?_⟩
  · rw [hSame, hIds]
  · intro g hg
    rw [hSame, hIds]
    have hNe : g ≠ .normal s.nextGroup := by
      rintro rfl
      cases hg
    exact (Function.update_of_ne hNe _ _).trans (h.special g hg)
  · rw [hListed, hSame, hIds, List.map_append]
    have hNew : Function.update s.ids.id (.normal s.nextGroup) n (.normal s.nextGroup) = n :=
      Function.update_self ..
    have hOld : s.groupList.map (Function.update s.ids.id (.normal s.nextGroup) n) = ns.listed := by
      rw [← h.listed]
      refine List.map_congr_left ?_
      intro g hg
      refine Function.update_of_ne ?_ _ _
      rintro rfl
      exact hFresh hg
    exact congrArg₂ (fun l m => l ++ [m]) hOld hNew
  · intro g hg
    rw [hNext']
    rw [hListed] at hg
    rcases List.mem_append.1 hg with hg | hg
    · obtain ⟨k, hk, hEq⟩ := h.normal g hg
      exact ⟨k, Nat.lt_succ_of_lt hk, hEq⟩
    · exact ⟨s.nextGroup, Nat.lt_succ_self _, List.mem_singleton.1 hg⟩
  · rw [hListed]
    exact QList.nodup_append_iff.2 ⟨h.nodup, hFresh⟩
  · intro k hk
    rw [hListed, List.mem_append, List.mem_singleton, not_or] at hk
    rw [hSame, hIds]
    exact (Function.update_of_ne hk.2 _ _).trans (h.unlisted k hk.1)
  · intro g
    rw [hSame, hIds]
    by_cases hEq : g = .normal s.nextGroup
    · simp only [hEq, Function.update_self]
      exact hn
    · simp only [Function.update_of_ne hEq]
      exact (h.bounded g).trans (h.counter ▸ hLe)

/-- The id that an entry has for the group that is made for it. -/
theorem ids_entry (h : Numbered s ns) {element : DomNode} {n c : Nat}
    (hRead : readNumber (element.attr "groupId" []) 0 ns.counter = (n, c)) (hRoom : c < 2 ^ 32) :
    (readGroupId (.normal s.nextGroup) element (s.newGroup []).2).ids =
      ⟨Function.update s.ids.id (.normal s.nextGroup) n, c⟩ := by
  have hNone : s.ids.id (.normal s.nextGroup) = 0 := h.unlisted _ h.fresh
  have hRead' : readNumber (element.attr "groupId" [])
      ((s.newGroup []).2.ids.id (.normal s.nextGroup)) (s.newGroup []).2.ids.counter = (n, c) := by
    rw [h.ids_newGroup, hNone, h.counter, hRead]
  rw [ids_readGroupId _ (by rw [hRead']; exact hRoom), hRead', h.ids_newGroup]

/-- An entry for one of the groups there are once. -/
theorem loadGroup_special (h : Numbered s ns) {element : DomNode}
    (hTag : element.tagName = "kopete-group") {g : Group}
    (hSpecial : specialGroup element = some g) (hRoom : (ns.add element).counter < 2 ^ 32) :
    Numbered (loadGroup s element) (ns.add element) := by
  have hNotNormal := isNormal_specialGroup hSpecial
  have hNe : g ≠ .normal s.nextGroup := by
    rintro rfl
    cases hNotNormal
  obtain ⟨hLe, hCounter⟩ := readNumber_le (element.attr "groupId" [])
    (Nat.zero_le ns.counter)
  unfold GroupNumbers.add at hRoom ⊢
  cases hRead : readNumber (element.attr "groupId" []) 0 ns.counter with
  | mk n c =>
    simp only [hRead, hSpecial] at hLe hCounter hRoom ⊢
    have hOld : ns.special g ≤ c := by
      rw [← h.special g hNotNormal]
      exact (h.bounded g).trans (h.counter ▸ hCounter)
    obtain ⟨hLe', hCounter'⟩ := readNumber_le (element.attr "groupId" []) hOld
    cases hRead' : readNumber (element.attr "groupId" []) (ns.special g) c with
    | mk n' c' =>
      simp only [hRead'] at hLe' hCounter' hRoom ⊢
      have hIds := h.ids_entry hRead (hCounter'.trans_lt hRoom)
      generalize hEntry : readGroupId (.normal s.nextGroup) element (s.newGroup []).2 = t at hIds
      have hHere : readNumber (element.attr "groupId" []) (t.ids.id g) t.ids.counter =
          (n', c') := by
        rw [hIds]
        simp only [Function.update_of_ne hNe, h.special g hNotNormal, hRead']
      have hIds' := ids_readGroupId (s := t) (g := g) element
        (by rw [hHere]; exact hRoom)
      rw [hHere, hIds] at hIds'
      obtain ⟨hFrame, hList, hNext⟩ :=
        parseGroupContents_frame (s := readGroupId g element t) g element
      have hLoad : loadGroup s element =
          (parseGroupContents g element (readGroupId g element t)).2.deleteGroup
            (.normal s.nextGroup) := by
        unfold XmlContactStorage.loadGroup parseGroup
        rw [if_pos hTag, ← hEntry]
        simp only [hSpecial]
        rfl
      rw [hLoad]
      refine h.drop ?_ ?_ ?_ (hCounter.trans hCounter') ?_ ?_
      · rw [hList, ← hEntry]
        simp [XmlStorage.newGroup, setGroup]
      · rw [hNext, ← hEntry]
        simp [XmlStorage.newGroup, setGroup]
      · rw [hFrame, hIds']
      · intro x hx
        rw [hFrame, hIds']
        have hxNe : x ≠ .normal s.nextGroup := by
          rintro rfl
          cases hx
        simp only [Function.update_apply]
        split
        · exact ⟨rfl, hLe'⟩
        · refine ⟨h.special x hx, ?_⟩
          rw [← h.special x hx]
          exact ((h.bounded x).trans (h.counter ▸ hCounter)).trans hCounter'
      · intro k hk
        rw [hFrame, hIds']
        have hkNe : Group.normal k ≠ g := by
          rintro rfl
          cases hNotNormal
        have hkNew : Group.normal k ≠ .normal s.nextGroup := fun hEq => hk (Group.normal.inj hEq)
        simp only [Function.update_of_ne hkNe, Function.update_of_ne hkNew]

/-- An entry for a group of its own. -/
theorem loadGroup_normal (h : Numbered s ns) {element : DomNode}
    (hTag : element.tagName = "kopete-group") (hNone : specialGroup element = none)
    (hRoom : (ns.add element).counter < 2 ^ 32) :
    Numbered (loadGroup s element) (ns.add element) := by
  obtain ⟨hLe, hCounter⟩ := readNumber_le (element.attr "groupId" [])
    (Nat.zero_le ns.counter)
  unfold GroupNumbers.add at hRoom ⊢
  cases hRead : readNumber (element.attr "groupId" []) 0 ns.counter with
  | mk n c =>
    simp only [hRead, hNone] at hLe hCounter hRoom ⊢
    have hc : c < 2 ^ 32 := by
      split at hRoom
      · exact hRoom
      · exact hRoom
    have hIds := h.ids_entry hRead hc
    generalize hEntry : readGroupId (.normal s.nextGroup) element (s.newGroup []).2 = t at hIds
    have hName : (t.data (.normal s.nextGroup)).displayName = [] := by
      rw [← hEntry, displayName_readGroupId]
      simp [XmlStorage.newGroup, setGroup, GroupData.named]
    have hParsed := parseGroupContents_fst element hName
    obtain ⟨hFrame, hList, hNext⟩ :=
      parseGroupContents_frame (s := t) (.normal s.nextGroup) element
    have hList' : t.groupList = s.groupList := by
      rw [← hEntry]
      simp [XmlStorage.newGroup, setGroup]
    have hNext' : t.nextGroup = s.nextGroup + 1 := by
      rw [← hEntry]
      simp [XmlStorage.newGroup, setGroup]
    have hLoad : loadGroup s element =
        if isNamed element then
          (parseGroupContents (.normal s.nextGroup) element t).2.addGroup (.normal s.nextGroup)
        else
          (parseGroupContents (.normal s.nextGroup) element t).2.deleteGroup
            (.normal s.nextGroup) := by
      unfold XmlContactStorage.loadGroup parseGroup
      rw [if_pos hTag, ← hParsed, ← hEntry]
      simp only [hNone]
      rfl
    rw [hLoad]
    split
    · exact h.keep (hList.trans hList') (hNext.trans hNext') (hFrame.trans hIds) hCounter hLe
    · refine h.drop (hList.trans hList') (hNext.trans hNext') ?_ hCounter ?_ ?_
      · rw [hFrame, hIds]
      · intro x hx
        have hxNe : x ≠ .normal s.nextGroup := by
          rintro rfl
          cases hx
        rw [hFrame, hIds]
        refine ⟨(Function.update_of_ne hxNe _ _).trans (h.special x hx), ?_⟩
        rw [← h.special x hx]
        exact (h.bounded x).trans (h.counter ▸ hCounter)
      · intro k hk
        rw [hFrame, hIds]
        exact Function.update_of_ne (fun hEq => hk (Group.normal.inj hEq)) _ _

/-- **The entries of a file.** -/
theorem foldl_loadGroup (elements : List DomNode) {s : XmlStorage} {ns : GroupNumbers}
    (h : Numbered s ns)
    (hRoom : ((elements.filter (·.tagName = "kopete-group")).foldl GroupNumbers.add ns).counter <
      2 ^ 32) :
    Numbered (elements.foldl XmlContactStorage.loadGroup s)
      ((elements.filter (·.tagName = "kopete-group")).foldl GroupNumbers.add ns) := by
  induction elements generalizing s ns with
  | nil => exact h
  | cons element elements ih =>
    rw [List.foldl_cons]
    by_cases hTag : element.tagName = "kopete-group"
    · rw [List.filter_cons_of_pos (by simpa using hTag), List.foldl_cons] at hRoom ⊢
      have hHere : (ns.add element).counter < 2 ^ 32 := (counter_le_foldl _ _).trans_lt hRoom
      refine ih ?_ hRoom
      cases hSpecial : specialGroup element with
      | some g => exact h.loadGroup_special hTag hSpecial hHere
      | none => exact h.loadGroup_normal hTag hSpecial hHere
    · rw [List.filter_cons_of_neg (by simp [hTag])] at hRoom ⊢
      have hSkip : XmlContactStorage.loadGroup s element = s := if_neg hTag
      rw [hSkip]
      exact ih h hRoom

end Numbered

/-! ## References to groups -/

/-- The groups are loaded, and there is room for the ids that are missing and for those of
`credit` groups more. -/
structure Listed (s : XmlStorage) (credit : Nat) : Prop where
  topLevel : .topLevel ∈ s.groupList
  temporary : .temporary ∉ s.groupList
  offline : .offline ∉ s.groupList
  normal : ∀ k, .normal k ∈ s.groupList → k < s.nextGroup
  nodup : s.groupList.Nodup
  unlisted : ∀ k, .normal k ∉ s.groupList → s.ids.id (.normal k) = 0
  bounded : s.ids.Bounded
  room : s.ids.budget s.groupList + credit < 2 ^ 32

/-- Ids have been made, but none changed, and none for the groups that are not listed. -/
structure Steady (s s' : XmlStorage) : Prop where
  later : LazyIds.Later s.ids s'.ids
  temporary : s'.ids.id .temporary = s.ids.id .temporary
  offline : s'.ids.id .offline = s.ids.id .offline

theorem Steady.refl (s : XmlStorage) : Steady s s := ⟨.refl _, rfl, rfl⟩

theorem Steady.of_ids {s s' : XmlStorage} (h : s'.ids = s.ids) : Steady s s' := by
  refine ⟨?_, by rw [h], by rw [h]⟩
  rw [h]
  exact .refl _

theorem Steady.trans {s s' s'' : XmlStorage} (h : Steady s s') (h' : Steady s' s'') :
    Steady s s'' :=
  ⟨h.later.trans h'.later, h'.temporary.trans h.temporary, h'.offline.trans h.offline⟩

namespace Listed

variable {credit : Nat}

theorem mono (h : Listed s credit) {credit' : Nat} (hLe : credit' ≤ credit) :
    Listed s credit' :=
  { h with room := (Nat.add_le_add_left hLe _).trans_lt h.room }

/-- Asking a listed group for its id. -/
theorem groupId (h : Listed s credit) {g : Group} (hg : g ∈ s.groupList) :
    Listed (s.groupId g).2 credit ∧ Steady s (s.groupId g).2 ∧ (s.groupId g).1 ≠ 0 ∧
      (s.groupId g).2.ids.id g = (s.groupId g).1 := by
  obtain ⟨hId, hIds⟩ := groupId_eq (s := s) (g := g)
  have hRoom : s.ids.Room (2 ^ 32) g :=
    LazyIds.room_of_budget hg (Nat.lt_of_add_right_lt h.room)
  have hOther : ∀ g' ∉ s.groupList, (s.groupId g).2.ids.id g' = s.ids.id g' := by
    intro g' hg'
    rw [hIds]
    refine LazyIds.id_ask_of_ne ?_
    rintro rfl
    exact hg' hg
  refine ⟨⟨?_, ?_, ?_, ?_, ?_, ?_, ?_, ?_⟩, ⟨?_, ?_, ?_⟩, ?_, ?_⟩
  · rw [groupList_groupId]
    exact h.topLevel
  · rw [groupList_groupId]
    exact h.temporary
  · rw [groupList_groupId]
    exact h.offline
  · rw [groupList_groupId, nextGroup_groupId]
    exact h.normal
  · rw [groupList_groupId]
    exact h.nodup
  · intro k hk
    rw [groupList_groupId] at hk
    rw [hOther _ hk]
    exact h.unlisted k hk
  · rw [hIds]
    exact LazyIds.bounded_ask hRoom h.bounded
  · rw [groupList_groupId, hIds, LazyIds.budget_ask h.nodup hg hRoom]
    exact h.room
  · rw [hIds]
    exact LazyIds.later_ask hRoom
  · exact hOther _ h.temporary
  · exact hOther _ h.offline
  · rw [hId]
    exact LazyIds.ask_ne_zero hRoom
  · rw [hId, hIds]
    exact LazyIds.id_ask

theorem groupAmong (id : Nat) {gs : List Group} (h : Listed s credit)
    (hgs : ∀ g ∈ gs, g ∈ s.groupList) :
    Listed (XmlStorage.groupAmong id gs s).2 credit ∧
      Steady s (XmlStorage.groupAmong id gs s).2 := by
  induction gs generalizing s with
  | nil => exact ⟨h, .refl _⟩
  | cons g gs ih =>
    obtain ⟨hListed, hSteady, -, -⟩ := h.groupId (hgs g List.mem_cons_self)
    unfold XmlStorage.groupAmong
    simp only
    split
    · exact ⟨hListed, hSteady⟩
    · have hRest : ∀ g' ∈ gs, g' ∈ (s.groupId g).2.groupList := by
        intro g' hg'
        rw [groupList_groupId]
        exact hgs g' (List.mem_cons_of_mem _ hg')
      obtain ⟨hListed', hSteady'⟩ := ih hListed hRest
      exact ⟨hListed', hSteady.trans hSteady'⟩

/-- A group that is looked for by its name may have to be made. -/
theorem findGroup (h : Listed s (credit + 1)) (name : QString) :
    Listed (s.findGroup name).2 credit ∧ Steady s (s.findGroup name).2 := by
  unfold XmlStorage.findGroup
  split
  · exact ⟨h.mono (Nat.le_succ _), .refl _⟩
  · have hFresh : Group.normal s.nextGroup ∉ s.groupList := fun hMem =>
      lt_irrefl _ (h.normal _ hMem)
    have hNone : s.ids.id (.normal s.nextGroup) = 0 := h.unlisted _ hFresh
    have hIds : (s.newGroup name).2.ids = s.ids :=
      ids_setGroup (s := { s with nextGroup := s.nextGroup + 1 }) (g := .normal s.nextGroup)
        (f := fun _ => .named name) hNone.symm
    have hAll : ((s.newGroup name).2.addGroup (.normal s.nextGroup)).ids = s.ids := hIds
    refine ⟨⟨?_, ?_, ?_, ?_, ?_, ?_, ?_, ?_⟩, .of_ids hAll⟩
    · exact List.mem_append_left _ h.topLevel
    · exact fun hMem => (List.mem_append.1 hMem).elim h.temporary (by simp)
    · exact fun hMem => (List.mem_append.1 hMem).elim h.offline (by simp)
    · intro k hk
      rcases List.mem_append.1 hk with hk | hk
      · exact Nat.lt_succ_of_lt (h.normal k hk)
      · obtain rfl := Group.normal.inj (List.mem_singleton.1 hk)
        exact Nat.lt_succ_self _
    · exact QList.nodup_append_iff.2 ⟨h.nodup, hFresh⟩
    · intro k hk
      have hIds' := congrFun (congrArg LazyIds.id hAll) (.normal k)
      exact hIds'.trans (h.unlisted k fun hMem => hk (List.mem_append_left _ hMem))
    · have hBounded := h.bounded
      rw [← hAll] at hBounded
      exact hBounded
    · have hRoom := h.room
      have hList : ((s.newGroup name).2.addGroup (.normal s.nextGroup)).groupList =
          s.groupList ++ [.normal s.nextGroup] := rfl
      have hBudget : s.ids.budget (s.groupList ++ [.normal s.nextGroup]) =
          s.ids.budget s.groupList + 1 := by
        unfold LazyIds.budget
        rw [List.countP_append, List.countP_singleton]
        simp [hNone, Nat.add_assoc]
      have hGoal : ((s.newGroup name).2.addGroup (.normal s.nextGroup)).ids.budget
          ((s.newGroup name).2.addGroup (.normal s.nextGroup)).groupList + credit < 2 ^ 32 := by
        rw [hAll, hList, hBudget]
        omega
      exact hGoal

end Listed

/-- What each of some steps keeps, and what it takes of the credit. -/
theorem foldl_listed {α β : Type*} {f : β → α → β} (storage : β → XmlStorage) {cost : α → Nat}
    (hStep : ∀ p a credit, Listed (storage p) (cost a + credit) →
      Listed (storage (f p a)) credit ∧ Steady (storage p) (storage (f p a)))
    (as : List α) (p : β) (credit : Nat)
    (h : Listed (storage p) ((as.map cost).sum + credit)) :
    Listed (storage (as.foldl f p)) credit ∧ Steady (storage p) (storage (as.foldl f p)) := by
  induction as generalizing p with
  | nil =>
    rw [List.map_nil, List.sum_nil, Nat.zero_add] at h
    exact ⟨h, .refl _⟩
  | cons a as ih =>
    rw [List.map_cons, List.sum_cons, Nat.add_assoc] at h
    obtain ⟨hListed, hSteady⟩ := hStep p a _ h
    obtain ⟨hListed', hSteady'⟩ := ih (f p a) hListed
    exact ⟨hListed', hSteady.trans hSteady'⟩

/-- The groups that may be made for a reference: one, when it has a name and no id. -/
def groupRefCost (groupElement : DomNode) : Nat :=
  if groupElement.tagName = "group" ∧ groupElement.attr "id" [] = [] then 1 else 0

/-- The groups that may be made for the references in a child of a metacontact. -/
def metaContactChildCost (contactElement : DomNode) : Nat :=
  if contactElement.tagName = "groups" then (contactElement.children.map groupRefCost).sum else 0

/-- The groups that may be made for a metacontact. -/
def metaContactCost (element : DomNode) : Nat :=
  if element.tagName = "meta-contact" then
    ((elementsOf element.children).map metaContactChildCost).sum
  else 0

theorem listed_parseGroupRef (p : Parsing) (groupElement : DomNode) (credit : Nat)
    (h : Listed p.storage (groupRefCost groupElement + credit)) :
    Listed (parseGroupRef p groupElement).storage credit ∧
      Steady p.storage (parseGroupRef p groupElement).storage := by
  unfold parseGroupRef
  unfold groupRefCost at h
  by_cases hTag : groupElement.tagName = "group"
  · rw [if_pos hTag]
    simp only
    by_cases hId : groupElement.attr "id" [] = []
    · rw [if_pos ⟨hTag, hId⟩, Nat.add_comm] at h
      rw [if_neg (not_not.2 hId)]
      exact h.findGroup _
    · rw [if_pos hId]
      exact (h.mono (Nat.le_add_left _ _)).groupAmong _ fun _ hg => hg
  · rw [if_neg hTag]
    split
    · exact ⟨h.mono (Nat.le_add_left _ _), .refl _⟩
    · exact ⟨h.mono (Nat.le_add_left _ _), .refl _⟩

theorem storage_foldl_parseProperty (elements : List DomNode) (p : Parsing) :
    (elements.foldl parseProperty p).storage = p.storage := by
  induction elements generalizing p with
  | nil => rfl
  | cons element elements ih =>
    refine (ih _).trans ?_
    unfold parseProperty
    simp only
    split
    · rfl
    split
    · rfl
    · rfl

theorem listed_parseMetaContactChild (qt : QtTexts) (p : Parsing) (contactElement : DomNode)
    (credit : Nat) (h : Listed p.storage (metaContactChildCost contactElement + credit)) :
    Listed (parseMetaContactChild qt p contactElement).storage credit ∧
      Steady p.storage (parseMetaContactChild qt p contactElement).storage := by
  unfold metaContactChildCost at h
  by_cases hTag : contactElement.tagName = "groups"
  · rw [if_pos hTag] at h
    have hParse : parseMetaContactChild qt p contactElement =
        contactElement.children.foldl parseGroupRef p := by
      unfold parseMetaContactChild
      simp [hTag]
    rw [hParse]
    exact foldl_listed Parsing.storage listed_parseGroupRef _ _ _ h
  · rw [if_neg hTag, Nat.zero_add] at h
    have hSame : (parseMetaContactChild qt p contactElement).storage = p.storage := by
      unfold parseMetaContactChild
      rw [if_neg hTag]
      split
      · unfold parseDisplayName
        simp only
        split <;> rfl
      split
      · unfold parsePhoto
        simp only
        split <;> rfl
      split
      · exact storage_foldl_parseProperty _ _
      split
      · rfl
      · rfl
    rw [hSame]
    exact ⟨h, .refl _⟩

theorem listed_parseMetaContact (qt : QtTexts) (mc : StoredMetaContact) (element : DomNode)
    (credit : Nat)
    (h : Listed s (((elementsOf element.children).map metaContactChildCost).sum + credit)) :
    Listed (parseMetaContact qt mc element s).2 credit ∧
      Steady s (parseMetaContact qt mc element s).2 := by
  unfold parseMetaContact
  simp only
  split
  · exact ⟨h.mono (Nat.le_add_left _ _), .refl _⟩
  · exact foldl_listed Parsing.storage (listed_parseMetaContactChild qt) _
      ⟨_, s, _, _, _, _⟩ _ h

theorem listed_loadMetaContact (qt : QtTexts) (s : XmlStorage) (element : DomNode)
    (credit : Nat) (h : Listed s (metaContactCost element + credit)) :
    Listed (loadMetaContact qt s element) credit ∧ Steady s (loadMetaContact qt s element) := by
  unfold loadMetaContact
  unfold metaContactCost at h
  by_cases hTag : element.tagName = "meta-contact"
  · rw [if_pos hTag] at h ⊢
    obtain ⟨hListed, hSteady⟩ := listed_parseMetaContact qt (.new 0) element credit h
    split
    · next hParse =>
      rw [hParse] at hListed hSteady
      exact ⟨⟨hListed.topLevel, hListed.temporary, hListed.offline, hListed.normal,
        hListed.nodup, hListed.unlisted, hListed.bounded, hListed.room⟩,
        ⟨hSteady.later, hSteady.temporary, hSteady.offline⟩⟩
    · next hParse =>
      rw [hParse] at hListed hSteady
      exact ⟨hListed, hSteady⟩
  · rw [if_neg hTag, Nat.zero_add] at h
    rw [if_neg hTag]
    exact ⟨h, .refl _⟩

/-! ## The check -/

/-- The ids seen are those of the groups `before`, all given and none twice. -/
structure Seen (s : XmlStorage) (before : List Group) (seen : List Nat) : Prop where
  mem_iff : ∀ n, n ∈ seen ↔ ∃ g ∈ before, s.ids.id g = n
  given : ∀ g ∈ before, s.ids.id g ≠ 0
  distinct : s.ids.DistinctOn {g | g ∈ before}

theorem seen_nil (s : XmlStorage) : Seen s [] [] where
  mem_iff _ := ⟨fun hMem => (nomatch hMem), fun ⟨_, hMem, _⟩ => (nomatch hMem)⟩
  given _ hMem := nomatch hMem
  distinct _ hg := nomatch hg.1

/-- One more id, which is none of those seen. -/
theorem Seen.snoc {before : List Group} {seen : List Nat} (h : Seen s before seen)
    (hKept : ∀ g ∈ before, t.ids.id g = s.ids.id g) {g : Group} (hGiven : t.ids.id g ≠ 0)
    (hNew : t.ids.id g ∉ seen) : Seen t (before ++ [g]) (t.ids.id g :: seen) := by
  have hOthers : ∀ g' ∈ before, t.ids.id g' ≠ t.ids.id g := by
    intro g' hg' hEq
    exact hNew ((h.mem_iff _).2 ⟨g', hg', (hKept g' hg').symm.trans hEq⟩)
  refine ⟨fun n => ?_, fun g' hg' => ?_, ?_⟩
  · rw [List.mem_cons, h.mem_iff]
    constructor
    · rintro (rfl | ⟨g', hg', rfl⟩)
      · exact ⟨g, List.mem_append_right _ (List.mem_singleton_self g), rfl⟩
      · exact ⟨g', List.mem_append_left _ hg', hKept g' hg'⟩
    · rintro ⟨g', hg', rfl⟩
      rcases List.mem_append.1 hg' with hg' | hg'
      · exact Or.inr ⟨g', hg', (hKept g' hg').symm⟩
      · rw [List.mem_singleton.1 hg']
        exact Or.inl rfl
  · rcases List.mem_append.1 hg' with hg' | hg'
    · rw [hKept g' hg']
      exact h.given g' hg'
    · rw [List.mem_singleton.1 hg']
      exact hGiven
  · intro g₁ ⟨hg₁, h₁⟩ g₂ ⟨hg₂, h₂⟩ hEq
    rcases List.mem_append.1 hg₁ with hg₁ | hg₁
    · rcases List.mem_append.1 hg₂ with hg₂ | hg₂
      · rw [hKept g₁ hg₁, hKept g₂ hg₂] at hEq
        exact h.distinct ⟨hg₁, h.given g₁ hg₁⟩ ⟨hg₂, h.given g₂ hg₂⟩ hEq
      · rw [List.mem_singleton.1 hg₂] at hEq
        exact absurd hEq (hOthers g₁ hg₁)
    · rcases List.mem_append.1 hg₂ with hg₂ | hg₂
      · rw [List.mem_singleton.1 hg₁] at hEq
        exact absurd hEq.symm (hOthers g₂ hg₂)
      · rw [List.mem_singleton.1 hg₁, List.mem_singleton.1 hg₂]

/-- **The search for an id that comes again** finds one where the ids are not distinct. -/
theorem repeatedId_iff {credit : Nat} (gs before : List Group) (seen : List Nat) {s : XmlStorage}
    (h : Listed s credit) (hList : s.groupList = before ++ gs) (hSeen : Seen s before seen) :
    ((repeatedId gs seen s).1 = false ↔ s.ids.DistinctOn {g | g ∈ s.groupList}) ∧
      Listed (repeatedId gs seen s).2 credit ∧ Steady s (repeatedId gs seen s).2 ∧
      (repeatedId gs seen s).2.groupList = s.groupList := by
  induction gs generalizing before seen s with
  | nil =>
    rw [List.append_nil] at hList
    refine ⟨iff_of_true rfl ?_, h, .refl _, rfl⟩
    rw [hList]
    exact hSeen.distinct
  | cons g gs ih =>
    have hg : g ∈ s.groupList := by
      rw [hList]
      exact List.mem_append_right _ List.mem_cons_self
    obtain ⟨hListed, hSteady, hId, hHere⟩ := h.groupId hg
    have hSame : (s.groupId g).2.groupList = s.groupList := groupList_groupId
    have hKept : ∀ g' ∈ before, (s.groupId g).2.ids.id g' = s.ids.id g' := fun g' hg' =>
      hSteady.later.kept g' (hSeen.given g' hg')
    have hSecond : (s.groupId g).2.ids.id g ≠ 0 := by rwa [hHere]
    unfold repeatedId
    simp only
    split
    · next hRepeated =>
      obtain ⟨g', hg', hEq⟩ := (hSeen.mem_iff _).1 hRepeated
      refine ⟨iff_of_false (by simp) ?_, hListed, hSteady, hSame⟩
      rw [← hSteady.later.distinct h.bounded]
      intro hAll
      have hEqIds : (s.groupId g).2.ids.id g' = (s.groupId g).2.ids.id g := by
        rw [hKept g' hg', hEq, hHere]
      have hMem : g' ∈ s.groupList := by
        rw [hList]
        exact List.mem_append_left _ hg'
      have hFirst : (s.groupId g).2.ids.id g' ≠ 0 := by
        rw [hKept g' hg']
        exact hSeen.given g' hg'
      have hNotBefore : g ∉ before := by
        have hNodup := h.nodup
        rw [hList, List.nodup_append] at hNodup
        exact fun hMem => hNodup.2.2 g hMem g List.mem_cons_self rfl
      exact hNotBefore (hAll ⟨hMem, hFirst⟩ ⟨hg, hSecond⟩ hEqIds ▸ hg')
    · next hNew =>
      have hMore : Seen (s.groupId g).2 (before ++ [g]) ((s.groupId g).1 :: seen) := by
        have hSnoc := hSeen.snoc hKept hSecond (by rwa [hHere])
        rwa [hHere] at hSnoc
      obtain ⟨hIff, hListed', hSteady', hSame'⟩ := ih (before ++ [g]) ((s.groupId g).1 :: seen)
        hListed (by rw [hSame, hList, List.append_assoc, List.singleton_append]) hMore
      refine ⟨?_, hListed', hSteady.trans hSteady', hSame'.trans hSame⟩
      rw [hIff, hSame]
      exact hSteady.later.distinct h.bounded _

/-- **The groups of the list are numbered anew.** -/
theorem renumber_eq (gs : List Group) (n : Nat) (s : XmlStorage) (hNodup : gs.Nodup) :
    (renumber gs n s).1 = n + gs.length ∧
      (renumber gs n s).2.groupList = s.groupList ∧
      (renumber gs n s).2.nextGroup = s.nextGroup ∧
      (∀ g ∉ gs, (renumber gs n s).2.ids.id g = s.ids.id g) ∧
      ∀ (i : Nat) (hi : i < gs.length), (renumber gs n s).2.ids.id gs[i] = n + 1 + i := by
  induction gs generalizing n s with
  | nil => exact ⟨rfl, rfl, rfl, fun _ _ => rfl, fun i hi => absurd hi (Nat.not_lt_zero i)⟩
  | cons g gs ih =>
    obtain ⟨hFirst, hRest⟩ := List.nodup_cons.1 hNodup
    obtain ⟨hNumber, hList, hNext, hOther, hAt⟩ := ih (n + 1) (s.setGroupId g (n + 1)) hRest
    have hIds : (s.setGroupId g (n + 1)).ids.id = Function.update s.ids.id g (n + 1) :=
      ids_setGroup_update _
    unfold renumber
    refine ⟨?_, hList, hNext, ?_, ?_⟩
    · rw [hNumber, List.length_cons]
      omega
    · intro g' hg'
      rw [List.mem_cons, not_or] at hg'
      rw [hOther g' hg'.2, hIds, Function.update_of_ne hg'.1]
    · intro i hi
      cases i with
      | zero => rw [List.getElem_cons_zero, hOther g hFirst, hIds, Function.update_self]
      | succ i =>
        rw [List.getElem_cons_succ, hAt i (Nat.lt_of_succ_lt_succ hi)]
        omega

/-! ## After loading -/

/-- What is done with groups once the list is loaded. -/
inductive GroupUse where
  | groupId (g : Group)
  | newGroup (name : QString)

def useGroup (s : XmlStorage) : GroupUse → XmlStorage
  | .groupId g => (s.groupId g).2
  | .newGroup name => (s.newGroup name).2.addGroup (s.newGroup name).1

/-- A group that is there is asked for its id, and the counter does not wrap around. -/
def CanUse (s : XmlStorage) : GroupUse → Prop
  | .groupId g => (g ∈ s.groupList ∨ g.isNormal = false) ∧ s.ids.Room (2 ^ 32) g
  | .newGroup _ => True

/-- The ids that groups say they have. -/
def answers : XmlStorage → List GroupUse → List (Group × Nat)
  | _, [] => []
  | s, .groupId g :: uses => (g, (s.groupId g).1) :: answers (useGroup s (.groupId g)) uses
  | s, .newGroup name :: uses => answers (useGroup s (.newGroup name)) uses

/-- No two groups ever say that they have the same id. -/
def GroupIdsDistinct (s : XmlStorage) : Prop :=
  ∀ uses, Run.StepsMeet useGroup CanUse s uses →
    ∀ a ∈ answers s uses, ∀ b ∈ answers s uses, a.1 ≠ b.1 → a.2 ≠ b.2

/-- Groups that are made are new, and those that are gone have no id. -/
structure Settled (s : XmlStorage) : Prop where
  normal : ∀ k, .normal k ∈ s.groupList → k < s.nextGroup
  unlisted : ∀ k, .normal k ∉ s.groupList → s.ids.id (.normal k) = 0

theorem Listed.settled {credit : Nat} (h : Listed s credit) : Settled s := ⟨h.normal, h.unlisted⟩

namespace Settled

theorem newGroup (h : Settled s) (name : QString) :
    Settled (useGroup s (.newGroup name)) ∧ (useGroup s (.newGroup name)).ids = s.ids := by
  have hNone : s.ids.id (.normal s.nextGroup) = 0 :=
    h.unlisted _ fun hMem => lt_irrefl _ (h.normal _ hMem)
  have hIds : (useGroup s (.newGroup name)).ids = s.ids :=
    ids_setGroup (s := { s with nextGroup := s.nextGroup + 1 }) (g := .normal s.nextGroup)
      (f := fun _ => .named name) hNone.symm
  refine ⟨⟨?_, ?_⟩, hIds⟩
  · intro k hk
    rcases List.mem_append.1 hk with hk | hk
    · exact Nat.lt_succ_of_lt (h.normal k hk)
    · obtain rfl := Group.normal.inj (List.mem_singleton.1 hk)
      exact Nat.lt_succ_self _
  · intro k hk
    rw [hIds]
    exact h.unlisted k fun hMem => hk (List.mem_append_left _ hMem)

theorem groupId (h : Settled s) {g : Group} (hCan : CanUse s (.groupId g)) :
    Settled (useGroup s (.groupId g)) ∧
      LazyIds.Later s.ids (useGroup s (.groupId g)).ids ∧ (s.groupId g).1 ≠ 0 ∧
      (useGroup s (.groupId g)).ids.id g = (s.groupId g).1 := by
  obtain ⟨hKnown, hRoom⟩ := hCan
  obtain ⟨hId, hIds⟩ := groupId_eq (s := s) (g := g)
  have hUse : (useGroup s (.groupId g)).ids = (s.ids.ask (2 ^ 32) g).2 := hIds
  have hList : (useGroup s (.groupId g)).groupList = s.groupList := groupList_groupId
  have hNext : (useGroup s (.groupId g)).nextGroup = s.nextGroup := nextGroup_groupId
  refine ⟨⟨?_, ?_⟩, ?_, ?_, ?_⟩
  · rw [hList, hNext]
    exact h.normal
  · intro k hk
    rw [hList] at hk
    rw [hUse, LazyIds.id_ask_of_ne]
    · exact h.unlisted k hk
    · rintro rfl
      exact hKnown.elim hk (by simp [Group.isNormal])
  · rw [hUse]
    exact LazyIds.later_ask hRoom
  · rw [hId]
    exact LazyIds.ask_ne_zero hRoom
  · rw [hUse, hId]
    exact LazyIds.id_ask

/-- **A run**: the answers are ids of the groups from then on. -/
theorem run (uses : List GroupUse) {s : XmlStorage} (h : Settled s)
    (hCan : Run.StepsMeet useGroup CanUse s uses) :
    LazyIds.Later s.ids (uses.foldl useGroup s).ids ∧
      ∀ a ∈ answers s uses, a.2 ≠ 0 ∧ (uses.foldl useGroup s).ids.id a.1 = a.2 := by
  induction uses generalizing s with
  | nil => exact ⟨.refl _, fun a ha => absurd ha List.not_mem_nil⟩
  | cons u uses ih =>
    obtain ⟨hHere, hRest⟩ := hCan
    cases u with
    | newGroup name =>
      obtain ⟨hSettled, hIds⟩ := h.newGroup name
      obtain ⟨hLater, hAnswers⟩ := ih hSettled hRest
      rw [hIds] at hLater
      exact ⟨hLater, hAnswers⟩
    | groupId g =>
      obtain ⟨hSettled, hLater, hId, hSame⟩ := h.groupId hHere
      obtain ⟨hLater', hAnswers⟩ := ih hSettled hRest
      refine ⟨hLater.trans hLater', ?_⟩
      intro a ha
      rcases List.mem_cons.1 ha with rfl | ha
      · refine ⟨hId, ?_⟩
        have hKept := hLater'.kept g (by rw [hSame]; exact hId)
        exact hKept.trans hSame
      · exact hAnswers a ha

/-- Distinct ids below the counter stay distinct. -/
theorem distinct (h : Settled s) (hBounded : s.ids.Bounded)
    (hDistinct : s.ids.DistinctOn Set.univ) : GroupIdsDistinct s := by
  intro uses hCan a ha b hb hNe hSame
  obtain ⟨hLater, hAnswers⟩ := h.run uses hCan
  obtain ⟨hId, hGroup⟩ := hAnswers a ha
  obtain ⟨hId', hGroup'⟩ := hAnswers b hb
  have hAll := (hLater.distinct hBounded Set.univ).2 hDistinct
  refine hNe (hAll ⟨Set.mem_univ _, ?_⟩ ⟨Set.mem_univ _, ?_⟩ ?_)
  · rwa [hGroup]
  · rwa [hGroup']
  · rw [hGroup, hGroup', hSame]

/-- Who has an id is there. -/
theorem known (h : Settled s) {g : Group} (hId : s.ids.id g ≠ 0) :
    g ∈ s.groupList ∨ g.isNormal = false := by
  cases g with
  | normal k =>
    left
    by_contra hNot
    exact hId (h.unlisted k hNot)
  | _ => exact Or.inr rfl

/-- Two groups with the same id say so. -/
theorem distinctOn_univ (h : Settled s) (hDistinct : GroupIdsDistinct s) :
    s.ids.DistinctOn Set.univ := by
  rintro g ⟨-, hg⟩ g' ⟨-, hg'⟩ hSame
  by_contra hNe
  have hAsk : ∀ x, s.ids.id x ≠ 0 → s.groupId x = (s.ids.id x, s) := fun x hx => if_neg hx
  have hCan : Run.StepsMeet useGroup CanUse s [.groupId g, .groupId g'] := by
    refine ⟨⟨h.known hg, fun hNone => absurd hNone hg⟩, ?_, trivial⟩
    have hStay : useGroup s (.groupId g) = s := congrArg Prod.snd (hAsk g hg)
    rw [hStay]
    exact ⟨h.known hg', fun hNone => absurd hNone hg'⟩
  have hAnswers : answers s [.groupId g, .groupId g'] = [(g, s.ids.id g), (g', s.ids.id g')] := by
    simp only [answers, useGroup, hAsk g hg, hAsk g' hg']
  refine hDistinct _ hCan (g, s.ids.id g) ?_ (g', s.ids.id g') ?_ hNe hSame
  · simp [hAnswers]
  · simp [hAnswers]

/-- A group that is made and says its id. -/
theorem create (h : Settled s) (hRoom : s.ids.counter + 1 < 2 ^ 32) :
    ∃ t, useGroup s (.newGroup []) = t ∧ CanUse t (.groupId (.normal s.nextGroup)) ∧
      (t.groupId (.normal s.nextGroup)).1 = s.ids.counter + 1 ∧
      Settled (useGroup t (.groupId (.normal s.nextGroup))) ∧
      (useGroup t (.groupId (.normal s.nextGroup))).ids =
        ⟨Function.update s.ids.id (.normal s.nextGroup) (s.ids.counter + 1),
          s.ids.counter + 1⟩ := by
  obtain ⟨hSettled, hIds⟩ := h.newGroup []
  have hNone : s.ids.id (.normal s.nextGroup) = 0 :=
    h.unlisted _ fun hMem => lt_irrefl _ (h.normal _ hMem)
  have hMem : Group.normal s.nextGroup ∈ (useGroup s (.newGroup [])).groupList :=
    List.mem_append_right _ (List.mem_singleton_self _)
  refine ⟨useGroup s (.newGroup []), rfl, ?_⟩
  generalize useGroup s (.newGroup []) = t at hSettled hIds hMem
  obtain ⟨hId, hAfter⟩ := groupId_eq (s := t) (g := .normal s.nextGroup)
  rw [hIds, LazyIds.ask_of_room hNone fun _ => hRoom] at hId hAfter
  have hCan : CanUse t (.groupId (.normal s.nextGroup)) :=
    ⟨Or.inl hMem, fun _ => by rw [hIds]; exact hRoom⟩
  exact ⟨hCan, hId, (hSettled.groupId hCan).1, hAfter⟩

/-- An id ahead of the counter is reached by it: the last of the groups that are made in the
meantime says it, and so does the offline group. -/
theorem reach (d : Nat) {s : XmlStorage} (h : Settled s)
    (hAhead : s.ids.id .offline = s.ids.counter + d + 1) (hLt : s.ids.id .offline < 2 ^ 32) :
    ∃ uses, Run.StepsMeet useGroup CanUse s uses ∧
      (.offline, s.ids.id .offline) ∈ answers s uses ∧
      ∃ k, (.normal k, s.ids.id .offline) ∈ answers s uses := by
  induction d generalizing s with
  | zero =>
    obtain ⟨t, hMake, hCan, hId, hSettled, hIds⟩ := h.create (by omega)
    have hOffline : (useGroup t (.groupId (.normal s.nextGroup))).ids.id .offline =
        s.ids.id .offline := by
      rw [hIds]
      have hNe : Group.offline ≠ .normal s.nextGroup := nofun
      exact Function.update_of_ne hNe (s.ids.counter + 1) s.ids.id
    generalize hAfter : useGroup t (.groupId (.normal s.nextGroup)) = u at hSettled hOffline
    have hGiven : u.ids.id .offline ≠ 0 := by omega
    have hAsk : u.groupId .offline = (s.ids.id .offline, u) := by
      rw [← hOffline]
      exact if_neg hGiven
    have hAnswers : answers s [.newGroup [], .groupId (.normal s.nextGroup), .groupId .offline] =
        [(.normal s.nextGroup, s.ids.id .offline), (.offline, s.ids.id .offline)] := by
      simp only [answers, hMake, hAfter, hId, hAsk, hAhead, Nat.add_zero]
    refine ⟨[.newGroup [], .groupId (.normal s.nextGroup), .groupId .offline],
      ⟨trivial, ?_⟩, ?_, s.nextGroup, ?_⟩
    · rw [hMake]
      refine ⟨hCan, ?_⟩
      rw [hAfter]
      exact ⟨⟨Or.inr rfl, fun hNone => absurd hNone hGiven⟩, trivial⟩
    · rw [hAnswers]
      simp
    · rw [hAnswers]
      simp
  | succ d ih =>
    obtain ⟨t, hMake, hCan, hId, hSettled, hIds⟩ := h.create (by omega)
    have hOffline : (useGroup t (.groupId (.normal s.nextGroup))).ids.id .offline =
        s.ids.id .offline := by
      rw [hIds]
      have hNe : Group.offline ≠ .normal s.nextGroup := nofun
      exact Function.update_of_ne hNe (s.ids.counter + 1) s.ids.id
    have hCounter : (useGroup t (.groupId (.normal s.nextGroup))).ids.counter =
        s.ids.counter + 1 := by rw [hIds]
    obtain ⟨uses, hUses, hSays, k, hSays'⟩ := ih hSettled (by omega) (by omega)
    rw [hOffline] at hSays hSays'
    refine ⟨.newGroup [] :: .groupId (.normal s.nextGroup) :: uses, ⟨trivial, ?_⟩, ?_, k, ?_⟩
    · rw [hMake]
      exact ⟨hCan, hUses⟩
    · simp only [answers, hMake]
      exact List.mem_cons_of_mem _ hSays
    · simp only [answers, hMake]
      exact List.mem_cons_of_mem _ hSays'

end Settled

/-! ## Loading -/

/-- The search, from the start. -/
theorem repeatedId_start (h : Listed s 0) :
    ((repeatedId s.groupList [] s).1 = false ↔ s.ids.DistinctOn {g | g ∈ s.groupList}) ∧
      ∃ t, t = ((repeatedId s.groupList [] s).2.groupId .topLevel).2 ∧ Listed t 0 ∧
        Steady s t ∧ t.groupList = s.groupList := by
  obtain ⟨hIff, hListed, hSteady, hList⟩ :=
    repeatedId_iff s.groupList [] [] h rfl (seen_nil s)
  have hTop : Group.topLevel ∈ (repeatedId s.groupList [] s).2.groupList := by
    rw [hList]
    exact h.topLevel
  obtain ⟨hListed', hSteady', -, -⟩ := hListed.groupId hTop
  exact ⟨hIff, _, rfl, hListed', hSteady.trans hSteady', groupList_groupId.trans hList⟩

/-- The check leaves distinct ids alone. -/
theorem checkGroupIds_of_distinct (h : Listed s 0)
    (hDistinct : s.ids.DistinctOn {g | g ∈ s.groupList}) :
    Settled (checkGroupIds s) ∧ LazyIds.Later s.ids (checkGroupIds s).ids := by
  obtain ⟨hIff, t, ht, hListed, hSteady, -⟩ := repeatedId_start h
  have hCheck : checkGroupIds s = t := by
    unfold checkGroupIds
    simp only [hIff.2 hDistinct, ← ht]
    rfl
  rw [hCheck]
  exact ⟨hListed.settled, hSteady.later⟩

/-- The ids are numbers from 2 on, but for that of the offline group. -/
structure Renumbered (s t : XmlStorage) : Prop where
  settled : Settled t
  groupList : t.groupList = s.groupList
  counter : t.ids.counter = 2 + s.groupList.length
  temporary : t.ids.id .temporary = 2
  offline : t.ids.id .offline = s.ids.id .offline
  listed : ∀ (i : Nat) (hi : i < s.groupList.length), t.ids.id s.groupList[i] = 3 + i

/-- Ids that are not distinct are numbered anew. -/
theorem checkGroupIds_of_repeated (h : Listed s 0)
    (hRepeated : ¬ s.ids.DistinctOn {g | g ∈ s.groupList}) :
    Renumbered s (checkGroupIds s) := by
  obtain ⟨hIff, t, ht, hListed, hSteady, hList⟩ := repeatedId_start h
  have hFound : (repeatedId s.groupList [] s).1 = true := by
    by_contra hNot
    exact hRepeated (hIff.1 (by simpa using hNot))
  generalize hStart : (t.setGroupId .topLevel 1).setGroupId .temporary 2 = u
  have hStartList : u.groupList = t.groupList := by rw [← hStart]; rfl
  have hStartNext : u.nextGroup = t.nextGroup := by rw [← hStart]; rfl
  have hStartIds : u.ids.id = Function.update (Function.update t.ids.id .topLevel 1)
      .temporary 2 := by
    have hInner : (t.setGroupId .topLevel 1).ids.id = Function.update t.ids.id .topLevel 1 :=
      ids_setGroup_update _
    have hOuter : ((t.setGroupId .topLevel 1).setGroupId .temporary 2).ids.id =
        Function.update (t.setGroupId .topLevel 1).ids.id .temporary 2 := ids_setGroup_update _
    rw [← hStart, hOuter, hInner]
  obtain ⟨hNumber, hSameList, hSameNext, hOther, hAt⟩ :=
    renumber_eq u.groupList 2 u (by rw [hStartList, hList]; exact h.nodup)
  have hCheck : checkGroupIds s = { (renumber u.groupList 2 u).2 with
      uniqueGroupId := (renumber u.groupList 2 u).1 } := by
    unfold checkGroupIds
    simp only [hFound, ← ht, hStart]
    rfl
  have hIds : (checkGroupIds s).ids.id = (renumber u.groupList 2 u).2.ids.id := by
    rw [hCheck]
    rfl
  have hSame : u.groupList = s.groupList := hStartList.trans hList
  have hResultList : (checkGroupIds s).groupList = s.groupList := by
    rw [hCheck]
    exact hSameList.trans hSame
  refine ⟨⟨?_, ?_⟩, hResultList, ?_, ?_, ?_, ?_⟩
  · intro k hk
    rw [hResultList, ← hList] at hk
    rw [hCheck]
    exact (hListed.normal k hk).trans_eq (hSameNext.trans hStartNext).symm
  · intro k hk
    rw [hResultList] at hk
    rw [hIds, hOther _ (by rwa [hSame]), hStartIds, Function.update_of_ne (by simp),
      Function.update_of_ne (by simp)]
    exact hListed.unlisted k (by rwa [hList])
  · rw [hCheck, ← hSame]
    exact hNumber
  · rw [hIds, hOther _ (by rw [hSame]; exact h.temporary), hStartIds, Function.update_self]
  · rw [hIds, hOther _ (by rw [hSame]; exact h.offline), hStartIds,
      Function.update_of_ne (by simp), Function.update_of_ne (by simp)]
    exact hSteady.offline
  · intro i hi
    rw [hIds]
    simp only [← hSame] at hi ⊢
    rw [hAt i hi]

/-- Which group has a number. -/
theorem Renumbered.number (h : Renumbered s t) (hTop : .topLevel ∈ s.groupList) {g : Group}
    (hg : t.ids.id g ≠ 0) :
    g = .offline ∨ (g = .temporary ∧ t.ids.id g = 2) ∨
      ∃ i, i < s.groupList.length ∧ t.ids.id g = 3 + i ∧ s.groupList[i]? = some g := by
  have hOnList : g ∈ s.groupList →
      ∃ i, i < s.groupList.length ∧ t.ids.id g = 3 + i ∧ s.groupList[i]? = some g := by
    intro hMem
    obtain ⟨i, hi, rfl⟩ := List.getElem_of_mem hMem
    exact ⟨i, hi, h.listed i hi, List.getElem?_eq_getElem hi⟩
  rcases h.settled.known hg with hMem | hSpecial
  · rw [h.groupList] at hMem
    exact Or.inr (Or.inr (hOnList hMem))
  · cases g with
    | topLevel => exact Or.inr (Or.inr (hOnList hTop))
    | temporary => exact Or.inr (Or.inl ⟨rfl, h.temporary⟩)
    | offline => exact Or.inl rfl
    | normal k => cases hSpecial

/-- A number of the offline group is that of another one, or the counter gets there. -/
theorem Renumbered.offline_le (h : Renumbered s t) (hUnlisted : .offline ∉ s.groupList)
    (hOffline : s.ids.id .offline < 2 ^ 32) (hIds : GroupIdsDistinct t) :
    s.ids.id .offline ≤ 1 := by
  have hSame := h.offline
  have hCounter := h.counter
  have hTemporary := h.temporary
  by_contra hLarge
  rcases Nat.lt_or_ge (2 + s.groupList.length) (t.ids.id .offline) with hAhead | hReached
  · obtain ⟨uses, hUses, hSays, k, hSays'⟩ :=
      h.settled.reach (t.ids.id .offline - t.ids.counter - 1) (by omega) (by omega)
    exact hIds uses hUses _ hSays _ hSays' (by simp) rfl
  · have hAll := h.settled.distinctOn_univ hIds
    by_cases hTwo : t.ids.id .offline = 2
    · have hEq := hAll ⟨Set.mem_univ Group.offline, by omega⟩
        ⟨Set.mem_univ Group.temporary, by omega⟩ (by omega)
      cases hEq
    · have hIndex : t.ids.id .offline - 3 < s.groupList.length := by omega
      have hOther := h.listed _ hIndex
      have hEq := hAll ⟨Set.mem_univ Group.offline, by omega⟩
        ⟨Set.mem_univ s.groupList[t.ids.id .offline - 3], by omega⟩ (by omega)
      exact hUnlisted (hEq ▸ List.getElem_mem _)

theorem Renumbered.distinct (h : Renumbered s t) (hTop : .topLevel ∈ s.groupList)
    (hSmall : s.ids.id .offline ≤ 1) : GroupIdsDistinct t := by
  have hSame := h.offline
  have hCounter := h.counter
  refine h.settled.distinct ?_ ?_
  · intro g
    by_cases hNone : t.ids.id g = 0
    · omega
    · rcases h.number hTop hNone with rfl | ⟨rfl, hId⟩ | ⟨i, hi, hId, -⟩ <;> omega
  · rintro g ⟨-, hg⟩ g' ⟨-, hg'⟩ hEq
    rcases h.number hTop hg with rfl | ⟨rfl, hId⟩ | ⟨i, hi, hId, hGroup⟩
    · rcases h.number hTop hg' with rfl | ⟨rfl, hId'⟩ | ⟨i', hi', hId', -⟩
      · rfl
      all_goals omega
    · rcases h.number hTop hg' with rfl | ⟨rfl, -⟩ | ⟨i', hi', hId', -⟩
      · omega
      · rfl
      · omega
    · rcases h.number hTop hg' with rfl | ⟨rfl, hId'⟩ | ⟨i', hi', hId', hGroup'⟩
      · omega
      · omega
      · have hIndex : i = i' := by omega
        rw [hIndex, hGroup'] at hGroup
        exact (Option.some.inj hGroup).symm

/-- **The check.** Ids that are distinct on the list are left alone, and then those of the two
groups that are not on it count as well; otherwise only that of the offline group is left. -/
theorem checkGroupIds_iff (h : Listed s 0) (hOffline : s.ids.id .offline < 2 ^ 32) :
    GroupIdsDistinct (checkGroupIds s) ↔
      s.ids.DistinctOn Set.univ ∨
        (¬ s.ids.DistinctOn {g | g ∈ s.groupList} ∧ s.ids.id .offline ≤ 1) := by
  by_cases hDistinct : s.ids.DistinctOn {g | g ∈ s.groupList}
  · obtain ⟨hSettled, hLater⟩ := checkGroupIds_of_distinct h hDistinct
    simp only [hDistinct, not_true_eq_false, false_and, or_false]
    rw [← hLater.distinct h.bounded]
    exact ⟨hSettled.distinctOn_univ, hSettled.distinct (hLater.bounded h.bounded)⟩
  · have hAnew := checkGroupIds_of_repeated h hDistinct
    have hNotAll : ¬ s.ids.DistinctOn Set.univ := by
      intro hAll
      refine hDistinct (hAll.mono ?_)
      exact fun g hg => ⟨Set.mem_univ g, hg.2⟩
    simp only [hNotAll, hDistinct, not_false_eq_true, true_and, false_or]
    exact ⟨hAnew.offline_le h.offline hOffline, hAnew.distinct h.topLevel⟩

/-! ## The file -/

/-- The numbers of the groups on the list. -/
def GroupNumbers.onList (ns : GroupNumbers) : List Nat := ns.listed ++ [ns.special .topLevel]

/-- The numbers of all groups. -/
def GroupNumbers.all (ns : GroupNumbers) : List Nat :=
  ns.onList ++ [ns.special .temporary, ns.special .offline]

/-- No number is given twice; or one is on the list, so that all are given anew, and the
offline group has none but 1. -/
def GroupNumbers.Distinct (ns : GroupNumbers) : Prop :=
  (ns.all.filter (· ≠ 0)).Nodup ∨
    (¬ (ns.onList.filter (· ≠ 0)).Nodup ∧ ns.special .offline ≤ 1)

/-- The groups that may be made for references in a file. -/
def groupsByName (list : DomNode) : Nat := ((elementsOf list.children).map metaContactCost).sum

/-- The numbers of a file, and those of the groups that it gives none, fit into a `uint`. -/
def NumbersFit (list : DomNode) : Prop :=
  (groupNumbers list).counter + (groupNumbers list).onList.count 0 + groupsByName list < 2 ^ 32

theorem Listed.distinctOn_list {credit : Nat} (h : Listed s credit) :
    s.ids.DistinctOn {g | g ∈ s.groupList} ↔
      s.ids.DistinctOn {g | g ≠ .temporary ∧ g ≠ .offline} := by
  refine LazyIds.DistinctOn.congr ?_
  intro g hg
  cases g with
  | topLevel => exact iff_of_true h.topLevel (by simp)
  | temporary => exact iff_of_false h.temporary (by simp)
  | offline => exact iff_of_false h.offline (by simp)
  | normal k =>
    refine iff_of_true ?_ (by simp)
    by_contra hNot
    exact hg (h.unlisted k hNot)

theorem Listed.distinctOn_univ {credit : Nat} (h : Listed s credit) :
    s.ids.DistinctOn Set.univ ↔
      s.ids.DistinctOn {g | g ∈ s.groupList ++ [.temporary, .offline]} := by
  refine LazyIds.DistinctOn.congr ?_
  intro g hg
  refine iff_of_true (Set.mem_univ g) (List.mem_append.2 ?_)
  rcases h.settled.known hg with hMem | hSpecial
  · exact Or.inl hMem
  · cases g with
    | topLevel => exact Or.inl h.topLevel
    | temporary => exact Or.inr (by simp)
    | offline => exact Or.inr (by simp)
    | normal k => cases hSpecial

/-- The groups of a file, with the top level at the end. -/
theorem Numbered.listed_addGroup {ns : GroupNumbers} (h : Numbered s ns) {credit : Nat}
    (hRoom : ns.counter + ns.onList.count 0 + credit < 2 ^ 32) :
    Listed (s.addGroup .topLevel) credit ∧
      (s.addGroup .topLevel).groupList.map (s.addGroup .topLevel).ids.id = ns.onList := by
  have hNormal : ∀ g ∈ s.groupList, g.isNormal = true := by
    intro g hg
    obtain ⟨k, -, rfl⟩ := h.normal g hg
    rfl
  have hList : (s.addGroup .topLevel).groupList = s.groupList ++ [.topLevel] := rfl
  have hIds : (s.addGroup .topLevel).ids = s.ids := rfl
  have hNumbers : (s.addGroup .topLevel).groupList.map (s.addGroup .topLevel).ids.id =
      ns.onList := by
    rw [hList, hIds, List.map_append, h.listed, List.map_singleton, h.special .topLevel rfl]
    rfl
  refine ⟨⟨?_, ?_, ?_, ?_, ?_, ?_, h.bounded, ?_⟩, hNumbers⟩
  · rw [hList]
    exact List.mem_append_right _ (List.mem_singleton_self _)
  · rw [hList]
    exact fun hMem => (List.mem_append.1 hMem).elim (fun hg => by cases hNormal _ hg) (by simp)
  · rw [hList]
    exact fun hMem => (List.mem_append.1 hMem).elim (fun hg => by cases hNormal _ hg) (by simp)
  · intro k hk
    rw [hList] at hk
    rcases List.mem_append.1 hk with hk | hk
    · obtain ⟨k', hk', hEq⟩ := h.normal _ hk
      obtain rfl := Group.normal.inj hEq
      exact hk'
    · cases List.mem_singleton.1 hk
  · rw [hList]
    exact QList.nodup_append_iff.2 ⟨h.nodup, fun hMem => by cases hNormal _ hMem⟩
  · intro k hk
    rw [hList] at hk
    exact h.unlisted k fun hMem => hk (List.mem_append_left _ hMem)
  · have hBudget : (s.addGroup .topLevel).ids.budget (s.addGroup .topLevel).groupList =
        ns.counter + ns.onList.count 0 := by
      unfold LazyIds.budget
      rw [← hNumbers, hIds, h.counter, List.count, List.countP_map]
      rfl
    rw [hBudget]
    exact hRoom

/-- **Ids of groups.** After loading a file, the ids of all groups, and of those made later,
are distinct exactly when the numbers in the file are. -/
theorem groupIds_distinct_iff (qt : QtTexts) {list : DomNode} (hFit : NumbersFit list) :
    GroupIdsDistinct (load qt list .new) ↔ (groupNumbers list).Distinct := by
  unfold NumbersFit at hFit
  have hNumbered : Numbered ((elementsOf list.children).foldl loadGroup .new)
      (groupNumbers list) :=
    numbered_new.foldl_loadGroup (elementsOf list.children)
      (show (groupNumbers list).counter < 2 ^ 32 by omega)
  unfold load
  simp only
  generalize (elementsOf list.children).foldl loadGroup .new = s₀ at hNumbered
  obtain ⟨hListed, hNumbers⟩ := hNumbered.listed_addGroup hFit
  have hOffline : (s₀.addGroup .topLevel).ids.id .offline = (groupNumbers list).special .offline :=
    hNumbered.special .offline rfl
  have hTemporary : (s₀.addGroup .topLevel).ids.id .temporary =
      (groupNumbers list).special .temporary := hNumbered.special .temporary rfl
  have hBound : (s₀.addGroup .topLevel).ids.counter = (groupNumbers list).counter :=
    hNumbered.counter
  generalize s₀.addGroup .topLevel = s₁ at hListed hNumbers hOffline hTemporary hBound
  obtain ⟨hListed', hSteady⟩ := foldl_listed (f := loadMetaContact qt)
    (fun s => s) (listed_loadMetaContact qt) (elementsOf list.children) s₁ 0 hListed
  generalize (elementsOf list.children).foldl (loadMetaContact qt) s₁ = s₂ at hListed' hSteady
  have hSame := hSteady.offline.trans hOffline
  have hSmall : s₂.ids.id .offline < 2 ^ 32 := by
    have hLe := hListed.bounded .offline
    rw [hSame, ← hOffline]
    omega
  have hAll : s₂.ids.DistinctOn Set.univ ↔ ((groupNumbers list).all.filter (· ≠ 0)).Nodup := by
    have hNodup : (s₁.groupList ++ [Group.temporary, .offline]).Nodup := by
      rw [List.nodup_append]
      refine ⟨hListed.nodup, by decide, ?_⟩
      rintro g hg g' hg' rfl
      simp only [List.mem_cons, List.not_mem_nil, or_false] at hg'
      rcases hg' with rfl | rfl
      · exact hListed.temporary hg
      · exact hListed.offline hg
    have hMap : (s₁.groupList ++ [Group.temporary, .offline]).map s₁.ids.id =
        (groupNumbers list).all := by
      rw [List.map_append, hNumbers, GroupNumbers.all, List.map_cons, List.map_singleton,
        hTemporary, hOffline]
    rw [hSteady.later.distinct hListed.bounded, hListed.distinctOn_univ,
      LazyIds.distinctOn_list hNodup, hMap]
  have hOn : s₂.ids.DistinctOn {g | g ∈ s₂.groupList} ↔
      ((groupNumbers list).onList.filter (· ≠ 0)).Nodup := by
    rw [hListed'.distinctOn_list, hSteady.later.distinct hListed.bounded,
      ← hListed.distinctOn_list, LazyIds.distinctOn_list hListed.nodup, hNumbers]
  rw [checkGroupIds_iff hListed' hSmall, hAll, hOn, hSame]
  rfl

/-- An entry for a group. -/
def groupEntry (type groupId name : String) : DomNode :=
  .element "kopete-group" [("type", latin1 type), ("groupId", latin1 groupId)]
    [.element "display-name" [] [.text (latin1 name)]]

/-- Two groups with the same id: all are numbered anew. -/
def twoAlike : DomNode :=
  .element "kopete-contact-list" [("version", latin1 "1.2")]
    [groupEntry "top-level" "1" "", groupEntry "standard" "2" "Friends",
      groupEntry "standard" "2" "Work"]

/-- The texts of Qt, where there are none. -/
def noTexts : QtTexts := ⟨fun _ => [], fun _ => 0, id, id⟩

theorem groupIds_distinct_iff_twoAlike : GroupIdsDistinct (load noTexts twoAlike .new) := by
  refine (groupIds_distinct_iff noTexts ?_).2 (Or.inr ?_)
  · unfold NumbersFit
    decide
  · decide

/-- The group for what is temporary has the id of another one. -/
def temporaryClash : DomNode :=
  .element "kopete-contact-list" [("version", latin1 "1.2")]
    [groupEntry "temporary" "2" "", groupEntry "standard" "2" "Friends"]

theorem groupIds_temporary_clash :
    ¬ GroupIdsDistinct (load noTexts temporaryClash .new) := by
  have hTemporary : (load noTexts temporaryClash .new).ids.id .temporary = 2 := by decide
  have hFriends : (load noTexts temporaryClash .new).ids.id (.normal 1) = 2 := by decide
  have hListed : .normal 1 ∈ (load noTexts temporaryClash .new).groupList := by decide
  generalize load noTexts temporaryClash .new = s at hTemporary hFriends hListed
  have hAsk : ∀ g, s.ids.id g = 2 → s.groupId g = (2, s) := by
    intro g hg
    have hGiven : (s.data g).groupId ≠ 0 := by
      intro hNone
      exact absurd (hNone.symm.trans hg) (by decide)
    rw [← hg]
    exact if_neg hGiven
  have hStay : useGroup s (.groupId .temporary) = s := congrArg Prod.snd (hAsk _ hTemporary)
  have hAnswers : answers s [.groupId .temporary, .groupId (.normal 1)] =
      [(.temporary, 2), (.normal 1, 2)] := by
    simp only [answers, useGroup, hAsk _ hTemporary, hAsk _ hFriends]
  intro hDistinct
  refine hDistinct [.groupId .temporary, .groupId (.normal 1)] ⟨⟨Or.inr rfl, ?_⟩, ?_⟩
    (.temporary, 2) ?_ (.normal 1, 2) ?_ (by simp) rfl
  · intro hNone
    omega
  · rw [hStay]
    refine ⟨⟨Or.inl hListed, ?_⟩, trivial⟩
    intro hNone
    omega
  · simp [hAnswers]
  · simp [hAnswers]

end XmlContactStorage

end Kopete
