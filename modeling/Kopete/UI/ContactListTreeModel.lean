import Kopete.Libkopete.GroupSignals
import Kopete.UI.TreeGroups

/-!
# Contact list window — what the tree is told

The slots of the tree: metacontacts and groups are added and removed, a metacontact changes its
groups, and its status changes. The offline group is its own: metacontacts come to it and leave it
with their status, where the window is told of it, and removing a metacontact does not take it out.

Main results:

* `RowsOf` — one metacontact has its rows changed, and the rows of the others stay;
* `Ok.rowsOf_addMetaContact`, `Ok.rowsOf_removeMetaContact`, `Ok.rowsOf_signals`,
  `Ok.rowsOf_handleContactDataChange` — what each slot does;
* `loadContactList_shows` — a tree that is filled from a contact list.
-/

namespace Kopete.UI

open MetaContact (GroupCall GroupSignal shownAfter)

/-! ## The slots -/

namespace ContactListTreeModel

/-- `ContactListTreeModel::ContactListTreeModel`. -/
def new (manualMetaContactSorting : Bool) : ContactListTreeModel where
  metaContactItems := Heap.empty
  groupItems := Heap.empty.new ⟨.topLevel, [], none⟩
  topLevelGroup := Heap.next (Heap.empty (α := GroupModelItem))
  groups := Function.update (fun _ => none) .topLevel
    (some (Heap.next (Heap.empty (α := GroupModelItem))))
  metaContacts := fun _ => none
  manualMetaContactSorting := manualMetaContactSorting
  addContactPosition := fun _ => none

variable (s : ContactListTreeModel)

/-- `ContactListTreeModel::addMetaContact`, for a metacontact in `groups`. -/
def addMetaContact (contact : Nat) (groups : List Group) (isOnline showOfflineGrouped : Bool) :
    ContactListTreeModel :=
  let s := groups.foldl (fun s g => s.addMetaContactToGroup contact g) s
  if showOfflineGrouped then
    if !isOnline then s.addMetaContactToGroup contact .offline
    else s.removeMetaContactFromGroup contact .offline
  else s

/-- `ContactListTreeModel::removeMetaContact`. -/
def removeMetaContact (contact : Nat) (groups : List Group) : ContactListTreeModel :=
  groups.foldl (fun s g => s.removeMetaContactFromGroup contact g) s

/-- `ContactListModel::moveMetaContactToGroup`. -/
def moveMetaContactToGroup (mc : Nat) (source target : Group) : ContactListTreeModel :=
  (s.removeMetaContactFromGroup mc source).addMetaContactToGroup mc target

/-- `ContactListTreeModel::indexListFor`: the items of a metacontact whose index is valid. -/
def indexListFor (mc : Nat) (groups : List Group) : List ℕ :=
  (groups.filterMap fun g => s.metaContacts (g, mc)).filter fun q =>
    s.index (s.metaContactItem q).parent (.metaContact q) ≠ -1

/-- `ContactListTreeModel::handleContactDataChange`. -/
def handleContactDataChange (mc : Nat) (groups : List Group) (isOnline : Bool) :
    ContactListTreeModel :=
  (s.indexListFor mc groups).foldl
    (fun s _ =>
      if !isOnline then s.addMetaContactToGroup mc .offline
      else s.removeMetaContactFromGroup mc .offline) s

/-- The slot of a signal about the groups of a metacontact. -/
def slot (mc : Nat) : GroupSignal → ContactListTreeModel
  | .addedToGroup g => s.addMetaContactToGroup mc g
  | .removedFromGroup g => s.removeMetaContactFromGroup mc g
  | .movedToGroup source target => s.moveMetaContactToGroup mc source target

/-- `ContactListTreeModel::loadContactList`. -/
def loadContactList (list : GroupedList) (online : Nat → Bool) (showOfflineGrouped : Bool) :
    ContactListTreeModel :=
  let s := s.addGroup .topLevel
  let s := list.groups.foldl addGroup s
  list.list.metaContacts.foldl
    (fun s mc => s.addMetaContact mc (list.groupsOf mc) (online mc) showOfflineGrouped) s

/-! ## One metacontact -/

variable {s}

/-- The tree with the rows of one metacontact changed, which has them in the groups `shows`. -/
structure RowsOf (s : ContactListTreeModel) (mc : Nat) (shows : Group → Prop)
    (s' : ContactListTreeModel) : Prop where
  ok : s'.Ok
  here : ∀ g, s'.Shows g mc ↔ shows g
  elsewhere : ∀ g mc', mc' ≠ mc → (s'.Shows g mc' ↔ s.Shows g mc')
  group : ∀ g, s.ShowsGroup g → s'.ShowsGroup g

namespace RowsOf

variable {s' s'' : ContactListTreeModel} {mc : Nat} {shows shows' : Group → Prop}

theorem refl (h : s.Ok) (mc : Nat) : RowsOf s mc (s.Shows · mc) s :=
  ⟨h, fun _ => Iff.rfl, fun _ _ _ => Iff.rfl, fun _ => id⟩

theorem congr (h : RowsOf s mc shows s') (hShows : ∀ g, shows g ↔ shows' g) :
    RowsOf s mc shows' s' :=
  ⟨h.ok, fun g => (h.here g).trans (hShows g), h.elsewhere, h.group⟩

theorem trans (h : RowsOf s mc shows s') (h' : RowsOf s' mc shows' s'') :
    RowsOf s mc shows' s'' :=
  ⟨h'.ok, h'.here,
    fun g mc' hOther => (h'.elsewhere g mc' hOther).trans (h.elsewhere g mc' hOther),
    fun g hGroup => h'.group g (h.group g hGroup)⟩

end RowsOf

theorem Ok.rowsOf_addMetaContactToGroup (h : s.Ok) (mc : Nat) (g : Group) :
    RowsOf s mc (fun g' => g' = g ∨ s.Shows g' mc) (s.addMetaContactToGroup mc g) := by
  refine ⟨h.addMetaContactToGroup mc g, fun g' => ?_, fun g' mc' hOther => ?_, fun g' hGroup => ?_⟩
  · rw [h.shows_addMetaContactToGroup, Prod.mk.injEq, and_iff_left rfl]
  · rw [h.shows_addMetaContactToGroup, or_iff_right]
    exact fun hSame => hOther (congrArg Prod.snd hSame)
  · exact (h.showsGroup_addMetaContactToGroup mc g g').mpr (.inr hGroup)

theorem Ok.rowsOf_removeMetaContactFromGroup (h : s.Ok) (mc : Nat) (g : Group) :
    RowsOf s mc (fun g' => g' ≠ g ∧ s.Shows g' mc) (s.removeMetaContactFromGroup mc g) := by
  refine ⟨h.removeMetaContactFromGroup mc g, fun g' => ?_, fun g' mc' hOther => ?_,
    fun g' hGroup => ?_⟩
  · rw [shows_removeMetaContactFromGroup, ne_eq, Prod.mk.injEq, and_iff_left rfl]
  · rw [shows_removeMetaContactFromGroup, and_iff_right]
    exact fun hSame => hOther (congrArg Prod.snd hSame)
  · exact (showsGroup_removeMetaContactFromGroup mc g g').mpr hGroup

theorem Ok.rowsOf_slot (h : s.Ok) (mc : Nat) (signal : GroupSignal) :
    RowsOf s mc (signal.shown (s.Shows · mc)) (s.slot mc signal) := by
  cases signal with
  | addedToGroup g => exact h.rowsOf_addMetaContactToGroup mc g
  | removedFromGroup g => exact h.rowsOf_removeMetaContactFromGroup mc g
  | movedToGroup source target =>
    have hRemoved := h.rowsOf_removeMetaContactFromGroup mc source
    refine (hRemoved.trans (hRemoved.ok.rowsOf_addMetaContactToGroup mc target)).congr fun g => ?_
    rw [hRemoved.here]
    rfl

/-- A signal that comes several times does what it does once. -/
theorem Ok.rowsOf_slots (h : s.Ok) (mc : Nat) (signal : GroupSignal) (n : ℕ) :
    RowsOf s mc (signal.shown (s.Shows · mc)) ((slot · mc signal)^[n + 1] s) := by
  induction n with
  | zero => exact h.rowsOf_slot mc signal
  | succ n ih =>
    rw [Function.iterate_succ_apply']
    refine (ih.trans (ih.ok.rowsOf_slot mc signal)).congr fun g => ?_
    exact (MetaContact.shown_congr (ih.here g) signal).trans
      (MetaContact.shown_shown signal _ g)

/-- **Signals about one metacontact**, each of which comes `n` times. -/
theorem Ok.rowsOf_signals (h : s.Ok) (mc : Nat) (signals : List GroupSignal) {n : ℕ}
    (hn : n ≠ 0) :
    RowsOf s mc (shownAfter signals (s.Shows · mc))
      (signals.foldl (fun s signal => (slot · mc signal)^[n] s) s) := by
  obtain ⟨n, rfl⟩ := Nat.exists_eq_succ_of_ne_zero hn
  induction signals generalizing s with
  | nil => exact .refl h mc
  | cons signal signals ih =>
    have hFirst := h.rowsOf_slots mc signal n
    refine (hFirst.trans (ih hFirst.ok)).congr fun g => ?_
    exact MetaContact.shownAfter_congr (hFirst.here g) signals

theorem Ok.rowsOf_addAll (h : s.Ok) (mc : Nat) (groups : List Group) :
    RowsOf s mc (fun g => g ∈ groups ∨ s.Shows g mc)
      (groups.foldl (fun s g => s.addMetaContactToGroup mc g) s) := by
  induction groups generalizing s with
  | nil => exact (RowsOf.refl h mc).congr (by simp)
  | cons group groups ih =>
    have hFirst := h.rowsOf_addMetaContactToGroup mc group
    refine (hFirst.trans (ih hFirst.ok)).congr fun g => ?_
    rw [hFirst.here, List.mem_cons]
    tauto

/-- **A metacontact is removed.** -/
theorem Ok.rowsOf_removeMetaContact (h : s.Ok) (mc : Nat) (groups : List Group) :
    RowsOf s mc (fun g => g ∉ groups ∧ s.Shows g mc) (s.removeMetaContact mc groups) := by
  unfold removeMetaContact
  induction groups generalizing s with
  | nil => exact (RowsOf.refl h mc).congr (by simp)
  | cons group groups ih =>
    have hFirst := h.rowsOf_removeMetaContactFromGroup mc group
    refine (hFirst.trans (ih hFirst.ok)).congr fun g => ?_
    rw [hFirst.here, List.mem_cons]
    tauto

/-- The offline group, for a metacontact of this status. -/
theorem Ok.rowsOf_offline (h : s.Ok) (mc : Nat) (isOnline : Bool) :
    RowsOf s mc (fun g => if g = .offline then isOnline = false else s.Shows g mc)
      (if !isOnline then s.addMetaContactToGroup mc .offline
      else s.removeMetaContactFromGroup mc .offline) := by
  cases isOnline with
  | false =>
    refine (h.rowsOf_addMetaContactToGroup mc .offline).congr fun g => ?_
    by_cases hg : g = .offline <;> simp [hg]
  | true =>
    refine (h.rowsOf_removeMetaContactFromGroup mc .offline).congr fun g => ?_
    by_cases hg : g = .offline <;> simp [hg]

/-- **A metacontact is added.** -/
theorem Ok.rowsOf_addMetaContact (h : s.Ok) (mc : Nat) (groups : List Group)
    (isOnline showOfflineGrouped : Bool) :
    RowsOf s mc
      (fun g => if g = .offline ∧ showOfflineGrouped = true then isOnline = false
        else g ∈ groups ∨ s.Shows g mc)
      (s.addMetaContact mc groups isOnline showOfflineGrouped) := by
  have hAll := h.rowsOf_addAll mc groups
  cases showOfflineGrouped with
  | false => exact hAll.congr (by simp)
  | true =>
    refine (hAll.trans (hAll.ok.rowsOf_offline mc isOnline)).congr fun g => ?_
    rw [hAll.here]
    simp

/-- **A status changes**, or something else about the metacontact. -/
theorem Ok.rowsOf_handleContactDataChange (h : s.Ok) (mc : Nat) (groups : List Group)
    (isOnline : Bool) :
    RowsOf s mc
      (fun g => if g = .offline ∧ s.indexListFor mc groups ≠ [] then isOnline = false
        else s.Shows g mc)
      (s.handleContactDataChange mc groups isOnline) := by
  unfold handleContactDataChange
  generalize s.indexListFor mc groups = indexList
  induction indexList generalizing s with
  | nil => exact (RowsOf.refl h mc).congr (by simp)
  | cons _ indexList ih =>
    have hFirst := h.rowsOf_offline mc isOnline
    refine (hFirst.trans (ih hFirst.ok)).congr fun g => ?_
    rw [hFirst.here]
    by_cases hg : g = .offline <;> simp [hg]

/-- A metacontact that is shown in a group of its has an index. -/
theorem Ok.indexListFor_ne_nil (h : s.Ok) {mc : Nat} {groups : List Group} {g : Group}
    (hg : g ∈ groups) (hShows : s.Shows g mc) : s.indexListFor mc groups ≠ [] := by
  obtain ⟨q, hq⟩ := Option.isSome_iff_exists.mp hShows
  obtain ⟨p, hp, -, -⟩ := h.pair hq
  refine List.ne_nil_of_mem (List.mem_filter.mpr ⟨List.mem_filterMap.mpr ⟨g, hg, hq⟩, ?_⟩)
  rw [(h.removeMetaContactItem_eq hp hq).1, decide_eq_true_eq]
  omega

/-! ## Loading -/

theorem groups_new {manual : Bool} {g : Group} {p : ℕ} :
    (new manual).groups g = some p ↔ g = .topLevel ∧ p = (new manual).topLevelGroup := by
  change Function.update (fun _ => none) Group.topLevel (some (new manual).topLevelGroup) g =
    some p ↔ _
  by_cases hg : g = .topLevel
  · subst hg
    simp [eq_comm]
  · simp [hg]

theorem ok_new (manual : Bool) : (new manual).Ok := by
  have hItem : (new manual).groupItem (new manual).topLevelGroup = ⟨.topLevel, [], none⟩ := rfl
  constructor
  case topLevel => exact groups_new.mpr ⟨rfl, rfl⟩
  case group =>
    intro g p hp
    obtain ⟨rfl, rfl⟩ := groups_new.mp hp
    exact ⟨Heap.live_new_self _, rfl, fun hOther => absurd rfl hOther⟩
  case pair =>
    intro g mc q hq
    cases hq
  case rows =>
    intro g p hp
    obtain ⟨rfl, rfl⟩ := groups_new.mp hp
    refine ⟨[], [], ⟨congrArg GroupModelItem.items hItem, List.nodup_nil, List.nodup_nil⟩, ?_⟩
    exact ⟨List.forall_mem_nil _, List.forall_mem_nil _⟩

theorem Ok.foldl_addGroup (h : s.Ok) (groups : List Group) :
    (groups.foldl ContactListTreeModel.addGroup s).Ok ∧
      ∀ g mc, (groups.foldl ContactListTreeModel.addGroup s).Shows g mc ↔ s.Shows g mc := by
  induction groups generalizing s with
  | nil => exact ⟨h, fun _ _ => Iff.rfl⟩
  | cons group groups ih =>
    obtain ⟨hOk, hShows⟩ := ih (h.addGroup group)
    exact ⟨hOk, fun g mc => (hShows g mc).trans (shows_addGroup group g mc)⟩

/-- **Metacontacts are added** one after the other. -/
theorem Ok.foldl_addMetaContact (h : s.Ok) {mcs : List Nat} (hNodup : mcs.Nodup)
    (hNone : ∀ mc ∈ mcs, ∀ g, ¬ s.Shows g mc) (groups : Nat → List Group) (online : Nat → Bool)
    (showOfflineGrouped : Bool) :
    let s' := mcs.foldl
      (fun s mc => s.addMetaContact mc (groups mc) (online mc) showOfflineGrouped) s
    s'.Ok ∧ ∀ g mc, s'.Shows g mc ↔ s.Shows g mc ∨ (mc ∈ mcs ∧
      if g = .offline ∧ showOfflineGrouped = true then online mc = false else g ∈ groups mc) := by
  induction mcs generalizing s with
  | nil => exact ⟨h, by simp⟩
  | cons mc mcs ih =>
    obtain ⟨hNew, hNodup⟩ := List.nodup_cons.mp hNodup
    have hFirst := h.rowsOf_addMetaContact mc (groups mc) (online mc) showOfflineGrouped
    have hNone' : ∀ mc' ∈ mcs, ∀ g, ¬ (s.addMetaContact mc (groups mc) (online mc)
        showOfflineGrouped).Shows g mc' := by
      intro mc' hmc' g
      have hOther : mc' ≠ mc := fun hSame => hNew (hSame ▸ hmc')
      rw [hFirst.elsewhere g mc' hOther]
      exact hNone mc' (List.mem_cons_of_mem _ hmc') g
    obtain ⟨hOk, hShows⟩ := ih hFirst.ok hNodup hNone'
    refine ⟨hOk, fun g mc' => (hShows g mc').trans ?_⟩
    by_cases hmc : mc' = mc
    · subst hmc
      rw [hFirst.here]
      simp [hNew, hNone mc' List.mem_cons_self g]
    · rw [hFirst.elsewhere g mc' hmc]
      simp [hmc]

/-- **A tree that is filled** has the metacontacts of the list, each in its groups. -/
theorem loadContactList_shows (manual : Bool) (list : GroupedList)
    (hNodup : list.list.metaContacts.Nodup) (online : Nat → Bool) (showOfflineGrouped : Bool) :
    let s := (new manual).loadContactList list online showOfflineGrouped
    s.Ok ∧ ∀ g m, s.Shows g m ↔ m ∈ list.list.metaContacts ∧
      if g = .offline ∧ showOfflineGrouped = true then online m = false
      else g ∈ list.groupsOf m := by
  obtain ⟨hOk, hSame⟩ := ((ok_new manual).addGroup .topLevel).foldl_addGroup list.groups
  have hNone : ∀ g m, ¬ (list.groups.foldl addGroup ((new manual).addGroup .topLevel)).Shows g m :=
    by
      intro g m hShows
      rw [hSame, shows_addGroup] at hShows
      cases hShows
  obtain ⟨hAll, hShows⟩ := hOk.foldl_addMetaContact hNodup (fun m _ g => hNone g m)
    list.groupsOf online showOfflineGrouped
  exact ⟨hAll, fun g m => (hShows g m).trans (or_iff_right (hNone g m))⟩

end ContactListTreeModel

end Kopete.UI
