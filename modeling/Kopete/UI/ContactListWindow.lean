import Kopete.Lib.Run
import Kopete.UI.ContactListTreeModel

/-!
# Contact list window — the tree follows the contact list

The contact list, the metacontacts and the tree that shows them. Whatever the contact list does,
the tree has the metacontacts that are on it, each in its groups, as long as no step is one of a
few that the tree does not follow: a metacontact that is in the offline group is removed, one that
is only in the top level group is taken out of that, one is put into the offline group by hand, or
one comes online and nothing is said.

Main results:

* `Follows.leave`, `Follows.removeGroup` — the loop over the members of a group that is removed;
* `Follows.step` — one operation;
* `shown_of_meets` — every run.
-/

namespace Kopete.UI

open MetaContact (GroupCall GroupSignal shownAfter)
open ContactListTreeModel (RowsOf)

/-- The contact list with the tree that shows it. -/
structure ContactListWindow where
  list : GroupedList
  online : Nat → Bool
  showOfflineGrouped : Bool
  /-- How often the signals of a metacontact are connected to those of the contact list. -/
  forwarded : Nat → ℕ
  model : ContactListTreeModel

namespace ContactListWindow

variable (s : ContactListWindow)

def listed : List Nat := s.list.list.metaContacts

def metaContact (m : Nat) : MetaContact := s.list.list.metaContact m

def groupsOf (m : Nat) : List Group := (s.metaContact m).groups

/-! ## Operations -/

/-- A window that is opened for a contact list. -/
def load (list : GroupedList) (online : Nat → Bool)
    (showOfflineGrouped manualMetaContactSorting : Bool) : ContactListWindow where
  list := list
  online := online
  showOfflineGrouped := showOfflineGrouped
  forwarded := fun m => if m ∈ list.list.metaContacts then 1 else 0
  model := (ContactListTreeModel.new manualMetaContactSorting).loadContactList list online
    showOfflineGrouped

/-- `ContactList::addMetaContact`. -/
def addMetaContact (m : Nat) : ContactListWindow :=
  if m ∈ s.listed then s
  else
    { s with
      list := { s.list with list := s.list.list.addMetaContact m }
      forwarded := Function.update s.forwarded m (s.forwarded m + 1)
      model := s.model.addMetaContact m (s.groupsOf m) (s.online m) s.showOfflineGrouped }

/-- `ContactList::removeMetaContact`. The connections stay for as long as the metacontact. -/
def removeMetaContact (m : Nat) : ContactListWindow :=
  if m ∉ s.listed then s
  else
    { s with
      list := s.list.removeMetaContact m
      model := s.model.removeMetaContact m (s.groupsOf m) }

/-- `ContactList::addGroup`. -/
def addGroup (g : Group) : ContactListWindow :=
  if g ∈ s.list.groups then s
  else
    { s with
      list := { s.list with groups := s.list.groups ++ [g] }
      model := s.model.addGroup g }

/-- A call that changes the groups of a metacontact, and its signals. -/
def groupCall (m : Nat) (call : GroupCall) : ContactListWindow :=
  let mc := s.metaContact m
  { s with
    list := { s.list with list := s.list.list.setMeta m (mc.groupCall call) }
    model := (mc.groupCallSignals call).foldl
      (fun model signal => (ContactListTreeModel.slot · m signal)^[s.forwarded m] model) s.model }

/-- The body of the loop over the members of a group. -/
def leave (g : Group) (s : ContactListWindow) (m : Nat) : ContactListWindow :=
  let mcGroups := s.groupsOf m
  if (mcGroups.length = 1 ∧ g ∈ mcGroups) ∨ mcGroups = [] then s.removeMetaContact m
  else s.groupCall m (.removeFromGroup (some g))

/-- `ContactList::removeGroup`. -/
def removeGroup (g : Group) : ContactListWindow :=
  if g = .topLevel then s
  else
    let s :=
      { s with
        list := { s.list with selectedGroups := QList.removeAll s.list.selectedGroups g } }
    let s := (s.list.members g).foldl (leave g) s
    { s with
      list := { s.list with groups := QList.removeAll s.list.groups g }
      model := s.model.removeGroup g }

/-- The contacts of a metacontact change, and the metacontact may say so; only for a metacontact
on the list is the tree connected. -/
def contactsChanged (m : Nat) (isOnline notified : Bool) : ContactListWindow :=
  { s with
    online := Function.update s.online m isOnline
    model :=
      if notified ∧ m ∈ s.listed then s.model.handleContactDataChange m (s.groupsOf m) isOnline
      else s.model }

/-- What the contact list and its metacontacts do. -/
inductive Op where
  | addMetaContact (m : Nat)
  | removeMetaContact (m : Nat)
  | addGroup (g : Group)
  | removeGroup (g : Group)
  | groupCall (m : Nat) (call : GroupCall)
  | contactsChanged (m : Nat) (isOnline notified : Bool)
  | setShowOfflineGrouped (showOfflineGrouped : Bool)
  | setAddContactPosition (pair : GroupMetaContactPair) (position : Int)

def step : Op → ContactListWindow
  | .addMetaContact m => s.addMetaContact m
  | .removeMetaContact m => s.removeMetaContact m
  | .addGroup g => s.addGroup g
  | .removeGroup g => s.removeGroup g
  | .groupCall m call => s.groupCall m call
  | .contactsChanged m isOnline notified => s.contactsChanged m isOnline notified
  | .setShowOfflineGrouped showOfflineGrouped =>
    { s with showOfflineGrouped := showOfflineGrouped }
  | .setAddContactPosition pair position =>
    { s with
      model :=
        { s.model with
          addContactPosition := Function.update s.model.addContactPosition pair position } }

/-! ## What is to hold, and when it does -/

/-- The tree shows the contact list. -/
structure Shown (s : ContactListWindow) : Prop where
  pair : ∀ {g mc q}, s.model.metaContacts (g, mc) = some q → ∃ p, s.model.groups g = some p ∧
    s.model.metaContactItems.get? q = some ⟨mc, some p⟩ ∧
    (s.model.groupItem p).items.count (.metaContact q) = 1 ∧
    ∀ {g' p'}, s.model.groups g' = some p' → g' ≠ g →
      Row.metaContact q ∉ (s.model.groupItem p').items
  row : ∀ {g p r}, s.model.groups g = some p → r ∈ (s.model.groupItem p).items →
    (∃ mc q, r = .metaContact q ∧ s.model.metaContacts (g, mc) = some q) ∨
      ∃ g' p', r = .group p' ∧ s.model.groups g' = some p'
  metaContactsFirst : ∀ {g p}, s.model.groups g = some p → ∃ ms gs : List ℕ,
    (s.model.groupItem p).items = ms.map Row.metaContact ++ gs.map Row.group
  pairs : ∀ {g}, g ≠ .offline → ∀ m, s.model.Shows g m ↔ m ∈ s.listed ∧ g ∈ s.groupsOf m
  offline : ∀ m, s.model.Shows .offline m → m ∈ s.listed ∧ s.online m = false

/-- A contact list as it is loaded: no metacontact twice, groups as calls have left them, and in
the offline group itself only metacontacts that are not online, unless the window sees to that. -/
structure Loads (list : GroupedList) (online : Nat → Bool) (showOfflineGrouped : Bool) : Prop where
  nodup : list.list.metaContacts.Nodup
  fromGroupCalls : ∀ m, (list.list.metaContact m).FromGroupCalls
  offline : ∀ m ∈ list.list.metaContacts, online m = true → .offline ∈ list.groupsOf m →
    showOfflineGrouped = true

/-- The tree follows the operation. -/
def Meets (s : ContactListWindow) : Op → Prop
  | .addMetaContact m =>
    m ∉ s.listed → s.online m = true → .offline ∈ s.groupsOf m → s.showOfflineGrouped = true
  | .removeMetaContact m => m ∈ s.listed → s.model.Shows .offline m → .offline ∈ s.groupsOf m
  | .addGroup _ => True
  | .removeGroup g =>
    g ≠ .topLevel → s.model.ShowsGroup g ∧
      (∀ m ∈ s.listed, s.groupsOf m = [g] → s.model.Shows .offline m → g = .offline) ∧
      (g = .offline → ∀ m, s.model.Shows .offline m → .offline ∈ s.groupsOf m)
  | .groupCall m call =>
    (m ∈ s.listed → (s.metaContact m).KeepsTopLevel call ∧
      (.offline ∈ ((s.metaContact m).groupCall call).groups →
        .offline ∈ s.groupsOf m ∨ s.online m = false)) ∧
    (m ∉ s.listed → s.forwarded m ≠ 0 →
      ∀ signal ∈ (s.metaContact m).groupCallSignals call, ∀ g, ¬ signal.Adds g)
  | .contactsChanged m isOnline notified =>
    isOnline = true → s.model.Shows .offline m → notified = true
  | .setShowOfflineGrouped _ => True
  | .setAddContactPosition _ _ => True

/-! ## The invariant -/

variable {s}

/-- What every step keeps. -/
structure Follows (s : ContactListWindow) : Prop where
  ok : s.model.Ok
  nodup : s.listed.Nodup
  groupsOk : ∀ m, (s.metaContact m).GroupsOk
  forwards : ∀ m ∈ s.listed, s.forwarded m ≠ 0
  pairs : ∀ {g}, g ≠ .offline → ∀ m, s.model.Shows g m ↔ m ∈ s.listed ∧ g ∈ s.groupsOf m
  offline : ∀ m, s.model.Shows .offline m → m ∈ s.listed ∧ s.online m = false

theorem Follows.shown (h : s.Follows) : s.Shown := by
  constructor
  case pair =>
    intro g mc q hq
    obtain ⟨p, hp, hGet, hMem⟩ := h.ok.pair hq
    obtain ⟨ms, gs, hRows, -, -⟩ := h.ok.rows hp
    refine ⟨p, hp, hGet, List.count_eq_one_of_mem hRows.nodup hMem, ?_⟩
    intro g' p' hp' hOther hMem'
    obtain ⟨ms', gs', hRows', hPairs', -⟩ := h.ok.rows hp'
    obtain ⟨mc', hq'⟩ := hPairs' q
      ((ContactListTreeModel.mem_metaContacts_of_row hRows' q).mp hMem')
    exact hOther (h.ok.pair_injective hq' hq).1
  case row =>
    intro g p r hp hr
    obtain ⟨ms, gs, hRows, hPairs, hSub⟩ := h.ok.rows hp
    cases r with
    | metaContact q =>
      obtain ⟨mc, hq⟩ := hPairs q ((ContactListTreeModel.mem_metaContacts_of_row hRows q).mp hr)
      exact .inl ⟨mc, q, rfl, hq⟩
    | group p' =>
      obtain ⟨-, g', -, hp'⟩ := hSub p' ((ContactListTreeModel.mem_groups_of_row hRows p').mp hr)
      exact .inr ⟨g', p', rfl, hp'⟩
  case metaContactsFirst =>
    intro g p hp
    obtain ⟨ms, gs, hRows, -, -⟩ := h.ok.rows hp
    exact ⟨ms, gs, hRows.eq⟩
  case pairs => exact h.pairs
  case offline => exact h.offline

/-- A metacontact that is not on the list has no row. -/
theorem Follows.not_shows (h : s.Follows) {m : Nat} (hm : m ∉ s.listed) (g : Group) :
    ¬ s.model.Shows g m := by
  intro hShows
  by_cases hg : g = .offline
  · subst hg
    exact hm (h.offline m hShows).1
  · exact hm ((h.pairs hg m).mp hShows).1

/-- The other metacontacts are as they were. -/
structure Elsewhere (s : ContactListWindow) (m : Nat) (s' : ContactListWindow) : Prop where
  metaContact : ∀ m', m' ≠ m → s'.metaContact m' = s.metaContact m'
  listed : ∀ m', m' ≠ m → (m' ∈ s'.listed ↔ m' ∈ s.listed)
  online : ∀ m', m' ≠ m → s'.online m' = s.online m'
  forwarded : ∀ m', m' ≠ m → s'.forwarded m' = s.forwarded m'

/-- **One metacontact** changes, and its rows with it. -/
theorem Follows.of_rowsOf (h : s.Follows) {s' : ContactListWindow} {m : Nat}
    {shows : Group → Prop} (hRows : RowsOf s.model m shows s'.model) (hElse : s.Elsewhere m s')
    (hNodup : s'.listed.Nodup) (hGroups : (s'.metaContact m).GroupsOk)
    (hForwards : m ∈ s'.listed → s'.forwarded m ≠ 0)
    (hPairs : ∀ {g}, g ≠ .offline → (shows g ↔ m ∈ s'.listed ∧ g ∈ s'.groupsOf m))
    (hOffline : shows .offline → m ∈ s'.listed ∧ s'.online m = false) : s'.Follows := by
  constructor
  case ok => exact hRows.ok
  case nodup => exact hNodup
  case groupsOk =>
    intro m'
    by_cases hm : m' = m
    · exact hm ▸ hGroups
    · rw [hElse.metaContact m' hm]
      exact h.groupsOk m'
  case forwards =>
    intro m' hListed
    by_cases hm : m' = m
    · subst hm
      exact hForwards hListed
    · rw [hElse.forwarded m' hm]
      exact h.forwards m' ((hElse.listed m' hm).mp hListed)
  case pairs =>
    intro g hg m'
    by_cases hm : m' = m
    · subst hm
      exact (hRows.here g).trans (hPairs hg)
    · rw [hRows.elsewhere g m' hm, hElse.listed m' hm, groupsOf, hElse.metaContact m' hm]
      exact h.pairs hg m'
  case offline =>
    intro m' hShows
    by_cases hm : m' = m
    · subst hm
      exact hOffline ((hRows.here .offline).mp hShows)
    · rw [hElse.listed m' hm, hElse.online m' hm]
      exact h.offline m' ((hRows.elsewhere .offline m' hm).mp hShows)

/-! ## Metacontacts -/

theorem listed_addMetaContact {m : Nat} (hm : m ∉ s.listed) :
    (s.addMetaContact m).listed = s.listed ++ [m] := by
  have hNot : m ∉ s.list.list.metaContacts := hm
  rw [addMetaContact, if_neg hm, listed, ContactList.addMetaContact, if_neg hNot]
  rfl

theorem metaContact_addMetaContact (m : Nat) :
    (s.addMetaContact m).metaContact = s.metaContact := by
  unfold addMetaContact
  split
  · rfl
  · change (s.list.list.addMetaContact m).metaContact = _
    unfold ContactList.addMetaContact
    split <;> rfl

theorem Follows.rowsOf_addMetaContact (h : s.Follows) {m : Nat} (hm : m ∉ s.listed) :
    RowsOf s.model m
      (fun g => if g = .offline ∧ s.showOfflineGrouped = true then s.online m = false
        else g ∈ s.groupsOf m ∨ s.model.Shows g m)
      (s.addMetaContact m).model := by
  rw [ContactListWindow.addMetaContact, if_neg hm]
  exact h.ok.rowsOf_addMetaContact m (s.groupsOf m) (s.online m) s.showOfflineGrouped

/-- **A metacontact is added.** -/
theorem Follows.addMetaContact (h : s.Follows) {m : Nat}
    (hMeets : s.Meets (.addMetaContact m)) : (s.addMetaContact m).Follows := by
  by_cases hm : m ∈ s.listed
  · rw [ContactListWindow.addMetaContact, if_pos hm]
    exact h
  have hMeta := metaContact_addMetaContact (s := s) m
  have hListed := listed_addMetaContact hm
  have hMem : ∀ m', m' ∈ (s.addMetaContact m).listed ↔ m' ∈ s.listed ∨ m' = m := by
    intro m'
    rw [hListed, List.mem_append, List.mem_singleton]
  have hSelf : m ∈ (s.addMetaContact m).listed := (hMem m).mpr (.inr rfl)
  have hEq : s.addMetaContact m =
      { s with
        list := { s.list with list := s.list.list.addMetaContact m }
        forwarded := Function.update s.forwarded m (s.forwarded m + 1)
        model := s.model.addMetaContact m (s.groupsOf m) (s.online m) s.showOfflineGrouped } :=
    if_neg hm
  have hElse : s.Elsewhere m (s.addMetaContact m) := by
    refine ⟨fun m' _ => congrFun hMeta m', fun m' hOther => ?_, fun m' _ => ?_, fun m' hOther => ?_⟩
    · rw [hMem, or_iff_left hOther]
    · rw [hEq]
    · rw [hEq]
      exact Function.update_of_ne hOther _ _
  refine h.of_rowsOf (h.rowsOf_addMetaContact hm) hElse ?_ ?_ (fun _ => ?_)
    (fun {g} hg => ?_) (fun hShows => ⟨hSelf, ?_⟩)
  · rw [hListed]
    exact QList.nodup_append_iff.mpr ⟨h.nodup, hm⟩
  · rw [hMeta]
    exact h.groupsOk m
  · rw [hEq]
    change Function.update s.forwarded m (s.forwarded m + 1) m ≠ 0
    rw [Function.update_self]
    exact Nat.succ_ne_zero _
  · have hNone := h.not_shows hm g
    have hGroups : (s.addMetaContact m).groupsOf m = s.groupsOf m :=
      congrArg MetaContact.groups (congrFun hMeta m)
    simp only [hg, false_and, if_false, hNone, or_false, hSelf, true_and, hGroups]
  · have hNone := h.not_shows hm .offline
    have hOnline : (s.addMetaContact m).online m = s.online m := by rw [hEq]
    rw [hOnline]
    simp only [hNone, or_false, true_and] at hShows
    split at hShows
    · exact hShows
    · next hNotShown =>
      rw [← Bool.not_eq_true]
      exact fun hOnline => hNotShown (hMeets hm hOnline hShows)

theorem metaContact_removeMetaContact (m : Nat) :
    (s.removeMetaContact m).metaContact = s.metaContact := by
  unfold removeMetaContact
  split
  · rfl
  · exact GroupedList.metaContact_removeMetaContact m

theorem listed_removeMetaContact (m : Nat) :
    (s.removeMetaContact m).listed = QList.removeAll s.listed m := by
  unfold removeMetaContact
  split
  · next hm => exact (QList.removeAll_of_not_mem hm).symm
  · exact GroupedList.metaContacts_removeMetaContact m

theorem elsewhere_removeMetaContact (m : Nat) : s.Elsewhere m (s.removeMetaContact m) := by
  refine ⟨fun m' _ => congrFun (metaContact_removeMetaContact m) m', fun m' hOther => ?_,
    fun m' _ => ?_, fun m' _ => ?_⟩
  · rw [listed_removeMetaContact, QList.mem_removeAll, and_iff_left hOther]
  · unfold removeMetaContact
    split <;> rfl
  · unfold removeMetaContact
    split <;> rfl

theorem Follows.rowsOf_removeMetaContact (h : s.Follows) {m : Nat} (hm : m ∈ s.listed) :
    RowsOf s.model m (fun g => g ∉ s.groupsOf m ∧ s.model.Shows g m)
      (s.removeMetaContact m).model := by
  rw [ContactListWindow.removeMetaContact, if_neg (not_not.mpr hm)]
  exact h.ok.rowsOf_removeMetaContact m (s.groupsOf m)

/-- **A metacontact is removed.** -/
theorem Follows.removeMetaContact (h : s.Follows) {m : Nat}
    (hMeets : s.Meets (.removeMetaContact m)) : (s.removeMetaContact m).Follows := by
  by_cases hm : m ∈ s.listed
  · have hGone : m ∉ (s.removeMetaContact m).listed := by simp [listed_removeMetaContact]
    refine h.of_rowsOf (h.rowsOf_removeMetaContact hm) (elsewhere_removeMetaContact m) ?_ ?_
      (fun hStill => absurd hStill hGone) (fun {g} hg => iff_of_false ?_ fun hStill =>
        hGone hStill.1) (fun hShows => ?_)
    · rw [listed_removeMetaContact]
      exact QList.nodup_removeAll h.nodup m
    · rw [metaContact_removeMetaContact]
      exact h.groupsOk m
    · rintro ⟨hOut, hShows⟩
      exact hOut ((h.pairs hg m).mp hShows).2
    · exact absurd (hMeets hm hShows.2) hShows.1
  · rw [ContactListWindow.removeMetaContact, if_pos hm]
    exact h

/-! ## Calls that change groups -/

theorem metaContact_groupCall (m : Nat) (call : GroupCall) :
    (s.groupCall m call).metaContact =
      Function.update s.metaContact m ((s.metaContact m).groupCall call) := rfl

theorem groupsOf_groupCall_self (m : Nat) (call : GroupCall) :
    (s.groupCall m call).groupsOf m = ((s.metaContact m).groupCall call).groups := by
  rw [groupsOf, metaContact_groupCall, Function.update_self]

theorem elsewhere_groupCall (m : Nat) (call : GroupCall) :
    s.Elsewhere m (s.groupCall m call) :=
  ⟨fun _ hOther => Function.update_of_ne hOther _ _, fun _ _ => Iff.rfl, fun _ _ => rfl,
    fun _ _ => rfl⟩

theorem Follows.rowsOf_groupCall (h : s.Follows) {m : Nat} (call : GroupCall)
    (hn : s.forwarded m ≠ 0) :
    RowsOf s.model m (shownAfter ((s.metaContact m).groupCallSignals call) (s.model.Shows · m))
      (s.groupCall m call).model :=
  h.ok.rowsOf_signals m _ hn

/-- **A call that changes groups.** -/
theorem Follows.groupCall (h : s.Follows) {m : Nat} {call : GroupCall}
    (hMeets : s.Meets (.groupCall m call)) : (s.groupCall m call).Follows := by
  have hGroups : ((s.groupCall m call).metaContact m).GroupsOk := by
    rw [metaContact_groupCall, Function.update_self]
    exact (h.groupsOk m).call call
  by_cases hm : m ∈ s.listed
  · obtain ⟨hKeeps, hPut⟩ := hMeets.1 hm
    have hAfter := MetaContact.shownAfter_groupCall (h.groupsOk m) hKeeps
    refine h.of_rowsOf (h.rowsOf_groupCall call (h.forwards m hm)) (elsewhere_groupCall m call)
      h.nodup hGroups (h.forwards m) (fun {g} hg => ?_) (fun hShows => ⟨hm, ?_⟩)
    · rw [groupsOf_groupCall_self, ← hAfter]
      refine (MetaContact.shownAfter_congr ?_ _).trans (and_iff_right hm).symm
      exact (h.pairs hg m).trans (and_iff_right hm)
    · by_cases hAdds : ∀ signal ∈ (s.metaContact m).groupCallSignals call, ¬ signal.Adds .offline
      · exact (h.offline m (MetaContact.shownAfter_of_not_adds hAdds hShows)).2
      · push Not at hAdds
        obtain ⟨signal, hSignal, hAdds⟩ := hAdds
        have hNew : Group.offline ∉ (s.metaContact m).groups :=
          (MetaContact.adds_groupCall hSignal hAdds).resolve_right (by simp)
        by_cases hBefore : s.model.Shows .offline m
        · exact (h.offline m hBefore).2
        · -- nobody had it in the offline group, and now it is in it
          have hIn := (MetaContact.shownAfter_congr (iff_of_false hBefore hNew) _).mp hShows
          exact (hPut ((hAfter .offline).mp hIn)).resolve_left hNew
  · by_cases hn : s.forwarded m = 0
    · have hSame : (s.groupCall m call).model = s.model := by
        change List.foldl _ _ _ = _
        rw [hn]
        exact List.foldl_fixed _
      have hRows : RowsOf s.model m (s.model.Shows · m) (s.groupCall m call).model :=
        hSame ▸ RowsOf.refl h.ok m
      exact h.of_rowsOf hRows (elsewhere_groupCall m call) h.nodup hGroups
        (fun hStill => absurd hStill hm)
        (fun {g} _ => iff_of_false (h.not_shows hm g) fun hStill => hm hStill.1)
        (fun hShows => absurd hShows (h.not_shows hm .offline))
    · have hNone : ∀ g, ¬ shownAfter ((s.metaContact m).groupCallSignals call)
          (s.model.Shows · m) g := by
        intro g hShows
        exact h.not_shows hm g (MetaContact.shownAfter_of_not_adds
          (fun signal hSignal => hMeets.2 hm hn signal hSignal g) hShows)
      exact h.of_rowsOf (h.rowsOf_groupCall call hn) (elsewhere_groupCall m call) h.nodup hGroups
        (fun hStill => absurd hStill hm)
        (fun {g} _ => iff_of_false (hNone g) fun hStill => hm hStill.1)
        (fun hShows => absurd hShows (hNone .offline))

/-! ## A status -/

/-- A metacontact with a row has one in a group of its. -/
theorem Follows.indexListFor_ne_nil (h : s.Follows) {m : Nat} {g : Group}
    (hShows : s.model.Shows g m) : s.model.indexListFor m (s.groupsOf m) ≠ [] := by
  have hm : m ∈ s.listed := by
    by_contra hm
    exact h.not_shows hm g hShows
  obtain ⟨g', hg'⟩ := List.exists_mem_of_ne_nil _ (h.groupsOk m).nonempty
  by_cases hOffline : g' = .offline
  · by_cases hg : g = .offline
    · exact h.ok.indexListFor_ne_nil (hOffline ▸ hg') (hg ▸ hShows)
    · exact h.ok.indexListFor_ne_nil ((h.pairs hg m).mp hShows).2 hShows
  · exact h.ok.indexListFor_ne_nil hg' ((h.pairs hOffline m).mpr ⟨hm, hg'⟩)

theorem elsewhere_contactsChanged (m : Nat) (isOnline notified : Bool) :
    s.Elsewhere m (s.contactsChanged m isOnline notified) :=
  ⟨fun _ _ => rfl, fun _ _ => Iff.rfl, fun _ hOther => Function.update_of_ne hOther _ _,
    fun _ _ => rfl⟩

/-- **A status changes.** -/
theorem Follows.contactsChanged (h : s.Follows) {m : Nat} {isOnline notified : Bool}
    (hMeets : s.Meets (.contactsChanged m isOnline notified)) :
    (s.contactsChanged m isOnline notified).Follows := by
  have hOnline : (s.contactsChanged m isOnline notified).online m = isOnline :=
    Function.update_self ..
  have hElse := elsewhere_contactsChanged (s := s) m isOnline notified
  by_cases hHeard : notified = true ∧ m ∈ s.listed
  · have hModel : (s.contactsChanged m isOnline notified).model =
        s.model.handleContactDataChange m (s.groupsOf m) isOnline := if_pos hHeard
    have hRows := h.ok.rowsOf_handleContactDataChange m (s.groupsOf m) isOnline
    rw [← hModel] at hRows
    refine h.of_rowsOf hRows hElse h.nodup (h.groupsOk m) (h.forwards m) (fun {g} hg => ?_)
      (fun hShows => ⟨hHeard.2, hOnline.trans ?_⟩)
    · simp only [hg, false_and, if_false]
      exact h.pairs hg m
    · simp only [true_and] at hShows
      split at hShows
      · exact hShows
      · next hNone => exact absurd (h.indexListFor_ne_nil hShows) hNone
  · have hModel : (s.contactsChanged m isOnline notified).model = s.model := if_neg hHeard
    have hRows : RowsOf s.model m (s.model.Shows · m)
        (s.contactsChanged m isOnline notified).model := hModel ▸ RowsOf.refl h.ok m
    refine h.of_rowsOf hRows hElse h.nodup (h.groupsOk m) (h.forwards m)
      (fun {g} hg => h.pairs hg m) (fun hShows => ?_)
    obtain ⟨hm, -⟩ := h.offline m hShows
    refine ⟨hm, hOnline.trans ?_⟩
    rw [← Bool.not_eq_true]
    exact fun hOnline => hHeard ⟨hMeets hOnline hShows, hm⟩

/-! ## Groups -/

/-- Nothing changes for the metacontacts. -/
theorem Follows.of_shows (h : s.Follows) {s' : ContactListWindow}
    (hList : s'.list.list = s.list.list) (hOnline : s'.online = s.online)
    (hForwarded : s'.forwarded = s.forwarded) (hOk : s'.model.Ok)
    (hShows : ∀ g m, s'.model.Shows g m ↔ s.model.Shows g m) : s'.Follows := by
  have hListed : s'.listed = s.listed := congrArg ContactList.metaContacts hList
  have hMeta : s'.metaContact = s.metaContact := congrArg ContactList.metaContact hList
  constructor
  case ok => exact hOk
  case nodup => exact hListed ▸ h.nodup
  case groupsOk => exact hMeta ▸ h.groupsOk
  case forwards => exact hListed ▸ hForwarded ▸ h.forwards
  case pairs =>
    intro g hg m
    rw [hShows, hListed, groupsOf, hMeta]
    exact h.pairs hg m
  case offline =>
    intro m hShown
    rw [hListed, hOnline]
    exact h.offline m ((hShows .offline m).mp hShown)

/-- **A group is added.** -/
theorem Follows.addGroup (h : s.Follows) (g : Group) : (s.addGroup g).Follows := by
  unfold ContactListWindow.addGroup
  split
  · exact h
  · exact h.of_shows rfl rfl rfl (h.ok.addGroup g) (ContactListTreeModel.shows_addGroup g)

/-- **One member** of a group that is removed. -/
theorem Follows.leave (h : s.Follows) {g : Group} {m : Nat} (hTop : g ≠ .topLevel)
    (hm : m ∈ s.listed) (hg : g ∈ s.groupsOf m)
    (hAlone : s.groupsOf m = [g] → s.model.Shows .offline m → g = .offline) :
    (s.leave g m).Follows ∧ s.Elsewhere m (s.leave g m) ∧
      ∃ shows, RowsOf s.model m shows (s.leave g m).model ∧ ¬ shows g := by
  have hSole : ((s.groupsOf m).length = 1 ∧ g ∈ s.groupsOf m) ∨ s.groupsOf m = [] ↔
      s.groupsOf m = [g] := GroupedList.sole_iff (h.groupsOk m) g
  by_cases hGroups : s.groupsOf m = [g]
  · have hLeave : s.leave g m = s.removeMetaContact m := if_pos (hSole.mpr hGroups)
    have hMeets : s.Meets (.removeMetaContact m) := by
      intro _ hShows
      rw [hGroups, hAlone hGroups hShows]
      exact List.mem_singleton_self _
    rw [hLeave]
    exact ⟨h.removeMetaContact hMeets, elsewhere_removeMetaContact m, _,
      h.rowsOf_removeMetaContact hm, fun hShows => hShows.1 hg⟩
  · have hLeave : s.leave g m = s.groupCall m (.removeFromGroup (some g)) :=
      if_neg fun hAll => hGroups (hSole.mp hAll)
    have hNotTop : s.groupsOf m ≠ [.topLevel] := by
      intro hIs
      rw [hIs, List.mem_singleton] at hg
      exact hTop hg
    have hRemoved : ((s.metaContact m).removeFromGroup g).groups =
        QList.removeAll (s.groupsOf m) g :=
      GroupedList.groups_removeFromGroup (h.groupsOk m) hGroups
    have hMeets : s.Meets (.groupCall m (.removeFromGroup (some g))) := by
      refine ⟨fun _ => ⟨fun hIs => absurd hIs hNotTop, fun hPut => .inl ?_⟩,
        fun hNot => absurd hm hNot⟩
      change Group.offline ∈ ((s.metaContact m).removeFromGroup g).groups at hPut
      rw [hRemoved] at hPut
      exact (QList.mem_removeAll.mp hPut).1
    have hSignals : (s.metaContact m).groupCallSignals (.removeFromGroup (some g)) =
        [.removedFromGroup g] :=
      MetaContact.removeFromGroupSignals_eq (h.groupsOk m) hg hGroups
    have hRows := h.rowsOf_groupCall (.removeFromGroup (some g)) (h.forwards m hm)
    rw [hSignals] at hRows
    rw [hLeave]
    exact ⟨h.groupCall hMeets, elsewhere_groupCall m _, _, hRows, fun hShows => hShows.1 rfl⟩

/-- What the loop needs to know of a member that it has not come to. -/
def Leaves (s : ContactListWindow) (g : Group) (m : Nat) : Prop :=
  m ∈ s.listed ∧ g ∈ s.groupsOf m ∧
    (s.groupsOf m = [g] → s.model.Shows .offline m → g = .offline)

/-- **The loop over the members** of a group that is removed. None of them is shown in it. -/
theorem Follows.foldl_leave {g : Group} (hTop : g ≠ .topLevel) {ms : List Nat} (hNodup : ms.Nodup)
    (h : s.Follows) (hMembers : ∀ m ∈ ms, s.Leaves g m) :
    (ms.foldl (ContactListWindow.leave g) s).Follows ∧
      (∀ g', s.model.ShowsGroup g' →
        (ms.foldl (ContactListWindow.leave g) s).model.ShowsGroup g') ∧
      ∀ m, (ms.foldl (ContactListWindow.leave g) s).model.Shows g m →
        s.model.Shows g m ∧ m ∉ ms := by
  induction ms generalizing s with
  | nil => exact ⟨h, fun _ => id, fun m hShows => ⟨hShows, List.not_mem_nil⟩⟩
  | cons m ms ih =>
    obtain ⟨hNew, hNodup⟩ := List.nodup_cons.mp hNodup
    obtain ⟨hm, hg, hAlone⟩ := hMembers m List.mem_cons_self
    obtain ⟨hNext, hElse, shows, hRows, hGone⟩ := h.leave hTop hm hg hAlone
    have hRest : ∀ m' ∈ ms, (s.leave g m).Leaves g m' := by
      intro m' hm'
      have hOther : m' ≠ m := fun hSame => hNew (hSame ▸ hm')
      have hMember := hMembers m' (List.mem_cons_of_mem _ hm')
      unfold Leaves at hMember ⊢
      rw [hElse.listed m' hOther, hRows.elsewhere .offline m' hOther, groupsOf,
        hElse.metaContact m' hOther]
      exact hMember
    obtain ⟨hFollows, hGroup, hLeft⟩ := ih hNodup hNext hRest
    refine ⟨hFollows, fun g' hShows => hGroup g' (hRows.group g' hShows), fun m' hShows => ?_⟩
    obtain ⟨hBefore, hNot⟩ := hLeft m' hShows
    have hOther : m' ≠ m := by
      rintro rfl
      exact hGone ((hRows.here g).mp hBefore)
    refine ⟨(hRows.elsewhere g m' hOther).mp hBefore, fun hMem => ?_⟩
    exact (List.mem_cons.mp hMem).elim hOther hNot

/-- **A group is removed.** -/
theorem Follows.removeGroup (h : s.Follows) {g : Group} (hMeets : s.Meets (.removeGroup g)) :
    (s.removeGroup g).Follows := by
  unfold ContactListWindow.removeGroup
  split
  · exact h
  · next hTop =>
    obtain ⟨hItem, hAlone, hOffline⟩ := hMeets hTop
    let s₁ : ContactListWindow :=
      { s with
        list := { s.list with selectedGroups := QList.removeAll s.list.selectedGroups g } }
    have hFollows : s₁.Follows := h.of_shows rfl rfl rfl h.ok fun _ _ => Iff.rfl
    have hMem : ∀ m, m ∈ s.list.members g ↔ m ∈ s.listed ∧ g ∈ s.groupsOf m := by
      intro m
      rw [GroupedList.members, List.mem_filter, decide_eq_true_eq]
      rfl
    have hMembers : ∀ m ∈ s.list.members g, s₁.Leaves g m := by
      intro m hm
      obtain ⟨hListed, hg⟩ := (hMem m).mp hm
      exact ⟨hListed, hg, hAlone m hListed⟩
    obtain ⟨hLoop, hGroup, hLeft⟩ :=
      Follows.foldl_leave hTop (h.nodup.filter _) hFollows hMembers
    have hEmpty : ∀ m, ¬ ((s.list.members g).foldl (ContactListWindow.leave g) s₁).model.Shows g
        m := by
      intro m hShows
      obtain ⟨hBefore, hNot⟩ := hLeft m hShows
      refine hNot ((hMem m).mpr ?_)
      by_cases hg : g = .offline
      · subst hg
        exact ⟨(h.offline m hBefore).1, hOffline rfl m hBefore⟩
      · exact (h.pairs hg m).mp hBefore
    exact hLoop.of_shows rfl rfl rfl (hLoop.ok.removeGroup hTop (hGroup g hItem) hEmpty)
      (hLoop.ok.shows_removeGroup hTop (hGroup g hItem) hEmpty)

/-! ## Runs -/

/-- **One operation.** -/
theorem Follows.step (h : s.Follows) {op : Op} (hMeets : s.Meets op) : (s.step op).Follows := by
  cases op with
  | addMetaContact m => exact h.addMetaContact hMeets
  | removeMetaContact m => exact h.removeMetaContact hMeets
  | addGroup g => exact h.addGroup g
  | removeGroup g => exact h.removeGroup hMeets
  | groupCall m call => exact h.groupCall hMeets
  | contactsChanged m isOnline notified => exact h.contactsChanged hMeets
  | setShowOfflineGrouped showOfflineGrouped =>
    exact h.of_shows rfl rfl rfl h.ok fun _ _ => Iff.rfl
  | setAddContactPosition pair position =>
    exact h.of_shows rfl rfl rfl (h.ok.withPositions _) fun _ _ => Iff.rfl

theorem follows_load {list : GroupedList} {online : Nat → Bool} {showOfflineGrouped : Bool}
    (hLoads : Loads list online showOfflineGrouped) (manual : Bool) :
    (load list online showOfflineGrouped manual).Follows := by
  obtain ⟨hAll, hRows⟩ := ContactListTreeModel.loadContactList_shows manual list hLoads.nodup
    online showOfflineGrouped
  constructor
  case ok => exact hAll
  case nodup => exact hLoads.nodup
  case groupsOk => exact fun m => (hLoads.fromGroupCalls m).groupsOk
  case forwards =>
    intro m hm
    have hOnce : (load list online showOfflineGrouped manual).forwarded m = 1 := if_pos hm
    rw [hOnce]
    exact Nat.one_ne_zero
  case pairs =>
    intro g hg m
    refine (hRows g m).trans ?_
    simp only [hg, false_and, if_false]
    rfl
  case offline =>
    intro m hShown
    obtain ⟨hm, hIn⟩ := (hRows .offline m).mp hShown
    refine ⟨hm, ?_⟩
    simp only [true_and] at hIn
    split at hIn
    · exact hIn
    · next hNot =>
      change online m = false
      rw [← Bool.not_eq_true]
      exact fun hOnline => hNot (hLoads.offline m hm hOnline hIn)

/-- **The tree follows the contact list.** From any contact list, and through any operations that
the tree follows, hashes, items and rows agree with each other and with the contact list. -/
theorem shown_of_meets {list : GroupedList} {online : Nat → Bool} {showOfflineGrouped : Bool}
    (hLoads : Loads list online showOfflineGrouped) (manual : Bool) {ops : List Op}
    (hMeets : Run.StepsMeet step Meets (load list online showOfflineGrouped manual) ops) :
    ∀ t ∈ Run.states step (load list online showOfflineGrouped manual) ops, t.Shown := by
  intro t ht
  have hStep : ∀ (s : ContactListWindow) (op : Op), s.Follows → s.Meets op → (s.step op).Follows :=
    fun s op h hOp => h.step hOp
  exact (Run.inv_of_stepsMeet hStep (follows_load hLoads manual) hMeets t ht).shown

/-- A contact list with one metacontact, which is not online. -/
def oneContact : GroupedList where
  list :=
    { metaContact := fun _ => .new
      contact := fun _ => ⟨[], none⟩
      metaContacts := [0] }
  groups := [.topLevel]
  selectedMetaContacts := []
  selectedGroups := []

theorem loads_oneContact : Loads oneContact (fun _ => false) true :=
  ⟨List.nodup_singleton 0, fun _ => ⟨[], rfl, rfl⟩, fun _ _ hOnline => nomatch hOnline⟩

/-- It is moved to another group. -/
theorem shown_oneContact :
    (step (load oneContact (fun _ => false) true false)
      (.groupCall 0 (.moveToGroup (some .topLevel) (some (.normal 3))))).Shown := by
  have hMeets : Run.StepsMeet step Meets (load oneContact (fun _ => false) true false)
      [.groupCall 0 (.moveToGroup (some .topLevel) (some (.normal 3)))] := by
    refine ⟨⟨fun _ => ⟨fun _ => ⟨by decide, by decide⟩, fun _ => .inr rfl⟩, fun hNot => ?_⟩,
      trivial⟩
    exact absurd (List.mem_singleton_self 0) hNot
  exact shown_of_meets loads_oneContact false hMeets _
    (Run.foldl_mem_states _ [Op.groupCall 0 (.moveToGroup (some .topLevel) (some (.normal 3)))])

/-- **Removing a metacontact leaves it in the offline group.** -/
theorem removeMetaContact_stays :
    Loads oneContact (fun _ => false) true ∧
      ¬ ∀ t ∈ Run.states step (load oneContact (fun _ => false) true false)
          [.removeMetaContact 0], t.Shown := by
  refine ⟨loads_oneContact, fun hAll => ?_⟩
  have hShown := hAll _ (Run.foldl_mem_states _ [Op.removeMetaContact 0])
  have hStays : ([Op.removeMetaContact 0].foldl step
      (load oneContact (fun _ => false) true false)).model.Shows .offline 0 := by
    decide
  have hGone : 0 ∉ ([Op.removeMetaContact 0].foldl step
      (load oneContact (fun _ => false) true false)).listed := by
    decide
  exact hGone (hShown.offline 0 hStays).1

end ContactListWindow

end Kopete.UI
