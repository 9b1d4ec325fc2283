import Kopete.Libkopete.MetaContactStatus
import Kopete.UI.ContactListTreeModel

/-!
# Contact list window — the rows that are let through

Between the contact list and its view stands a filter. It asks the model below it for the data of
a row by role, and there are two models: the tree of groups, and the plain list of metacontacts.
A group is decided by counts, a metacontact by its status. The count takes a metacontact that is
connecting for one that is not there, the status takes it for one that is; and the plain model
does not say which metacontacts are always visible.

Main results:

* `accepts_group_iff`, `accepts_tree_iff`, `accepts_plain_iff` — what is let through;
* `acceptsAlike_iff` — when a group goes with its rows, and the two models with each other.
-/

namespace Kopete.UI

/-! ## Metacontacts -/

/-- A contact: its status, and its property `isAlwaysVisible`. -/
structure ContactPresence where
  onlineStatus : OnlineStatus
  isAlwaysVisible : Bool

/-- A metacontact with its contacts and the status that it keeps, which is that of
`MetaContact::updateOnlineStatus`. -/
structure Presence where
  contacts : List ContactPresence
  onlineStatus : StatusType
  updated : onlineStatus =
    (OnlineStatus.mostSignificant (contacts.map ContactPresence.onlineStatus)).status

namespace Presence

/-- `MetaContact::updateOnlineStatus`. -/
def ofContacts (contacts : List ContactPresence) : Presence := ⟨contacts, _, rfl⟩

/-- `MetaContact::isOnline`. -/
def isOnline (mc : Presence) : Bool := mc.contacts.any fun c => c.onlineStatus.isDefinitelyOnline

/-- `MetaContact::isAlwaysVisible`. -/
def isAlwaysVisible (mc : Presence) : Bool := mc.contacts.any ContactPresence.isAlwaysVisible

end Presence

/-! ## The models -/

/-- The roles that the filter asks for. -/
inductive ItemRole where
  | type
  | object
  | totalCount
  | connectedCount
  | onlineStatus
  | alwaysVisible

/-- `Kopete::Items::TypeRole`. -/
inductive ItemType where
  | group
  | metaContact
deriving DecidableEq

/-- The `QVariant` of a role. -/
inductive ItemData where
  | invalid
  | type (t : ItemType)
  | group (g : Group)
  | metaContact (m : Nat)
  | int (n : ℕ)
  | bool (b : Bool)
deriving DecidableEq

namespace ItemData

/-- `QVariant::toInt`. -/
def toInt : ItemData → ℕ
  | int n => n
  | bool b => b.toNat
  | _ => 0

/-- `QVariant::toBool`. -/
def toBool : ItemData → Bool
  | int n => n ≠ 0
  | bool b => b
  | _ => false

/-- The object, if it is a group. -/
def group? : ItemData → Option Group
  | group g => some g
  | _ => none

/-- The object, if it is a metacontact. -/
def metaContact? : ItemData → Option Nat
  | metaContact m => some m
  | _ => none

end ItemData

/-- What a filter sees of a model: the data of an index, which may be invalid, and the rows
below one. -/
structure ItemModel (ι : Type) where
  data : Option ι → ItemRole → ItemData
  rows : ι → List ι

/-- `ContactListModel::metaContactData`. -/
def metaContactData (presence : Nat → Presence) (mc : Nat) : ItemRole → ItemData
  | .type => .type .metaContact
  | .object => .metaContact mc
  | .onlineStatus => .int (presence mc).onlineStatus.value
  | .totalCount | .connectedCount | .alwaysVisible => .invalid

/-- `ContactListPlainModel`. -/
def plainModel (presence : Nat → Presence) : ItemModel Nat where
  data index role := match index with
    | none => .invalid
    | some mc => metaContactData presence mc role
  rows _ := []

namespace ContactListTreeModel

variable (s : ContactListTreeModel)

/-- `ContactListTreeModel::countConnected`. -/
def countConnected (presence : Nat → Presence) (gmi : ℕ) : ℕ :=
  (s.groupItem gmi).items.countP fun clmi => match clmi with
    | .group _ => false
    | .metaContact mcmi =>
      let mc := presence (s.metaContactItem mcmi).metaContact
      mc.isOnline || mc.isAlwaysVisible

/-- `ContactListTreeModel::data` for a group. -/
def groupData (members : Group → List Nat) (presence : Nat → Presence) (gmi : ℕ) :
    ItemRole → ItemData
  | .type => .type .group
  | .object => .group (s.groupItem gmi).group
  | .totalCount => .int (members (s.groupItem gmi).group).length
  | .connectedCount => .int (s.countConnected presence gmi)
  | .onlineStatus => .int StatusType.unknown.value
  | .alwaysVisible => .invalid

/-- `ContactListTreeModel::data` for a metacontact. -/
def rowData (presence : Nat → Presence) (mcmi : ℕ) : ItemRole → ItemData
  | .alwaysVisible => .bool (presence (s.metaContactItem mcmi).metaContact).isAlwaysVisible
  | role => metaContactData presence (s.metaContactItem mcmi).metaContact role

/-- `ContactListTreeModel`, for a contact list in which groups have these members. -/
def itemModel (members : Group → List Nat) (presence : Nat → Presence) : ItemModel Row where
  data index role := match index with
    | none => .invalid
    | some (.group gmi) => s.groupData members presence gmi role
    | some (.metaContact mcmi) => s.rowData presence mcmi role
  rows index := match index with
    | .group gmi => (s.groupItem gmi).items
    | .metaContact _ => []

end ContactListTreeModel

/-! ## The filter -/

/-- `AppearanceSettings`, as far as the filter goes by it. -/
structure AppearanceSettings where
  showEmptyGroups : Bool
  showOfflineUsers : Bool
  showOfflineGrouped : Bool
  groupContactByGroup : Bool

namespace ContactListProxyModel

variable {ι : Type} (settings : AppearanceSettings)

/-- `filterAcceptsRow` for a group. With a search the group is there for what is found in it. -/
def acceptsGroup (searchContactInfo : Option (Nat → Bool)) (model : ItemModel ι) (current : ι) :
    Bool :=
  let groupObject := (model.data (some current) .object).group?
  if groupObject = some .topLevel then true
  else
    let connectedContactsCount := (model.data (some current) .connectedCount).toInt
    let totalContactsCount := (model.data (some current) .totalCount).toInt
    let isOfflineGroup : Bool := groupObject = some .offline
    match searchContactInfo with
    | some search =>
      !isOfflineGroup && (model.rows current).any fun qmi =>
        model.data (some qmi) .type = .type .metaContact &&
          (model.data (some qmi) .object).metaContact?.any search
    | none =>
      if !settings.showOfflineGrouped ∧ isOfflineGroup then false
      else if !settings.showEmptyGroups ∧ totalContactsCount = 0 ∧ !isOfflineGroup then false
      else if settings.showOfflineUsers ∧ isOfflineGroup then false
      else if !settings.showEmptyGroups ∧ !settings.showOfflineUsers ∧
          connectedContactsCount = 0 ∧ !isOfflineGroup then false
      else true

/-- `filterAcceptsRow` for a metacontact. -/
def acceptsMetaContact (searchContactInfo : Option (Nat → Bool)) (model : ItemModel ι)
    (sourceParent : Option ι) (current : ι) : Bool :=
  match searchContactInfo with
  | some search => (model.data (some current) .object).metaContact?.any search
  | none =>
    let groupObject := (model.data sourceParent .object).group?
    if settings.groupContactByGroup && groupObject = some .offline then
      !settings.showOfflineUsers
    else
      let alwaysVisible := (model.data (some current) .alwaysVisible).toBool
      let mcStatus := (model.data (some current) .onlineStatus).toInt
      if mcStatus ≤ StatusType.offline.value ∧ !settings.showOfflineUsers ∧ !alwaysVisible then
        false
      else true

/-- `ContactListProxyModel::filterAcceptsRow`. A search is a predicate on metacontacts, and there
is none where the expression is empty. -/
def filterAcceptsRow (searchContactInfo : Option (Nat → Bool)) (model : ItemModel ι)
    (sourceParent : Option ι) (current : ι) : Bool :=
  if model.data (some current) .type = .type .group then
    acceptsGroup settings searchContactInfo model current
  else if model.data (some current) .type = .type .metaContact then
    acceptsMetaContact settings searchContactInfo model sourceParent current
  else false

/-! ## Statuses -/

theorem isDefinitelyOnline_iff (s : OnlineStatus) :
    s.isDefinitelyOnline = true ↔ StatusType.connecting.value < s.status.value := by
  unfold OnlineStatus.isDefinitelyOnline
  cases s.status <;> decide

/-- **A metacontact is online** if the status that it keeps is above Connecting. -/
theorem isOnline_iff (mc : Presence) :
    mc.isOnline = true ↔ StatusType.connecting.value < mc.onlineStatus.value := by
  obtain ⟨hFrom, -, hAll⟩ := OnlineStatus.foldl_gt (mc.contacts.map ContactPresence.onlineStatus)
    .empty
  change OnlineStatus.mostSignificant _ = _ ∨ OnlineStatus.mostSignificant _ ∈ _ at hFrom
  change ∀ s ∈ _, OnlineStatus.gt s (OnlineStatus.mostSignificant _) = false at hAll
  rw [mc.updated, Presence.isOnline, List.any_eq_true]
  constructor
  · rintro ⟨c, hc, hOnline⟩
    have hBelow := OnlineStatus.gt_eq_false_iff.mp (hAll _ (List.mem_map_of_mem hc))
    have hValue := (isDefinitelyOnline_iff _).mp hOnline
    omega
  · intro hValue
    rcases hFrom with hEmpty | hMem
    · rw [hEmpty, OnlineStatus.value_empty] at hValue
      exact absurd hValue (Nat.not_lt_zero _)
    · obtain ⟨c, hc, hSame⟩ := List.mem_map.mp hMem
      exact ⟨c, hc, (isDefinitelyOnline_iff _).mpr (hSame ▸ hValue)⟩

/-- What is above Offline is connecting or online. -/
theorem offline_lt_iff (mc : Presence) :
    StatusType.offline.value < mc.onlineStatus.value ↔
      mc.onlineStatus = .connecting ∨ mc.isOnline = true := by
  rw [isOnline_iff]
  cases mc.onlineStatus <;> decide

/-! ## What is let through -/

variable {settings} {presence : Nat → Presence} {members : Group → List Nat}
  {s : ContactListTreeModel}

/-- **A metacontact of the plain model.** -/
theorem accepts_plain_iff (m : Nat) :
    filterAcceptsRow settings none (plainModel presence) none m = true ↔
      settings.showOfflineUsers = true ∨
        StatusType.offline.value < (presence m).onlineStatus.value := by
  simp [filterAcceptsRow, acceptsMetaContact, plainModel, metaContactData, ItemData.toBool,
    ItemData.toInt, ItemData.group?, or_comm]

/-- **A metacontact of the tree**, in a group that is not the offline one. -/
theorem accepts_tree_iff {p : ℕ} (hGroup : (s.groupItem p).group ≠ .offline) (q : ℕ) :
    filterAcceptsRow settings none (s.itemModel members presence) (some (.group p))
        (.metaContact q) = true ↔
      settings.showOfflineUsers = true ∨
        StatusType.offline.value <
          (presence (s.metaContactItem q).metaContact).onlineStatus.value ∨
        (presence (s.metaContactItem q).metaContact).isAlwaysVisible = true := by
  simp [filterAcceptsRow, acceptsMetaContact, ContactListTreeModel.itemModel,
    ContactListTreeModel.rowData, ContactListTreeModel.groupData, metaContactData,
    ItemData.toBool, ItemData.toInt, ItemData.group?, hGroup]
  tauto

/-- **A group of the tree** with its members, where empty groups are hidden. -/
theorem accepts_group_iff (hEmpty : settings.showEmptyGroups = false) {p : ℕ}
    (hTop : (s.groupItem p).group ≠ .topLevel) (hOffline : (s.groupItem p).group ≠ .offline)
    (parent : Option Row) :
    filterAcceptsRow settings none (s.itemModel members presence) parent (.group p) = true ↔
      members (s.groupItem p).group ≠ [] ∧
        (settings.showOfflineUsers = true ∨ s.countConnected presence p ≠ 0) := by
  simp [filterAcceptsRow, acceptsGroup, ContactListTreeModel.itemModel,
    ContactListTreeModel.groupData, ItemData.toInt, ItemData.group?, hTop, hOffline, hEmpty]

/-! ## Groups and their rows -/

/-- The rows of a group are those of its members. -/
theorem exists_row_iff (h : s.Ok) {g : Group} {p : ℕ} (hp : s.groups g = some p)
    (hPairs : ∀ m, s.Shows g m ↔ m ∈ members g) (accepted : Nat → Prop) :
    (∃ q, Row.metaContact q ∈ (s.groupItem p).items ∧
        accepted (s.metaContactItem q).metaContact) ↔
      ∃ m ∈ members g, accepted m := by
  have hItem : ∀ {m q}, s.metaContacts (g, m) = some q →
      Row.metaContact q ∈ (s.groupItem p).items ∧ (s.metaContactItem q).metaContact = m := by
    intro m q hq
    obtain ⟨p', hp', hGet, hMem⟩ := h.pair hq
    obtain rfl : p = p' := Option.some.inj (hp.symm.trans hp')
    refine ⟨hMem, ?_⟩
    rw [ContactListTreeModel.metaContactItem, hGet]
    rfl
  constructor
  · rintro ⟨q, hRow, hAccepted⟩
    obtain ⟨ms, gs, hRows, hOfPair, -⟩ := h.rows hp
    obtain ⟨m, hm⟩ := hOfPair q ((ContactListTreeModel.mem_metaContacts_of_row hRows q).mp hRow)
    exact ⟨m, (hPairs m).mp (Option.isSome_iff_exists.mpr ⟨q, hm⟩), (hItem hm).2 ▸ hAccepted⟩
  · rintro ⟨m, hMember, hAccepted⟩
    obtain ⟨q, hq⟩ := Option.isSome_iff_exists.mp ((hPairs m).mpr hMember)
    exact ⟨q, (hItem hq).1, (hItem hq).2.symm ▸ hAccepted⟩

/-- A metacontact that the group counts. -/
def Counts (presence : Nat → Presence) (m : Nat) : Prop :=
  (presence m).isOnline = true ∨ (presence m).isAlwaysVisible = true

theorem countConnected_ne_zero_iff (h : s.Ok) {g : Group} {p : ℕ} (hp : s.groups g = some p)
    (hPairs : ∀ m, s.Shows g m ↔ m ∈ members g) :
    s.countConnected presence p ≠ 0 ↔ ∃ m ∈ members g, Counts presence m := by
  rw [← exists_row_iff h hp hPairs, ← Nat.pos_iff_ne_zero, ContactListTreeModel.countConnected,
    List.countP_pos_iff]
  constructor
  · rintro ⟨r, hRow, hCounts⟩
    cases r with
    | group p' => cases hCounts
    | metaContact q => exact ⟨q, hRow, by simpa [Counts] using hCounts⟩
  · rintro ⟨q, hRow, hCounts⟩
    exact ⟨.metaContact q, hRow, by simpa [Counts] using hCounts⟩

variable (settings) (presence) (members) (s) in
/-- A group is let through with its rows, and a metacontact by the one model as by the other. -/
structure AcceptsAlike : Prop where
  group : ∀ {g p}, g ≠ .topLevel → g ≠ .offline → s.groups g = some p →
    (filterAcceptsRow settings none (s.itemModel members presence)
        (some (.group s.topLevelGroup)) (.group p) = true ↔
      ∃ q, Row.metaContact q ∈ (s.groupItem p).items ∧
        filterAcceptsRow settings none (s.itemModel members presence) (some (.group p))
          (.metaContact q) = true)
  metaContact : ∀ {g p q}, g ≠ .offline → s.groups g = some p →
    Row.metaContact q ∈ (s.groupItem p).items →
    (filterAcceptsRow settings none (plainModel presence) none
        (s.metaContactItem q).metaContact = true ↔
      filterAcceptsRow settings none (s.itemModel members presence) (some (.group p))
        (.metaContact q) = true)

variable (presence) (members) in
/-- No group has connecting metacontacts alone to show, and none that is in a group is always
visible while it is offline. -/
structure SeenAlike : Prop where
  connecting : ∀ g, g ≠ .topLevel → g ≠ .offline → ∀ m ∈ members g,
    (presence m).onlineStatus = .connecting → ∃ m' ∈ members g, Counts presence m'
  alwaysVisible : ∀ g, g ≠ .offline → ∀ m ∈ members g, (presence m).isAlwaysVisible = true →
    StatusType.offline.value < (presence m).onlineStatus.value

/-- One group, while offline users are hidden. -/
theorem group_alike_iff (ms : List Nat) :
    (ms ≠ [] ∧ (∃ m ∈ ms, Counts presence m) ↔
      ∃ m ∈ ms, StatusType.offline.value < (presence m).onlineStatus.value ∨
        (presence m).isAlwaysVisible = true) ↔
    ∀ m ∈ ms, (presence m).onlineStatus = .connecting → ∃ m' ∈ ms, Counts presence m' := by
  constructor
  · intro hAlike m hm hConnecting
    have hAccepted := (offline_lt_iff (presence m)).mpr (.inl hConnecting)
    exact (hAlike.mpr ⟨m, hm, .inl hAccepted⟩).2
  · intro hConnecting
    constructor
    · rintro ⟨-, m, hm, hOnline | hVisible⟩
      · exact ⟨m, hm, .inl ((offline_lt_iff _).mpr (.inr hOnline))⟩
      · exact ⟨m, hm, .inr hVisible⟩
    · rintro ⟨m, hm, hAccepted⟩
      refine ⟨List.ne_nil_of_mem hm, ?_⟩
      rw [offline_lt_iff] at hAccepted
      rcases hAccepted with (hIs | hOnline) | hVisible
      · exact hConnecting m hm hIs
      · exact ⟨m, hm, .inl hOnline⟩
      · exact ⟨m, hm, .inr hVisible⟩

/-- **A tree that shows the groups**: when the filter does the same in all places. -/
theorem acceptsAlike_of_pairs (h : s.Ok) (hEmpty : settings.showEmptyGroups = false)
    (hPairs : ∀ {g}, g ≠ .offline → ∀ m, s.Shows g m ↔ m ∈ members g) :
    AcceptsAlike settings presence members s ↔
      settings.showOfflineUsers = true ∨ SeenAlike presence members := by
  have hGroup : ∀ {g p}, g ≠ .topLevel → g ≠ .offline → s.groups g = some p →
      ((filterAcceptsRow settings none (s.itemModel members presence)
          (some (.group s.topLevelGroup)) (.group p) = true ↔
        ∃ q, Row.metaContact q ∈ (s.groupItem p).items ∧
          filterAcceptsRow settings none (s.itemModel members presence) (some (.group p))
            (.metaContact q) = true) ↔
      (settings.showOfflineUsers = true ∨ ∀ m ∈ members g,
        (presence m).onlineStatus = .connecting → ∃ m' ∈ members g, Counts presence m')) := by
    intro g p hTop hOffline hp
    obtain ⟨-, rfl, -⟩ := h.group hp
    rw [accepts_group_iff hEmpty hTop hOffline,
      countConnected_ne_zero_iff h hp (hPairs hOffline)]
    simp only [accepts_tree_iff hOffline]
    rw [exists_row_iff h hp (hPairs hOffline) fun m => settings.showOfflineUsers = true ∨
      StatusType.offline.value < (presence m).onlineStatus.value ∨
        (presence m).isAlwaysVisible = true]
    cases settings.showOfflineUsers with
    | true =>
      simp only [true_or, and_true, iff_true]
      exact ⟨List.exists_mem_of_ne_nil _, fun ⟨m, hm⟩ => List.ne_nil_of_mem hm⟩
    | false => simpa using group_alike_iff (members (s.groupItem p).group)
  have hItem : ∀ {g m}, g ≠ .offline → m ∈ members g → ∃ p q, s.groups g = some p ∧
      Row.metaContact q ∈ (s.groupItem p).items ∧ (s.metaContactItem q).metaContact = m := by
    intro g m hOffline hm
    obtain ⟨q, hq⟩ := Option.isSome_iff_exists.mp ((hPairs hOffline m).mpr hm)
    obtain ⟨p, hp, hGet, hMem⟩ := h.pair hq
    refine ⟨p, q, hp, hMem, ?_⟩
    rw [ContactListTreeModel.metaContactItem, hGet]
    rfl
  constructor
  · intro hAlike
    by_cases hShow : settings.showOfflineUsers = true
    · exact .inl hShow
    refine .inr ⟨fun g hTop hOffline m hm => ?_, fun g hOffline m hm hVisible => ?_⟩
    · obtain ⟨p, -, hp, -⟩ := hItem hOffline hm
      exact ((hGroup hTop hOffline hp).mp (hAlike.group hTop hOffline hp)).resolve_left hShow m hm
    · obtain ⟨p, q, hp, hRow, rfl⟩ := hItem hOffline hm
      have hTree : filterAcceptsRow settings none (s.itemModel members presence)
          (some (.group p)) (.metaContact q) = true :=
        (accepts_tree_iff ((h.group hp).2.1 ▸ hOffline) q).mpr (.inr (.inr hVisible))
      have hPlain := (hAlike.metaContact hOffline hp hRow).mpr hTree
      exact ((accepts_plain_iff _).mp hPlain).resolve_left hShow
  · intro hSeen
    refine ⟨fun {g p} hTop hOffline hp => ?_, fun {g p q} hOffline hp hRow => ?_⟩
    · exact (hGroup hTop hOffline hp).mpr
        (hSeen.imp_right fun hSeen => hSeen.connecting g hTop hOffline)
    · obtain ⟨m, hm, hSame⟩ := (exists_row_iff h hp (hPairs hOffline)
        (· = (s.metaContactItem q).metaContact)).mp ⟨q, hRow, rfl⟩
      rw [accepts_plain_iff, accepts_tree_iff ((h.group hp).2.1 ▸ hOffline), ← hSame]
      refine ⟨Or.imp_right .inl, fun hAccepted => ?_⟩
      rcases hSeen with hShow | hSeen
      · exact .inl hShow
      · exact hAccepted.imp_right fun hRest =>
          hRest.elim id (hSeen.alwaysVisible g hOffline m hm)

/-- **The filter over a contact list.** Where it hides empty groups and there is no search, a group
is let through if one of its metacontacts is, and a metacontact in the plain list if it is in the
tree, just when offline users are shown or every group and metacontact is seen alike. -/
theorem acceptsAlike_iff (list : GroupedList) (hNodup : list.list.metaContacts.Nodup)
    (online : Nat → Bool) (showOfflineGrouped manual : Bool) (presence : Nat → Presence)
    (settings : AppearanceSettings) (hEmpty : settings.showEmptyGroups = false) :
    AcceptsAlike settings presence list.members
        ((ContactListTreeModel.new manual).loadContactList list online showOfflineGrouped) ↔
      settings.showOfflineUsers = true ∨ SeenAlike presence list.members := by
  obtain ⟨hOk, hShows⟩ := ContactListTreeModel.loadContactList_shows manual list hNodup online
    showOfflineGrouped
  refine acceptsAlike_of_pairs hOk hEmpty fun {g} hOffline m => (hShows g m).trans ?_
  rw [if_neg fun hBoth => hOffline hBoth.1, GroupedList.members, List.mem_filter,
    decide_eq_true_eq]

/-- A contact list with one metacontact, in one group. -/
def oneInGroup : GroupedList where
  list :=
    { metaContact := fun _ => { MetaContact.new with groups := [.normal 1] }
      contact := fun _ => ⟨[], none⟩
      metaContacts := [0] }
  groups := [.topLevel, .normal 1]
  selectedMetaContacts := []
  selectedGroups := []

/-- Empty groups and offline users are hidden. -/
def hideOffline : AppearanceSettings := ⟨false, false, false, true⟩

/-- A metacontact with a contact of this status. -/
def withContact (status : StatusType) (isAlwaysVisible : Bool) (_ : Nat) : Presence :=
  .ofContacts [⟨.ofType status, isAlwaysVisible⟩]

/-- It is away. -/
theorem acceptsAlike_away :
    AcceptsAlike hideOffline (withContact .away false) oneInGroup.members
        ((ContactListTreeModel.new false).loadContactList oneInGroup (fun _ => true) false) ↔
      hideOffline.showOfflineUsers = true ∨
        SeenAlike (withContact .away false) oneInGroup.members :=
  acceptsAlike_iff oneInGroup (List.nodup_singleton 0) _ false false _ hideOffline rfl

/-- **An offline metacontact that is always visible** is in the tree, and not in the plain list. -/
theorem acceptsAlike_fails :
    oneInGroup.list.metaContacts.Nodup ∧ hideOffline.showEmptyGroups = false ∧
      ¬ AcceptsAlike hideOffline (withContact .offline true) oneInGroup.members
        ((ContactListTreeModel.new false).loadContactList oneInGroup (fun _ => false) false) := by
  refine ⟨List.nodup_singleton 0, rfl, fun hAlike => ?_⟩
  have hTree := (hAlike.metaContact (g := .normal 1) (p := 1) (q := 0) (by decide) rfl
    (by decide)).mpr
  exact absurd (hTree (by decide)) (by decide)

end ContactListProxyModel

end Kopete.UI
