import Kopete.UI.TreeOrder

/-!
# Contact list window — groups that are dropped

With manual sorting of groups, groups can be dragged to another place. They stay behind the
metacontacts of the top level group.

Main results:

* `Ok.withOrder` — the groups are put in another order, and everything else stays;
* `Ok.regrouped_dropGroup`, `Ok.regrouped_dropGroups` — what dropping groups makes of the order.
-/

namespace Kopete.UI

namespace ContactListTreeModel

variable (s : ContactListTreeModel)

/-- `GroupModelItem::insert` with the item of a group. -/
def insertGroupItem (p : ℕ) (i : ℕ) (q : ℕ) : ContactListTreeModel :=
  let s := s.modifyRows p fun items => items.insertIdx i (.group q)
  { s with groupItems := s.groupItems.modify q fun item => { item with parent := some p } }

/-- The body of the loop over the groups in `ContactListTreeModel::dropMimeData`. -/
def dropGroup (gDesireIndex : Int) (group : Group) : ContactListTreeModel :=
  match s.groups group with
  | none => s
  | some gmi =>
    let newParent := s.topLevelGroup
    let gIndex := s.index (s.groupItem gmi).parent (.group gmi)
    let mcCount : Int := (s.groupItem newParent).metaContactCount
    let count : Int := (s.groupItem newParent).items.length
    let gDesireIndex :=
      if gDesireIndex < mcCount then mcCount
      else if count < gDesireIndex then count
      else gDesireIndex
    if gIndex = gDesireIndex then s
    else
      (s.removeGroupItem gmi).insertGroupItem newParent
        (if gIndex < gDesireIndex then gDesireIndex - 1 else gDesireIndex).toNat gmi

/-- The loop over the groups in `ContactListTreeModel::dropMimeData`. -/
def dropGroups : Int → List Group → ContactListTreeModel → ContactListTreeModel
  | _, [], s => s
  | row, group :: groups, s => dropGroups (row + 1) groups (s.dropGroup row group)

variable {s}

/-! ## Another order -/

/-- **The groups are put in another order.** -/
theorem Ok.withOrder (h : s.Ok) {s' : ContactListTreeModel} {ms gs gs' : List ℕ}
    (hRows : RowsAre (s.groupItem s.topLevelGroup).items ms gs) (hPerm : gs'.Perm gs)
    (hGroups : s'.groups = s.groups) (hTop : s'.topLevelGroup = s.topLevelGroup)
    (hPairs : s'.metaContacts = s.metaContacts)
    (hItems : s'.metaContactItems = s.metaContactItems)
    (hLive : ∀ {p}, s.groupItems.Live p → s'.groupItems.Live p)
    (hItem : ∀ {p}, s.groupItems.Live p → s'.groupItem p =
      if p = s.topLevelGroup then
        { s.groupItem p with items := ms.map Row.metaContact ++ gs'.map Row.group }
      else s.groupItem p) : s'.Ok := by
  have hRows' : RowsAre (ms.map Row.metaContact ++ gs'.map Row.group) ms gs' :=
    ⟨rfl, hRows.nodup_metaContacts, hPerm.nodup_iff.mpr hRows.nodup_groups⟩
  have hMem : ∀ {p r}, s.groupItems.Live p →
      (r ∈ (s'.groupItem p).items ↔ r ∈ (s.groupItem p).items) := by
    intro p r hp
    rw [hItem hp]
    split
    · next hIs =>
      subst hIs
      rw [hRows.eq, List.mem_append, List.mem_append, (hPerm.map Row.group).mem_iff]
    · rfl
  constructor
  case topLevel => rw [hGroups, hTop, h.topLevel]
  case group =>
    intro g p hg
    rw [hGroups] at hg
    obtain ⟨hp, hGroup, hSub⟩ := h.group hg
    have hSame : (s'.groupItem p).group = (s.groupItem p).group ∧
        (s'.groupItem p).parent = (s.groupItem p).parent := by
      rw [hItem hp]
      split <;> exact ⟨rfl, rfl⟩
    refine ⟨hLive hp, hSame.1.trans hGroup, fun hOther => ?_⟩
    obtain ⟨hParent, hIn⟩ := hSub hOther
    rw [hTop, hSame.2, hMem (h.group h.topLevel).1]
    exact ⟨hParent, hIn⟩
  case pair =>
    intro g mc q hq
    rw [hPairs] at hq
    obtain ⟨p, hp, hGet, hIn⟩ := h.pair hq
    rw [hGroups, hItems]
    exact ⟨p, hp, hGet, (hMem (h.group hp).1).mpr hIn⟩
  case rows =>
    intro g p hg
    rw [hGroups] at hg ⊢
    rw [hPairs, hItem (h.group hg).1]
    obtain ⟨ms₁, gs₁, hRows₁, hShown, hSub⟩ := h.rows hg
    split
    · next hIs =>
      subst hIs
      refine ⟨ms, gs', hRows', fun q hq => hShown q ?_, fun p' hp' => hSub p' ?_⟩
      · exact (mem_metaContacts_of_row hRows₁ q).mp ((mem_metaContacts_of_row hRows q).mpr hq)
      · exact (mem_groups_of_row hRows₁ p').mp
          ((mem_groups_of_row hRows p').mpr (hPerm.mem_iff.mp hp'))
    · exact ⟨ms₁, gs₁, hRows₁, hShown, hSub⟩

/-- The groups are in the order `rows`; the metacontacts are where they were. -/
structure Regrouped (s : ContactListTreeModel) (rows : List Group) (s' : ContactListTreeModel) :
    Prop where
  ok : s'.Ok
  metaContacts : ∀ g, s'.metaContactsOf g = s.metaContactsOf g
  subgroups : s'.subgroups = rows

theorem Ok.regrouped (h : s.Ok) {s' : ContactListTreeModel} {ms gs gs' : List ℕ}
    (hRows : RowsAre (s.groupItem s.topLevelGroup).items ms gs) (hPerm : gs'.Perm gs)
    (hGroups : s'.groups = s.groups) (hTop : s'.topLevelGroup = s.topLevelGroup)
    (hPairs : s'.metaContacts = s.metaContacts)
    (hItems : s'.metaContactItems = s.metaContactItems)
    (hLive : ∀ {p}, s.groupItems.Live p → s'.groupItems.Live p)
    (hItem : ∀ {p}, s.groupItems.Live p → s'.groupItem p =
      if p = s.topLevelGroup then
        { s.groupItem p with items := ms.map Row.metaContact ++ gs'.map Row.group }
      else s.groupItem p) :
    Regrouped s (gs'.map fun p => (s.groupItem p).group) s' := by
  have hMetaContactItem : s'.metaContactItem = s.metaContactItem := by
    funext q
    rw [metaContactItem, metaContactItem, hItems]
  obtain ⟨ms₁, gs₁, hRows₁, -, hSub⟩ := h.rows h.topLevel
  refine ⟨h.withOrder hRows hPerm hGroups hTop hPairs hItems hLive hItem, fun g => ?_, ?_⟩
  · rw [metaContactsOf, metaContactsOf, hGroups]
    cases hp : s.groups g with
    | none => rfl
    | some p =>
      simp only
      rw [hItem (h.group hp).1]
      split
      · next hIs =>
        subst hIs
        rw [hRows.eq, metaContactRows_eq, metaContactRows_eq, hMetaContactItem]
      · rw [metaContactRows, metaContactRows, hMetaContactItem]
  · rw [subgroups, hTop, hItem (h.group h.topLevel).1, if_pos rfl, groupRows_eq]
    refine List.map_congr_left fun p hp => ?_
    have hMem : p ∈ gs₁ := (mem_groups_of_row hRows₁ p).mp
      ((mem_groups_of_row hRows p).mpr (hPerm.mem_iff.mp hp))
    obtain ⟨-, g, -, hg⟩ := hSub p hMem
    rw [hItem (h.group hg).1]
    split <;> rfl

/-! ## One group -/

theorem RowsAre.idxOf_group {items : List Row} {ms gs : List ℕ} (h : RowsAre items ms gs) (p : ℕ) :
    items.idxOf (.group p) = ms.length + gs.idxOf p := by
  have hNot : Row.group p ∉ ms.map Row.metaContact := by simp
  rw [h.eq, List.idxOf_append_of_notMem hNot, List.length_map, idxOf_map fun _ _ => Row.group.inj]

theorem RowsAre.insertGroup {items : List Row} {ms gs : List ℕ} (h : RowsAre items ms gs) (p : ℕ)
    {k : ℕ} (hk : k ≤ gs.length) : items.insertIdx (ms.length + k) (.group p) =
      ms.map Row.metaContact ++ (gs.insertIdx k p).map Row.group := by
  have hLength : ms.length = (ms.map Row.metaContact).length := (List.length_map _).symm
  rw [h.eq, List.map_insertIdx, RowDrop.insertIdx_eq (by simp [hk]), hLength,
    List.take_length_add_append, List.drop_length_add_append,
    RowDrop.insertIdx_eq (by simpa using hk), List.append_assoc]

/-- What moving the row of a group makes of the items. -/
theorem Ok.groupItem_moveGroup (h : s.Ok) {g : Group} {q k : ℕ} {ms gs : List ℕ}
    (hTop : g ≠ .topLevel) (hq : s.groups g = some q)
    (hRows : RowsAre (s.groupItem s.topLevelGroup).items ms gs) (hk : k ≤ (gs.erase q).length)
    {p : ℕ} (hLive : s.groupItems.Live p) :
    ((s.removeGroupItem q).insertGroupItem s.topLevelGroup (ms.length + k) q).groupItem p =
      if p = s.topLevelGroup then
        { s.groupItem p with
          items := ms.map Row.metaContact ++ ((gs.erase q).insertIdx k q).map Row.group }
      else s.groupItem p := by
  obtain ⟨item, hItem⟩ := Option.isSome_iff_exists.mp hLive
  have hThis : s.groupItem p = item := by rw [groupItem, hItem]; rfl
  have hErased : RowsAre (ms.map Row.metaContact ++ (gs.erase q).map Row.group) ms (gs.erase q) :=
    ⟨rfl, hRows.nodup_metaContacts, hRows.nodup_groups.erase q⟩
  have hNotTop : q ≠ s.topLevelGroup := by
    rintro rfl
    exact hTop (h.group_injective hq h.topLevel)
  rw [(h.removeGroupItem_eq hTop hq).2]
  rw [hThis]
  unfold groupItem insertGroupItem modifyRows
  by_cases hSelf : p = q
  · subst hSelf
    obtain ⟨hParent, -⟩ := (h.group hq).2.2 hTop
    rw [hThis] at hParent
    simp [hItem, hNotTop, ← hParent]
  · simp only [Heap.get?_modify_ne _ hSelf]
    split
    · next hIs =>
      subst hIs
      simp only [Heap.get?_modify_self, Heap.get?_modify_ne _ hSelf, hItem, Option.map_some,
        Option.getD_some]
      have hErase := hRows.eraseGroup q
      rw [hThis] at hErase
      rw [hErase, hErased.insertGroup q hk]
    · next hOther => simp [Heap.get?_modify_ne _ hOther, Heap.get?_modify_ne _ hSelf, hItem]

/-- The groups that have rows, each with its item. -/
theorem Ok.mem_subgroups (h : s.Ok) {ms gs : List ℕ}
    (hRows : RowsAre (s.groupItem s.topLevelGroup).items ms gs) {g : Group} :
    g ∈ s.subgroups ↔ ∃ p ∈ gs, s.groups g = some p ∧ g ≠ .topLevel := by
  obtain ⟨ms₁, gs₁, hRows₁, -, hSub⟩ := h.rows h.topLevel
  rw [subgroups, hRows.eq, groupRows_eq, List.mem_map]
  refine exists_congr fun p => and_congr_right fun hp => ?_
  obtain ⟨-, g', hOther, hg'⟩ := hSub p
    ((mem_groups_of_row hRows₁ p).mp ((mem_groups_of_row hRows p).mpr hp))
  constructor
  · intro hName
    obtain rfl : g' = g := (h.group hg').2.1.symm.trans hName
    exact ⟨hg', hOther⟩
  · rintro ⟨hp, -⟩
    exact (h.group hp).2.1

/-- Two rows are not of one group. -/
theorem Ok.group_row_injective (h : s.Ok) {ms gs : List ℕ}
    (hRows : RowsAre (s.groupItem s.topLevelGroup).items ms gs) {p p' : ℕ} (hp : p ∈ gs)
    (hp' : p' ∈ gs) (hSame : (s.groupItem p).group = (s.groupItem p').group) : p = p' := by
  obtain ⟨ms₁, gs₁, hRows₁, -, hSub⟩ := h.rows h.topLevel
  have hGroup : ∀ p ∈ gs, s.groups (s.groupItem p).group = some p := by
    intro p hp
    obtain ⟨-, g, -, hg⟩ := hSub p
      ((mem_groups_of_row hRows₁ p).mp ((mem_groups_of_row hRows p).mpr hp))
    rw [(h.group hg).2.1, hg]
  have hFirst := hGroup p hp
  rw [hSame, hGroup p' hp'] at hFirst
  exact (Option.some.inj hFirst).symm

theorem Ok.nodup_subgroups (h : s.Ok) : s.subgroups.Nodup := by
  obtain ⟨ms, gs, hRows, -⟩ := h.rows h.topLevel
  rw [subgroups, hRows.eq, groupRows_eq]
  exact hRows.nodup_groups.map_on fun p hp p' hp' => h.group_row_injective hRows hp hp'

/-- **A group is dropped**: it comes to be at the row, counted without the metacontacts. -/
theorem Ok.regrouped_dropGroup (h : s.Ok) {g : Group} (hg : g ∈ s.subgroups) (row : Int) :
    Regrouped s
      (RowDrop.place s.subgroups (row - (s.metaContactsOf .topLevel).length).toNat g)
      (s.dropGroup row g) := by
  obtain ⟨ms, gs, hRows, -, -⟩ := h.rows h.topLevel
  obtain ⟨q, hq, hGet, hTop⟩ := (h.mem_subgroups hRows).mp hg
  have hCount : (s.metaContactsOf .topLevel).length = ms.length := by
    rw [metaContactsOf_eq h.topLevel hRows, List.length_map]
  have hLength : (s.groupItem s.topLevelGroup).items.length = ms.length + gs.length := by
    rw [hRows.eq, List.length_append, List.length_map, List.length_map]
  -- the place among the groups
  obtain ⟨n, hn, hDesired, hPlace⟩ : ∃ n : ℕ, n ≤ gs.length ∧
      (if row < (ms.length : Int) then (ms.length : Int)
        else if ((ms.length + gs.length : ℕ) : Int) < row then ((ms.length + gs.length : ℕ) : Int)
        else row) = ((ms.length + n : ℕ) : Int) ∧
      RowDrop.place gs (row - ms.length).toNat q = RowDrop.place gs n q := by
    by_cases hFront : row < (ms.length : Int)
    · refine ⟨0, Nat.zero_le _, if_pos hFront, ?_⟩
      rw [Int.toNat_of_nonpos (by omega)]
    · rw [if_neg hFront]
      by_cases hEnd : ((ms.length + gs.length : ℕ) : Int) < row
      · refine ⟨gs.length, Nat.le_refl _, if_pos hEnd, ?_⟩
        rw [RowDrop.place_of_length_le (by omega), RowDrop.place_of_length_le (Nat.le_refl _)]
      · refine ⟨(row - ms.length).toNat, by omega, ?_, rfl⟩
        rw [if_neg hEnd]
        omega
  have hSame : s.subgroups = gs.map fun p => (s.groupItem p).group := by
    rw [subgroups, hRows.eq, groupRows_eq]
  have hPlaced : (RowDrop.place gs n q).map (fun p => (s.groupItem p).group) =
      RowDrop.place s.subgroups (row - (s.metaContactsOf .topLevel).length).toNat g := by
    rw [← hPlace, RowDrop.map_place, ← hSame, hCount, (h.group hGet).2.1]
    exact fun p hp hName => h.group_row_injective hRows hp hq hName
  rw [← hPlaced]
  unfold dropGroup
  simp only [hGet, hRows.metaContactCount, hLength, hDesired]
  rw [(h.removeGroupItem_eq hTop hGet).1, hRows.idxOf_group q]
  split
  · next hThere =>
    have hIdx : gs.idxOf q = n := by omega
    rw [← hIdx, RowDrop.place_self hRows.nodup_groups hq, ← hSame]
    exact ⟨h, fun _ => rfl, rfl⟩
  · have hIdxLt : gs.idxOf q < gs.length := List.idxOf_lt_length_of_mem hq
    have hErased : (gs.erase q).length = gs.length - 1 := List.length_erase_of_mem hq
    have hDesired' : (if ((ms.length + gs.idxOf q : ℕ) : Int) < ((ms.length + n : ℕ) : Int) then
          ((ms.length + n : ℕ) : Int) - 1 else ((ms.length + n : ℕ) : Int)).toNat =
        ms.length + if gs.idxOf q < n then n - 1 else n := by
      split <;> split <;> omega
    have hk : (if gs.idxOf q < n then n - 1 else n) ≤ (gs.erase q).length := by
      split <;> omega
    rw [hDesired', RowDrop.place_moved hRows.nodup_groups hq hn, List.eraseIdx_idxOf_eq_erase]
    have hTaken := (h.removeGroupItem_eq hTop hGet).2
    refine h.regrouped hRows ?_ ?_ ?_ ?_ ?_ (fun hLive => ?_)
      (fun hLive => h.groupItem_moveGroup hTop hGet hRows hk hLive)
    · exact (List.perm_insertIdx q _ hk).trans (List.perm_cons_erase hq).symm
    all_goals rw [hTaken]
    · rfl
    · rfl
    · rfl
    · rfl
    · exact (((hLive.modify _ _).modify _ _).modify _ _).modify _ _

/-! ## All groups -/

/-- The places of groups that are dropped, among groups that come behind `mcCount` metacontacts. -/
def groupMoves (mcCount : ℕ) : Int → List Group → List (Group × ℕ)
  | _, [] => []
  | row, group :: groups =>
    (group, (row - mcCount).toNat) :: groupMoves mcCount (row + 1) groups

/-- **Groups are dropped.** -/
theorem Ok.regrouped_dropGroups (h : s.Ok) (row : Int) {groups : List Group}
    (hRows : ∀ g ∈ groups, g ∈ s.subgroups) :
    Regrouped s
      (RowDrop.placeAll s.subgroups
        (groupMoves (s.metaContactsOf .topLevel).length row groups)) (dropGroups row groups s) := by
  induction groups generalizing s row with
  | nil => exact ⟨h, fun _ => rfl, rfl⟩
  | cons group groups ih =>
    have hFirst := h.regrouped_dropGroup (hRows group List.mem_cons_self) row
    have hRest := ih hFirst.ok (row + 1) fun g hg => by
      rw [hFirst.subgroups, RowDrop.mem_place]
      exact .inr (hRows g (List.mem_cons_of_mem _ hg))
    rw [hFirst.subgroups, hFirst.metaContacts] at hRest
    exact ⟨hRest.ok, fun g => (hRest.metaContacts g).trans (hFirst.metaContacts g),
      hRest.subgroups⟩

/-- The row among the groups: the first one, for a row among the metacontacts. -/
def groupRow (mcCount : ℕ) (row : Int) : Int :=
  if row = -1 then -1 else ((row - mcCount).toNat : Int)

/-- The places of groups are what they should be. -/
def GroupsFit (l : List Group) (mcCount : ℕ) (row : Int) (groups : List Group) : Prop :=
  if row = -1 then ∀ g ∈ groups, l = [g]
  else if row < mcCount then groups.length ≤ 1
  else RowDrop.Fitting l (row - mcCount).toNat (groups.map (·, false))

theorem map_groupMoves (mcCount : ℕ) (row : Int) (groups : List Group) :
    (groupMoves mcCount row groups).map Prod.fst = groups := by
  induction groups generalizing row with
  | nil => rfl
  | cons group groups ih => rw [groupMoves, List.map_cons, ih]

theorem groupMoves_eq_moves (far : ℕ) {mcCount : ℕ} {row : Int} (hRow : mcCount ≤ row)
    (groups : List Group) :
    groupMoves mcCount row groups =
      RowDrop.moves far (row - mcCount).toNat (groups.map (·, false)) := by
  induction groups generalizing row with
  | nil => rfl
  | cons group groups ih =>
    have hNext : (row + 1 - mcCount).toNat = (row - mcCount).toNat + 1 := by omega
    rw [groupMoves, ih (by omega), hNext]
    rfl

/-- One row that is in front of the others and at the end is the only one. -/
theorem dropped_zero_eq_length_iff {l : List Group} {g : Group} (h : l.Nodup) (hg : g ∈ l) :
    RowDrop.dropped l 0 [g] = RowDrop.dropped l l.length [g] ↔ l = [g] := by
  constructor
  · intro hSame
    have hFirst : g :: l.filter (· ∉ [g]) = l.filter (· ∉ [g]) ++ [g] := by
      simpa [RowDrop.dropped] using hSame
    have hNone : l.filter (· ∉ [g]) = [] := by
      cases hRest : l.filter (· ∉ [g]) with
      | nil => rfl
      | cons g' rest =>
        rw [hRest, List.cons_append, List.cons.injEq] at hFirst
        have hIn : g' ∈ l.filter (· ∉ [g]) := hRest ▸ List.mem_cons_self
        rw [← hFirst.1] at hIn
        simp at hIn
    have hAll : ∀ g' ∈ l, g' = g := by simpa using hNone
    obtain ⟨n, rfl⟩ : ∃ n, l = List.replicate n g := ⟨l.length, List.eq_replicate_of_mem hAll⟩
    have hFew : n ≤ 1 := List.nodup_replicate.mp h
    have hSome : n ≠ 0 := by
      rintro rfl
      cases hg
    obtain rfl : n = 1 := by omega
    rfl
  · rintro rfl
    simp [RowDrop.dropped]

/-- **Groups that are dropped** come to be where they are dropped just when their places fit. -/
theorem placeAll_groupMoves_iff {l groups : List Group} {mcCount : ℕ} {row : Int} (h : l.Nodup)
    (hNodup : groups.Nodup) (hRows : ∀ g ∈ groups, g ∈ l) :
    RowDrop.placeAll l (groupMoves mcCount row groups) =
        RowDrop.droppedAt l (groupRow mcCount row) groups ↔ GroupsFit l mcCount row groups := by
  by_cases hFront : row < mcCount
  · have hFirst : (row - mcCount).toNat = 0 := by omega
    match groups, hNodup, hRows with
    | [], _, _ =>
      simp [groupMoves, RowDrop.placeAll, RowDrop.droppedAt, RowDrop.dropped, GroupsFit, hFront]
    | [g], _, hRows =>
      rw [groupMoves, groupMoves, hFirst, RowDrop.placeAll_front, RowDrop.droppedAt, groupRow,
        GroupsFit]
      by_cases hEnd : row = -1
      · simp only [if_pos hEnd, if_true, List.forall_mem_singleton]
        exact dropped_zero_eq_length_iff h (hRows g List.mem_cons_self)
      · simp [if_neg hEnd, if_pos hFront, hFirst]
    | g :: g' :: groups, hNodup, _ =>
      have hSecond : (row + 1 - mcCount).toNat = 0 := by omega
      rw [groupMoves, groupMoves, hFirst, hSecond]
      refine iff_of_false ?_ ?_
      · refine RowDrop.placeAll_front_ne ?_ h hNodup
        rw [List.map_cons, List.map_cons, map_groupMoves]
      · rw [GroupsFit]
        split
        · intro hOnly
          have hHere := hOnly g List.mem_cons_self
          have hThere := hOnly g' (List.mem_cons_of_mem _ List.mem_cons_self)
          obtain rfl : g = g' := by simpa using hHere.symm.trans hThere
          exact (List.nodup_cons.mp hNodup).1 List.mem_cons_self
        · simp
  · have hEnd : row ≠ -1 := by omega
    have hNames : (groups.map (·, false)).map Prod.fst = groups := by simp [Function.comp_def]
    have hIff := RowDrop.placeAll_rows_iff (r := (row - mcCount).toNat) h (hNames.symm ▸ hNodup)
      (by simp) (Nat.le_refl (l.length + (groups.map (·, false)).length))
    rw [hNames] at hIff
    rw [GroupsFit, if_neg hEnd, if_neg hFront, groupRow, if_neg hEnd, RowDrop.droppedAt,
      if_neg (by omega), Int.toNat_natCast, ← hIff, groupMoves_eq_moves _ (by omega)]

end ContactListTreeModel

end Kopete.UI
