import Kopete.UI.ContactListTreeModel

/-!
# Contact list window — the order of the rows

What the view shows of the tree: the metacontacts of each group, and the groups, in the order of
their rows. A metacontact that has a position in a group is put there.

Main results:

* `Ok.mem_metaContactsOf`, `Ok.nodup_metaContactsOf` — the metacontacts of a group;
* `Placed`, `Ok.placed_addMetaContactToGroup` — one metacontact is put somewhere;
* `Ok.placed_removeMetaContactFromGroup` — one leaves another group;
* `Ok.placed_signals` — one is moved from another group.
-/

namespace Kopete.UI

open MetaContact (GroupSignal)

namespace ContactListTreeModel

variable (s : ContactListTreeModel)

/-- The metacontacts among rows. -/
def metaContactRows (items : List Row) : List Nat :=
  items.filterMap fun r => match r with
    | .metaContact q => some (s.metaContactItem q).metaContact
    | .group _ => none

/-- The groups among rows. -/
def groupRows (items : List Row) : List Group :=
  items.filterMap fun r => match r with
    | .metaContact _ => none
    | .group p => some (s.groupItem p).group

/-- The metacontacts of a group, in the order of their rows. -/
def metaContactsOf (g : Group) : List Nat :=
  match s.groups g with
  | none => []
  | some p => s.metaContactRows (s.groupItem p).items

/-- The groups, in the order of their rows. -/
def subgroups : List Group := s.groupRows (s.groupItem s.topLevelGroup).items

variable {s}

/-! ## Rows and what they show -/

theorem metaContactRows_eq (s : ContactListTreeModel) (ms gs : List ℕ) :
    s.metaContactRows (ms.map Row.metaContact ++ gs.map Row.group) =
      ms.map fun q => (s.metaContactItem q).metaContact := by
  simp [metaContactRows]

theorem groupRows_eq (s : ContactListTreeModel) (ms gs : List ℕ) :
    s.groupRows (ms.map Row.metaContact ++ gs.map Row.group) =
      gs.map fun p => (s.groupItem p).group := by
  simp [groupRows]

/-- The groups are the same, however the rows are taken apart. -/
theorem RowsAre.groups_eq {items : List Row} {ms gs ms' gs' : List ℕ} (h : RowsAre items ms gs)
    (h' : RowsAre items ms' gs') : gs = gs' := by
  have hPointers : ∀ ms gs : List ℕ, (ms.map Row.metaContact ++ gs.map Row.group).filterMap
      (fun r => match r with
        | .metaContact _ => none
        | .group p => some p) = gs := by
    intro ms gs
    simp
  rw [← hPointers ms gs, ← h.eq, h'.eq, hPointers]

theorem metaContactsOf_eq {g : Group} {p : ℕ} {ms gs : List ℕ} (hp : s.groups g = some p)
    (hRows : RowsAre (s.groupItem p).items ms gs) :
    s.metaContactsOf g = ms.map fun q => (s.metaContactItem q).metaContact := by
  rw [metaContactsOf, hp]
  exact (congrArg s.metaContactRows hRows.eq).trans (metaContactRows_eq s ms gs)

theorem Ok.metaContact_metaContactItem (h : s.Ok) {g : Group} {mc q : ℕ}
    (hq : s.metaContacts (g, mc) = some q) : (s.metaContactItem q).metaContact = mc := by
  obtain ⟨_, -, hGet, -⟩ := h.pair hq
  rw [metaContactItem, hGet]
  rfl

/-- The rows of a group, each with its metacontact. -/
theorem Ok.exists_rows (h : s.Ok) {g : Group} {p : ℕ} (hp : s.groups g = some p) :
    ∃ ms gs, RowsAre (s.groupItem p).items ms gs ∧
      s.metaContactsOf g = ms.map (fun q => (s.metaContactItem q).metaContact) ∧
      ∀ q ∈ ms, s.metaContacts (g, (s.metaContactItem q).metaContact) = some q := by
  obtain ⟨ms, gs, hRows, hPairs, -⟩ := h.rows hp
  refine ⟨ms, gs, hRows, metaContactsOf_eq hp hRows, fun q hq => ?_⟩
  obtain ⟨mc, hmc⟩ := hPairs q hq
  rw [h.metaContact_metaContactItem hmc, hmc]

theorem Ok.mem_metaContactsOf (h : s.Ok) {g : Group} {mc : Nat} :
    mc ∈ s.metaContactsOf g ↔ s.Shows g mc := by
  constructor
  · intro hMem
    cases hp : s.groups g with
    | none =>
      rw [metaContactsOf, hp] at hMem
      cases hMem
    | some p =>
      obtain ⟨ms, gs, -, hRows, hPairs⟩ := h.exists_rows hp
      rw [hRows] at hMem
      obtain ⟨q, hq, rfl⟩ := List.mem_map.mp hMem
      exact Option.isSome_iff_exists.mpr ⟨q, hPairs q hq⟩
  · intro hShows
    obtain ⟨q, hq⟩ := Option.isSome_iff_exists.mp hShows
    obtain ⟨p, hp, -, hMem⟩ := h.pair hq
    obtain ⟨ms, gs, hRows, hOf, -⟩ := h.exists_rows hp
    rw [hOf]
    exact List.mem_map.mpr ⟨q, (mem_metaContacts_of_row hRows q).mp hMem,
      h.metaContact_metaContactItem hq⟩

theorem Ok.nodup_metaContactsOf (h : s.Ok) (g : Group) : (s.metaContactsOf g).Nodup := by
  cases hp : s.groups g with
  | none =>
    rw [metaContactsOf, hp]
    exact List.nodup_nil
  | some p =>
    obtain ⟨ms, gs, hRows, hOf, hPairs⟩ := h.exists_rows hp
    rw [hOf]
    refine hRows.nodup_metaContacts.map_on fun q hq q' hq' hSame => ?_
    have hFirst := hPairs q hq
    rw [hSame, hPairs q' hq'] at hFirst
    exact (Option.some.inj hFirst).symm

/-! ## One metacontact -/

/-- A metacontact has been put somewhere in a group, or taken out of another one. The group shows
`rows` then, the groups are what they were, and so is what waits for other metacontacts. -/
structure Placed (s : ContactListTreeModel) (g : Group) (mc : Nat) (rows : List Nat)
    (s' : ContactListTreeModel) : Prop where
  ok : s'.Ok
  manual : s'.manualMetaContactSorting = s.manualMetaContactSorting
  groups : s'.groups = s.groups
  rows : s'.metaContactsOf g = rows
  subgroups : s'.subgroups = s.subgroups
  position : ∀ mc', s'.addContactPosition (g, mc') =
    if mc' = mc then none else s.addContactPosition (g, mc')

theorem Placed.trans {s' s'' : ContactListTreeModel} {g : Group} {mc : Nat}
    {rows rows' : List Nat} (h : Placed s g mc rows s') (h' : Placed s' g mc rows' s'') :
    Placed s g mc rows' s'' := by
  refine ⟨h'.ok, h'.manual.trans h.manual, h'.groups.trans h.groups, h'.rows,
    h'.subgroups.trans h.subgroups, fun mc' => ?_⟩
  rw [h'.position]
  split
  · rfl
  · next hOther => rw [h.position, if_neg hOther]

/-- The metacontacts of one group are others: the groups are what they were. -/
theorem Ok.subgroups_congr (h : s.Ok) {s' : ContactListTreeModel} {g : Group} {p : ℕ}
    {ms ms' gs : List ℕ} (hp : s.groups g = some p) (hRows : RowsAre (s.groupItem p).items ms gs)
    (hTop : s'.topLevelGroup = s.topLevelGroup)
    (hItem : ∀ {p'}, s.groupItems.Live p' → s'.groupItem p' =
      if p' = p then { s.groupItem p' with items := ms'.map Row.metaContact ++ gs.map Row.group }
      else s.groupItem p') : s'.subgroups = s.subgroups := by
  have hName : ∀ {p'}, s.groupItems.Live p' → (s'.groupItem p').group = (s.groupItem p').group := by
    intro p' hLive
    rw [hItem hLive]
    split <;> rfl
  obtain ⟨msTop, gsTop, hRowsTop, -, hSub⟩ := h.rows h.topLevel
  have hGroups : ∀ p' ∈ gsTop, (s'.groupItem p').group = (s.groupItem p').group := by
    intro p' hp'
    obtain ⟨-, g', -, hg'⟩ := hSub p' hp'
    exact hName (h.group hg').1
  have hBefore : s.subgroups = gsTop.map fun p' => (s.groupItem p').group := by
    rw [subgroups, hRowsTop.eq, groupRows_eq]
  have hAfter : s'.subgroups = gsTop.map fun p' => (s'.groupItem p').group := by
    rw [subgroups, hTop, hItem (h.group h.topLevel).1]
    split
    · next hIs =>
      subst hIs
      rw [hRows.groups_eq hRowsTop, groupRows_eq]
    · rw [hRowsTop.eq, groupRows_eq]
  rw [hBefore, hAfter]
  exact List.map_congr_left hGroups

/-- The metacontacts of a group that has been changed, and of one that has not. -/
theorem Ok.metaContactsOf_congr (h : s.Ok) {s' : ContactListTreeModel} {g g' : Group} {p : ℕ}
    {ms' gs : List ℕ} (hp : s.groups g = some p) (hGroups : s'.groups = s.groups)
    (hItem : ∀ {p'}, s.groupItems.Live p' → s'.groupItem p' =
      if p' = p then { s.groupItem p' with items := ms'.map Row.metaContact ++ gs.map Row.group }
      else s.groupItem p')
    (hSame : ∀ {mc q}, s.metaContacts (g', mc) = some q →
      s'.metaContactItem q = s.metaContactItem q) :
    s'.metaContactsOf g' =
      if g' = g then ms'.map fun q => (s'.metaContactItem q).metaContact
      else s.metaContactsOf g' := by
  split
  · next hIs =>
    subst hIs
    rw [metaContactsOf, hGroups, hp]
    simp only
    rw [hItem (h.group hp).1, if_pos rfl, metaContactRows_eq]
  · next hOther =>
    rw [metaContactsOf, metaContactsOf, hGroups]
    cases hp' : s.groups g' with
    | none => rfl
    | some p' =>
      have hNe : p' ≠ p := by
        rintro rfl
        exact hOther (h.group_injective hp' hp)
      simp only
      obtain ⟨ms, gs', hRows, -, hPairs⟩ := h.exists_rows hp'
      rw [hItem (h.group hp').1, if_neg hNe, hRows.eq, metaContactRows_eq, metaContactRows_eq]
      exact List.map_congr_left fun q hq => by rw [hSame (hPairs q hq)]

theorem position_eq {g : Group} {mc : Nat} (hWaits : s.addContactPosition (g, mc) = none)
    (mc' : Nat) : s.addContactPosition (g, mc') =
      if mc' = mc then none else s.addContactPosition (g, mc') := by
  split
  · next hSame => rw [hSame, hWaits]
  · rfl

/-- A row of the group is put somewhere: so is its metacontact. -/
theorem Ok.map_place (h : s.Ok) {g : Group} {mc p q : ℕ} {ms gs : List ℕ}
    (hp : s.groups g = some p) (hq : s.metaContacts (g, mc) = some q)
    (hRows : RowsAre (s.groupItem p).items ms gs) (n : ℕ) :
    (RowDrop.place ms n q).map (fun q' => (s.metaContactItem q').metaContact) =
      RowDrop.place (s.metaContactsOf g) n mc := by
  obtain ⟨ms', gs', hRows', -, hPairs⟩ := h.exists_rows hp
  have hItem := h.metaContact_metaContactItem hq
  rw [RowDrop.map_place, hItem, metaContactsOf_eq hp hRows]
  intro q' hq' hSame
  have hThis := hPairs q' ((mem_metaContacts_of_row hRows' q').mp
    ((mem_metaContacts_of_row hRows q').mpr hq'))
  rw [hSame, hItem, hq] at hThis
  exact (Option.some.inj hThis).symm

/-- The row of a metacontact is moved to where it is to be. -/
theorem Ok.placed_moveRow (h : s.Ok) {g : Group} {mc p q n : ℕ} (hp : s.groups g = some p)
    (hq : s.metaContacts (g, mc) = some q) (hn : n ≤ (s.metaContactsOf g).length)
    (hWaits : s.addContactPosition (g, mc) = none) :
    Placed s g mc (RowDrop.place (s.metaContactsOf g) n mc)
      ((s.removeMetaContactItem q).insertMetaContactItem p
        (if (s.groupItem p).items.idxOf (.metaContact q) < n then n - 1 else n) q) := by
  obtain ⟨ms, gs, hRows, hOf, -⟩ := h.exists_rows hp
  obtain ⟨p', hp', -, hMem⟩ := h.pair hq
  obtain rfl : p = p' := Option.some.inj (hp.symm.trans hp')
  have hqs : q ∈ ms := (mem_metaContacts_of_row hRows q).mp hMem
  have hIdx : (s.groupItem p).items.idxOf (.metaContact q) = ms.idxOf q := hRows.idxOf_eq hqs
  rw [hOf, List.length_map] at hn
  rw [hIdx]
  have hIdxLt : ms.idxOf q < ms.length := List.idxOf_lt_length_of_mem hqs
  have hErased : (ms.erase q).length = ms.length - 1 := List.length_erase_of_mem hqs
  have hLe : (if ms.idxOf q < n then n - 1 else n) ≤ (ms.erase q).length := by
    split <;> omega
  have hSameItem : ∀ q', ((s.removeMetaContactItem q).insertMetaContactItem p
      (if ms.idxOf q < n then n - 1 else n) q).metaContactItem q' = s.metaContactItem q' :=
    fun q' => congrArg (fun item => Option.getD item _) (h.get?_moveRow hp hq q')
  have hGroups := fun {p'} (hLive : s.groupItems.Live p') =>
    h.groupItem_moveRow hp hq hRows hqs hLe hLive
  have hRemoved := (h.removeMetaContactItem_eq hp hq).2
  constructor
  case ok =>
    refine h.moveRow hp hq ?_
    rw [hRows.metaContactCount]
    omega
  case manual =>
    rw [hRemoved]
    rfl
  case groups => exact groups_removeMetaContactItem q
  case rows =>
    refine Eq.trans (h.metaContactsOf_congr hp (groups_removeMetaContactItem q) hGroups
      fun _ => hSameItem _) ?_
    rw [if_pos rfl, ← h.map_place hp hq hRows, RowDrop.place_moved hRows.nodup_metaContacts hqs hn,
      List.eraseIdx_idxOf_eq_erase]
    exact List.map_congr_left fun q' _ => by rw [hSameItem]
  case subgroups =>
    refine h.subgroups_congr hp hRows ?_ hGroups
    rw [hRemoved]
    rfl
  case position =>
    rw [hRemoved]
    exact position_eq hWaits

/-- A metacontact gets a row where it is to be. -/
theorem Ok.placed_newRow (h : s.Ok) {g : Group} {mc p n : ℕ} (hp : s.groups g = some p)
    (hNone : s.metaContacts (g, mc) = none) (hn : n ≤ (s.metaContactsOf g).length)
    (hWaits : s.addContactPosition (g, mc) = none) :
    Placed s g mc (RowDrop.place (s.metaContactsOf g) n mc)
      (insertMetaContactItem
        { s with
          metaContactItems := s.metaContactItems.new ⟨mc, none⟩
          metaContacts := Function.update s.metaContacts (g, mc) (some s.metaContactItems.next) }
        p n s.metaContactItems.next) := by
  obtain ⟨ms, gs, hRows, hOf, hPairs⟩ := h.exists_rows hp
  have hNew : mc ∉ s.metaContactsOf g := by
    rw [h.mem_metaContactsOf, Shows, hNone]
    exact Bool.false_ne_true
  rw [hOf, List.length_map] at hn
  have hGroups := fun {p'} (hLive : s.groupItems.Live p') =>
    groupItem_newRow g mc hRows hn hLive
  constructor
  case ok => exact h.newRow hp hNone (by rwa [hRows.metaContactCount])
  case manual => rfl
  case groups => rfl
  case rows =>
    refine Eq.trans (h.metaContactsOf_congr hp rfl hGroups fun hq' => congrArg
      (fun item => Option.getD item _) (get?_newRow_of_live g mc p n (h.live_of_pair hq'))) ?_
    rw [if_pos rfl, RowDrop.place_new hNew (by rwa [hOf, List.length_map]), hOf,
      List.map_insertIdx]
    have hNewItem : ∀ f : MetaContactModelItem → ℕ, f ((insertMetaContactItem
        { s with
          metaContactItems := s.metaContactItems.new ⟨mc, none⟩
          metaContacts := Function.update s.metaContacts (g, mc) (some s.metaContactItems.next) }
        p n s.metaContactItems.next).metaContactItem s.metaContactItems.next) = f ⟨mc, some p⟩ :=
      fun f => congrArg (fun item => f (Option.getD item _)) (get?_newRow_self g mc p n)
    rw [hNewItem MetaContactModelItem.metaContact]
    refine congrArg (List.insertIdx · n mc) (List.map_congr_left fun q hq => ?_)
    exact congrArg (fun item => (Option.getD item ⟨0, none⟩).metaContact)
      (get?_newRow_of_live g mc p n (h.live_of_pair (hPairs q hq)))
  case subgroups => exact h.subgroups_congr hp hRows rfl hGroups
  case position => exact position_eq hWaits

/-- The place that waits for a metacontact, or the end, among those of the group. -/
theorem Ok.exists_desiredIndex (h : s.Ok) {g : Group} {p far : ℕ} (mc : Nat)
    (hp : s.groups g = some p) (hManual : s.manualMetaContactSorting = true)
    (hFar : (s.metaContactsOf g).length ≤ far) :
    ∃ (n : ℕ) (positions : GroupMetaContactPair → Option Int),
      n ≤ (s.metaContactsOf g).length ∧
      s.desiredIndex (g, mc) (s.groupItem p).items.length (s.groupItem p).metaContactCount =
        ((n : Int), { s with addContactPosition := positions }) ∧
      (∀ mc', positions (g, mc') = if mc' = mc then none else s.addContactPosition (g, mc')) ∧
      RowDrop.place (s.metaContactsOf g)
        (match s.addContactPosition (g, mc) with
          | some position => if position < 0 then far else position.toNat
          | none => far) mc = RowDrop.place (s.metaContactsOf g) n mc := by
  obtain ⟨ms, gs, hRows, hOf, -⟩ := h.exists_rows hp
  have hCount : (s.groupItem p).metaContactCount = (s.metaContactsOf g).length := by
    rw [hRows.metaContactCount, hOf, List.length_map]
  rw [hCount]
  cases hWaits : s.addContactPosition (g, mc) with
  | some position =>
    obtain ⟨n, hn, hDesired, hPlace⟩ : ∃ n : ℕ, n ≤ (s.metaContactsOf g).length ∧
        (if position < 0 ∨ ((s.metaContactsOf g).length : Int) < position then
          ((s.metaContactsOf g).length : Int) else position) = n ∧
        RowDrop.place (s.metaContactsOf g) (if position < 0 then far else position.toNat) mc =
          RowDrop.place (s.metaContactsOf g) n mc := RowDrop.place_position hFar
    refine ⟨n, Function.update s.addContactPosition (g, mc) none, hn, ?_, fun mc' => ?_, hPlace⟩
    · simp only [desiredIndex, hManual, if_true, hWaits]
      rw [hDesired]
    · by_cases hSame : mc' = mc <;> simp [hSame]
  | none =>
    refine ⟨(s.metaContactsOf g).length, s.addContactPosition, Nat.le_refl _, ?_,
      position_eq hWaits, ?_⟩
    · have hMore : (s.metaContactsOf g).length ≤ (s.groupItem p).items.length := by
        rw [hOf, hRows.eq]
        simp
      simp only [desiredIndex, if_pos hManual, hWaits]
      refine congrArg (·, s) ?_
      split <;> omega
    · rw [RowDrop.place_of_length_le hFar, RowDrop.place_of_length_le (Nat.le_refl _)]

/-- **A metacontact is put somewhere** in a group that has an item: at the place that waits for it,
or at the end. -/
theorem Ok.placed_placeMetaContact (h : s.Ok) {g : Group} {p far : ℕ} (mc : Nat)
    (hp : s.groups g = some p) (hManual : s.manualMetaContactSorting = true)
    (hFar : (s.metaContactsOf g).length ≤ far) :
    Placed s g mc
      (RowDrop.place (s.metaContactsOf g)
        (match s.addContactPosition (g, mc) with
          | some position => if position < 0 then far else position.toNat
          | none => far) mc)
      (s.placeMetaContact mc g p) := by
  obtain ⟨n, positions, hn, hDesired, hElse, hPlace⟩ := h.exists_desiredIndex mc hp hManual hFar
  have hOk := h.withPositions positions
  have hWaits : positions (g, mc) = none := (hElse mc).trans (if_pos rfl)
  rw [hPlace, ContactListTreeModel.placeMetaContact, hDesired]
  -- the positions that wait are not what is shown
  have hPlaced : ∀ {s'}, Placed { s with addContactPosition := positions } g mc
      (RowDrop.place (s.metaContactsOf g) n mc) s' →
      Placed s g mc (RowDrop.place (s.metaContactsOf g) n mc) s' := fun hThen =>
    ⟨hThen.ok, hThen.manual, hThen.groups, hThen.rows, hThen.subgroups, fun mc' => by
      rw [hThen.position mc']
      split
      · rfl
      · next hOther => exact (hElse mc').trans (if_neg hOther)⟩
  refine hPlaced ?_
  simp only
  split
  · next q hq =>
    obtain ⟨ms, gs, hRows, -, -⟩ := h.rows hp
    obtain ⟨p', hp', -, hMem⟩ := h.pair hq
    obtain rfl : p = p' := Option.some.inj (hp.symm.trans hp')
    have hqs : q ∈ ms := (mem_metaContacts_of_row hRows q).mp hMem
    rw [(hOk.removeMetaContactItem_eq hp hq).1]
    split
    · next hThere =>
      have hIdx : ms.idxOf q = n := (hRows.idxOf_eq hqs).symm.trans (Int.natCast_inj.mp hThere)
      refine ⟨hOk, rfl, rfl, ?_, rfl, position_eq hWaits⟩
      rw [← h.map_place hp hq hRows, ← hIdx, RowDrop.place_self hRows.nodup_metaContacts hqs]
      exact metaContactsOf_eq hp hRows
    · have hMoved := hOk.placed_moveRow hp hq hn hWaits
      have hDesired' : (if ((s.groupItem p).items.idxOf (.metaContact q) : Int) < n then (n : Int) - 1
          else n).toNat =
          if (s.groupItem p).items.idxOf (.metaContact q) < n then n - 1 else n := by
        split <;> split <;> omega
      exact hDesired' ▸ hMoved
  · next hNone => exact hOk.placed_newRow hp hNone hn hWaits

/-! ## What comes from elsewhere -/

/-- **A metacontact is put somewhere**, by the slot. -/
theorem Ok.placed_addMetaContactToGroup (h : s.Ok) {g : Group} {far : ℕ} (mc : Nat)
    (hGroup : s.ShowsGroup g) (hManual : s.manualMetaContactSorting = true)
    (hFar : (s.metaContactsOf g).length ≤ far) :
    Placed s g mc
      (RowDrop.place (s.metaContactsOf g)
        (match s.addContactPosition (g, mc) with
          | some position => if position < 0 then far else position.toNat
          | none => far) mc)
      (s.addMetaContactToGroup mc g) := by
  obtain ⟨p, hp⟩ := Option.isSome_iff_exists.mp hGroup
  have hAdd : s.addMetaContactToGroup mc g = s.placeMetaContact mc g p := by
    simp [ContactListTreeModel.addMetaContactToGroup, hp]
  rw [hAdd]
  exact h.placed_placeMetaContact mc hp hManual hFar

/-- **A metacontact leaves another group.** -/
theorem Ok.placed_removeMetaContactFromGroup (h : s.Ok) {g g' : Group} {mc : Nat}
    (hOther : g' ≠ g) (hWaits : s.addContactPosition (g, mc) = none) :
    Placed s g mc (s.metaContactsOf g) (s.removeMetaContactFromGroup mc g') := by
  have hOk := h.removeMetaContactFromGroup mc g'
  unfold ContactListTreeModel.removeMetaContactFromGroup at hOk ⊢
  split at hOk
  · exact ⟨h, rfl, rfl, rfl, rfl, position_eq hWaits⟩
  · next q hq =>
    obtain ⟨p, hp, -, hMem⟩ := h.pair hq
    obtain ⟨ms, gs, hRows, -⟩ := h.rows hp
    have hqs : q ∈ ms := (mem_metaContacts_of_row hRows q).mp hMem
    have hRemoved := (h.removeMetaContactItem_eq hp hq).2
    have hItem : ∀ {p'}, s.groupItems.Live p' → (s.removeMetaContactItem q).groupItem p' =
        if p' = p then { s.groupItem p' with
          items := (ms.erase q).map Row.metaContact ++ gs.map Row.group }
        else s.groupItem p' := by
      intro p' hLive
      rw [hRemoved]
      exact groupItem_modifyRows_of
        (f := fun items => items.eraseIdx ((s.groupItem p).items.idxOf (.metaContact q)))
        (hRows.erase hqs) hLive
    have hGroups : (s.removeMetaContactItem q).groups = s.groups := groups_removeMetaContactItem q
    constructor
    case ok => exact hOk
    case manual =>
      simp only
      rw [hRemoved]
      rfl
    case groups => exact hGroups
    case rows =>
      refine Eq.trans (h.metaContactsOf_congr hp hGroups hItem fun {mc' q'} hq' => ?_)
        (if_neg (Ne.symm hOther))
      have hNe : q' ≠ q := by
        rintro rfl
        exact hOther (h.pair_injective hq hq').1
      refine congrArg (fun item => Option.getD item _) ?_
      rw [hRemoved]
      simp only [Heap.get?_delete_ne hNe, Heap.get?_modify_ne _ hNe]
    case subgroups =>
      refine h.subgroups_congr hp hRows ?_ hItem
      simp only
      rw [hRemoved]
      rfl
    case position =>
      simp only
      rw [hRemoved]
      exact position_eq hWaits

/-- What is at the end comes to be there again. -/
theorem place_place_end {l : List Nat} {mc far : Nat} (hFar : l.length + 1 ≤ far)
    (hNodup : l.Nodup) :
    RowDrop.place (RowDrop.place l far mc) far mc = RowDrop.place l far mc := by
  have hLe : (RowDrop.place l far mc).length ≤ far :=
    Nat.le_trans (RowDrop.length_place_le hNodup) hFar
  rw [RowDrop.place_of_length_le hLe, RowDrop.place_of_length_le (by omega),
    RowDrop.removeAll_append, QList.removeAll_cons_self,
    QList.removeAll_of_not_mem fun hMem => (QList.mem_removeAll.mp hMem).2 rfl]
  simp [QList.removeAll]

/-- The signal brings a metacontact into the group, not out of it at once. -/
def Brings (g : Group) (signal : GroupSignal) : Prop :=
  signal = .addedToGroup g ∨ ∃ source, source ≠ g ∧ signal = .movedToGroup source g

/-- **A metacontact comes to a group**, where it is put at the end. -/
theorem Ok.placed_slot (h : s.Ok) {g : Group} {mc far : ℕ} {signal : GroupSignal}
    (hBrings : Brings g signal) (hGroup : s.ShowsGroup g)
    (hManual : s.manualMetaContactSorting = true) (hWaits : s.addContactPosition (g, mc) = none)
    (hFar : (s.metaContactsOf g).length ≤ far) :
    Placed s g mc (RowDrop.place (s.metaContactsOf g) far mc) (s.slot mc signal) := by
  rcases hBrings with rfl | ⟨source, hOther, rfl⟩
  · have hPlaced := h.placed_addMetaContactToGroup mc hGroup hManual hFar
    rw [hWaits] at hPlaced
    exact hPlaced
  · have hLeft := h.placed_removeMetaContactFromGroup hOther hWaits
    have hFar' : ((s.removeMetaContactFromGroup mc source).metaContactsOf g).length ≤ far := by
      rw [hLeft.rows]
      exact hFar
    have hPlaced := hLeft.ok.placed_addMetaContactToGroup mc
      ((showsGroup_congr hLeft.groups g).mpr hGroup) (hLeft.manual.trans hManual) hFar'
    rw [hLeft.position, if_pos rfl, hLeft.rows] at hPlaced
    exact hLeft.trans hPlaced

/-- However often it is told to. -/
theorem Ok.placed_slots (h : s.Ok) {g : Group} {mc far : ℕ} {signal : GroupSignal}
    (hBrings : Brings g signal) (hGroup : s.ShowsGroup g)
    (hManual : s.manualMetaContactSorting = true) (hWaits : s.addContactPosition (g, mc) = none)
    (hFar : (s.metaContactsOf g).length + 1 ≤ far) (n : ℕ) :
    Placed s g mc (RowDrop.place (s.metaContactsOf g) far mc) ((slot · mc signal)^[n + 1] s) := by
  induction n with
  | zero => exact h.placed_slot hBrings hGroup hManual hWaits (by omega)
  | succ n ih =>
    rw [Function.iterate_succ_apply']
    have hNodup := h.nodup_metaContactsOf g
    have hFar' : (((slot · mc signal)^[n + 1] s).metaContactsOf g).length ≤ far := by
      rw [ih.rows]
      exact Nat.le_trans (RowDrop.length_place_le hNodup) hFar
    have hAgain := ih.ok.placed_slot hBrings ((showsGroup_congr ih.groups g).mpr hGroup)
      (ih.manual.trans hManual) ((ih.position mc).trans (if_pos rfl)) hFar'
    rw [ih.rows, place_place_end hFar hNodup] at hAgain
    exact ih.trans hAgain

/-- **A metacontact leaves another group**, however often it is told to. -/
theorem Ok.placed_removedFromGroup (h : s.Ok) {g g' : Group} {mc : ℕ} (hOther : g' ≠ g)
    (hWaits : s.addContactPosition (g, mc) = none) (n : ℕ) :
    Placed s g mc (s.metaContactsOf g) ((slot · mc (.removedFromGroup g'))^[n] s) := by
  induction n with
  | zero => exact ⟨h, rfl, rfl, rfl, rfl, position_eq hWaits⟩
  | succ n ih =>
    rw [Function.iterate_succ_apply']
    have hAgain := ih.ok.placed_removeMetaContactFromGroup hOther
      ((ih.position mc).trans (if_pos rfl))
    rw [ih.rows] at hAgain
    exact ih.trans hAgain

/-- **The signals of a move**: a metacontact leaves other groups, and then comes to this one. -/
theorem Ok.placed_signals (h : s.Ok) {g : Group} {mc far : ℕ} {left : List GroupSignal}
    {signal : GroupSignal} (hLeft : ∀ x ∈ left, ∃ g', g' ≠ g ∧ x = .removedFromGroup g')
    (hBrings : Brings g signal) (hGroup : s.ShowsGroup g)
    (hManual : s.manualMetaContactSorting = true) (hWaits : s.addContactPosition (g, mc) = none)
    (hFar : (s.metaContactsOf g).length + 1 ≤ far) {n : ℕ} (hn : n ≠ 0) :
    Placed s g mc (RowDrop.place (s.metaContactsOf g) far mc)
      ((left ++ [signal]).foldl (fun s signal => (slot · mc signal)^[n] s) s) := by
  induction left generalizing s with
  | nil =>
    obtain ⟨n, rfl⟩ := Nat.exists_eq_succ_of_ne_zero hn
    exact h.placed_slots hBrings hGroup hManual hWaits hFar n
  | cons x left ih =>
    obtain ⟨g', hOther, rfl⟩ := hLeft x List.mem_cons_self
    have hFirst := h.placed_removedFromGroup hOther hWaits n
    have hRest := ih hFirst.ok (fun x hx => hLeft x (List.mem_cons_of_mem _ hx))
      ((showsGroup_congr hFirst.groups g).mpr hGroup) (hFirst.manual.trans hManual)
      ((hFirst.position mc).trans (if_pos rfl)) (by rwa [hFirst.rows])
    rw [hFirst.rows] at hRest
    exact hFirst.trans hRest

end ContactListTreeModel

end Kopete.UI
