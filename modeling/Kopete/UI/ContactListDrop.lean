import Kopete.UI.ContactListPlainModel
import Kopete.UI.ContactListWindow
import Kopete.UI.GroupOrder

/-!
# Contact list window — rows that are dragged and dropped

With manual sorting, what is dragged is to come to stand where it is dropped. The models put one
row after the other at a row that is counted up from the one of the drop. That is right only when
nothing in front of it has been dragged away, and −1 for the end is counted up to the first row. A
metacontact from another group is put at the end, since its place is noted under the group that it
leaves.

Main results:

* `Drags.dropped_dropPair`, `Drags.rows_dropPairs` — what dropping metacontacts makes of a group;
* `dropped_iff` — when rows come to stand where they are dropped.
-/

namespace Kopete.UI

open MetaContact (GroupCall GroupSignal)
open ContactListTreeModel (Brings Placed)

/-- `Qt::DropAction`. -/
inductive DropAction where
  | copyAction
  | moveAction
  | linkAction
  | ignoreAction
deriving DecidableEq

namespace ContactListWindow

variable (s : ContactListWindow)

/-! ## Metacontacts that are dropped onto a group -/

/-- A metacontact is to be in the group that it is dropped onto. -/
def changeGroup (group : Group) (action : DropAction) (pair : GroupMetaContactPair) :
    ContactListWindow :=
  match action with
  | .moveAction => s.groupCall pair.2 (.moveToGroup (some pair.1) (some group))
  | .copyAction => s.groupCall pair.2 (.addToGroup (some group))
  | _ => s

/-- The body of the loop in `ContactListTreeModel::dropMetaContacts`. -/
def dropPair (group : Group) (action : DropAction) (position : Int)
    (pair : GroupMetaContactPair) : ContactListWindow :=
  if s.model.manualMetaContactSorting then
    let s := s.step (.setAddContactPosition pair position)
    if pair.1 = group then { s with model := s.model.addMetaContactToGroup pair.2 group }
    else s.changeGroup group action pair
  else if pair.1 ≠ group then s.changeGroup group action pair
  else s

/-- The loop of `ContactListTreeModel::dropMetaContacts`. -/
def dropPairs (group : Group) (action : DropAction) :
    Int → List GroupMetaContactPair → ContactListWindow → ContactListWindow
  | _, [], s => s
  | row, pair :: pairs, s =>
    dropPairs group action (row + 1) pairs (s.dropPair group action row pair)

/-- `ContactListTreeModel::dropMetaContacts` onto the row of a group. -/
def dropMetaContacts (row : Int) (group : Group) (action : DropAction)
    (items : List GroupMetaContactPair) : Bool × ContactListWindow :=
  if items = [] then (false, s) else (true, dropPairs group action row items s)

/-- A metacontact that is moved from `source` comes to `target`. -/
def Accepts (mc : MetaContact) (source target : Group) : Prop :=
  (source ∈ mc.groups → target ≠ .offline) ∧ (mc.temporary = true → target = .temporary)

instance (mc : MetaContact) (source target : Group) : Decidable (Accepts mc source target) :=
  inferInstanceAs (Decidable (_ ∧ _))

/-- The places of metacontacts that are dropped. -/
def pairMoves (metaContact : Nat → MetaContact) (group : Group) (far : ℕ) :
    Int → List GroupMetaContactPair → List (Nat × ℕ)
  | _, [] => []
  | row, pair :: pairs =>
    (if pair.1 = group then [(pair.2, if row < 0 then far else row.toNat)]
      else if Accepts (metaContact pair.2) pair.1 group then [(pair.2, far)]
      else []) ++ pairMoves metaContact group far (row + 1) pairs

variable {s}

/-- What is dropped: different metacontacts. The ones from other groups are not in this one, and
no place waits for them here; the window listens to them. -/
structure Drags (s : ContactListWindow) (group : Group) (items : List GroupMetaContactPair) :
    Prop where
  ok : s.model.Ok
  manual : s.model.manualMetaContactSorting = true
  shown : s.model.ShowsGroup group
  nodup : (items.map Prod.snd).Nodup
  rows : ∀ pair ∈ items, pair.1 ≠ group → pair.2 ∉ s.model.metaContactsOf group
  groups : ∀ pair ∈ items, pair.1 ≠ group → group ∉ s.groupsOf pair.2
  waits : ∀ pair ∈ items, pair.1 ≠ group → s.model.addContactPosition (group, pair.2) = none
  forwarded : ∀ pair ∈ items, pair.1 ≠ group → s.forwarded pair.2 ≠ 0

/-- One of them has been dropped, and the group has the metacontacts `rows`. -/
structure Dropped (s : ContactListWindow) (group : Group) (m : Nat) (rows : List Nat)
    (s' : ContactListWindow) : Prop where
  ok : s'.model.Ok
  manual : s'.model.manualMetaContactSorting = s.model.manualMetaContactSorting
  groups : s'.model.groups = s.model.groups
  rows : s'.model.metaContactsOf group = rows
  subgroups : s'.model.subgroups = s.model.subgroups
  position : ∀ m', m' ≠ m →
    s'.model.addContactPosition (group, m') = s.model.addContactPosition (group, m')
  metaContact : ∀ m', m' ≠ m → s'.metaContact m' = s.metaContact m'
  forwarded : s'.forwarded = s.forwarded

/-- The position that is set for one metacontact does not wait for the others. -/
theorem position_setAddContactPosition {group : Group} {pair : GroupMetaContactPair} {m : Nat}
    (hOther : (group, m) ≠ pair) (position : Int) :
    (s.step (.setAddContactPosition pair position)).model.addContactPosition (group, m) =
      s.model.addContactPosition (group, m) := Function.update_of_ne hOther _ _

/-- What a metacontact says that is moved to a group it is not in. -/
theorem moveToGroupSignals_eq {mc : MetaContact} {source target : Group}
    (hOther : source ≠ target) (hNew : target ∉ mc.groups) :
    (¬ Accepts mc source target ∧ mc.moveToGroupSignals source target = []) ∨
      (Accepts mc source target ∧ ∃ left signal,
        mc.moveToGroupSignals source target = left ++ [signal] ∧ Brings target signal ∧
        ∀ x ∈ left, ∃ g', g' ≠ target ∧ x = .removedFromGroup g') := by
  have hRefused : (mc.temporary && decide (target ≠ .temporary)) = true ↔
      ¬ (mc.temporary = true → target = .temporary) := by
    simp
  by_cases hIn : source ∈ mc.groups
  · have hSignals : mc.moveToGroupSignals source target =
        if target = .offline then []
        else if mc.temporary && decide (target ≠ .temporary) then []
        else [.movedToGroup source target] := by
      simp [MetaContact.moveToGroupSignals, hIn, hOther, hNew]
    rw [hSignals]
    by_cases hAccepts : Accepts mc source target
    · obtain ⟨hOffline, hTemporary⟩ := hAccepts
      rw [if_neg (hOffline hIn), if_neg (by rw [hRefused]; exact not_not_intro hTemporary)]
      exact .inr ⟨⟨hOffline, hTemporary⟩, [], _, rfl, .inr ⟨source, hOther, rfl⟩, by simp⟩
    · refine .inl ⟨hAccepts, ?_⟩
      split
      · rfl
      · next hOffline =>
        exact if_pos (hRefused.mpr fun hTemporary => hAccepts ⟨fun _ => hOffline, hTemporary⟩)
  · have hSignals : mc.moveToGroupSignals source target =
        if mc.temporary && decide (target ≠ .temporary) then []
        else (if .topLevel ∈ mc.groups then [.removedFromGroup .topLevel] else []) ++
          [.addedToGroup target] := by
      simp [MetaContact.moveToGroupSignals, MetaContact.addToGroupSignals, hIn, hNew]
    rw [hSignals]
    by_cases hAccepts : Accepts mc source target
    · rw [if_neg (by rw [hRefused]; exact not_not_intro hAccepts.2)]
      refine .inr ⟨hAccepts, _, _, rfl, .inl rfl, fun x hx => ⟨.topLevel, ?_⟩⟩
      split at hx
      · next hTop =>
        refine ⟨?_, List.mem_singleton.mp hx⟩
        rintro rfl
        exact hNew hTop
      · cases hx
    · refine .inl ⟨hAccepts, if_pos (hRefused.mpr fun hTemporary => hAccepts ?_)⟩
      exact ⟨fun hSource => absurd hSource hIn, hTemporary⟩

theorem dropped_of_placed {s' : ContactListWindow} {group : Group} {pair : GroupMetaContactPair}
    {rows : List Nat} (position : Int)
    (h : Placed (s.step (.setAddContactPosition pair position)).model group pair.2 rows s'.model)
    (hMetaContact : ∀ m', m' ≠ pair.2 → s'.metaContact m' = s.metaContact m')
    (hForwarded : s'.forwarded = s.forwarded) : Dropped s group pair.2 rows s' := by
  refine ⟨h.ok, h.manual, h.groups, h.rows, h.subgroups, fun m' hOther => ?_, hMetaContact,
    hForwarded⟩
  rw [h.position, if_neg hOther]
  exact position_setAddContactPosition (fun hSame => hOther (congrArg Prod.snd hSame)) position

/-- **One metacontact is dropped.** -/
theorem Drags.dropped_dropPair {group : Group} {pair : GroupMetaContactPair}
    {pairs : List GroupMetaContactPair} (h : Drags s group (pair :: pairs)) {far : ℕ}
    (hFar : (s.model.metaContactsOf group).length + 1 ≤ far) (row : Int) :
    Dropped s group pair.2
      (RowDrop.placeAll (s.model.metaContactsOf group)
        (pairMoves s.metaContact group far row [pair]))
      (s.dropPair group .moveAction row pair) := by
  have hOk : (s.step (.setAddContactPosition pair row)).model.Ok := h.ok.withPositions _
  rw [dropPair, if_pos h.manual]
  by_cases hHere : pair.1 = group
  · have hMoves : pairMoves s.metaContact group far row [pair] =
        [(pair.2, if row < 0 then far else row.toNat)] := by
      simp [pairMoves, hHere]
    have hPosition :
        (s.step (.setAddContactPosition pair row)).model.addContactPosition (group, pair.2) =
          some row := by
      rw [← hHere]
      exact Function.update_self ..
    have hPlaced := hOk.placed_addMetaContactToGroup (g := group) pair.2 h.shown h.manual
      (Nat.le_of_succ_le hFar)
    rw [hPosition] at hPlaced
    rw [hMoves, if_pos hHere]
    exact dropped_of_placed row hPlaced (fun _ _ => rfl) rfl
  · have hElse : (group, pair.2) ≠ pair := fun hSame => hHere (congrArg Prod.fst hSame).symm
    have hWaits := (position_setAddContactPosition (s := s) hElse row).trans
      (h.waits pair List.mem_cons_self hHere)
    have hMetaContact : ∀ m', m' ≠ pair.2 →
        ((s.step (.setAddContactPosition pair row)).changeGroup group .moveAction
          pair).metaContact m' = s.metaContact m' :=
      fun m' hOther => Function.update_of_ne hOther _ _
    have hModel : ((s.step (.setAddContactPosition pair row)).changeGroup group .moveAction
          pair).model =
        ((s.metaContact pair.2).moveToGroupSignals pair.1 group).foldl
          (fun model signal =>
            (ContactListTreeModel.slot · pair.2 signal)^[s.forwarded pair.2] model)
          (s.step (.setAddContactPosition pair row)).model := rfl
    rw [if_neg hHere]
    rcases moveToGroupSignals_eq hHere (h.groups pair List.mem_cons_self hHere) with
      ⟨hRefused, hSignals⟩ | ⟨hAccepts, left, signal, hSignals, hBrings, hLeft⟩
    · have hMoves : pairMoves s.metaContact group far row [pair] = [] := by
        simp [pairMoves, hHere, hRefused]
      rw [hSignals] at hModel
      rw [hMoves]
      refine dropped_of_placed row ?_ hMetaContact rfl
      rw [hModel]
      exact ⟨hOk, rfl, rfl, rfl, rfl, ContactListTreeModel.position_eq hWaits⟩
    · have hMoves : pairMoves s.metaContact group far row [pair] = [(pair.2, far)] := by
        simp [pairMoves, hHere, hAccepts]
      rw [hSignals] at hModel
      rw [hMoves]
      refine dropped_of_placed row ?_ hMetaContact rfl
      rw [hModel]
      exact hOk.placed_signals hLeft hBrings h.shown h.manual hWaits hFar
        (h.forwarded pair List.mem_cons_self hHere)

theorem Drags.of_dropped {group : Group} {pair : GroupMetaContactPair}
    {pairs : List GroupMetaContactPair} (h : Drags s group (pair :: pairs))
    {s' : ContactListWindow} {moves : List (Nat × ℕ)} (hMoves : ∀ x ∈ moves, x.1 = pair.2)
    (hDropped : Dropped s group pair.2
      (RowDrop.placeAll (s.model.metaContactsOf group) moves) s') : Drags s' group pairs := by
  obtain ⟨hNot, hNodup⟩ := List.nodup_cons.mp h.nodup
  have hOther : ∀ {x}, x ∈ pairs → x.2 ≠ pair.2 := by
    intro x hx hSame
    exact hNot (hSame ▸ List.mem_map_of_mem hx)
  constructor
  case ok => exact hDropped.ok
  case manual => exact hDropped.manual.trans h.manual
  case shown => exact (ContactListTreeModel.showsGroup_congr hDropped.groups group).mpr h.shown
  case nodup => exact hNodup
  case rows =>
    intro x hx hElse hMem
    rw [hDropped.rows, RowDrop.mem_placeAll] at hMem
    rcases hMem with hMoved | hThere
    · obtain ⟨y, hy, hSame⟩ := List.mem_map.mp hMoved
      exact hOther hx (hSame.symm.trans (hMoves y hy))
    · exact h.rows x (List.mem_cons_of_mem _ hx) hElse hThere
  case groups =>
    intro x hx hElse
    rw [groupsOf, hDropped.metaContact _ (hOther hx)]
    exact h.groups x (List.mem_cons_of_mem _ hx) hElse
  case waits =>
    intro x hx hElse
    rw [hDropped.position _ (hOther hx)]
    exact h.waits x (List.mem_cons_of_mem _ hx) hElse
  case forwarded =>
    intro x hx hElse
    rw [hDropped.forwarded]
    exact h.forwarded x (List.mem_cons_of_mem _ hx) hElse

theorem pairMoves_congr {metaContact metaContact' : Nat → MetaContact} {group : Group} {far : ℕ}
    {pairs : List GroupMetaContactPair}
    (h : ∀ pair ∈ pairs, metaContact' pair.2 = metaContact pair.2) (row : Int) :
    pairMoves metaContact' group far row pairs = pairMoves metaContact group far row pairs := by
  induction pairs generalizing row with
  | nil => rfl
  | cons pair pairs ih =>
    rw [pairMoves, pairMoves, ih (fun x hx => h x (List.mem_cons_of_mem _ hx)),
      h pair List.mem_cons_self]

theorem pairMoves_single (metaContact : Nat → MetaContact) (group : Group) (far : ℕ) (row : Int)
    (pair : GroupMetaContactPair) :
    ∀ x ∈ pairMoves metaContact group far row [pair], x.1 = pair.2 := by
  intro x hx
  rw [pairMoves, pairMoves, List.append_nil] at hx
  split at hx
  · rw [List.mem_singleton.mp hx]
  · split at hx
    · rw [List.mem_singleton.mp hx]
    · cases hx

theorem length_pairMoves_single (metaContact : Nat → MetaContact) (group : Group) (far : ℕ)
    (row : Int) (pair : GroupMetaContactPair) :
    (pairMoves metaContact group far row [pair]).length ≤ 1 := by
  rw [pairMoves, pairMoves, List.append_nil]
  split
  · exact Nat.le_refl _
  · split <;> simp

theorem pairMoves_cons (metaContact : Nat → MetaContact) (group : Group) (far : ℕ) (row : Int)
    (pair : GroupMetaContactPair) (pairs : List GroupMetaContactPair) :
    pairMoves metaContact group far row (pair :: pairs) =
      pairMoves metaContact group far row [pair] ++
        pairMoves metaContact group far (row + 1) pairs := by
  simp [pairMoves]

/-- **Metacontacts are dropped** onto a group. -/
theorem Drags.rows_dropPairs {group : Group} {pairs : List GroupMetaContactPair}
    (h : Drags s group pairs) {far : ℕ}
    (hFar : (s.model.metaContactsOf group).length + pairs.length ≤ far) (row : Int) :
    (dropPairs group .moveAction row pairs s).model.Ok ∧
      (dropPairs group .moveAction row pairs s).model.subgroups = s.model.subgroups ∧
      (dropPairs group .moveAction row pairs s).model.metaContactsOf group =
        RowDrop.placeAll (s.model.metaContactsOf group)
          (pairMoves s.metaContact group far row pairs) := by
  induction pairs generalizing s row with
  | nil => exact ⟨h.ok, rfl, rfl⟩
  | cons pair pairs ih =>
    rw [List.length_cons] at hFar
    have hOne : (s.model.metaContactsOf group).length + 1 ≤ far := by omega
    have hFirst := h.dropped_dropPair hOne row
    have hFew := pairMoves_single s.metaContact group far row pair
    have hFar' : ((s.dropPair group .moveAction row pair).model.metaContactsOf group).length +
        pairs.length ≤ far := by
      have hLength := length_pairMoves_single s.metaContact group far row pair
      have hLe := RowDrop.length_placeAll_le (h.ok.nodup_metaContactsOf group)
        (pairMoves s.metaContact group far row [pair])
      rw [hFirst.rows]
      omega
    have hRest := ih (h.of_dropped hFew hFirst) hFar' (row + 1)
    obtain ⟨hNot, -⟩ := List.nodup_cons.mp h.nodup
    have hSame : ∀ x ∈ pairs,
        (s.dropPair group .moveAction row pair).metaContact x.2 = s.metaContact x.2 := by
      intro x hx
      refine hFirst.metaContact _ fun hIs => hNot ?_
      exact hIs ▸ List.mem_map_of_mem hx
    rw [hFirst.rows, hFirst.subgroups, pairMoves_congr hSame] at hRest
    rw [pairMoves_cons, RowDrop.placeAll, List.foldl_append]
    exact hRest

/-- Metacontacts that all come to the group. -/
theorem pairMoves_eq {metaContact : Nat → MetaContact} {group : Group}
    {pairs : List GroupMetaContactPair}
    (h : ∀ pair ∈ pairs, pair.1 ≠ group → Accepts (metaContact pair.2) pair.1 group) (far : ℕ)
    (row : Int) :
    pairMoves metaContact group far row pairs =
      RowDrop.movesAt far row (pairs.map fun pair => (pair.2, decide (pair.1 ≠ group))) := by
  induction pairs generalizing row with
  | nil => rfl
  | cons pair pairs ih =>
    have hFirst := h pair List.mem_cons_self
    rw [pairMoves, List.map_cons, RowDrop.movesAt, ih fun x hx => h x (List.mem_cons_of_mem _ hx)]
    by_cases hHere : pair.1 = group
    · simp [hHere]
    · simp [hHere, hFirst hHere]

/-- Only those that come to the group are put somewhere. -/
theorem of_mem_pairMoves {metaContact : Nat → MetaContact} {group : Group} {far : ℕ}
    {pairs : List GroupMetaContactPair} {row : Int} {m : Nat}
    (h : m ∈ (pairMoves metaContact group far row pairs).map Prod.fst) :
    ∃ pair ∈ pairs, pair.2 = m ∧
      (pair.1 = group ∨ Accepts (metaContact pair.2) pair.1 group) := by
  induction pairs generalizing row with
  | nil => cases h
  | cons pair pairs ih =>
    rw [pairMoves, List.map_append, List.mem_append] at h
    rcases h with hFirst | hRest
    · refine ⟨pair, List.mem_cons_self, ?_⟩
      split at hFirst
      · next hHere => exact ⟨(List.mem_singleton.mp hFirst).symm, .inl hHere⟩
      · split at hFirst
        · next hAccepts => exact ⟨(List.mem_singleton.mp hFirst).symm, .inr hAccepts⟩
        · cases hFirst
    · obtain ⟨pair', hMem, hPair⟩ := ih hRest
      exact ⟨pair', List.mem_cons_of_mem _ hMem, hPair⟩

/-- The places of what is dropped onto the group are what they should be. -/
def ItemsFit (s : ContactListWindow) (group : Group) (row : Int)
    (items : List GroupMetaContactPair) : Prop :=
  (∀ pair ∈ items, pair.1 ≠ group → Accepts (s.metaContact pair.2) pair.1 group) ∧
    RowDrop.FittingAt (s.model.metaContactsOf group) row
      (items.map fun pair => (pair.2, decide (pair.1 ≠ group)))

/-- **Metacontacts that are dropped** come to be where they are dropped just when all of them come
to the group, and their places fit. -/
theorem Drags.rows_iff {group : Group} {items : List GroupMetaContactPair} {row : Int}
    (h : Drags s group items) (hRow : -1 ≤ row) :
    (s.dropMetaContacts row group .moveAction items).2.model.metaContactsOf group =
        RowDrop.droppedAt (s.model.metaContactsOf group) row (items.map Prod.snd) ↔
      ItemsFit s group row items := by
  have hDrop : (s.dropMetaContacts row group .moveAction items).2 =
      dropPairs group .moveAction row items s := by
    unfold dropMetaContacts
    split
    · next hNone =>
      subst hNone
      rfl
    · rfl
  have hNodup := h.ok.nodup_metaContactsOf group
  obtain ⟨-, -, hRows⟩ := h.rows_dropPairs (Nat.le_refl _) row
  rw [hDrop, hRows]
  by_cases hAll : ∀ pair ∈ items, pair.1 ≠ group → Accepts (s.metaContact pair.2) pair.1 group
  · have hNames : (items.map fun pair => (pair.2, decide (pair.1 ≠ group))).map Prod.fst =
        items.map Prod.snd := by
      rw [List.map_map]
      rfl
    have hElse : ∀ x ∈ items.map fun pair => (pair.2, decide (pair.1 ≠ group)), x.2 = true →
        x.1 ∉ s.model.metaContactsOf group := by
      intro x hx hAway
      obtain ⟨pair, hMem, rfl⟩ := List.mem_map.mp hx
      exact h.rows pair hMem (of_decide_eq_true hAway)
    have hLength : (s.model.metaContactsOf group).length +
        (items.map fun pair => (pair.2, decide (pair.1 ≠ group))).length ≤
          (s.model.metaContactsOf group).length + items.length := by
      rw [List.length_map]
    have hIff := RowDrop.placeAll_movesAt_iff hNodup (hNames ▸ h.nodup) hElse hLength hRow
    rw [ItemsFit, and_iff_right hAll, ← hIff, pairMoves_eq hAll, hNames]
  · refine iff_of_false (fun hDropped => ?_) fun hFits => hAll hFits.1
    -- one that is refused is not there afterwards
    simp only [not_forall] at hAll
    obtain ⟨pair, hMem, hElse, hRefused⟩ := hAll
    have hThere : pair.2 ∈ RowDrop.droppedAt (s.model.metaContactsOf group) row
        (items.map Prod.snd) :=
      List.mem_append_left _ (List.mem_append_right _ (List.mem_map_of_mem hMem))
    rw [← hDropped, RowDrop.mem_placeAll] at hThere
    rcases hThere with hMoved | hBefore
    · obtain ⟨pair', hMem', hSame, hComes⟩ := of_mem_pairMoves hMoved
      obtain rfl := List.inj_on_of_nodup_map h.nodup hMem' hMem hSame
      exact hComes.elim hElse hRefused
    · exact h.rows pair hMem hElse hBefore

end ContactListWindow

/-! ## Everything that is dropped -/

theorem ContactListPlainModel.contacts_iff {s : ContactListPlainModel}
    (hManual : s.manualMetaContactSorting = true) (hNodup : s.contacts.Nodup)
    {items : List GroupMetaContactPair} (hItems : (items.map Prod.snd).Nodup) {row : Int}
    (hRow : -1 ≤ row) :
    (s.dropMetaContacts row items).2.contacts =
        RowDrop.droppedAt s.contacts row (items.map Prod.snd) ↔
      RowDrop.FittingAt s.contacts row (items.map fun pair => (pair.2, false)) := by
  have hDrop : (s.dropMetaContacts row items).2 = dropEach row items s := by
    unfold dropMetaContacts
    split
    · next hNone =>
      subst hNone
      rfl
    · rfl
  have hNames : (items.map fun pair => (pair.2, false)).map Prod.fst = items.map Prod.snd := by
    rw [List.map_map]
    rfl
  have hLength : s.contacts.length + (items.map fun pair => (pair.2, false)).length ≤
      s.contacts.length + items.length := by
    rw [List.length_map]
  have hIff := RowDrop.placeAll_movesAt_iff hNodup (hNames ▸ hItems) (by simp) hLength hRow
  rw [hDrop, contacts_dropEach hManual hNodup row (Nat.le_refl _), ← hIff, hNames]

/-- **Rows that are dropped** come to stand where they are dropped just when their places fit: the
metacontacts of the plain list, those of a group of the tree, and the groups. -/
theorem dropped_iff (row : Int) (items : List GroupMetaContactPair) (groups : List Group)
    (hRow : -1 ≤ row) (hItems : (items.map Prod.snd).Nodup) (hGroups : groups.Nodup) :
    (∀ s : ContactListPlainModel, s.manualMetaContactSorting = true → s.contacts.Nodup →
      ((s.dropMetaContacts row items).2.contacts =
          RowDrop.droppedAt s.contacts row (items.map Prod.snd) ↔
        RowDrop.FittingAt s.contacts row (items.map fun pair => (pair.2, false)))) ∧
    (∀ (s : ContactListWindow) (group : Group), s.Drags group items →
      ((s.dropMetaContacts row group .moveAction items).2.model.metaContactsOf group =
          RowDrop.droppedAt (s.model.metaContactsOf group) row (items.map Prod.snd) ↔
        s.ItemsFit group row items)) ∧
    (∀ s : ContactListTreeModel, s.Ok → (∀ g ∈ groups, g ∈ s.subgroups) →
      ((ContactListTreeModel.dropGroups row groups s).subgroups =
          RowDrop.droppedAt s.subgroups
            (ContactListTreeModel.groupRow (s.metaContactsOf .topLevel).length row) groups ↔
        ContactListTreeModel.GroupsFit s.subgroups (s.metaContactsOf .topLevel).length row
          groups)) := by
  refine ⟨fun s hManual hNodup => s.contacts_iff hManual hNodup hItems hRow,
    fun s group hDrags => hDrags.rows_iff hRow, fun s hOk hRows => ?_⟩
  rw [(hOk.regrouped_dropGroups row hRows).subgroups]
  exact ContactListTreeModel.placeAll_groupMoves_iff hOk.nodup_subgroups hGroups hRows

/-- Four metacontacts in one group, and one in another. -/
def twoGroups : GroupedList where
  list :=
    { metaContact := fun m =>
        if m = 4 then MetaContact.new.addToGroup (.normal 4)
        else MetaContact.new.addToGroup (.normal 3)
      contact := fun _ => ⟨[], none⟩
      metaContacts := [0, 1, 2, 3, 4] }
  groups := [.topLevel, .normal 3, .normal 4, .normal 5]
  selectedMetaContacts := []
  selectedGroups := []

/-- The window for them. -/
def sorted : ContactListWindow := ContactListWindow.load twoGroups (fun _ => true) false true

/-- Dropped at the end, by its row. -/
theorem dropped_iff_sorted :
    RowDrop.FittingAt [0, 1, 2, 4] 4 [(2, false), (4, false)] ∧
      sorted.ItemsFit (.normal 3) 4 [(.normal 3, 2), (.normal 4, 4)] ∧
      ContactListTreeModel.GroupsFit sorted.model.subgroups
        (sorted.model.metaContactsOf .topLevel).length 4 [.normal 3] := by
  have hOk : sorted.model.Ok :=
    (ContactListTreeModel.loadContactList_shows true twoGroups (by decide) (fun _ => true) false).1
  have hDrags : sorted.Drags (.normal 3) [(.normal 3, 2), (.normal 4, 4)] :=
    ⟨hOk, rfl, by decide, by decide, by decide, by decide, by decide, by decide⟩
  obtain ⟨hPlain, hTree, hGroups⟩ := dropped_iff 4 [(.normal 3, 2), (.normal 4, 4)] [.normal 3]
    (by decide) (by decide) (by decide)
  exact ⟨(hPlain ⟨[0, 1, 2, 4], true, fun _ => none⟩ rfl (by decide)).mp (by decide),
    (hTree sorted (.normal 3) hDrags).mp (by decide +kernel),
    (hGroups sorted.model hOk (by decide +kernel)).mp (by decide +kernel)⟩

/-- **Rows are not always where they have been dropped**: two from the front of the plain list,
one that is moved to the front of another group, and a group that is dropped at the end. -/
theorem dropped_fails :
    (¬ ∀ (s : ContactListPlainModel) (row : Int) (items : List GroupMetaContactPair),
      s.manualMetaContactSorting = true → s.contacts.Nodup → -1 ≤ row →
      (items.map Prod.snd).Nodup →
      (s.dropMetaContacts row items).2.contacts =
        RowDrop.droppedAt s.contacts row (items.map Prod.snd)) ∧
    (¬ ∀ (s : ContactListWindow) (group : Group) (row : Int)
      (items : List GroupMetaContactPair), -1 ≤ row → s.Drags group items →
      (s.dropMetaContacts row group .moveAction items).2.model.metaContactsOf group =
        RowDrop.droppedAt (s.model.metaContactsOf group) row (items.map Prod.snd)) ∧
    (¬ ∀ (s : ContactListTreeModel) (row : Int) (groups : List Group), -1 ≤ row → s.Ok →
      groups.Nodup → (∀ g ∈ groups, g ∈ s.subgroups) →
      (ContactListTreeModel.dropGroups row groups s).subgroups =
        RowDrop.droppedAt s.subgroups
          (ContactListTreeModel.groupRow (s.metaContactsOf .topLevel).length row) groups) := by
  have hOk : sorted.model.Ok :=
    (ContactListTreeModel.loadContactList_shows true twoGroups (by decide) (fun _ => true) false).1
  refine ⟨fun hAll => ?_, fun hAll => ?_, fun hAll => ?_⟩
  · have hWrong := hAll ⟨[0, 1, 2, 3], true, fun _ => none⟩ 3 [(.normal 3, 0), (.normal 3, 1)] rfl
      (by decide) (by decide) (by decide)
    exact absurd hWrong (by decide)
  · have hDrags : sorted.Drags (.normal 3) [(.normal 4, 4)] :=
      ⟨hOk, rfl, by decide, by decide, by decide, by decide, by decide, by decide⟩
    have hWrong := hAll sorted (.normal 3) 0 [(.normal 4, 4)] (by decide) hDrags
    exact absurd hWrong (by decide +kernel)
  · have hWrong := hAll sorted.model (-1) [.normal 3] (by decide) hOk (by decide)
      (by decide +kernel)
    exact absurd hWrong (by decide +kernel)

end Kopete.UI
