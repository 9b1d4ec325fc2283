import Kopete.Lib.RowDrop
import Kopete.UI.TreeItems

/-!
# Contact list window — the plain list of metacontacts

The contact list without groups. With manual sorting metacontacts can be dragged to another place:
each of them is given a position, which is where it is inserted, or moved to.

Main results:

* `contacts_addMetaContactImpl` — one metacontact that has a position;
* `contacts_dropEach` — all that are dropped.
-/

namespace Kopete.UI

/-- `ContactListPlainModel`. -/
structure ContactListPlainModel where
  contacts : List Nat
  manualMetaContactSorting : Bool
  addContactPosition : Nat → Option Int

namespace ContactListPlainModel

variable (s : ContactListPlainModel)

/-- `QList::indexOf`. -/
def indexOf (mc : Nat) : Int := if mc ∈ s.contacts then s.contacts.idxOf mc else -1

/-- Where a metacontact goes: the place that has been asked for, or the last one. -/
def desiredIndex (mc : Nat) : Int × ContactListPlainModel :=
  let count : Int := s.contacts.length
  let wished : Int × ContactListPlainModel :=
    if s.manualMetaContactSorting then
      match s.addContactPosition mc with
      | some position =>
        (position, { s with addContactPosition := Function.update s.addContactPosition mc none })
      | none => (count, s)
    else (count, s)
  (if wished.1 < 0 ∨ count < wished.1 then count else wished.1, wished.2)

/-- `ContactListPlainModel::addMetaContactImpl`. -/
def addMetaContactImpl (mc : Nat) : ContactListPlainModel :=
  let mcIndex := s.indexOf mc
  let (mcDesireIndex, s) := s.desiredIndex mc
  if mcIndex ≠ -1 then
    if mcIndex = mcDesireIndex then s
    else
      let removed := s.contacts.eraseIdx mcIndex.toNat
      let mcDesireIndex := if mcIndex < mcDesireIndex then mcDesireIndex - 1 else mcDesireIndex
      { s with contacts := removed.insertIdx mcDesireIndex.toNat mc }
  else { s with contacts := s.contacts.insertIdx mcDesireIndex.toNat mc }

/-- The loop of `ContactListPlainModel::dropMetaContacts`. -/
def dropEach : Int → List GroupMetaContactPair → ContactListPlainModel → ContactListPlainModel
  | _, [], s => s
  | position, pair :: pairs, s =>
    let s :=
      if s.manualMetaContactSorting then
        let s :=
          { s with
            addContactPosition := Function.update s.addContactPosition pair.2 (some position) }
        s.addMetaContactImpl pair.2
      else s
    dropEach (position + 1) pairs s

/-- `ContactListPlainModel::dropMetaContacts` onto the list itself. -/
def dropMetaContacts (row : Int) (items : List GroupMetaContactPair) :
    Bool × ContactListPlainModel :=
  if items = [] then (false, s) else (true, dropEach row items s)

/-! ## What is dropped -/

variable {s}

/-- **A metacontact that has a position** is put there, at the end for a negative one. -/
theorem contacts_addMetaContactImpl (hManual : s.manualMetaContactSorting = true)
    (hNodup : s.contacts.Nodup) {mc : Nat} {position : Int}
    (hPosition : s.addContactPosition mc = some position) {far : ℕ}
    (hFar : s.contacts.length ≤ far) :
    (s.addMetaContactImpl mc).contacts =
        RowDrop.place s.contacts (if position < 0 then far else position.toNat) mc ∧
      (s.addMetaContactImpl mc).manualMetaContactSorting = true := by
  obtain ⟨n, hLe, hDesired, hPlace⟩ : ∃ n : ℕ, n ≤ s.contacts.length ∧
      (if position < 0 ∨ (s.contacts.length : Int) < position then (s.contacts.length : Int)
        else position) = n ∧
      RowDrop.place s.contacts (if position < 0 then far else position.toNat) mc =
        RowDrop.place s.contacts n mc := RowDrop.place_position hFar
  have hDesiredIndex : s.desiredIndex mc =
      ((n : Int), { s with addContactPosition := Function.update s.addContactPosition mc none }) := by
    simp only [desiredIndex, hManual, if_true, hPosition]
    rw [hDesired]
  rw [hPlace, addMetaContactImpl, hDesiredIndex]
  by_cases hMem : mc ∈ s.contacts
  · have hIndex : s.indexOf mc = s.contacts.idxOf mc := if_pos hMem
    have hThere : ((s.contacts.idxOf mc : ℕ) : Int) ≠ -1 := by omega
    simp only [hIndex, hThere, ne_eq, not_false_eq_true, if_true, Int.toNat_natCast]
    split
    · next hSame =>
      rw [← Int.natCast_inj.mp hSame, RowDrop.place_self hNodup hMem]
      exact ⟨rfl, hManual⟩
    · have hPlaceAt : (if (s.contacts.idxOf mc : Int) < n then (n : Int) - 1 else n).toNat =
          if s.contacts.idxOf mc < n then n - 1 else n := by
        split <;> split <;> omega
      rw [hPlaceAt, RowDrop.place_moved hNodup hMem hLe]
      exact ⟨rfl, hManual⟩
  · have hIndex : s.indexOf mc = -1 := if_neg hMem
    simp only [hIndex, ne_eq, not_true_eq_false, if_false, Int.toNat_natCast]
    rw [RowDrop.place_new hMem hLe]
    exact ⟨rfl, hManual⟩

/-- **The loop** puts the metacontacts at positions that are counted up. -/
theorem contacts_dropEach {s : ContactListPlainModel} (hManual : s.manualMetaContactSorting = true)
    (hNodup : s.contacts.Nodup) (row : Int) {items : List GroupMetaContactPair} {far : ℕ}
    (hFar : s.contacts.length + items.length ≤ far) :
    (dropEach row items s).contacts =
      RowDrop.placeAll s.contacts
        (RowDrop.movesAt far row (items.map fun pair => (pair.2, false))) := by
  induction items generalizing s row with
  | nil => rfl
  | cons pair pairs ih =>
    rw [List.length_cons] at hFar
    let s' : ContactListPlainModel :=
      { s with addContactPosition := Function.update s.addContactPosition pair.2 (some row) }
    have hPosition : s'.addContactPosition pair.2 = some row := Function.update_self ..
    have hFar' : s'.contacts.length ≤ far := by
      change s.contacts.length ≤ far
      omega
    obtain ⟨hContacts, hManual'⟩ := contacts_addMetaContactImpl (s := s') hManual hNodup
      hPosition hFar'
    have hStep : dropEach row (pair :: pairs) s =
        dropEach (row + 1) pairs (s'.addMetaContactImpl pair.2) := by
      rw [dropEach, if_pos hManual]
    rw [hStep, ih hManual' (hContacts ▸ RowDrop.nodup_place hNodup) (row + 1) ?_, hContacts]
    · simp [RowDrop.movesAt, RowDrop.placeAll]
      rfl
    · have hPlaced : (s'.addMetaContactImpl pair.2).contacts.length ≤ s.contacts.length + 1 :=
        hContacts ▸ RowDrop.length_place_le hNodup
      omega

end ContactListPlainModel

end Kopete.UI
