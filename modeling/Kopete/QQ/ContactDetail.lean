import Kopete.Lib.QMap
import Mathlib

/-!
# QQ — `Packet::contactDetail`

The details of a contact come as one text, cut into fields by a separator. The loop names
the fields by their places, with a table that has one name twice, and without a look at its
length: the fourth field is lost to the sixth, and from the thirty-eighth on the names come
from behind the table.

Main results:

* `contactDetail_eq` — the loop by the fields of the text;
* `contactDetail_readable_iff` — the texts whose fields can all be read back.
-/

namespace Eva

abbrev Bytes := List UInt8

def Divider : UInt8 := 0x1e

def contactDetailIndex : List String :=
  ["qqId", "nickName", "country", "state", "zipcode", "state", "phone", "age", "gender", "name",
    "email", "pagerSn", "pagerNum", "pagerSP", "pagerBaseNum", "pagerType", "occupation",
    "homepage", "authType", "unknown1", "unknown2", "avatar", "Mobile", "mobileType", "intro",
    "city", "unknown3", "unknown4", "unknown5", "openHP", "openContact", "graduation",
    "horoscope", "zodiac", "bloodType", "qqShow", "unknown6"]

/-- `contactDetailIndex[index]`, with `behind` the table. -/
def nameAt (behind : Nat → String) (index : Nat) : String :=
  contactDetailIndex.getD index (behind index)

/-- `dict`, and whether the table has been left. -/
structure DetailDict where
  dict : QMap String Bytes
  outside : Bool

/-- `dict[ contactDetailIndex[index] ] = value`. -/
def DetailDict.put (behind : Nat → String) (d : DetailDict) (index : Nat) (value : Bytes) :
    DetailDict :=
  ⟨d.dict.insert (nameAt behind index) value,
    d.outside || decide (contactDetailIndex.length ≤ index)⟩

/-- `std::string( text.c_str() + start, size )`. -/
def stringAt (text : Bytes) (start size : Nat) : Bytes := (text.drop start).take size

/-- The loop of `contactDetail` from `i` on, and what follows it. -/
def contactDetailFrom (behind : Nat → String) (text : Bytes) (i start index : Nat)
    (d : DetailDict) : DetailDict :=
  if h : i < text.length then
    if text[i] ≠ Divider then contactDetailFrom behind text (i + 1) start index d
    else
      contactDetailFrom behind text (i + 1) (i + 1) (index + 1)
        (d.put behind index (stringAt text start (i - start)))
  else d.put behind index (stringAt text start (text.length - start))
termination_by text.length - i

/-- `Packet::contactDetail`. -/
def contactDetail (behind : Nat → String) (text : Bytes) : DetailDict :=
  contactDetailFrom behind text 0 0 0 ⟨.empty, false⟩

/-- The fields of a reply. -/
def detailFields (text : Bytes) : List Bytes := text.splitOn Divider

/-- **The details can be read back**: the table is not left, and if it has a name for each
field, each is found under its own. -/
structure Readable (behind : Nat → String) (text : Bytes) : Prop where
  inTable : (contactDetail behind text).outside = false
  fields : (detailFields text).length ≤ contactDetailIndex.length →
    ∀ (i : Nat) (name : String) (value : Bytes), contactDetailIndex[i]? = some name →
      (detailFields text)[i]? = some value →
        (contactDetail behind text).dict.find? name = some value

/-! ## The loop by the fields -/

/-- The fields put under the names from `index` on. -/
def putAll (behind : Nat → String) : DetailDict → Nat → List Bytes → DetailDict
  | d, _, [] => d
  | d, index, value :: rest => putAll behind (d.put behind index value) (index + 1) rest

variable {behind : Nat → String}

/-- A field grows by the byte that is not a separator. -/
theorem stringAt_succ {text : Bytes} {i start : Nat} (hStart : start ≤ i) (hi : i < text.length) :
    stringAt text start (i + 1 - start) = stringAt text start (i - start) ++ [text[i]] := by
  have hSize : i + 1 - start = i - start + 1 := by omega
  have hByte : (text.drop start)[i - start]? = some text[i] := by
    rw [List.getElem?_drop, Nat.add_sub_cancel' hStart, List.getElem?_eq_getElem hi]
  rw [stringAt, stringAt, hSize, List.take_add_one, hByte]
  rfl

/-- At the start of a field nothing of it has been passed. -/
theorem modifyHead_start (text : Bytes) (start : Nat) (values : List Bytes) :
    values.modifyHead (stringAt text start (start - start) ++ ·) = values := by
  cases values <;> simp [stringAt]

/-- **The loop.** With the field that has been begun put in front of the first of the rest, it
puts the fields of the rest in their order. -/
theorem contactDetailFrom_eq (text : Bytes) (i start index : Nat) (d : DetailDict)
    (hStart : start ≤ i) (hi : i ≤ text.length) :
    contactDetailFrom behind text i start index d =
      putAll behind d index
        (((text.drop i).splitOn Divider).modifyHead (stringAt text start (i - start) ++ ·)) := by
  induction hRest : text.drop i generalizing i start index d with
  | nil =>
    have hEnd : i = text.length := Nat.le_antisymm hi (List.drop_eq_nil_iff.mp hRest)
    rw [contactDetailFrom, dif_neg (by omega), List.splitOn_nil, hEnd]
    simp [putAll]
  | cons b rest ih =>
    obtain ⟨hLess, hb, hDrop⟩ : ∃ h : i < text.length, text[i] = b ∧ text.drop (i + 1) = rest := by
      have hLess : i < text.length := by
        by_contra hNot
        rw [List.drop_eq_nil_of_le (Nat.le_of_not_lt hNot)] at hRest
        cases hRest
      rw [List.drop_eq_getElem_cons hLess, List.cons.injEq] at hRest
      exact ⟨hLess, hRest⟩
    rw [contactDetailFrom, dif_pos hLess, hb, List.splitOn_cons_eq_if_modifyHead]
    by_cases hDivider : b = Divider
    · rw [if_neg (not_not.mpr hDivider), if_pos (beq_iff_eq.mpr hDivider),
        ih (i + 1) (i + 1) (index + 1) _ (Nat.le_refl _) hLess hDrop, modifyHead_start]
      simp [putAll]
    · rw [if_pos hDivider, if_neg (by simpa using hDivider),
        ih (i + 1) start index d (by omega) hLess hDrop, stringAt_succ hStart hLess, hb,
        List.modifyHead_modifyHead]
      simp [Function.comp_def]

theorem contactDetail_eq (text : Bytes) :
    contactDetail behind text = putAll behind ⟨.empty, false⟩ 0 (detailFields text) := by
  rw [contactDetail, contactDetailFrom_eq text 0 0 0 _ (Nat.le_refl 0) (Nat.zero_le _),
    modifyHead_start]
  rfl

/-! ## The table -/

/-- Behind the table nothing comes back into it. -/
theorem putAll_stays_outside (behind : Nat → String) (values : List Bytes) {d : DetailDict}
    (index : Nat) (h : d.outside = true) : (putAll behind d index values).outside = true := by
  induction values generalizing d index with
  | nil => exact h
  | cons value values ih => exact ih (index + 1) (by simp [DetailDict.put, h])

/-- The table is left at its length. -/
theorem putAll_outside (behind : Nat → String) (d : DetailDict) (index : Nat)
    (values : List Bytes) (h : index ≤ contactDetailIndex.length) :
    (putAll behind d index values).outside =
      (d.outside || decide (contactDetailIndex.length < index + values.length)) := by
  induction values generalizing d index with
  | nil => simp [putAll, h]
  | cons value values ih =>
    rw [putAll]
    rcases Nat.lt_or_eq_of_le h with hLess | hEnd
    · rw [ih _ _ hLess, DetailDict.put]
      simp only [Nat.not_le.mpr hLess, decide_false, Bool.or_false, List.length_cons,
        Nat.succ_eq_add_one, Nat.add_assoc, Nat.add_comm 1]
    · rw [putAll_stays_outside behind values _ (by simp [DetailDict.put, hEnd]), hEnd]
      simp

/-- A name that no further field has keeps its value. -/
theorem find?_putAll_of_ne {d : DetailDict} {index : Nat} {values : List Bytes} {name : String}
    (h : ∀ i, index ≤ i → i < index + values.length → nameAt behind i ≠ name) :
    (putAll behind d index values).dict.find? name = d.dict.find? name := by
  induction values generalizing d index with
  | nil => rfl
  | cons value values ih =>
    rw [List.length_cons] at h
    rw [putAll, ih fun i hi hLess => h i (by omega) (by omega), DetailDict.put,
      QMap.find?_insert, if_neg (h index (Nat.le_refl _) (by omega)).symm]

/-- **A field** is found under its name, if no later field has the name. -/
theorem find?_putAll (d : DetailDict) {index : Nat} {values : List Bytes} {i : Nat}
    {value : Bytes} (hValue : values[i]? = some value)
    (h : ∀ j, index + i < j → j < index + values.length →
      nameAt behind j ≠ nameAt behind (index + i)) :
    (putAll behind d index values).dict.find? (nameAt behind (index + i)) = some value := by
  induction values generalizing d index i with
  | nil => cases hValue
  | cons v values ih =>
    rw [List.length_cons] at h
    rw [putAll]
    rcases i with _ | i
    · rw [List.getElem?_cons_zero, Option.some.injEq] at hValue
      rw [find?_putAll_of_ne fun j hj hLess => h j (by omega) (by omega), DetailDict.put,
        QMap.find?_insert, Nat.add_zero, if_pos rfl, hValue]
    · rw [List.getElem?_cons_succ] at hValue
      rw [show index + (i + 1) = index + 1 + i by omega] at h ⊢
      exact ih _ hValue fun j hj hLess => h j hj (by omega)

theorem nameAt_eq (behind : Nat → String) {index : Nat} {name : String}
    (h : contactDetailIndex[index]? = some name) :
    nameAt behind index = name := by
  rw [nameAt, List.getD_eq_getElem?_getD, h, Option.getD_some]

theorem length_contactDetailIndex : contactDetailIndex.length = 37 := rfl

/-- **One name is there twice.** -/
theorem table_names : ∀ i < 37, ∀ j < 37, i < j →
    contactDetailIndex[i]? = contactDetailIndex[j]? → i = 3 ∧ j = 5 := by
  decide

/-- A later field has the name of an earlier one only in the one case. -/
theorem nameAt_ne {i j : Nat} (hLess : i < j) (hj : j < 37) (hNot : ¬ (i = 3 ∧ j = 5)) :
    nameAt behind j ≠ nameAt behind i := by
  intro hSame
  have hGet : ∀ k < 37, contactDetailIndex[k]? = some (nameAt behind k) := by
    intro k hk
    rw [nameAt, List.getD_eq_getElem?_getD,
      List.getElem?_eq_getElem (hk.trans_eq length_contactDetailIndex.symm), Option.getD_some]
  refine hNot (table_names i (by omega) j hj hLess ?_)
  rw [hGet i (by omega), hGet j hj, hSame]

/-- A field that no later one replaces is found under its name. -/
theorem find?_contactDetail (behind : Nat → String) {text : Bytes} {i : Nat} {value : Bytes}
    (hLength : (detailFields text).length ≤ 37) (hValue : (detailFields text)[i]? = some value)
    (hNotFourth : i = 3 → (detailFields text).length ≤ 5) :
    (contactDetail behind text).dict.find? (nameAt behind i) = some value := by
  have hPut : (putAll behind ⟨.empty, false⟩ 0 (detailFields text)).dict.find?
      (nameAt behind (0 + i)) = some value := find?_putAll _ hValue
    fun j hj hLess => nameAt_ne (by omega) (by omega) (by omega)
  rwa [Nat.zero_add, ← contactDetail_eq] at hPut

/-- **The details can be read back** exactly when there are not more of them than names, and
the fourth and the sixth, if there are so many, are the same. -/
theorem contactDetail_readable_iff (behind : Nat → String) (text : Bytes) :
    Readable behind text ↔
      (detailFields text).length ≤ 37 ∧
        (5 < (detailFields text).length → (detailFields text)[3]? = (detailFields text)[5]?) := by
  have hOutside := putAll_outside behind ⟨.empty, false⟩ 0 (detailFields text)
    (Nat.zero_le _)
  rw [← contactDetail_eq, Bool.false_or, Nat.zero_add, length_contactDetailIndex] at hOutside
  have hState : nameAt behind 3 = nameAt behind 5 := rfl
  constructor
  · rintro ⟨hInTable, hFields⟩
    rw [hOutside, decide_eq_false_iff_not, Nat.not_lt] at hInTable
    refine ⟨hInTable, fun hSix => ?_⟩
    have hSixth := List.getElem?_eq_getElem hSix
    have hFourth := List.getElem?_eq_getElem (show 3 < (detailFields text).length by omega)
    have hRead := hFields hInTable 3 "state" _ rfl hFourth
    -- the sixth is found under the name of the fourth
    have hLast := find?_contactDetail behind hInTable hSixth (by omega)
    rw [hSixth, ← hLast, hFourth, ← hRead]
    rfl
  · rintro ⟨hLength, hSame⟩
    refine ⟨by rw [hOutside, decide_eq_false_iff_not]; omega, ?_⟩
    intro _ i name value hName hValue
    rw [← nameAt_eq behind hName]
    by_cases hFourth : i = 3 ∧ 5 < (detailFields text).length
    · obtain ⟨rfl, hSix⟩ := hFourth
      rw [hState]
      exact find?_contactDetail behind hLength ((hSame hSix).symm.trans hValue) (by omega)
    · exact find?_contactDetail behind hLength hValue (by omega)

/-- **Six fields**: the fourth cannot be read back. -/
theorem fourth_field_lost :
    ¬ Readable (fun _ => "") [65, 0x1e, 66, 0x1e, 67, 0x1e, 68, 0x1e, 69, 0x1e, 70] := by
  intro hReadable
  have hFields : detailFields [65, 0x1e, 66, 0x1e, 67, 0x1e, 68, 0x1e, 69, 0x1e, 70] =
      [[65], [66], [67], [68], [69], [70]] := by decide
  have hRead := hReadable.fields (by rw [hFields]; decide) 3 "state" [68] rfl
    (by rw [hFields]; rfl)
  rw [contactDetail_eq, hFields] at hRead
  exact absurd hRead (by decide)

end Eva
