import Kopete.QQ.Packet

/-!
# QQ — `Packet::groupInfos`

Behind a prefix of ten bytes a payload has a record of six for each member of a group:
an id, a type and a byte with the number of the group. The loop takes the id and the type
from the record its offset has come to, and the number of the group from the fixed offset
`5`, which is in the prefix. It also starts with a record of which only a part is there.

Main results:

* `groupInfosFrom_eq` — the loop by its offsets;
* `groupInfos_records_iff` — when the entries are those of the records.
-/

namespace Eva

/-- `GroupInfo`. -/
structure GroupInfo where
  qqId : UInt32
  type : UInt8
  groupId : UInt8
deriving DecidableEq, Repr

/-! ## The loop -/

/-- `( type_cast<short>( p ) >> 2 ) & 0x3f`, from the lower and the upper byte. -/
def groupNumber (lower upper : UInt8) : UInt8 :=
  ⟨(((upper.toBitVec ++ lower.toBitVec).signExtend 32).sshiftRight 2 &&& 0x3f#32).setWidth 8⟩

/-- The entry that the loop makes at an offset. Which of the two bytes of the `short` is the
lower one depends on the host. -/
def groupInfoAt (littleEndian : Bool) (c : Code) (offset : Nat) : GroupInfo where
  qqId := TEA.ntohl (c.byteAt offset) (c.byteAt (offset + 1)) (c.byteAt (offset + 2))
    (c.byteAt (offset + 3))
  type := c.byteAt (offset + 4)
  groupId :=
    if littleEndian then groupNumber (c.byteAt 5) (c.byteAt 6)
    else groupNumber (c.byteAt 6) (c.byteAt 5)

/-- Whether a byte it is made from is behind the payload. -/
def readsOutside (c : Code) (offset : Nat) : Bool :=
  decide (c.data.length < offset + 5) || decide (c.data.length < 7)

/-- The loop of `groupInfos` from an offset on: the entries, and whether a byte outside was
read for them. -/
def groupInfosFrom (littleEndian : Bool) (c : Code) (offset : Nat) : List GroupInfo × Bool :=
  if offset < c.data.length then
    let (list, outside) := groupInfosFrom littleEndian c (offset + 6)
    (groupInfoAt littleEndian c offset :: list, readsOutside c offset || outside)
  else ([], false)
termination_by c.data.length - offset

/-- `Packet::groupInfos`, with `mem` behind the payload. -/
def groupInfos (littleEndian : Bool) (mem : Nat → UInt8) (text : List UInt8) :
    List GroupInfo × Bool :=
  groupInfosFrom littleEndian ⟨text, mem⟩ 10

/-! ## Records -/

/-- Six bytes. -/
abbrev GroupRecord := Fin 6 → UInt8

/-- The number of complete records. -/
def recordCount (text : List UInt8) : Nat := (text.length - 10) / 6

/-- Record `i` of a payload. -/
def record (text : List UInt8) (i : Nat) : GroupRecord := fun k => text.getD (10 + 6 * i + k) 0

/-- The records of a payload. -/
def records (text : List UInt8) : List GroupRecord :=
  (List.range (recordCount text)).map (record text)

/-- What a record says: the id in its first four bytes, the type in the fifth, and the number
of the group in the upper six bits of the last. -/
def recordInfo (r : GroupRecord) : GroupInfo :=
  ⟨TEA.ntohl (r 0) (r 1) (r 2) (r 3), r 4, r 5 >>> 2⟩

/-- **The entries are those of the records**, in their order, and nothing outside is read. -/
def ReadsRecords (littleEndian : Bool) (mem : Nat → UInt8) (text : List UInt8) : Prop :=
  groupInfos littleEndian mem text = ((records text).map recordInfo, false)

/-- The byte of the prefix that the number of the group is taken from. -/
def prefixByte (littleEndian : Bool) (text : List UInt8) : UInt8 :=
  text.getD (if littleEndian then 5 else 6) 0

/-! ## The loop by its offsets -/

/-- The upper byte does not matter. -/
theorem groupNumber_eq (lower upper : UInt8) : groupNumber lower upper = lower >>> 2 := by
  have hBits : (((upper.toBitVec ++ lower.toBitVec).signExtend 32).sshiftRight 2 &&&
      0x3f#32).setWidth 8 = lower.toBitVec >>> 2 := by
    refine BitVec.eq_of_getLsbD_eq fun i hi => ?_
    have hMask : (0x3f#32).getLsbD i = decide (i < 6) := by
      interval_cases i <;> decide
    simp only [BitVec.getLsbD_setWidth, BitVec.getLsbD_and, BitVec.getLsbD_sshiftRight, hMask,
      BitVec.getLsbD_ushiftRight, BitVec.getLsbD_signExtend, BitVec.getLsbD_append]
    interval_cases i <;> simp
  rw [groupNumber, hBits]
  rfl

/-- **The loop** makes an entry at each offset `offset`, `offset + 6` and so on below the
size. -/
theorem groupInfosFrom_eq (littleEndian : Bool) (c : Code) (n offset : Nat)
    (h : (c.data.length - offset + 5) / 6 = n) :
    groupInfosFrom littleEndian c offset =
      ((List.range n).map fun i => groupInfoAt littleEndian c (offset + 6 * i),
        (List.range n).any fun i => readsOutside c (offset + 6 * i)) := by
  induction n generalizing offset with
  | zero =>
    rw [groupInfosFrom, if_neg (by omega)]
    rfl
  | succ n ih =>
    have hShift : ∀ i, offset + 6 + 6 * i = offset + 6 * (i + 1) := fun i => by omega
    rw [groupInfosFrom, if_pos (by omega), ih (offset + 6) (by omega)]
    simp only [List.range_succ_eq_map, List.map_cons, List.any_cons, List.map_map, List.any_map,
      Function.comp_def, Nat.mul_zero, Nat.add_zero, hShift, Nat.succ_eq_add_one]

/-- A byte of the payload. -/
theorem byteAt_inside (mem : Nat → UInt8) {text : List UInt8} {i : Nat} (h : i < text.length) :
    Code.byteAt ⟨text, mem⟩ i = text.getD i 0 := by
  rw [List.getD_eq_getElem?_getD, List.getElem?_eq_getElem h, Option.getD_some]
  exact dif_pos h

/-- The entry at a record, if the record is complete. -/
theorem groupInfoAt_record (littleEndian : Bool) (mem : Nat → UInt8) {text : List UInt8} {i : Nat}
    (h : i < recordCount text) :
    groupInfoAt littleEndian ⟨text, mem⟩ (10 + 6 * i) =
      { recordInfo (record text i) with groupId := prefixByte littleEndian text >>> 2 } := by
  rw [recordCount] at h
  have hByte : ∀ k, k < 16 + 6 * i → Code.byteAt ⟨text, mem⟩ k = text.getD k 0 :=
    fun k hk => byteAt_inside mem (by omega)
  rw [groupInfoAt, hByte _ (by omega), hByte _ (by omega), hByte _ (by omega),
    hByte _ (by omega), hByte _ (by omega), hByte 5 (by omega), hByte 6 (by omega),
    groupNumber_eq, groupNumber_eq]
  cases littleEndian <;> rfl

/-- **Records.** The entries are those of the records exactly when the last one is complete,
and what the prefix has in the place of the number of the group is the number of each. -/
theorem groupInfos_records_iff (littleEndian : Bool) (mem : Nat → UInt8) (text : List UInt8) :
    ReadsRecords littleEndian mem text ↔
      (text.length - 10) % 6 = 0 ∧
        ∀ r ∈ records text, r 5 >>> 2 = prefixByte littleEndian text >>> 2 := by
  have hLoop := groupInfosFrom_eq littleEndian ⟨text, mem⟩ _ 10 rfl
  have hSame : ∀ i < recordCount text,
      groupInfoAt littleEndian ⟨text, mem⟩ (10 + 6 * i) = recordInfo (record text i) ↔
        record text i 5 >>> 2 = prefixByte littleEndian text >>> 2 := by
    intro i hi
    rw [groupInfoAt_record littleEndian mem hi, recordInfo, GroupInfo.mk.injEq]
    exact ⟨fun h => h.2.2.symm, fun h => ⟨rfl, rfl, h.symm⟩⟩
  rw [ReadsRecords, groupInfos, hLoop, records, List.map_map, Prod.mk.injEq]
  simp only [List.forall_mem_map, List.mem_range]
  have hCount : recordCount text = (text.length - 10) / 6 := rfl
  constructor
  · rintro ⟨hList, -⟩
    have hLength := congrArg List.length hList
    simp only [List.length_map, List.length_range] at hLength
    rw [hLength] at hList
    refine ⟨by omega, fun i hi => (hSame i hi).mp ?_⟩
    exact List.map_inj_left.mp hList i (List.mem_range.mpr hi)
  · rintro ⟨hComplete, hNumbers⟩
    have hLength : (text.length - 10 + 5) / 6 = recordCount text := by omega
    simp only [hLength]
    constructor
    · exact List.map_congr_left fun i hi =>
        (hSame i (List.mem_range.mp hi)).mpr (hNumbers i (List.mem_range.mp hi))
    · rw [List.any_eq_false]
      intro i hi
      have hi := List.mem_range.mp hi
      simp only [readsOutside, Bool.or_eq_true, decide_eq_true_eq]
      omega

/-- **Two payloads with one record**, in which only the prefix differs: their entries are not
the same, so they are no function of the record, whichever. -/
theorem groupInfos_not_of_record :
    ¬ ∃ f : GroupRecord → GroupInfo, ∀ text : List UInt8,
      (groupInfos true (fun _ => 0) text).1 = (records text).map f := by
  rintro ⟨f, hRecords⟩
  have hFirst := hRecords [0, 0, 0, 0, 0, 0, 0, 0, 0, 0, 0, 0, 0, 7, 1, 4]
  have hSecond := hRecords [0, 0, 0, 0, 0, 4, 0, 0, 0, 0, 0, 0, 0, 7, 1, 4]
  have hSame : records [0, 0, 0, 0, 0, 0, 0, 0, 0, 0, 0, 0, 0, 7, 1, 4] =
      records [0, 0, 0, 0, 0, 4, 0, 0, 0, 0, 0, 0, 0, 7, 1, 4] := by decide
  rw [hSame, ← hSecond, groupInfos, groupInfos, groupInfosFrom_eq true _ 1 10 rfl,
    groupInfosFrom_eq true _ 1 10 rfl] at hFirst
  exact absurd hFirst (by decide)

end Eva
