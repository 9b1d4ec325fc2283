import Kopete.Oscar.ItemWire
import Kopete.Oscar.TLVList

/-!
# Oscar — TLVs and the data they have

A TLV that claims more data than there is keeps the length of the wire, with the data that is
left. Whoever makes a buffer of that data and that length reads behind it.

Main results:

* `getTLV_whole_iff` — when the length of a TLV is that of its data;
* `getTLVList_whole_iff` — the same for all that are listed;
* `returnsTLVs_addTLVs` — TLVs that have been written are read back.
-/

namespace Oscar

open DataStream

/-- The length is that of the data. -/
def TLV.Whole (t : TLV) : Prop := t.length = t.data.length

namespace Buffer

/-! ## One TLV -/

/-- The first TLV has a type and is not all there. -/
def cutOff (r : List UInt8) : Bool :=
  decide (4 ≤ r.length) && decide (tlvType r ≠ 0) && decide (r.length < 4 + tlvLength r)

theorem whole_header (r : List UInt8) :
    (⟨tlvType r, tlvLength r, (r.drop 4).take (tlvLength r)⟩ : TLV).Whole ↔
      tlvLength r ≤ r.length - 4 := by
  rw [TLV.Whole]
  dsimp only
  rw [List.length_take, List.length_drop]
  omega

/-- **A TLV with a type** is as long as it says exactly if it is not cut off. -/
theorem getTLV_whole_iff {b : Buffer} (h : 0 ≤ b.mReadPos) :
    (b.getTLV.1.type ≠ 0 → b.getTLV.1.Whole) ↔ cutOff b.remaining = false := by
  by_cases hHeader : 4 ≤ b.remaining.length
  · have hCut : cutOff b.remaining = false ↔
        (tlvType b.remaining ≠ 0 → tlvLength b.remaining ≤ b.remaining.length - 4) := by
      unfold cutOff
      rw [decide_eq_true hHeader, Bool.true_and, Bool.and_eq_false_iff]
      simp only [decide_eq_false_iff_not]
      omega
    rw [hCut, getTLV_header h hHeader]
    by_cases hType : tlvType b.remaining ≠ 0
    · rw [if_pos hType, whole_header]
    · rw [if_neg hType]
      exact iff_of_true (fun hNot => absurd rfl hNot) fun hNot => absurd hNot hType
  · rw [getTLV_fragment h (by omega)]
    refine iff_of_true (fun hNot => absurd rfl hNot) ?_
    unfold cutOff
    rw [decide_eq_false hHeader]
    rfl

/-! ## The list -/

/-- No TLV that the loop takes off the bytes is cut off. -/
def noneCutOff (r : List UInt8) : Bool :=
  if r.length < 4 then true
  else if tlvType r = 0 then noneCutOff (r.drop 4)
  else ! cutOff r && noneCutOff (r.drop (4 + tlvLength r))
termination_by r.length
decreasing_by
  · rw [List.length_drop]
    omega
  · rw [List.length_drop]
    omega

/-- **All TLVs that are listed** are as long as they say exactly if none is cut off. -/
theorem getTLVList_whole_iff {b : Buffer} (h : 0 ≤ b.mReadPos) {ts : List TLV}
    (hList : ReturnsTLVs b ts) :
    (∀ t ∈ ts, t.Whole) ↔ noneCutOff b.remaining = true := by
  induction hLength : b.remaining.length using Nat.strongRecOn generalizing b ts with
  | ind n ih =>
    subst hLength
    by_cases hEmpty : b.remaining = []
    · have hNil : ts = [] := (returnsTLVs_end (Int.not_lt.mp fun hlt =>
        (lt_size_iff h).mp hlt hEmpty)).mp hList
      rw [hNil, hEmpty, noneCutOff]
      exact iff_of_true (fun _ ht => absurd ht List.not_mem_nil) rfl
    have hMore := (lt_size_iff h).mpr hEmpty
    by_cases hHeader : b.remaining.length < 4
    · exact absurd hList (not_returnsTLVs_fragment h hMore hHeader)
    have hGet := getTLV_header h (Nat.le_of_not_lt hHeader)
    rw [noneCutOff, if_neg hHeader]
    by_cases hType : tlvType b.remaining = 0
    · rw [if_neg (not_not.mpr hType)] at hGet
      rw [if_pos hType, ← remaining_advance h]
      refine ih _ ?_ (advance_pos h 4) ((returnsTLVs_skip hMore hGet rfl).mp hList) rfl
      rw [remaining_advance h, List.length_drop]
      omega
    · rw [if_pos hType] at hGet
      obtain ⟨ts', rfl, hRest⟩ := (returnsTLVs_cons hMore hGet hType).mp hList
      have hAfter := ih _ (by rw [remaining_advance h, List.length_drop]; omega)
        (advance_pos h _) hRest rfl
      have hFirst := getTLV_whole_iff h
      rw [hGet] at hFirst
      rw [if_neg hType, Bool.and_eq_true, Bool.not_eq_true', ← hFirst, List.forall_mem_cons,
        forall_prop_of_true hType]
      refine and_congr_right fun hWhole => ?_
      rw [whole_header] at hWhole
      rw [hAfter, remaining_advance h, Nat.min_eq_left hWhole]

/-! ## What has been written -/

/-- TLVs, by their types and data, written one by one. -/
def addTLVs (entries : List (Nat × List UInt8)) (b : Buffer) : Buffer :=
  entries.foldl (fun b e => b.addTLV e.1 e.2) b

/-- A TLV of a type and data. -/
def tlvOf (e : Nat × List UInt8) : TLV := ⟨e.1, e.2.length, e.2⟩

theorem addTLVs_eq (entries : List (Nat × List UInt8)) (b : Buffer) :
    addTLVs entries b = b.addString ((entries.map tlvOf).flatMap TLV.bytes) := by
  induction entries generalizing b with
  | nil => exact (addString_nil b).symm
  | cons e entries ih =>
    show addTLVs entries (b.addTLV e.1 e.2) = _
    rw [ih, addTLV_eq, addString_addString, List.map_cons, List.flatMap_cons, TLV.bytes,
      List.append_assoc]
    rfl

theorem returnsTLVs_bytes {ts : List TLV}
    (hts : ∀ t ∈ ts, (t.type ≠ 0 ∧ t.type < 2 ^ 16) ∧ t.data.length = t.length ∧
      t.length < 2 ^ 16) {b : Buffer} (hb : Ready b) (hr : b.remaining = ts.flatMap TLV.bytes) :
    ReturnsTLVs b ts := by
  induction ts generalizing b with
  | nil =>
    refine (returnsTLVs_end ?_).mpr rfl
    exact Int.not_lt.mp fun hlt => (lt_size_iff hb.1).mp hlt hr
  | cons t ts ih =>
    obtain ⟨hType, hData, hLength⟩ := hts t List.mem_cons_self
    rw [List.flatMap_cons] at hr
    have hGet := reads_getTLV hType hData hLength b _ hb hr
    obtain ⟨hReady, hRest⟩ := hb.advance hr
    have hMore : b.mReadPos < b.size := by
      rw [lt_size_iff hb.1, hr, TLV.bytes]
      intro hNil
      have hZero := congrArg List.length hNil
      simp [length_beBytes] at hZero
    refine (returnsTLVs_cons hMore hGet hType.1).mpr ⟨ts, rfl, ?_⟩
    exact ih (fun u hu => hts u (List.mem_cons_of_mem t hu)) hReady hRest

/-- **What has been written** is read back. -/
theorem returnsTLVs_addTLVs {entries : List (Nat × List UInt8)}
    (h : ∀ e ∈ entries, (e.1 ≠ 0 ∧ e.1 < 2 ^ 16) ∧ e.2.length < 2 ^ 16) :
    ReturnsTLVs (addTLVs entries empty) (entries.map tlvOf) := by
  rw [addTLVs_eq, addString_empty]
  refine returnsTLVs_bytes (fun t ht => ?_) (ready_ofBytes _) (remaining_ofBytes _)
  obtain ⟨e, he, rfl⟩ := List.mem_map.mp ht
  exact ⟨(h e he).1, rfl, (h e he).2⟩

/-- **What a TLV has**: as much data as it says, exactly if it is not cut off; and all of it
after writing and reading. -/
theorem tlvs_whole_iff (data : List UInt8) (pos : Nat) :
    (((⟨data, pos, false⟩ : Buffer).getTLV.1.type ≠ 0 →
        (⟨data, pos, false⟩ : Buffer).getTLV.1.Whole) ↔ cutOff (data.drop pos) = false) ∧
      (∀ ts, ReturnsTLVs ⟨data, pos, false⟩ ts →
        ((∀ t ∈ ts, t.Whole) ↔ noneCutOff (data.drop pos) = true)) ∧
      ∀ entries : List (Nat × List UInt8),
        (∀ e ∈ entries, (e.1 ≠ 0 ∧ e.1 < 2 ^ 16) ∧ e.2.length < 2 ^ 16) →
        ReturnsTLVs (addTLVs entries empty) (entries.map tlvOf) :=
  ⟨getTLV_whole_iff (Int.natCast_nonneg pos),
    fun _ hList => getTLVList_whole_iff (Int.natCast_nonneg pos) hList,
    fun _ h => returnsTLVs_addTLVs h⟩

theorem tlvs_whole_iff_screenName :
    ReturnsTLVs (addTLVs [(1, [0x6A, 0x6F]), (5, [])] empty) [⟨1, 2, [0x6A, 0x6F]⟩, ⟨5, 0, []⟩] :=
  (tlvs_whole_iff [] 0).2.2 [(1, [0x6A, 0x6F]), (5, [])] (by decide)

/-- A TLV of five bytes of which one has come. -/
theorem getTLV_cutOff :
    ¬ ∀ (data : List UInt8) (pos : Nat), (⟨data, pos, false⟩ : Buffer).getTLV.1.type ≠ 0 →
      (⟨data, pos, false⟩ : Buffer).getTLV.1.Whole := by
  intro h
  have hWhole := h [0, 1, 0, 5, 0x41] 0 (by decide)
  exact absurd hWhole (by unfold TLV.Whole; decide)

end Buffer

end Oscar
