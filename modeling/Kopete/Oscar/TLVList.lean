import Kopete.Lib.Framing
import Kopete.Oscar.BufferReads

/-!
# Oscar — `getTLVList`

`tlvFramer` cuts complete TLVs of non-zero type off the front of a byte string;
draining it gives the maximal sequence of them, and the bytes behind it.

`getTLVList` takes the same TLVs off, but does not stop where they stop:

* a fragment shorter than a TLV header is not consumed at all, and the loop
  runs forever;
* a TLV of type 0 is skipped by its header alone, and its data is read as TLVs;
* a TLV that claims more data than there is is listed with what there is.

So the loop returns that sequence exactly when what follows it is nothing but
headers of type 0 (`getTLVList_iff`).
-/

namespace Oscar

open DataStream Framing

namespace Buffer

/-! ## One TLV -/

/-- The type on the wire. -/
def tlvType (r : List UInt8) : Nat := intAt beNat 2 r 0

/-- The length on the wire. -/
def tlvLength (r : List UInt8) : Nat := intAt beNat 2 r 2

theorem getTLV_fragment {b : Buffer} (h : 0 ≤ b.mReadPos) (hr : b.remaining.length < 4) :
    b.getTLV = (TLV.empty, b) := by
  have := b.remaining_length h
  exact if_neg (by omega)

/-- A header and what `getTLV` makes of it. -/
theorem getTLV_header {b : Buffer} (h : 0 ≤ b.mReadPos) (hr : 4 ≤ b.remaining.length) :
    b.getTLV =
      if tlvType b.remaining ≠ 0 then
        (⟨tlvType b.remaining, tlvLength b.remaining,
            (b.remaining.drop 4).take (tlvLength b.remaining)⟩,
          b.advance (4 + min (tlvLength b.remaining) (b.remaining.length - 4)))
      else
        (⟨0, tlvLength b.remaining, []⟩, b.advance 4) := by
  obtain ⟨t1, t2, l1, l2, r, hb⟩ : ∃ t1 t2 l1 l2 r, b.remaining = t1 :: t2 :: l1 :: l2 :: r := by
    match hb : b.remaining, hr with
    | t1 :: t2 :: l1 :: l2 :: r, _ => exact ⟨t1, t2, l1, l2, r, rfl⟩
  have hlen := b.remaining_length h
  have hb2 : (b.advance 2).remaining = l1 :: l2 :: r := by
    rw [remaining_advance h, hb]
    rfl
  have hb4 : (b.advance 4).remaining = r := by
    rw [remaining_advance h, hb]
    rfl
  have hle : (b.advance 4).mReadPos ≤ (b.advance 4).size := by
    simp only [advance, size, bytesAvailable] at *
    omega
  have htype : tlvType b.remaining = beNat [t1, t2] := by
    simp [tlvType, intAt, hb]
  have hlength : tlvLength b.remaining = beNat [l1, l2] := by
    simp [tlvLength, intAt, hb]
  have hblock := getBlock_take (beNat [l1, l2]) (advance_pos h 4) hle
  rw [getTLV, if_pos (by omega)]
  simp only [getWord_cons h hb, getWord_cons (advance_pos h 2) hb2, advance_advance]
  rw [htype, hlength]
  split
  · simp only [hblock, hb4, advance_advance]
    simp [hb]
  · next hzero =>
    rw [not_not.mp hzero]

/-- The first TLV of a byte string, if its type is not 0 and all of it is there. -/
def completeTLV (r : List UInt8) : Option (TLV × Nat) :=
  if 4 ≤ r.length ∧ tlvType r ≠ 0 ∧ 4 + tlvLength r ≤ r.length then
    some (⟨tlvType r, tlvLength r, (r.drop 4).take (tlvLength r)⟩, 4 + tlvLength r)
  else
    none

/-- Complete TLVs of non-zero type. -/
def tlvFramer : Framer UInt8 TLV where
  next := completeTLV
  progress := by
    intro w m n h
    unfold completeTLV at h
    split at h
    · cases h; omega
    · cases h
  stable := by
    intro w m n x h
    unfold completeTLV at h ⊢
    split at h
    · next hc =>
      obtain ⟨hlen, htype, hall⟩ := hc
      cases h
      have htype' : tlvType (w ++ x) = tlvType w := intAt_append x (by omega)
      have hlength' : tlvLength (w ++ x) = tlvLength w := intAt_append x (by omega)
      have hdata : ((w ++ x).drop 4).take (tlvLength w) = (w.drop 4).take (tlvLength w) := by
        rw [List.drop_append_of_le_length hlen, List.take_append_of_le_length (by
          rw [List.length_drop]
          omega)]
      rw [htype', hlength', hdata, List.length_append, if_pos ⟨by omega, htype, by omega⟩]
    · cases h

/-! ## The loop -/

/-- `getTLVList` returns the list `ts`. -/
def ReturnsTLVs (b : Buffer) (ts : List TLV) : Prop :=
  ∃ fuel b', getTLVList fuel b = some (ts, b')

theorem returnsTLVs_end {b : Buffer} {ts : List TLV} (h : b.size ≤ b.mReadPos) :
    ReturnsTLVs b ts ↔ ts = [] := by
  constructor
  · rintro ⟨fuel, b', hrun⟩
    cases fuel with
    | zero => cases hrun
    | succ fuel =>
      rw [getTLVList, if_neg (by omega)] at hrun
      cases hrun
      rfl
  · rintro rfl
    exact ⟨1, b, by rw [getTLVList, if_neg (by omega)]⟩

/-- The loop makes no progress on a fragment: it never returns. -/
theorem not_returnsTLVs_fragment {b : Buffer} {ts : List TLV} (h : 0 ≤ b.mReadPos)
    (hlt : b.mReadPos < b.size) (hr : b.remaining.length < 4) : ¬ ReturnsTLVs b ts := by
  rintro ⟨fuel, b', hrun⟩
  induction fuel with
  | zero => cases hrun
  | succ fuel ih =>
    rw [getTLVList, if_pos hlt, getTLV_fragment h hr] at hrun
    exact ih hrun

/-- A TLV of type 0 adds nothing to the list. -/
theorem returnsTLVs_skip {b b1 : Buffer} {t : TLV} {ts : List TLV} (hlt : b.mReadPos < b.size)
    (hget : b.getTLV = (t, b1)) (ht : t.type = 0) : ReturnsTLVs b ts ↔ ReturnsTLVs b1 ts := by
  constructor
  · rintro ⟨fuel, b', hrun⟩
    cases fuel with
    | zero => cases hrun
    | succ fuel =>
      rw [getTLVList, if_pos hlt, hget] at hrun
      simp only [ht, if_true] at hrun
      exact ⟨fuel, b', hrun⟩
  · rintro ⟨fuel, b', hrun⟩
    refine ⟨fuel + 1, b', ?_⟩
    rw [getTLVList, if_pos hlt, hget]
    simp only [ht, if_true, hrun]

/-- Any other TLV is listed in front of those that follow it. -/
theorem returnsTLVs_cons {b b1 : Buffer} {t : TLV} {ts : List TLV} (hlt : b.mReadPos < b.size)
    (hget : b.getTLV = (t, b1)) (ht : t.type ≠ 0) :
    ReturnsTLVs b ts ↔ ∃ ts', ts = t :: ts' ∧ ReturnsTLVs b1 ts' := by
  constructor
  · rintro ⟨fuel, b', hrun⟩
    cases fuel with
    | zero => cases hrun
    | succ fuel =>
      rw [getTLVList, if_pos hlt, hget] at hrun
      simp only [ht, if_false] at hrun
      obtain ⟨⟨ts', b2⟩, hrest, heq⟩ := Option.map_eq_some_iff.mp hrun
      cases heq
      exact ⟨ts', rfl, fuel, _, hrest⟩
  · rintro ⟨ts', rfl, fuel, b', hrun⟩
    refine ⟨fuel + 1, b', ?_⟩
    rw [getTLVList, if_pos hlt, hget]
    simp only [ht, if_false, hrun, Option.map_some]

/-- The bytes are TLV headers of type 0, one after the other. -/
def zeroHeaders : List UInt8 → Bool
  | [] => true
  | t1 :: t2 :: _ :: _ :: r => t1 == 0 && t2 == 0 && zeroHeaders r
  | _ => false

theorem beNat_pair_eq_zero (c d : UInt8) : beNat [c, d] = 0 ↔ c = 0 ∧ d = 0 := by
  simp only [beNat, List.foldl_cons, List.foldl_nil, ← UInt8.toNat_inj, UInt8.toNat_zero]
  omega

theorem zeroHeaders_header {r : List UInt8} (hr : 4 ≤ r.length) :
    zeroHeaders r = true ↔ tlvType r = 0 ∧ zeroHeaders (r.drop 4) = true := by
  match r, hr with
  | t1 :: t2 :: l1 :: l2 :: r, _ =>
    simp [zeroHeaders, tlvType, intAt, beNat_pair_eq_zero]

theorem zeroHeaders_fragment {r : List UInt8} (h0 : r ≠ []) (hr : r.length < 4) :
    zeroHeaders r = false := by
  match r, h0, hr with
  | [_], _, _ => rfl
  | [_, _], _, _ => rfl
  | [_, _, _], _, _ => rfl

theorem lt_size_iff {b : Buffer} (h : 0 ≤ b.mReadPos) :
    b.mReadPos < b.size ↔ b.remaining ≠ [] := by
  have hlen := b.remaining_length h
  rw [← List.length_pos_iff]
  unfold bytesAvailable at hlen
  omega

/-- The loop finds nothing, and returns, exactly on headers of type 0. -/
theorem returnsTLVs_nil_iff (n : Nat) : ∀ b : Buffer, 0 ≤ b.mReadPos → b.remaining.length = n →
    (ReturnsTLVs b [] ↔ zeroHeaders b.remaining = true) := by
  induction n using Nat.strongRecOn with
  | ind n ih =>
    intro b h hn
    by_cases hempty : b.remaining = []
    · rw [returnsTLVs_end (by
        have := (lt_size_iff h).not.mpr (not_not.mpr hempty)
        omega), hempty]
      exact iff_of_true rfl rfl
    have hlt := (lt_size_iff h).mpr hempty
    by_cases hfrag : b.remaining.length < 4
    · rw [zeroHeaders_fragment hempty hfrag]
      exact iff_of_false (not_returnsTLVs_fragment h hlt hfrag) (by decide)
    have hhead := getTLV_header h (Nat.le_of_not_lt hfrag)
    rw [zeroHeaders_header (Nat.le_of_not_lt hfrag)]
    by_cases hzero : tlvType b.remaining = 0
    · rw [if_neg (not_not.mpr hzero)] at hhead
      have hdrop := remaining_advance h 4
      rw [returnsTLVs_skip hlt hhead rfl, ← hdrop,
        ih (n - 4) (by omega) _ (advance_pos h 4) (by rw [hdrop, List.length_drop]; omega)]
      exact ⟨fun hr => ⟨hzero, hr⟩, fun hr => hr.2⟩
    · rw [if_pos hzero] at hhead
      rw [returnsTLVs_cons hlt hhead hzero]
      constructor
      · rintro ⟨ts', hnil, -⟩
        cases hnil
      · rintro ⟨hz, -⟩
        exact absurd hz hzero

theorem returnsTLVs_drain_iff (r : List UInt8) : ∀ b : Buffer, 0 ≤ b.mReadPos →
    b.remaining = r →
    (ReturnsTLVs b (tlvFramer.drain r).1 ↔ zeroHeaders (tlvFramer.drain r).2 = true) := by
  induction r using tlvFramer.drain_induction with
  | hNone r hnext =>
    intro b h hr
    rw [tlvFramer.drain_none hnext, ← hr]
    exact returnsTLVs_nil_iff _ b h rfl
  | hSome r t n hnext ih =>
    intro b h hr
    rw [tlvFramer.drain_some hnext]
    replace hnext : completeTLV r = some (t, n) := hnext
    unfold completeTLV at hnext
    split at hnext
    swap
    · cases hnext
    next hc =>
    obtain ⟨hlen, htype, hall⟩ := hc
    cases hnext
    have hlt : b.mReadPos < b.size := by
      rw [lt_size_iff h, hr]
      intro hnil
      rw [hnil] at hlen
      simp at hlen
    have hhead := getTLV_header h (by rw [hr]; exact hlen)
    rw [hr, if_pos htype, Nat.min_eq_left (by omega)] at hhead
    rw [returnsTLVs_cons hlt hhead htype,
      ← ih _ (advance_pos h _) (by rw [remaining_advance h, hr])]
    constructor
    · rintro ⟨ts', heq, hts⟩
      cases heq
      exact hts
    · intro hts
      exact ⟨_, rfl, hts⟩

/--
**What `getTLVList` returns.** On every content and from every read position,
the loop returns and its list is the maximal sequence of complete TLVs of
non-zero type that starts there, if and only if what follows that sequence is a
(possibly empty) sequence of headers of type 0.
-/
theorem getTLVList_iff (data : List UInt8) (pos : Nat) :
    ReturnsTLVs ⟨data, pos, false⟩ (tlvFramer.drain (data.drop pos)).1 ↔
      zeroHeaders (tlvFramer.drain (data.drop pos)).2 = true :=
  returnsTLVs_drain_iff _ _ (by simp) (by simp [remaining])

/-- One byte is enough to keep the loop running. -/
theorem getTLVList_hangs : ¬ ∃ ts, ReturnsTLVs ⟨[1], (0 : Nat), false⟩ ts := by
  rintro ⟨ts, h⟩
  exact not_returnsTLVs_fragment (by decide) (by decide) (by decide) h

end Buffer

end Oscar
