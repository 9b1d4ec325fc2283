import Mathlib

/-!
# Reading integers from a byte stream

The reads of a `QDataStream` over a byte array, as functions of the bytes that
are left. A read that finds fewer bytes than it needs takes what is there and
gives `0`; the stream is then at its end. There is no error to see for a
caller that does not ask.

`beNat` and `leNat` are the two byte orders, `beBytes` and `leBytes` write them;
the `_append` lemmas say that a read with enough bytes left is not affected by
what follows them.
-/

namespace DataStream

/-- The value of a list of bytes, most significant byte first. -/
def beNat (bs : List UInt8) : Nat :=
  bs.foldl (fun acc b => acc * 256 + b.toNat) 0

/-- The value of a list of bytes, least significant byte first. -/
def leNat (bs : List UInt8) : Nat :=
  bs.foldr (fun b acc => b.toNat + 256 * acc) 0

/-- The `n` low bytes of a number, most significant byte first. -/
def beBytes : Nat → Nat → List UInt8
  | 0, _ => []
  | n + 1, v => UInt8.ofNat (v / 256 ^ n) :: beBytes n v

/-- The `n` low bytes of a number, least significant byte first. -/
def leBytes : Nat → Nat → List UInt8
  | 0, _ => []
  | n + 1, v => UInt8.ofNat v :: leBytes n (v / 256)

@[simp] theorem length_beBytes (n v : Nat) : (beBytes n v).length = n := by
  induction n with
  | zero => rfl
  | succ n ih => rw [beBytes, List.length_cons, ih]

@[simp] theorem length_leBytes (n v : Nat) : (leBytes n v).length = n := by
  induction n generalizing v with
  | zero => rfl
  | succ n ih => rw [leBytes, List.length_cons, ih]

theorem beNat_append (u v : List UInt8) :
    beNat (u ++ v) = beNat u * 256 ^ v.length + beNat v := by
  unfold beNat
  rw [List.foldl_append]
  generalize u.foldl (fun acc b => acc * 256 + b.toNat) 0 = a
  induction v generalizing a with
  | nil => simp
  | cons b v ih =>
    rw [List.foldl_cons, ih, List.foldl_cons, ih (0 * 256 + b.toNat), List.length_cons, pow_succ]
    ring

theorem beNat_cons (b : UInt8) (v : List UInt8) :
    beNat (b :: v) = b.toNat * 256 ^ v.length + beNat v := by
  rw [← List.singleton_append, beNat_append]
  simp [beNat]

theorem beNat_lt (bs : List UInt8) : beNat bs < 256 ^ bs.length := by
  induction bs with
  | nil => exact Nat.one_pos
  | cons b v ih =>
    have hByte : b.toNat * 256 ^ v.length + 256 ^ v.length ≤ 256 ^ (v.length + 1) := by
      rw [← Nat.succ_mul, pow_succ', Nat.succ_eq_add_one]
      exact Nat.mul_le_mul_right _ b.toNat_lt
    rw [beNat_cons, List.length_cons]
    omega

theorem beNat_beBytes_mod (n v : Nat) : beNat (beBytes n v) = v % 256 ^ n := by
  induction n with
  | zero => rw [beBytes, pow_zero, Nat.mod_one]; rfl
  | succ n ih =>
    rw [beBytes, beNat_cons, ih, length_beBytes, UInt8.toNat_ofNat', pow_succ 256 n, Nat.mod_mul,
      Nat.mul_comm, Nat.add_comm]

/-- A number that fits is read back. -/
theorem beNat_beBytes {n v : Nat} (h : v < 256 ^ n) : beNat (beBytes n v) = v := by
  rw [beNat_beBytes_mod, Nat.mod_eq_of_lt h]

theorem leNat_leBytes_mod (n v : Nat) : leNat (leBytes n v) = v % 256 ^ n := by
  induction n generalizing v with
  | zero => rw [leBytes, pow_zero, Nat.mod_one]; rfl
  | succ n ih =>
    have hCons : leNat (UInt8.ofNat v :: leBytes n (v / 256)) =
        (UInt8.ofNat v).toNat + 256 * leNat (leBytes n (v / 256)) := rfl
    rw [leBytes, hCons, ih, UInt8.toNat_ofNat', pow_succ' 256 n, Nat.mod_mul]

theorem leNat_leBytes {n v : Nat} (h : v < 256 ^ n) : leNat (leBytes n v) = v := by
  rw [leNat_leBytes_mod, Nat.mod_eq_of_lt h]

/-- Read an `n`-byte integer whose bytes are put together by `value`. -/
def readInt (value : List UInt8 → Nat) (n : Nat) (w : List UInt8) : Nat × List UInt8 :=
  (if n ≤ w.length then value (w.take n) else 0, w.drop n)

/-- `stream >> quint8`. -/
def readU8 (w : List UInt8) : Nat × List UInt8 := readInt beNat 1 w

/-- `stream >> quint16`, big-endian. -/
def readU16BE (w : List UInt8) : Nat × List UInt8 := readInt beNat 2 w

/-- `stream >> quint32`, big-endian. -/
def readU32BE (w : List UInt8) : Nat × List UInt8 := readInt beNat 4 w

/-- `stream >> quint16`, little-endian. -/
def readU16LE (w : List UInt8) : Nat × List UInt8 := readInt leNat 2 w

/-- `stream >> quint32`, little-endian. -/
def readU32LE (w : List UInt8) : Nat × List UInt8 := readInt leNat 4 w

@[simp] theorem readInt_snd (value : List UInt8 → Nat) (n : Nat) (w : List UInt8) :
    (readInt value n w).2 = w.drop n := rfl

/-- The integer that a read at offset `k` gives. -/
def intAt (value : List UInt8 → Nat) (n : Nat) (w : List UInt8) (k : Nat) : Nat :=
  if k + n ≤ w.length then value ((w.drop k).take n) else 0

theorem readInt_drop {value : List UInt8 → Nat} {n : Nat} (hn : 0 < n) (w : List UInt8) (k : Nat) :
    readInt value n (w.drop k) = (intAt value n w k, w.drop (k + n)) := by
  simp only [readInt, intAt, List.length_drop, List.drop_drop, Prod.mk.injEq, and_true]
  congr 1
  simp only [eq_iff_iff]
  omega

theorem readInt_zero {value : List UInt8 → Nat} {n : Nat} (w : List UInt8) :
    readInt value n w = (intAt value n w 0, w.drop n) := by
  simp [readInt, intAt]

/-- An integer inside the part that is kept. -/
theorem intAt_take {value : List UInt8 → Nat} {n k len : Nat} {w : List UInt8}
    (h : k + n ≤ len) (hlen : len ≤ w.length) :
    intAt value n (w.take len) k = intAt value n w k := by
  have htake : (w.take len).length = len := List.length_take_of_le hlen
  have hin : ((w.take len).drop k).take n = (w.drop k).take n := by
    rw [List.drop_take, List.take_take, Nat.min_eq_left (by omega)]
  simp only [intAt, htake, hin, if_pos h, if_pos (Nat.le_trans h hlen)]

theorem intAt_beNat_lt (n : Nat) (w : List UInt8) (k : Nat) : intAt beNat n w k < 256 ^ n := by
  unfold intAt
  split
  · have hLength : ((w.drop k).take n).length = n := by
      rw [List.length_take, List.length_drop]
      omega
    exact (beNat_lt _).trans_eq (by rw [hLength])
  · exact Nat.pow_pos (by decide)

/-- An integer that reaches past the end reads as `0`. -/
theorem intAt_short {value : List UInt8 → Nat} {n k : Nat} {w : List UInt8}
    (h : w.length < k + n) : intAt value n w k = 0 :=
  if_neg (by omega)

theorem intAt_append {value : List UInt8 → Nat} {n k : Nat} {w : List UInt8} (x : List UInt8)
    (h : k + n ≤ w.length) : intAt value n (w ++ x) k = intAt value n w k := by
  have hle : w.length ≤ (w ++ x).length := by
    rw [List.length_append]
    omega
  have htake : intAt value n ((w ++ x).take w.length) k = intAt value n (w ++ x) k :=
    intAt_take h hle
  rwa [List.take_left, eq_comm] at htake

/-- A read with enough bytes left does not see what follows them. -/
theorem readInt_append {value : List UInt8 → Nat} {n : Nat} {w : List UInt8} (x : List UInt8)
    (h : n ≤ w.length) :
    readInt value n (w ++ x) = ((readInt value n w).1, (readInt value n w).2 ++ x) := by
  have hlen : n ≤ (w ++ x).length := by
    rw [List.length_append]
    omega
  simp only [readInt, h, hlen, if_true, List.take_append_of_le_length h,
    List.drop_append_of_le_length h]

end DataStream
