import Kopete.Lib.DataStream
import Kopete.Oscar.Buffer

/-!
# Oscar — what a read returns

The getters of `Buffer` in terms of the bytes that are left. `Reads get w a`
says that `get` takes the bytes `w` off the front and returns `a`, whatever
comes behind them; the law of a format is put together from the laws of its
fields by `Reads.bind`.
-/

namespace Oscar

open DataStream

namespace Buffer

/-! ## The bytes that are left -/

/-- The bytes from the read position on. -/
def remaining (b : Buffer) : List UInt8 := b.mBuffer.drop b.mReadPos.toNat

/-- The buffer with the read position moved on. -/
def advance (b : Buffer) (n : Nat) : Buffer := { b with mReadPos := b.mReadPos + n }

theorem advance_pos {b : Buffer} (h : 0 ≤ b.mReadPos) (n : Nat) : 0 ≤ (b.advance n).mReadPos := by
  simp only [advance]
  omega

theorem advance_zero (b : Buffer) : b.advance 0 = b := by
  simp [advance]

theorem advance_advance (b : Buffer) (m n : Nat) :
    (b.advance m).advance n = b.advance (m + n) := by
  simp [advance, Int.add_assoc]

theorem remaining_advance {b : Buffer} (h : 0 ≤ b.mReadPos) (n : Nat) :
    (b.advance n).remaining = b.remaining.drop n := by
  simp only [remaining, advance, List.drop_drop]
  congr 1
  omega

theorem remaining_length (b : Buffer) (h : 0 ≤ b.mReadPos) :
    (b.remaining.length : Int) = max 0 b.bytesAvailable := by
  simp only [remaining, bytesAvailable, size, List.length_drop]
  omega

theorem getByte_cons {b : Buffer} {c : UInt8} {r : List UInt8} (h : 0 ≤ b.mReadPos)
    (hr : b.remaining = c :: r) : b.getByte = (c, b.advance 1) := by
  have hlen := b.remaining_length h
  rw [hr, List.length_cons] at hlen
  have hlt : b.mReadPos < b.size := by
    unfold bytesAvailable at hlen
    omega
  have hget : b.mBuffer[b.mReadPos.toNat]? = some c := by
    have := congrArg (fun l : List UInt8 => l[0]?) hr
    simpa [remaining] using this
  unfold getByte byteAt
  rw [if_pos hlt, if_pos h, hget]
  simp [advance]
  omega

theorem getWord_cons {b : Buffer} {c d : UInt8} {r : List UInt8} (h : 0 ≤ b.mReadPos)
    (hr : b.remaining = c :: d :: r) : b.getWord = (beNat [c, d], b.advance 2) := by
  have hr' : (b.advance 1).remaining = d :: r := by
    rw [remaining_advance h, hr]
    rfl
  simp only [getWord, getByte_cons h hr, getByte_cons (advance_pos h 1) hr', advance_advance]
  simp [beNat]

theorem getBytes_take {n : Nat} {b : Buffer} (h : 0 ≤ b.mReadPos) (hn : n ≤ b.remaining.length) :
    getBytes n b = (b.remaining.take n, b.advance n) := by
  induction n generalizing b with
  | zero => rw [getBytes, advance_zero, List.take_zero]
  | succ n ih =>
    obtain ⟨c, r, hr⟩ : ∃ c r, b.remaining = c :: r := by
      cases hb : b.remaining with
      | nil => rw [hb] at hn; simp at hn
      | cons c r => exact ⟨c, r, rfl⟩
    have hr' : (b.advance 1).remaining = r := by
      rw [remaining_advance h, hr]
      rfl
    have hn' : n ≤ (b.advance 1).remaining.length := by
      rw [hr']
      rw [hr, List.length_cons] at hn
      omega
    simp only [getBytes, getByte_cons h hr, ih (advance_pos h 1) hn', hr', advance_advance]
    rw [hr, List.take_succ_cons, Nat.add_comm 1 n]

/-- A block is cut at the end of the array. -/
theorem getBlock_take (len : Nat) {b : Buffer} (h : 0 ≤ b.mReadPos) (hle : b.mReadPos ≤ b.size) :
    getBlock len b = (b.remaining.take len, b.advance (min len b.remaining.length)) := by
  have hlen := b.remaining_length h
  have hav : toDWord b.bytesAvailable = b.remaining.length := by
    unfold toDWord bytesAvailable at *
    split <;> omega
  rw [getBlock, hav, getBytes_take h (Nat.min_le_right ..), ← List.take_eq_take_min]

/-! ## How far a read goes -/

theorem getByte_bytesAvailable (b : Buffer) :
    b.getByte.2.bytesAvailable = b.bytesAvailable - if 0 < b.bytesAvailable then 1 else 0 := by
  unfold getByte bytesAvailable
  split <;> split <;> simp only [size] at * <;> omega

theorem getByte_mBuffer (b : Buffer) : b.getByte.2.mBuffer = b.mBuffer := by
  unfold getByte
  split <;> rfl

theorem getByte_pos_le (b : Buffer) : b.mReadPos ≤ b.getByte.2.mReadPos := by
  unfold getByte
  split
  · exact Int.le_add_one (le_refl _)
  · exact le_refl _

theorem getLEWord_mBuffer (b : Buffer) : b.getLEWord.2.mBuffer = b.mBuffer := by
  simp only [getLEWord, getLEByte, getByte_mBuffer]

theorem getLEWord_pos_le (b : Buffer) : b.mReadPos ≤ b.getLEWord.2.mReadPos := by
  simp only [getLEWord, getLEByte]
  exact (getByte_pos_le _).trans (getByte_pos_le _)

theorem getLEDWord_bytesAvailable {b : Buffer} (h : 4 ≤ b.bytesAvailable) :
    b.getLEDWord.2.bytesAvailable = b.bytesAvailable - 4 := by
  simp only [getLEDWord, getLEWord, getLEByte, getByte_bytesAvailable]
  omega

theorem getBytes_bytesAvailable_le (n : Nat) (b : Buffer) :
    (getBytes n b).2.bytesAvailable ≤ b.bytesAvailable := by
  induction n generalizing b with
  | zero => exact le_refl _
  | succ n ih =>
    have hFirst := getByte_bytesAvailable b
    have hRest := ih b.getByte.2
    simp only [getBytes]
    omega

theorem length_getBytes (n : Nat) (b : Buffer) : (getBytes n b).1.length = n := by
  induction n generalizing b with
  | zero => rfl
  | succ n ih => simp only [getBytes, List.length_cons, ih]

theorem length_getBlock_le (len : Nat) (b : Buffer) : (getBlock len b).1.length ≤ len := by
  rw [getBlock, length_getBytes]
  exact Nat.min_le_left ..

/-! ## The law of a read -/

/-- The read position is in the array. -/
def Ready (b : Buffer) : Prop := 0 ≤ b.mReadPos ∧ b.mReadPos ≤ b.size

/-- `get` takes `w` off the front and returns `a`. -/
def Reads {α : Type} (get : Buffer → α × Buffer) (w : List UInt8) (a : α) : Prop :=
  ∀ b r, Ready b → b.remaining = w ++ r → get b = (a, b.advance w.length)

theorem ready_ofBytes (data : List UInt8) : Ready (ofBytes data) :=
  ⟨le_refl _, by simp [ofBytes, size]⟩

theorem remaining_ofBytes (data : List UInt8) : (ofBytes data).remaining = data := by
  simp [remaining, ofBytes]

theorem Ready.remaining_length {b : Buffer} (h : Ready b) :
    (b.remaining.length : Int) = b.bytesAvailable := by
  have hLength := b.remaining_length h.1
  have hle := h.2
  unfold bytesAvailable at *
  omega

theorem Ready.advance {b : Buffer} (h : Ready b) {w r : List UInt8} (hr : b.remaining = w ++ r) :
    Ready (b.advance w.length) ∧ (b.advance w.length).remaining = r := by
  refine ⟨⟨advance_pos h.1 _, ?_⟩, by rw [remaining_advance h.1, hr, List.drop_left]⟩
  have hLength := h.remaining_length
  rw [hr, List.length_append] at hLength
  simp only [Buffer.advance, size, bytesAvailable] at *
  omega

section Laws

variable {α β : Type} {u v w : List UInt8} {a : α} {c : β}

/-- Nothing is read. -/
theorem Reads.pure (a : α) : Reads (fun b => (a, b)) [] a := by
  intro b r _ _
  rw [List.length_nil, advance_zero]

/-- One read after the other. -/
theorem Reads.bind {get : Buffer → α × Buffer} (next : α → Buffer → β × Buffer)
    (hGet : Reads get u a) (hNext : Reads (next a) v c) :
    Reads (fun b => next (get b).1 (get b).2) (u ++ v) c := by
  intro b r hb hr
  rw [List.append_assoc] at hr
  obtain ⟨hReady, hRest⟩ := hb.advance hr
  simp only [hGet b _ hb hr, hNext _ _ hReady hRest, advance_advance, List.length_append]

/-- A read whose value is put to use. -/
theorem Reads.map {get : Buffer → α × Buffer} (f : α → β) (hGet : Reads get u a) :
    Reads (fun b => (f (get b).1, (get b).2)) u (f a) := by
  intro b r hb hr
  simp only [hGet b r hb hr]

/-- Two reads whose values make up one. -/
theorem Reads.map₂ {γ : Type} {get : Buffer → α × Buffer} {get' : Buffer → β × Buffer}
    (f : α → β → γ) (hGet : Reads get u a) (hGet' : Reads get' v c) :
    Reads (fun b => (f (get b).1 (get' (get b).2).1, (get' (get b).2).2)) (u ++ v) (f a c) :=
  hGet.bind (fun x b => (f x (get' b).1, (get' b).2)) (hGet'.map (f a))

theorem reads_getByte (x : UInt8) : Reads getByte [x] x := by
  intro b r hb hr
  exact getByte_cons hb.1 hr

theorem reads_getWord {n : Nat} (h : n < 2 ^ 16) : Reads getWord (beBytes 2 n) n := by
  have hReads := (reads_getByte (UInt8.ofNat (n / 256 ^ 1))).map₂
    (fun x y => x.toNat * 2 ^ 8 + y.toNat) (reads_getByte (UInt8.ofNat (n / 256 ^ 0)))
  have hValue := beNat_beBytes (n := 2) (v := n) (by omega)
  simp only [beBytes, beNat, List.foldl_cons, List.foldl_nil, Nat.zero_mul, Nat.zero_add] at hValue
  rw [show (2 : Nat) ^ 8 = 256 from rfl, hValue] at hReads
  exact hReads

theorem reads_getLEWord {n : Nat} (h : n < 2 ^ 16) : Reads getLEWord (leBytes 2 n) n := by
  have hReads := (reads_getByte (UInt8.ofNat n)).map₂
    (fun x y => y.toNat * 2 ^ 8 + x.toNat) (reads_getByte (UInt8.ofNat (n / 256)))
  have hValue := leNat_leBytes (n := 2) (v := n) (by omega)
  simp only [leBytes, leNat, List.foldr_cons, List.foldr_nil] at hValue
  rw [show (UInt8.ofNat (n / 256)).toNat * 2 ^ 8 + (UInt8.ofNat n).toNat = n by omega] at hReads
  exact hReads

/-- A number of two words, high word first. -/
theorem beBytes_four (n : Nat) : beBytes 4 n = beBytes 2 (n / 2 ^ 16) ++ beBytes 2 n := by
  simp [beBytes, Nat.div_div_eq_div_mul]

theorem leBytes_four (n : Nat) : leBytes 4 n = leBytes 2 n ++ leBytes 2 (n / 2 ^ 16) := by
  simp [leBytes, Nat.div_div_eq_div_mul]

/-- Only the low bytes are written. -/
theorem beBytes_two_mod (n : Nat) : beBytes 2 (n % 2 ^ 16) = beBytes 2 n := by
  simp only [beBytes, List.cons.injEq, and_true, ← UInt8.toNat_inj, UInt8.toNat_ofNat']
  omega

theorem leBytes_two_mod (n : Nat) : leBytes 2 (n % 2 ^ 16) = leBytes 2 n := by
  simp only [leBytes, List.cons.injEq, and_true, ← UInt8.toNat_inj, UInt8.toNat_ofNat']
  omega

theorem reads_getDWord {n : Nat} (h : n < 2 ^ 32) : Reads getDWord (beBytes 4 n) n := by
  have hReads := (reads_getWord (n := n / 2 ^ 16) (by omega)).map₂ (fun x y => x * 2 ^ 16 + y)
    (reads_getWord (n := n % 2 ^ 16) (by omega))
  rw [beBytes_two_mod, ← beBytes_four, Nat.div_add_mod'] at hReads
  exact hReads

theorem reads_getLEDWord {n : Nat} (h : n < 2 ^ 32) : Reads getLEDWord (leBytes 4 n) n := by
  have hReads := (reads_getLEWord (n := n % 2 ^ 16) (by omega)).map₂ (fun x y => y * 2 ^ 16 + x)
    (reads_getLEWord (n := n / 2 ^ 16) (by omega))
  rw [leBytes_two_mod, ← leBytes_four, Nat.div_add_mod'] at hReads
  exact hReads

theorem reads_getBlock (w : List UInt8) : Reads (getBlock w.length) w w := by
  intro b r hb hr
  rw [getBlock_take _ hb.1 hb.2, hr, List.take_left, List.length_append,
    Nat.min_eq_left (Nat.le_add_right ..)]

/-- A window that lies within the array. -/
theorem reads_getBBlock (w : List UInt8) : Reads (getBBlock w.length) w w := by
  intro b r hb hr
  have hLength := hb.remaining_length
  rw [hr, List.length_append] at hLength
  have hByte : ∀ i < w.length, b.byteAt (b.mReadPos + i) = (w[i]?).getD 0 := by
    intro i hi
    have hGet : b.mBuffer[(b.mReadPos + i).toNat]? = w[i]? := by
      have hLeft : (w ++ r)[i]? = w[i]? := List.getElem?_append_left hi
      rw [← hLeft, ← hr, remaining, List.getElem?_drop]
      have hPos := hb.1
      congr 1
      omega
    rw [byteAt, if_pos (by have := hb.1; omega), hGet]
  have hWindow : (List.range w.length).map (fun i : Nat => b.byteAt (b.mReadPos + i)) = w := by
    refine List.ext_getElem (by simp) fun i hi _ => ?_
    rw [List.length_map, List.length_range] at hi
    rw [List.getElem_map, List.getElem_range, hByte i hi, List.getElem?_eq_getElem hi,
      Option.getD_some]
  have hInside : ¬ (0 < w.length ∧ (b.mReadPos < 0 ∨ b.bytesAvailable < w.length)) := by
    have hPos := hb.1
    omega
  have hMap : (getBBlock w.length b).1 =
      (List.range w.length).map fun i : Nat => b.byteAt (b.mReadPos + i) := by
    show (List.flatMap (fun i : Nat => [(i : Int)]) _).map _ = _
    rw [List.map_flatMap, List.map_eq_flatMap]
    rfl
  refine Prod.ext (hMap.trans hWindow) ?_
  rw [getBBlock, decide_eq_false hInside, Bool.or_false, Buffer.advance]

theorem reads_getGuid {w : List UInt8} (h : w.length = 16) : Reads getGuid w w := by
  have hReads := reads_getBBlock w
  rw [h] at hReads
  exact hReads

theorem reads_skipBytes (w : List UInt8) (h : w ≠ []) :
    Reads (fun b => ((), b.skipBytes w.length)) w () := by
  intro b r hb hr
  have hLength := hb.remaining_length
  have hPos := List.length_pos_iff.mpr h
  rw [hr, List.length_append] at hLength
  unfold bytesAvailable at hLength
  have hlt : b.mReadPos < b.size := by omega
  simp only [skipBytes, if_pos hlt, Buffer.advance]

end Laws

end Buffer

end Oscar
