import Kopete.Lib.Run
import Kopete.Oscar.Buffer

/-!
# Oscar — reads stay inside the buffer

Every reader but three goes through `getByte`, which moves only while there
are bytes left, and so keeps the read position in the array from any state
that has it there. `skipBytes` moves as far as it is told, and `getBBlock`
(with it `getGuid`) hands out a window without looking at the end of the array.

`inRange_iff` says exactly which runs of reads are safe: those in which these
three are asked for what is there.
-/

namespace Oscar

namespace Buffer

/-- The read position is in the array, and nothing outside has been read. -/
def InRange (b : Buffer) : Prop :=
  0 ≤ b.mReadPos ∧ b.mReadPos ≤ b.size ∧ b.outside = false

theorem ofBytes_inRange (data : List UInt8) : InRange (ofBytes data) :=
  ⟨le_refl _, by simp [ofBytes, size], rfl⟩

/-! ## The readers that test -/

theorem getByte_inRange {b : Buffer} (h : InRange b) : InRange b.getByte.2 := by
  obtain ⟨h0, hle, hout⟩ := h
  unfold getByte
  split
  · next hlt =>
    refine ⟨by simp only; omega, by simp only [size] at *; omega, ?_⟩
    simp only [hout, Bool.false_or, decide_eq_false_iff_not]
    omega
  · exact ⟨h0, hle, hout⟩

theorem getWord_inRange {b : Buffer} (h : InRange b) : InRange b.getWord.2 :=
  getByte_inRange (getByte_inRange h)

theorem getLEWord_inRange {b : Buffer} (h : InRange b) : InRange b.getLEWord.2 :=
  getByte_inRange (getByte_inRange h)

theorem getDWord_inRange {b : Buffer} (h : InRange b) : InRange b.getDWord.2 := by
  show InRange b.getWord.2.getWord.2
  exact getWord_inRange (getWord_inRange h)

theorem getLEDWord_inRange {b : Buffer} (h : InRange b) : InRange b.getLEDWord.2 := by
  show InRange b.getLEWord.2.getLEWord.2
  exact getLEWord_inRange (getLEWord_inRange h)

theorem getBytes_inRange (n : Nat) {b : Buffer} (h : InRange b) : InRange (getBytes n b).2 := by
  induction n generalizing b with
  | zero => exact h
  | succ n ih => exact ih (getByte_inRange h)

theorem getBlock_inRange (len : Nat) {b : Buffer} (h : InRange b) : InRange (getBlock len b).2 :=
  getBytes_inRange _ h

/-- A skip keeps the position in range exactly when it is made at the end, where
it does nothing, or does not leave the array. -/
theorem skipBytes_inRange_iff {n : Int} {b : Buffer} (h : InRange b) :
    InRange (skipBytes n b) ↔
      (b.mReadPos < b.size → 0 ≤ b.mReadPos + n ∧ n ≤ b.bytesAvailable) := by
  unfold skipBytes
  split
  · next hlt =>
    simp only [InRange, size, bytesAvailable, h.2.2, and_true]
    simp only [size] at hlt
    constructor
    · rintro ⟨h1, h2⟩ -
      exact ⟨h1, by omega⟩
    · intro hn
      obtain ⟨h1, h2⟩ := hn hlt
      exact ⟨h1, by omega⟩
  · next hge => exact ⟨fun _ hlt => absurd hlt hge, fun _ => h⟩

/-- Skipping one byte never leaves the array: at its end nothing is skipped. -/
theorem skipBytes_one_inRange {b : Buffer} (h : InRange b) : InRange (skipBytes 1 b) := by
  rw [skipBytes_inRange_iff h]
  intro hlt
  have := h.1
  unfold bytesAvailable
  omega

theorem getTerminated_inRange (len : Nat) {b : Buffer} (h : InRange b) :
    InRange (getTerminated len b).2 := by
  unfold getTerminated
  split
  · exact skipBytes_one_inRange (getBlock_inRange _ h)
  · exact h

theorem getTLV_inRange {b : Buffer} (h : InRange b) : InRange b.getTLV.2 := by
  unfold getTLV
  split
  · have hhead : InRange b.getWord.2.getWord.2 := getWord_inRange (getWord_inRange h)
    simp only
    split
    · exact getBlock_inRange _ hhead
    · exact hhead
  · exact h

/-! ## The readers that do not -/

/-- A window is inside the array exactly when that much is left. -/
theorem getBBlock_inRange_iff {len : Nat} {b : Buffer} (h : InRange b) :
    InRange (getBBlock len b).2 ↔ (len : Int) ≤ b.bytesAvailable := by
  obtain ⟨h0, hle, hout⟩ := h
  simp only [size] at hle
  simp only [InRange, getBBlock, size, bytesAvailable, hout, Bool.false_or]
  constructor
  · rintro ⟨-, h2, -⟩
    omega
  · intro hlen
    exact ⟨by omega, by omega, decide_eq_false (by omega)⟩

/-! ## Runs of reads -/

/-- The read operations, with the lengths they are called with. -/
inductive ReadOp where
  | getByte | getWord | getLEWord | getDWord | getLEDWord
  | skipBytes (bytesToSkip : Int)
  | getBlock (len : Nat)
  | getBBlock (len : Nat)
  | getGuid | getTLV | getLNTS | getLELNTS | getBSTR | getBUIN
  | getLEBlockOf (len : Nat)
  | getLEBlock | getLEDBlock
deriving DecidableEq, Repr

/-- The buffer after a read. -/
def read (b : Buffer) : ReadOp → Buffer
  | .getByte => b.getByte.2
  | .getWord => b.getWord.2
  | .getLEWord => b.getLEWord.2
  | .getDWord => b.getDWord.2
  | .getLEDWord => b.getLEDWord.2
  | .skipBytes n => b.skipBytes n
  | .getBlock len => (b.getBlock len).2
  | .getBBlock len => (b.getBBlock len).2
  | .getGuid => b.getGuid.2
  | .getTLV => b.getTLV.2
  | .getLNTS => b.getLNTS.2
  | .getLELNTS => b.getLELNTS.2
  | .getBSTR => b.getBSTR.2
  | .getBUIN => b.getBUIN.2
  | .getLEBlockOf len => (b.getLEBlockOf len).2
  | .getLEBlock => b.getLEBlock.2
  | .getLEDBlock => b.getLEDBlock.2

/-- What `skipBytes`, `getBBlock` and `getGuid` rely on and do not check. -/
def ReadOk (b : Buffer) : ReadOp → Prop
  | .skipBytes n => b.mReadPos < b.size → 0 ≤ b.mReadPos + n ∧ n ≤ b.bytesAvailable
  | .getBBlock len => (len : Int) ≤ b.bytesAvailable
  | .getGuid => 16 ≤ b.bytesAvailable
  | _ => True

/-- The block starts behind its length. -/
theorem getLEDBlock_inRange {b : Buffer} (h : InRange b) : InRange b.getLEDBlock.2 := by
  have hBlock : b.getLEDBlock = b.getLEDWord.2.getBlock b.getLEDWord.1 := by
    unfold getLEDBlock
    generalize b.getLEDWord = length
    rfl
  rw [hBlock]
  exact getBlock_inRange _ (getLEDWord_inRange h)

theorem read_inRange_iff {b : Buffer} (op : ReadOp) (h : InRange b) :
    InRange (b.read op) ↔ ReadOk b op := by
  cases op with
  | skipBytes n => exact skipBytes_inRange_iff h
  | getBBlock len => exact getBBlock_inRange_iff h
  | getGuid => exact getBBlock_inRange_iff h
  | getByte => exact iff_of_true (getByte_inRange h) trivial
  | getWord => exact iff_of_true (getWord_inRange h) trivial
  | getLEWord => exact iff_of_true (getLEWord_inRange h) trivial
  | getDWord => exact iff_of_true (getDWord_inRange h) trivial
  | getLEDWord => exact iff_of_true (getLEDWord_inRange h) trivial
  | getBlock len => exact iff_of_true (getBlock_inRange len h) trivial
  | getTLV => exact iff_of_true (getTLV_inRange h) trivial
  | getLNTS => exact iff_of_true (getTerminated_inRange _ (getWord_inRange h)) trivial
  | getLELNTS => exact iff_of_true (getTerminated_inRange _ (getLEWord_inRange h)) trivial
  | getBSTR => exact iff_of_true (getBlock_inRange _ (getWord_inRange h)) trivial
  | getBUIN => exact iff_of_true (getBlock_inRange _ (getByte_inRange h)) trivial
  | getLEBlockOf len => exact iff_of_true (getBytes_inRange len h) trivial
  | getLEBlock => exact iff_of_true (getBlock_inRange _ (getLEWord_inRange h)) trivial
  | getLEDBlock =>
    refine iff_of_true ?_ trivial
    rw [read]
    exact getLEDBlock_inRange h

/--
**Reads stay inside the buffer.** For every byte string and every sequence of
reads, the position stays between `0` and the size and nothing outside the
array is read in all states of the run, if and only if no `skipBytes` leaves the
array and no `getBBlock` or `getGuid` asks for more than is left.
-/
theorem inRange_iff (data : List UInt8) (ops : List ReadOp) :
    (∀ b ∈ Run.states read (ofBytes data) ops, InRange b) ↔
      Run.StepsMeet read ReadOk (ofBytes data) ops :=
  Run.inv_iff_stepsMeet (fun _ op h => read_inRange_iff op h) (ofBytes_inRange data)

/-- A `Guid` is read from an empty array. -/
theorem getGuid_leaves_range :
    ¬ ∀ b ∈ Run.states read (ofBytes []) [.getGuid], InRange b := by
  intro h
  have hlast := (h (Buffer.read (ofBytes []) .getGuid) (by simp [Run.states])).2.1
  revert hlast
  decide

end Buffer

end Oscar
