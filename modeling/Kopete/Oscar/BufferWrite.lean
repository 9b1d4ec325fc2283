import Kopete.Oscar.BufferReads
import Mathlib

/-!
# Oscar — `Buffer`, the writing side

Every `add*` function puts bytes behind the last one and moves nothing else. It
returns the new size, which is the `size` of the result here. A `WORD` or
`DWORD` is the `Nat` it holds; more than its low bytes is never written. A
`const char *` is the bytes it points to, of which `strlen` sees those before
the first NUL.

`add*_eq` gives the bytes each function appends, and `reads_get*` the law of the
getter that takes them off again.
-/

namespace Oscar

open DataStream

namespace Buffer

/-- `Buffer()`. -/
def empty : Buffer := ⟨[], 0, false⟩

/-- `addByte`. -/
def addByte (x : UInt8) (b : Buffer) : Buffer := { b with mBuffer := b.mBuffer ++ [x] }

/-- `addWord`. -/
def addWord (w : Nat) (b : Buffer) : Buffer :=
  { b with mBuffer := b.mBuffer ++ [UInt8.ofNat (w / 2 ^ 8), UInt8.ofNat w] }

/-- `addLEWord`. -/
def addLEWord (w : Nat) (b : Buffer) : Buffer :=
  { b with mBuffer := b.mBuffer ++ [UInt8.ofNat w, UInt8.ofNat (w / 2 ^ 8)] }

/-- `addDWord`. -/
def addDWord (dw : Nat) (b : Buffer) : Buffer :=
  { b with mBuffer := b.mBuffer ++ [UInt8.ofNat (dw / 2 ^ 24), UInt8.ofNat (dw / 2 ^ 16),
      UInt8.ofNat (dw / 2 ^ 8), UInt8.ofNat dw] }

/-- `addLEDWord`. -/
def addLEDWord (dw : Nat) (b : Buffer) : Buffer :=
  { b with mBuffer := b.mBuffer ++ [UInt8.ofNat dw, UInt8.ofNat (dw / 2 ^ 8),
      UInt8.ofNat (dw / 2 ^ 16), UInt8.ofNat (dw / 2 ^ 24)] }

/-- `addString( const QByteArray& )`. -/
def addString (s : List UInt8) (b : Buffer) : Buffer := { b with mBuffer := b.mBuffer ++ s }

/-- `addLEString`: the first `len` bytes, one by one. -/
def addLEString (s : List UInt8) (len : Nat) (b : Buffer) : Buffer :=
  { b with mBuffer := b.mBuffer ++ s.take len }

/-- `addTLV( WORD type, const QByteArray& data )`. -/
def addTLV (type : Nat) (data : List UInt8) (b : Buffer) : Buffer :=
  addString data (addWord data.length (addWord type b))

/-- `strlen`. -/
def strlen (s : List UInt8) : Nat := (s.takeWhile (· ≠ 0)).length

/-- `addLNTS`. -/
def addLNTS (s : List UInt8) (b : Buffer) : Buffer :=
  let len := strlen s
  let b := b.addLEWord (len + 1)
  let b := if len > 0 then b.addString (s.take len) else b
  b.addByte 0x00

/-- `addLELNTS`. -/
def addLELNTS (s : List UInt8) (b : Buffer) : Buffer :=
  let len := strlen s
  let b := b.addLEWord (len + 1)
  let b := if len > 0 then b.addLEString s len else b
  b.addByte 0x00

/-- `addBSTR`. -/
def addBSTR (s : List UInt8) (b : Buffer) : Buffer :=
  let len := strlen s
  let b := b.addWord len
  if len > 0 then b.addString (s.take len) else b

/-- `addBUIN`. -/
def addBUIN (s : List UInt8) (b : Buffer) : Buffer :=
  let len := strlen s
  let b := b.addByte (UInt8.ofNat len)
  b.addString (s.take len)

/-- `addLEBlock`. -/
def addLEBlock (block : List UInt8) (b : Buffer) : Buffer :=
  let b := b.addLEWord block.length
  if block.length > 0 then b.addString block else b

/-- `addLEDBlock`. -/
def addLEDBlock (block : List UInt8) (b : Buffer) : Buffer :=
  let b := b.addLEDWord block.length
  if block.length > 0 then b.addString block else b

/-! ## The bytes written -/

@[simp] theorem addString_nil (b : Buffer) : b.addString [] = b := by
  simp [addString]

@[simp] theorem addString_addString (u v : List UInt8) (b : Buffer) :
    (b.addString u).addString v = b.addString (u ++ v) := by
  simp [addString]

@[simp] theorem addString_mBuffer (s : List UInt8) (b : Buffer) :
    (b.addString s).mBuffer = b.mBuffer ++ s := rfl

/-- A buffer that has only been written to is read from its first byte. -/
theorem addString_empty (s : List UInt8) : empty.addString s = ofBytes s := rfl

theorem addByte_eq (x : UInt8) (b : Buffer) : b.addByte x = b.addString [x] := rfl

theorem addWord_eq (w : Nat) (b : Buffer) : b.addWord w = b.addString (beBytes 2 w) := by
  simp [addWord, addString, beBytes]

theorem addLEWord_eq (w : Nat) (b : Buffer) : b.addLEWord w = b.addString (leBytes 2 w) := by
  simp [addLEWord, addString, leBytes]

theorem addDWord_eq (dw : Nat) (b : Buffer) : b.addDWord dw = b.addString (beBytes 4 dw) := by
  simp [addDWord, addString, beBytes]

theorem addLEDWord_eq (dw : Nat) (b : Buffer) :
    b.addLEDWord dw = b.addString (leBytes 4 dw) := by
  simp [addLEDWord, addString, leBytes, Nat.div_div_eq_div_mul]

/-- The test for an empty string changes nothing. -/
theorem ite_addString (s : List UInt8) (b : Buffer) :
    (if s.length > 0 then b.addString s else b) = b.addString s := by
  split
  · rfl
  · next h =>
    have hNil : s = [] := List.length_eq_zero_iff.mp (by omega)
    rw [hNil, addString_nil]

theorem addTLV_eq (type : Nat) (data : List UInt8) (b : Buffer) :
    b.addTLV type data = b.addString (beBytes 2 type ++ beBytes 2 data.length ++ data) := by
  simp only [addTLV, addWord_eq, addString_addString]

theorem addLEBlock_eq (block : List UInt8) (b : Buffer) :
    b.addLEBlock block = b.addString (leBytes 2 block.length ++ block) := by
  simp only [addLEBlock, ite_addString]
  rw [addLEWord_eq, addString_addString]

theorem addLEDBlock_eq (block : List UInt8) (b : Buffer) :
    b.addLEDBlock block = b.addString (leBytes 4 block.length ++ block) := by
  simp only [addLEDBlock, ite_addString]
  rw [addLEDWord_eq, addString_addString]

section Terminated

variable {s : List UInt8}

/-- A string without NUL is all there. -/
theorem strlen_eq (h : 0 ∉ s) : strlen s = s.length := by
  have hAll : s.takeWhile (· ≠ 0) = s := by
    refine List.takeWhile_eq_self_iff.mpr ?_
    intro x hx
    simpa using ne_of_mem_of_not_mem hx h
  rw [strlen, hAll]

theorem addLNTS_eq (h : 0 ∉ s) (b : Buffer) :
    b.addLNTS s = b.addString (leBytes 2 (s.length + 1) ++ (s ++ [0])) := by
  simp only [addLNTS, strlen_eq h, List.take_length, ite_addString]
  rw [addByte_eq, addLEWord_eq, addString_addString, addString_addString]

/-- Both write the same bytes. -/
theorem addLELNTS_eq (h : 0 ∉ s) (b : Buffer) : b.addLELNTS s = b.addLNTS s := by
  simp only [addLELNTS, addLNTS, strlen_eq h]
  rfl

theorem addBSTR_eq (h : 0 ∉ s) (b : Buffer) :
    b.addBSTR s = b.addString (beBytes 2 s.length ++ s) := by
  simp only [addBSTR, strlen_eq h, List.take_length, ite_addString]
  rw [addWord_eq, addString_addString]

theorem addBUIN_eq (h : 0 ∉ s) (b : Buffer) :
    b.addBUIN s = b.addString ([UInt8.ofNat s.length] ++ s) := by
  simp only [addBUIN, strlen_eq h, List.take_length, addByte_eq, addString_addString]

end Terminated

/-! ## Strings read back -/

theorem reads_getBSTR {s : List UInt8} (h : s.length < 2 ^ 16) :
    Reads getBSTR (beBytes 2 s.length ++ s) s :=
  (reads_getWord h).bind getBlock (reads_getBlock s)

theorem reads_getBUIN {s : List UInt8} (h : s.length < 2 ^ 8) :
    Reads getBUIN ([UInt8.ofNat s.length] ++ s) s := by
  have hLength : (UInt8.ofNat s.length).toNat = s.length := by
    rw [UInt8.toNat_ofNat', Nat.mod_eq_of_lt h]
  refine (reads_getByte _).bind (fun len => getBlock len.toNat) ?_
  rw [hLength]
  exact reads_getBlock s

theorem reads_getLEBlock {s : List UInt8} (h : s.length < 2 ^ 16) :
    Reads getLEBlock (leBytes 2 s.length ++ s) s :=
  (reads_getLEWord h).bind getBlock (reads_getBlock s)

theorem reads_getLEDBlock {s : List UInt8} (h : s.length < 2 ^ 32) :
    Reads getLEDBlock (leBytes 4 s.length ++ s) s :=
  (reads_getLEDWord h).bind getBlock (reads_getBlock s)

/-- The string and its NUL. -/
theorem reads_getTerminated (s : List UInt8) :
    Reads (getTerminated (s.length + 1)) (s ++ [0]) s :=
  (reads_getBlock s).map₂ (fun s _ => s) (reads_skipBytes [0] (List.cons_ne_nil _ _))

theorem reads_getLELNTS {s : List UInt8} (h : s.length + 1 < 2 ^ 16) :
    Reads getLELNTS (leBytes 2 (s.length + 1) ++ (s ++ [0])) s :=
  (reads_getLEWord h).bind getTerminated (reads_getTerminated s)

end Buffer

end Oscar
