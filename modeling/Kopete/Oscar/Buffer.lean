import Mathlib

/-!
# Oscar — `Buffer`, the reading side

`Buffer` is the byte array with a read position that every Oscar task parses
its packet from. The bytes and all lengths in them come from the peer.

A `WORD` or `DWORD` is the `Nat` it holds; where the code narrows a number the
model says so with `%`. The read position is an `int`, and `skipBytes` takes
one, so both are `Int` here. `outside` is a ghost: it is set once a byte has
been read, or handed on in a block, that is not in the array. What such a byte
is cannot be said; the model gives `0`.
-/

namespace Oscar

/-- A `Buffer` that is read from. -/
structure Buffer where
  mBuffer : List UInt8
  mReadPos : Int
  outside : Bool
deriving DecidableEq, Repr

/-- TLV. The length is the one on the wire, not that of `data`. -/
structure TLV where
  type : Nat
  length : Nat
  data : List UInt8
deriving DecidableEq, Repr

/-- `TLV::TLV()`. -/
def TLV.empty : TLV := ⟨0, 0, []⟩

/-- A `DWORD` as an `int`. -/
def asInt (dw : Nat) : Int := if dw < 2 ^ 31 then dw else (dw : Int) - 2 ^ 32

namespace Buffer

/-- `Buffer( data )`: at the start of the array. -/
def ofBytes (data : List UInt8) : Buffer := ⟨data, 0, false⟩

/-- The size of the array as an `int`. -/
def size (b : Buffer) : Int := b.mBuffer.length

/-- `bytesAvailable`. -/
def bytesAvailable (b : Buffer) : Int := b.size - b.mReadPos

/-- The byte at an offset of the array's memory. -/
def byteAt (b : Buffer) (i : Int) : UInt8 :=
  if 0 ≤ i then (b.mBuffer[i.toNat]?).getD 0 else 0

/-- `getByte`. -/
def getByte (b : Buffer) : UInt8 × Buffer :=
  if b.mReadPos < b.size then
    (b.byteAt b.mReadPos,
      { b with mReadPos := b.mReadPos + 1, outside := b.outside || decide (b.mReadPos < 0) })
  else
    (0, b)

/-- `skipBytes`. -/
def skipBytes (bytesToSkip : Int) (b : Buffer) : Buffer :=
  if b.mReadPos < b.size then { b with mReadPos := b.mReadPos + bytesToSkip } else b

/-- `getLEByte`. -/
def getLEByte (b : Buffer) : UInt8 × Buffer := b.getByte

/-- `getWord`. -/
def getWord (b : Buffer) : Nat × Buffer :=
  let (theword, b) := b.getByte
  let (theword2, b) := b.getByte
  (theword.toNat * 2 ^ 8 + theword2.toNat, b)

/-- `getLEWord`. -/
def getLEWord (b : Buffer) : Nat × Buffer :=
  let (theword1, b) := b.getLEByte
  let (theword2, b) := b.getLEByte
  (theword2.toNat * 2 ^ 8 + theword1.toNat, b)

/-- `getDWord`. -/
def getDWord (b : Buffer) : Nat × Buffer :=
  let (word1, b) := b.getWord
  let (word2, b) := b.getWord
  (word1 * 2 ^ 16 + word2, b)

/-- `getLEDWord`. -/
def getLEDWord (b : Buffer) : Nat × Buffer :=
  let (word1, b) := b.getLEWord
  let (word2, b) := b.getLEWord
  (word2 * 2 ^ 16 + word1, b)

/-- `n` bytes, one by one. -/
def getBytes : Nat → Buffer → List UInt8 × Buffer
  | 0, b => ([], b)
  | n + 1, b =>
    let (c, b) := b.getByte
    let (cs, b) := getBytes n b
    (c :: cs, b)

/-- The cast of an `int` to `DWORD`. -/
def toDWord (i : Int) : Nat := if i < 0 then (i + 2 ^ 32).toNat else i.toNat

/-- `getBlock`: the length is cut to what is left, as a `DWORD`. -/
def getBlock (len : Nat) (b : Buffer) : List UInt8 × Buffer :=
  getBytes (min len (toDWord b.bytesAvailable)) b

/-- `getBBlock`: a window of the array's memory, without any test. -/
def getBBlock (len : Nat) (b : Buffer) : List UInt8 × Buffer :=
  ((List.range len).map fun i => b.byteAt (b.mReadPos + i),
    { b with
      mReadPos := b.mReadPos + len
      outside := b.outside ||
        decide (0 < len ∧ (b.mReadPos < 0 ∨ b.bytesAvailable < len)) })

/-- `getGuid`: the 16 bytes of the `Guid`. -/
def getGuid (b : Buffer) : List UInt8 × Buffer := b.getBBlock 16

/-- `getLEBlock( WORD len )`. -/
def getLEBlockOf (len : Nat) (b : Buffer) : List UInt8 × Buffer := getBytes len b

/-- `getTLV`. A TLV of type 0 is not followed by its data. -/
def getTLV (b : Buffer) : TLV × Buffer :=
  if b.bytesAvailable ≥ 4 then
    let (type, b) := b.getWord
    let (length, b) := b.getWord
    if type ≠ 0 then
      let (data, b) := b.getBlock length
      (⟨type, length, data⟩, b)
    else
      (⟨type, length, []⟩, b)
  else
    (TLV.empty, b)

/-- The rest of a long null terminated string. -/
def getTerminated (len : Nat) (b : Buffer) : List UInt8 × Buffer :=
  if len > 0 then
    let (qcs, b) := b.getBlock (len - 1)
    (qcs, b.skipBytes 1)
  else
    ([], b)

/-- `getLNTS`. -/
def getLNTS (b : Buffer) : List UInt8 × Buffer :=
  let (len, b) := b.getWord
  b.getTerminated len

/-- `getLELNTS`. -/
def getLELNTS (b : Buffer) : List UInt8 × Buffer :=
  let (len, b) := b.getLEWord
  b.getTerminated len

/-- `getBSTR`. -/
def getBSTR (b : Buffer) : List UInt8 × Buffer :=
  let (len, b) := b.getWord
  b.getBlock len

/-- `getBUIN`. -/
def getBUIN (b : Buffer) : List UInt8 × Buffer :=
  let (len, b) := b.getByte
  b.getBlock len.toNat

/-- `getLEBlock()`. -/
def getLEBlock (b : Buffer) : List UInt8 × Buffer :=
  let (len, b) := b.getLEWord
  b.getBlock len

/-- `getLEDBlock`. -/
def getLEDBlock (b : Buffer) : List UInt8 × Buffer :=
  let (len, b) := b.getLEDWord
  b.getBlock len

/-- `getTLVList`, for at most `fuel` rounds of its loop; `none` when the loop
is still running after them. -/
def getTLVList : Nat → Buffer → Option (List TLV × Buffer)
  | 0, _ => none
  | fuel + 1, b =>
    if b.mReadPos < b.size then
      let (t, b) := b.getTLV
      if t.type = 0 then
        getTLVList fuel b -- Invalid TLV found
      else
        (getTLVList fuel b).map fun r => (t :: r.1, r.2)
    else
      some ([], b)

end Buffer

end Oscar
