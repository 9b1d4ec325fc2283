import Kopete.QQ.Crypt

/-!
# QQ — `Packet::encrypt` and `Packet::decrypt`

A packet body is a header byte whose low three bits say how much padding
follows, the padding, two filler bytes, the text and seven zero bytes, cut into
blocks that are enciphered in a chain. Both functions keep a position inside
the current block and change blocks when it reaches `8`; the loops here are
theirs, statement by statement.

`rand` is a function of the place of its call: `0` for the header byte, `1` for
the padding and `2`, `3` for the two filler bytes. `mem` is what lies behind the
received bytes in memory, and `outside`, a ghost, is set once a byte of it has
been read. Sizes are numbers: no text here is near the range of an `int`.
-/

namespace Eva

/-- `ByteArray`: what has been written, within the capacity. -/
structure ByteArray where
  capacity : Nat
  data : List UInt8
  fits : data.length ≤ capacity
deriving DecidableEq, Repr

namespace ByteArray

/-- `ByteArray( capacity )`. -/
def ofCapacity (capacity : Nat) : ByteArray := ⟨capacity, [], Nat.zero_le _⟩

/-- The bytes `d`, as `ByteArray( p, size )` takes them. -/
def ofData (d : List UInt8) : ByteArray := ⟨d.length, d, Nat.le_refl _⟩

/-- `size`. -/
def size (b : ByteArray) : Nat := b.data.length

/-- `append` and `+=`, both `copyAt( m_size, .. )`: nothing is written past the
capacity. -/
def append (b : ByteArray) (d : List UInt8) : ByteArray :=
  if h : b.size + d.length > b.capacity then b
  else ⟨b.capacity, b.data ++ d, by
    rw [List.length_append]
    exact Nat.le_of_not_gt h⟩

end ByteArray

/-- A block of zeros, as `memset` leaves it. -/
def zeroBlock : Block := fun _ => 0

/-- `a[i] ^= b[i]` for all eight bytes. -/
def xorBlock (a b : Block) : Block := fun i => a i ^^^ b i

/-- A block as bytes. -/
def bytes (b : Block) : List UInt8 := List.ofFn b

/-! ## encrypt -/

/-- The variables of `encrypt`. -/
structure EncState where
  plain : Block
  plain_pre : Block
  crypted_pre : Block
  pos : Nat
  isHeader : Bool
  encoded : ByteArray

/-- `encrypt64`, with what it leaves in `crypted`. -/
def encrypt64 (key : Key) (s : EncState) : Block × EncState :=
  let plain := xorBlock s.plain (if s.isHeader then s.plain_pre else s.crypted_pre)
  let crypted := xorBlock (TEA.encipher plain key) s.plain_pre
  (crypted, { s with plain := plain, plain_pre := plain, crypted_pre := crypted, isHeader := false })

/-- `if( pos < 8 ) plain[pos++] = b`. -/
def putPlain (b : UInt8) (s : EncState) : EncState :=
  if h : s.pos < 8 then
    { s with plain := Function.update s.plain ⟨s.pos, h⟩ b, pos := s.pos + 1 }
  else s

/-- `encrypt64` and `encoded.append( crypted, 8 )`. -/
def flush (key : Key) (s : EncState) : EncState :=
  let (crypted, s) := encrypt64 key s
  { s with encoded := s.encoded.append (bytes crypted) }

/-- The body of the filler and text loops. -/
def putByte (key : Key) (s : EncState) (b : UInt8) : EncState :=
  let s := putPlain b s
  if s.pos = 8 then { flush key s with pos := 0 } else s

/-- The loop over the trailing zeros; it breaks off at the end of a block. -/
def putZeros (key : Key) : Nat → EncState → EncState
  | 0, s => s
  | n + 1, s =>
    let s := putPlain 0 s
    if s.pos = 8 then flush key s else putZeros key n s

/-- The padding: what has to be added to `size + 10` for a multiple of 8. -/
def padding (size : Nat) : Nat :=
  let pos := (size + 10) % 8
  if pos ≠ 0 then 8 - pos else pos

/-- `( rand() & 0xf8 ) | pos`. -/
def headerByte (rand : Nat → UInt32) (size : Nat) : UInt8 :=
  ((rand 0 &&& 0xf8) ||| UInt32.ofNat (padding size)).toUInt8

/-- `rand() & 0xff`, as stored in a byte. -/
def randByte (rand : Nat → UInt32) (call : Nat) : UInt8 := (rand call &&& 0xff).toUInt8

/-- The first block up to the filler bytes, with `pos` behind the padding. -/
def encryptStart (rand : Nat → UInt32) (text : ByteArray) : EncState :=
  let pos := padding text.size
  { plain := fun i =>
      if i.val = 0 then headerByte rand text.size else if i.val ≤ pos then randByte rand 1 else 0
    plain_pre := zeroBlock
    crypted_pre := zeroBlock
    pos := pos + 1
    isHeader := true
    encoded := ByteArray.ofCapacity (text.size + 32) }

/-- `Packet::encrypt`. -/
def encrypt (rand : Nat → UInt32) (text : ByteArray) (key : Key) : ByteArray :=
  let s := encryptStart rand text
  let s := [randByte rand 2, randByte rand 3].foldl (putByte key) s
  let s := text.data.foldl (putByte key) s
  (putZeros key 7 s).encoded

/-! ## decrypt -/

/-- The received bytes, with the memory behind them. -/
structure Code where
  data : List UInt8
  mem : Nat → UInt8

/-- The byte at an offset from `code.data()`. -/
def Code.byteAt (c : Code) (i : Nat) : UInt8 := if h : i < c.data.length then c.data[i] else c.mem i

/-- The block at an offset. -/
def Code.blockAt (c : Code) (off : Nat) : Block := fun i => c.byteAt (off + i)

/-- The variables of `decrypt`. `crypt` and `crypt_pre` are offsets into the
code; `crypt_pre` is `none` while it points to `m`. -/
structure DecState where
  decrypted : Block
  crypt_pre : Option Nat
  crypt : Nat
  pos : Nat
  outside : Bool

/-- The block `crypt_pre` points to. -/
def DecState.preBlock (c : Code) (s : DecState) : Block :=
  match s.crypt_pre with
  | none => zeroBlock
  | some off => c.blockAt off

/-- Whether the byte at the position of the block `crypt_pre` points to is behind the code. -/
def DecState.preOutside (c : Code) (s : DecState) : Bool :=
  match s.crypt_pre with
  | none => false
  | some off => decide (c.data.length ≤ off + s.pos)

/-- `decrypt64`, with `crypt_pre` moved first. -/
def decrypt64 (c : Code) (key : Key) (pre : Option Nat) (s : DecState) : DecState :=
  { s with
    crypt_pre := pre
    decrypted := TEA.decipher (xorBlock s.decrypted (c.blockAt s.crypt)) key
    outside := s.outside || decide (c.data.length < s.crypt + 8) }

/-- `decrypt64`, `crypt += 8` and `pos = 0`. -/
def nextBlock (c : Code) (key : Key) (pre : Option Nat) (s : DecState) : DecState :=
  let s := decrypt64 c key pre s
  { s with crypt := s.crypt + 8, pos := 0 }

/-- The loop over the two filler bytes. `pos` is at most 8 here and in the next
loop, so where it is not below 8 it is 8. -/
def skipFillers (c : Code) (key : Key) (i : Nat) (s : DecState) : DecState :=
  if i < 2 then
    if s.pos < 8 then
      let s := { s with pos := s.pos + 1 }
      skipFillers c key (i + 1) (if s.pos = 8 then nextBlock c key (some 0) s else s)
    else skipFillers c key i (nextBlock c key (some 0) s)
  else s
termination_by (2 - i, s.pos)
decreasing_by
  · exact Prod.Lex.left _ _ (by omega)
  · exact Prod.Lex.right _ (by simp only [nextBlock]; omega)

/-- The loop over the text. -/
def readText (c : Code) (key : Key) (len i : Nat) (text : ByteArray) (s : DecState) :
    ByteArray × DecState :=
  if i < len then
    if h : s.pos < 8 then
      let text := text.append [s.preBlock c ⟨s.pos, h⟩ ^^^ s.decrypted ⟨s.pos, h⟩]
      let s := { s with pos := s.pos + 1, outside := s.outside || s.preOutside c }
      readText c key len (i + 1) text
        (if s.pos = 8 then nextBlock c key (some (s.crypt - 8)) s else s)
    else readText c key len i text (nextBlock c key (some (s.crypt - 8)) s)
  else (text, s)
termination_by (len - i, s.pos)
decreasing_by
  · exact Prod.Lex.left _ _ (by omega)
  · exact Prod.Lex.right _ (by simp only [nextBlock]; omega)

/-- The loop over the trailing zeros: whether they are zeros. At the end of a
block it deciphers one block more before it breaks off. -/
def readZeros (c : Code) (key : Key) : Nat → DecState → Bool × DecState
  | 0, s => (true, s)
  | n + 1, s =>
    if h : s.pos < 8 then
      if s.preBlock c ⟨s.pos, h⟩ ^^^ s.decrypted ⟨s.pos, h⟩ ≠ 0 then
        (false, { s with outside := s.outside || s.preOutside c })
      else
        let s := { s with pos := s.pos + 1, outside := s.outside || s.preOutside c }
        if s.pos = 8 then (true, decrypt64 c key (some s.crypt) s) else readZeros c key n s
    else (true, decrypt64 c key (some s.crypt) s)

theorem zero_lt_blockSize : 0 < 8 := by decide

/-- `decrypt` before the filler bytes: the first block, and `pos` behind the
padding. -/
def decryptStart (c : Code) (key : Key) : DecState :=
  let decrypted := TEA.decipher (c.blockAt 0) key
  { decrypted := decrypted
    crypt_pre := none
    crypt := 8
    pos := (decrypted ⟨0, zero_lt_blockSize⟩ &&& 0x7).toNat + 1
    outside := decide (c.data.length < 8) }

/-- `decrypt` behind its first block, with its variables at the end. -/
def decryptFrom (c : Code) (key : Key) (s : DecState) : ByteArray × DecState :=
  let len : Int := c.data.length - (s.pos - 1) - 10
  if len < 0 then (ByteArray.ofCapacity 0, s)
  else
    let s := skipFillers c key 0 s
    let (text, s) := readText c key len.toNat 0 (ByteArray.ofCapacity len.toNat) s
    let (zeros, s) := readZeros c key 7 s
    (if zeros then text else ByteArray.ofCapacity 0, s)

/-- `Packet::decrypt`. -/
def decrypt (mem : Nat → UInt8) (code : ByteArray) (key : Key) : ByteArray :=
  if code.size < 16 ∨ code.size % 8 ≠ 0 then ByteArray.ofCapacity 0
  else
    let c : Code := ⟨code.data, mem⟩
    (decryptFrom c key (decryptStart c key)).1

end Eva
