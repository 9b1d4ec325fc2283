import Kopete.Oscar.BufferWrite

/-!
# Oscar — blocks with a length in front of them

`startBlock` leaves room for a length and remembers where, `endBlock` writes it there. Blocks
may be in blocks; what else is written goes behind the last byte.

Main results:

* `exec_ops` — a well-nested sequence puts its bytes, with the lengths, behind the last one;
* `blocks_filled` — so each length is read back as the size of its block.
-/

namespace Oscar

open DataStream

inductive BlockType where
  | BWord | BDWord
  deriving DecidableEq

inductive ByteOrder where
  | BigEndian | LittleEndian
  deriving DecidableEq

/-- `Buffer::Block`. -/
structure Block where
  type : BlockType
  byteOrder : ByteOrder
  pos : Nat
  deriving DecidableEq

/-- A `Buffer` that is written to, with its blocks, the last one first. -/
structure BlockBuffer where
  mBuffer : List UInt8
  mBlockStack : List Block
  deriving DecidableEq

/-- How many bytes a length has. -/
def BlockType.width : BlockType → Nat
  | .BWord => 2
  | .BDWord => 4

/-- What a length can hold. -/
def BlockType.capacity (type : BlockType) : Nat := 256 ^ type.width

namespace BlockBuffer

/-- What the `add*` functions do. -/
def write (s : List UInt8) (b : BlockBuffer) : BlockBuffer := { b with mBuffer := b.mBuffer ++ s }

/-- `startBlock`. What the new bytes are before they are written is not known. -/
def startBlock (fresh : Nat → UInt8) (type : BlockType) (byteOrder : ByteOrder) (b : BlockBuffer) :
    BlockBuffer :=
  { mBuffer := b.mBuffer ++ (List.range type.width).map fun i => fresh (b.mBuffer.length + i)
    mBlockStack := ⟨type, byteOrder, b.mBuffer.length⟩ :: b.mBlockStack }

/-- The bytes that `endBlock` writes. -/
def lengthBytes : BlockType → ByteOrder → Nat → List UInt8
  | .BWord, .BigEndian, size => [UInt8.ofNat (size / 2 ^ 8), UInt8.ofNat size]
  | .BDWord, .BigEndian, size =>
    [UInt8.ofNat (size / 2 ^ 24), UInt8.ofNat (size / 2 ^ 16), UInt8.ofNat (size / 2 ^ 8),
      UInt8.ofNat size]
  | .BWord, .LittleEndian, size => [UInt8.ofNat size, UInt8.ofNat (size / 2 ^ 8)]
  | .BDWord, .LittleEndian, size =>
    [UInt8.ofNat size, UInt8.ofNat (size / 2 ^ 8), UInt8.ofNat (size / 2 ^ 16),
      UInt8.ofNat (size / 2 ^ 24)]

/-- The assignments `mBuffer[pos++] = x`. -/
def assign (pos : Nat) : List UInt8 → List UInt8 → List UInt8
  | [], mBuffer => mBuffer
  | x :: xs, mBuffer => assign (pos + 1) xs (mBuffer.set pos x)

/-- `endBlock`; that there is a block is asserted. -/
def endBlock (b : BlockBuffer) : BlockBuffer :=
  match b.mBlockStack with
  | [] => b
  | block :: blocks =>
    let size := b.mBuffer.length - block.pos - block.type.width
    { mBuffer := assign block.pos (lengthBytes block.type block.byteOrder size) b.mBuffer
      mBlockStack := blocks }

end BlockBuffer

/-! ## Sequences -/

inductive BlockOp where
  | write (s : List UInt8)
  | startBlock (type : BlockType) (byteOrder : ByteOrder)
  | endBlock
  deriving DecidableEq

namespace BlockBuffer

variable (fresh : Nat → UInt8)

def step (b : BlockBuffer) : BlockOp → BlockBuffer
  | .write s => b.write s
  | .startBlock type byteOrder => b.startBlock fresh type byteOrder
  | .endBlock => b.endBlock

def exec (ops : List BlockOp) (b : BlockBuffer) : BlockBuffer := ops.foldl (step fresh) b

/-- The blocks in the order in which they end, each with the number of bytes there are then. -/
def ended : List BlockOp → BlockBuffer → List (Block × Nat)
  | [], _ => []
  | .endBlock :: ops, b =>
    (b.mBlockStack.take 1).map (fun block => (block, b.mBuffer.length)) ++ ended ops b.endBlock
  | op :: ops, b => ended ops (step fresh b op)

/-- The number of bytes of a block that has ended. -/
def enclosed (e : Block × Nat) : Nat := e.2 - e.1.pos - e.1.type.width

/-- The length of a block, read with its width and byte order. -/
def readLength (block : Block) (mBuffer : List UInt8) : Nat :=
  let b : Buffer := ⟨mBuffer, block.pos, false⟩
  match block.type, block.byteOrder with
  | .BWord, .BigEndian => b.getWord.1
  | .BDWord, .BigEndian => b.getDWord.1
  | .BWord, .LittleEndian => b.getLEWord.1
  | .BDWord, .LittleEndian => b.getLEDWord.1

/-- Every block that is started ends, and no other, where `depth` blocks have been started. -/
def wellNested : Nat → List BlockOp → Bool
  | depth, [] => depth = 0
  | depth, .write _ :: ops => wellNested depth ops
  | depth, .startBlock _ _ :: ops => wellNested (depth + 1) ops
  | 0, .endBlock :: _ => false
  | depth + 1, .endBlock :: ops => wellNested depth ops

/-- What an operation leaves behind the last byte: what is written, and room for lengths. -/
def layout : BlockOp → List (Option UInt8)
  | .write s => s.map some
  | .startBlock type _ => List.replicate type.width none
  | .endBlock => []

end BlockBuffer

/-! ## The blocks of a sequence -/

/-- A well-nested sequence, by its blocks. -/
inductive Nested where
  | done
  | write (s : List UInt8) (rest : Nested)
  | block (type : BlockType) (byteOrder : ByteOrder) (inner rest : Nested)

namespace Nested

open BlockBuffer

def ops : Nested → List BlockOp
  | .done => []
  | .write s rest => .write s :: rest.ops
  | .block type byteOrder inner rest =>
    .startBlock type byteOrder :: (inner.ops ++ .endBlock :: rest.ops)

/-- The bytes with all lengths. -/
def bytes : Nested → List UInt8
  | .done => []
  | .write s rest => s ++ rest.bytes
  | .block type byteOrder inner rest =>
    lengthBytes type byteOrder inner.bytes.length ++ (inner.bytes ++ rest.bytes)

/-- Up to the end of a block that has been started, a sequence is one of whole blocks. -/
theorem exists_before_end {depth : Nat} {ops : List BlockOp}
    (h : wellNested (depth + 1) ops = true) :
    ∃ (n : Nested) (rest : List BlockOp), ops = n.ops ++ .endBlock :: rest ∧
      wellNested depth rest = true := by
  induction hLength : ops.length using Nat.strongRecOn generalizing depth ops with
  | ind k ih =>
    subst hLength
    match ops, h with
    | .write s :: ops, h =>
      have hOps : wellNested (depth + 1) ops = true := h
      obtain ⟨n, rest, rfl, hRest⟩ := ih _ (Nat.lt_succ_self _) hOps rfl
      exact ⟨.write s n, rest, rfl, hRest⟩
    | .startBlock type byteOrder :: ops, h =>
      have hOps : wellNested (depth + 1 + 1) ops = true := h
      obtain ⟨inner, rest, rfl, hRest⟩ := ih _ (Nat.lt_succ_self _) hOps rfl
      have hShorter : rest.length < (BlockOp.startBlock type byteOrder ::
          (inner.ops ++ .endBlock :: rest)).length := by
        simp only [List.length_cons, List.length_append]
        omega
      obtain ⟨n, rest', rfl, hRest'⟩ := ih _ hShorter hRest rfl
      refine ⟨.block type byteOrder inner n, rest', ?_, hRest'⟩
      simp [Nested.ops]
    | .endBlock :: ops, h => exact ⟨.done, ops, rfl, h⟩

/-- **A well-nested sequence** is one of whole blocks. -/
theorem exists_ops {ops : List BlockOp} (h : wellNested 0 ops = true) :
    ∃ n : Nested, n.ops = ops := by
  induction hLength : ops.length using Nat.strongRecOn generalizing ops with
  | ind k ih =>
    subst hLength
    match ops, h with
    | [], _ => exact ⟨.done, rfl⟩
    | .write s :: ops, h =>
      have hOps : wellNested 0 ops = true := h
      obtain ⟨n, rfl⟩ := ih _ (Nat.lt_succ_self _) hOps rfl
      exact ⟨.write s n, rfl⟩
    | .startBlock type byteOrder :: ops, h =>
      obtain ⟨inner, rest, rfl, hRest⟩ := exists_before_end h
      have hShorter : rest.length < (BlockOp.startBlock type byteOrder ::
          (inner.ops ++ .endBlock :: rest)).length := by
        simp only [List.length_cons, List.length_append]
        omega
      obtain ⟨n, rfl⟩ := ih _ hShorter hRest rfl
      exact ⟨.block type byteOrder inner n, rfl⟩

end Nested

/-! ## What a sequence writes -/

namespace BlockBuffer

@[simp] theorem length_lengthBytes (type : BlockType) (byteOrder : ByteOrder) (size : Nat) :
    (lengthBytes type byteOrder size).length = type.width := by
  cases type <;> cases byteOrder <;> rfl

/-- Assigning bytes puts them in the place of as many others. -/
theorem assign_append (m s r t : List UInt8) (h : s.length = t.length) :
    assign m.length t (m ++ (s ++ r)) = m ++ (t ++ r) := by
  induction t generalizing m s with
  | nil =>
    rw [List.length_eq_zero_iff.mp h]
    rfl
  | cons x t ih =>
    match s, h with
    | y :: s, h =>
      have hSet : (m ++ (y :: s ++ r)).set m.length x = (m ++ [x]) ++ (s ++ r) := by
        rw [List.set_append_right _ _ (Nat.le_refl _), Nat.sub_self]
        simp
      have hNext := ih (m ++ [x]) s (Nat.succ.inj h)
      rw [List.length_append, List.length_singleton] at hNext
      rw [assign, hSet, hNext]
      simp

variable (fresh : Nat → UInt8)

theorem exec_append (xs ys : List BlockOp) (b : BlockBuffer) :
    exec fresh (xs ++ ys) b = exec fresh ys (exec fresh xs b) := List.foldl_append

theorem ended_append (xs ys : List BlockOp) (b : BlockBuffer) :
    ended fresh (xs ++ ys) b = ended fresh xs b ++ ended fresh ys (exec fresh xs b) := by
  induction xs generalizing b with
  | nil => rfl
  | cons op xs ih =>
    cases op with
    | endBlock =>
      rw [List.cons_append, ended, ended, ih, List.append_assoc]
      rfl
    | _ =>
      rw [List.cons_append, ended, ended, ih]
      · rfl
      all_goals simp

/-- The end of a block of which all inner blocks have ended. -/
theorem endBlock_filled (type : BlockType) (byteOrder : ByteOrder) (m s r : List UInt8)
    (blocks : List Block) (h : s.length = type.width) :
    endBlock ⟨m ++ s ++ r, ⟨type, byteOrder, m.length⟩ :: blocks⟩ =
      ⟨m ++ (lengthBytes type byteOrder r.length ++ r), blocks⟩ := by
  have hSize : (m ++ s ++ r).length - m.length - type.width = r.length := by
    simp only [List.length_append]
    omega
  unfold endBlock
  dsimp only
  rw [hSize, List.append_assoc, assign_append _ _ _ _ (by rw [h, length_lengthBytes])]

/-- **What a sequence of blocks writes**: its bytes, and the stack is as before. -/
theorem exec_ops (n : Nested) (b : BlockBuffer) :
    exec fresh n.ops b = ⟨b.mBuffer ++ n.bytes, b.mBlockStack⟩ := by
  induction n generalizing b with
  | done =>
    rw [Nested.bytes, List.append_nil]
    rfl
  | write s rest ih =>
    show exec fresh rest.ops (b.write s) = _
    rw [ih]
    simp [write, Nested.bytes]
  | block type byteOrder inner rest ihInner ihRest =>
    show exec fresh (inner.ops ++ .endBlock :: rest.ops) (b.startBlock fresh type byteOrder) = _
    rw [exec_append, ihInner]
    show exec fresh rest.ops (endBlock ⟨b.mBuffer ++ _ ++ inner.bytes, ⟨_, _, _⟩ :: _⟩) = _
    rw [endBlock_filled _ _ _ _ _ _ (by simp), ihRest]
    simp [Nested.bytes]

/-! ## The lengths -/

/-- The block that has ended is behind `m`, and its length is in the bytes `r` there. -/
def Filled (m r : List UInt8) (e : Block × Nat) : Prop :=
  m.length ≤ e.1.pos ∧ e.1.pos + e.1.type.width ≤ e.2 ∧ e.2 ≤ m.length + r.length ∧
    ∃ q, r.drop (e.1.pos - m.length) = lengthBytes e.1.type e.1.byteOrder (enclosed e) ++ q

/-- So it is where more bytes stand in front. -/
theorem Filled.behind {m s r : List UInt8} {e : Block × Nat} (h : Filled (m ++ s) r e)
    {t : List UInt8} (hSame : s.length = t.length) (q : List UInt8) : Filled m (t ++ (r ++ q)) e := by
  obtain ⟨hPos, hWidth, hSize, rest, hRest⟩ := h
  simp only [List.length_append] at hPos hSize hRest
  refine ⟨by omega, hWidth, by simp only [List.length_append]; omega, rest ++ q, ?_⟩
  obtain ⟨k, hk⟩ : ∃ k, e.1.pos = m.length + s.length + k := ⟨_, (Nat.add_sub_cancel' hPos).symm⟩
  have hDrop : e.1.pos - m.length = t.length + k := by omega
  have hDrop' : e.1.pos - (m.length + s.length) = k := by omega
  rw [hDrop'] at hRest
  rw [hDrop, ← List.drop_drop, List.drop_left, List.drop_append_of_le_length (by omega), hRest,
    List.append_assoc]

/-- **Every block that ends** has its length in the bytes of the sequence. -/
theorem filled_of_mem_ended (n : Nested) {b : BlockBuffer} {e : Block × Nat}
    (he : e ∈ ended fresh n.ops b) : Filled b.mBuffer n.bytes e := by
  induction n generalizing b with
  | done => exact absurd he List.not_mem_nil
  | write s rest ih =>
    have hRest : Filled (b.mBuffer ++ s) rest.bytes e := ih (b := b.write s) he
    have hBehind := hRest.behind rfl []
    rw [List.append_nil] at hBehind
    exact hBehind
  | block type byteOrder inner rest ihInner ihRest =>
    have hStart : e ∈ ended fresh (inner.ops ++ .endBlock :: rest.ops)
        (b.startBlock fresh type byteOrder) := he
    rw [ended_append, List.mem_append, exec_ops, ended, List.mem_append] at hStart
    rcases hStart with hInner | hHere | hRest
    · exact (ihInner hInner).behind (by simp) rest.bytes
    · rw [List.mem_map] at hHere
      obtain ⟨block, hBlock, rfl⟩ := hHere
      obtain rfl : block = ⟨type, byteOrder, b.mBuffer.length⟩ := List.mem_singleton.mp hBlock
      have hEnclosed : enclosed (⟨type, byteOrder, b.mBuffer.length⟩,
          ((b.startBlock fresh type byteOrder).mBuffer ++ inner.bytes).length) =
            inner.bytes.length := by
        simp only [enclosed, startBlock, List.length_append, List.length_map, List.length_range]
        omega
      refine ⟨Nat.le_refl _, ?_, ?_, inner.bytes ++ rest.bytes, ?_⟩
      · simp [startBlock]
      · simp [startBlock, Nested.bytes]
      · rw [hEnclosed, Nat.sub_self]
        rfl
    · have hEnd : endBlock ⟨(b.startBlock fresh type byteOrder).mBuffer ++ inner.bytes,
          (b.startBlock fresh type byteOrder).mBlockStack⟩ = _ :=
        endBlock_filled type byteOrder b.mBuffer _ inner.bytes b.mBlockStack (by simp)
      rw [hEnd] at hRest
      have hBehind := (ihRest hRest).behind rfl []
      rw [List.append_nil, List.append_assoc] at hBehind
      exact hBehind

theorem lengthBytes_eq (type : BlockType) (byteOrder : ByteOrder) (size : Nat) :
    lengthBytes type byteOrder size =
      match byteOrder with
      | .BigEndian => beBytes type.width size
      | .LittleEndian => leBytes type.width size := by
  cases type <;> cases byteOrder <;>
    simp [lengthBytes, BlockType.width, beBytes, leBytes, Nat.div_div_eq_div_mul]

/-- A length that fits is read back. -/
theorem readLength_drop {mBuffer q : List UInt8} {block : Block} {size : Nat}
    (hPos : block.pos ≤ mBuffer.length) (hSize : size < block.type.capacity)
    (h : mBuffer.drop block.pos = lengthBytes block.type block.byteOrder size ++ q) :
    readLength block mBuffer = size := by
  have hReady : Buffer.Ready ⟨mBuffer, block.pos, false⟩ :=
    ⟨Int.natCast_nonneg _, Int.ofNat_le.mpr hPos⟩
  obtain ⟨type, byteOrder, pos⟩ := block
  rw [lengthBytes_eq] at h
  unfold readLength
  cases type <;> cases byteOrder
  · exact congrArg Prod.fst (Buffer.reads_getWord hSize _ q hReady h)
  · exact congrArg Prod.fst (Buffer.reads_getLEWord hSize _ q hReady h)
  · exact congrArg Prod.fst (Buffer.reads_getDWord hSize _ q hReady h)
  · exact congrArg Prod.fst (Buffer.reads_getLEDWord hSize _ q hReady h)

/-- The bytes that are written stand where they are written. -/
theorem layout_bytes (n : Nested) :
    List.Forall₂ (fun o x => ∀ c ∈ o, c = x) (n.ops.flatMap layout) n.bytes := by
  induction n with
  | done => exact .nil
  | write s rest ih =>
    have hWritten : List.Forall₂ (fun o x => ∀ c ∈ o, c = x) (s.map some) s := by
      rw [List.forall₂_map_left_iff]
      exact List.forall₂_same.mpr fun x _ c hc => (Option.some.inj hc).symm
    exact List.rel_append hWritten ih
  | block type byteOrder inner rest ihInner ihRest =>
    have hRoom : List.Forall₂ (fun o x => ∀ c ∈ o, c = x)
        (List.replicate type.width (none : Option UInt8))
        (lengthBytes type byteOrder inner.bytes.length) := by
      rw [List.forall₂_iff_zip]
      refine ⟨by simp, fun {o x} hMem c hc => ?_⟩
      have hNone := List.eq_of_mem_replicate (List.of_mem_zip hMem).1
      rw [hNone] at hc
      exact absurd hc (by simp)
    rw [Nested.ops, Nested.bytes, List.flatMap_cons, List.flatMap_append, List.flatMap_cons]
    exact List.rel_append hRoom (List.rel_append ihInner ihRest)

/-- **Nested blocks**: behind a well-nested sequence the stack is as before, what has been
written stands where it was written, with room for the lengths, and the length of every block
is read as the number of bytes between its length and its end. -/
theorem blocks_filled (ops : List BlockOp) (b : BlockBuffer) (hNested : wellNested 0 ops = true)
    (hFits : ∀ e ∈ ended fresh ops b, enclosed e < e.1.type.capacity) :
    (exec fresh ops b).mBlockStack = b.mBlockStack ∧
      (∃ r, (exec fresh ops b).mBuffer = b.mBuffer ++ r ∧
        List.Forall₂ (fun o x => ∀ c ∈ o, c = x) (ops.flatMap layout) r) ∧
      ∀ e ∈ ended fresh ops b, readLength e.1 (exec fresh ops b).mBuffer = enclosed e := by
  obtain ⟨n, rfl⟩ := Nested.exists_ops hNested
  rw [exec_ops]
  refine ⟨rfl, ⟨n.bytes, rfl, layout_bytes n⟩, fun e he => ?_⟩
  obtain ⟨hPos, hWidth, hSize, q, hDrop⟩ := filled_of_mem_ended fresh n he
  have hBehind : (b.mBuffer ++ n.bytes).drop e.1.pos =
      lengthBytes e.1.type e.1.byteOrder (enclosed e) ++ q := by
    rw [← hDrop, List.drop_append, List.drop_eq_nil_of_le hPos, List.nil_append]
  refine readLength_drop ?_ (hFits e he) hBehind
  rw [List.length_append]
  omega

/-- A block in a block, with a word in each. -/
def twoBlocks : List BlockOp :=
  [.startBlock .BDWord .BigEndian, .write [1, 2], .startBlock .BWord .LittleEndian, .write [3, 4],
    .endBlock, .endBlock]

example : (exec (fun _ => 0xFF) twoBlocks ⟨[9], []⟩).mBuffer =
    [9, 0, 0, 0, 6, 1, 2, 2, 0, 3, 4] := by decide

theorem blocks_filled_twoBlocks :
    readLength ⟨.BDWord, .BigEndian, 1⟩ (exec (fun _ => 0xFF) twoBlocks ⟨[9], []⟩).mBuffer = 6 :=
  (blocks_filled (fun _ => 0xFF) twoBlocks ⟨[9], []⟩ (by decide) (by decide)).2.2
    (⟨.BDWord, .BigEndian, 1⟩, 11) (by decide)

end BlockBuffer

end Oscar
