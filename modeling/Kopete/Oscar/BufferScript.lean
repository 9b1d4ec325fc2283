import Kopete.Oscar.BufferWrite

/-!
# Oscar — writing and reading back

A script is a list of `add*` calls with their arguments. `readAll` makes the
`get*` calls of the same names in the same order.

All pairs but one are inverse to each other. `addLNTS` writes the length in
little-endian order, as `addLELNTS` does, and `getLNTS` reads it as a big-endian
`WORD`. So a script is read back exactly when the length of every `LNTS` in it,
with its NUL, is the same in both orders (`readAll_writeAll_iff`).
-/

namespace Oscar

open DataStream

namespace Buffer

/-- A write, with what is written. -/
inductive WriteOp
  | byte (x : UInt8)
  | word (w : Nat)
  | leWord (w : Nat)
  | dWord (dw : Nat)
  | leDWord (dw : Nat)
  | bstr (s : List UInt8)
  | buin (s : List UInt8)
  | lnts (s : List UInt8)
  | leLNTS (s : List UInt8)
  | leBlock (block : List UInt8)
  | leDBlock (block : List UInt8)
deriving DecidableEq, Repr

namespace WriteOp

/-- The value has its type, the string is free of NUL, and the length fits. -/
def WellFormed : WriteOp → Prop
  | .byte _ => True
  | .word w | .leWord w => w < 2 ^ 16
  | .dWord dw | .leDWord dw => dw < 2 ^ 32
  | .bstr s => 0 ∉ s ∧ s.length < 2 ^ 16
  | .buin s => 0 ∉ s ∧ s.length < 2 ^ 8
  | .lnts s | .leLNTS s => 0 ∉ s ∧ s.length + 1 < 2 ^ 16
  | .leBlock block => block.length < 2 ^ 16
  | .leDBlock block => block.length < 2 ^ 32

/-- The `add*` call. -/
def write : WriteOp → Buffer → Buffer
  | .byte x => addByte x
  | .word w => addWord w
  | .leWord w => addLEWord w
  | .dWord dw => addDWord dw
  | .leDWord dw => addLEDWord dw
  | .bstr s => addBSTR s
  | .buin s => addBUIN s
  | .lnts s => addLNTS s
  | .leLNTS s => addLELNTS s
  | .leBlock block => addLEBlock block
  | .leDBlock block => addLEDBlock block

/-- The `get*` call of the same name, as the write of what it returned. -/
def read : WriteOp → Buffer → WriteOp × Buffer
  | .byte _, b => (.byte b.getByte.1, b.getByte.2)
  | .word _, b => (.word b.getWord.1, b.getWord.2)
  | .leWord _, b => (.leWord b.getLEWord.1, b.getLEWord.2)
  | .dWord _, b => (.dWord b.getDWord.1, b.getDWord.2)
  | .leDWord _, b => (.leDWord b.getLEDWord.1, b.getLEDWord.2)
  | .bstr _, b => (.bstr b.getBSTR.1, b.getBSTR.2)
  | .buin _, b => (.buin b.getBUIN.1, b.getBUIN.2)
  | .lnts _, b => (.lnts b.getLNTS.1, b.getLNTS.2)
  | .leLNTS _, b => (.leLNTS b.getLELNTS.1, b.getLELNTS.2)
  | .leBlock _, b => (.leBlock b.getLEBlock.1, b.getLEBlock.2)
  | .leDBlock _, b => (.leDBlock b.getLEDBlock.1, b.getLEDBlock.2)

/-- The bytes of a write. -/
def bytes : WriteOp → List UInt8
  | .byte x => [x]
  | .word w => beBytes 2 w
  | .leWord w => leBytes 2 w
  | .dWord dw => beBytes 4 dw
  | .leDWord dw => leBytes 4 dw
  | .bstr s => beBytes 2 s.length ++ s
  | .buin s => [UInt8.ofNat s.length] ++ s
  | .lnts s | .leLNTS s => leBytes 2 (s.length + 1) ++ (s ++ [0])
  | .leBlock block => leBytes 2 block.length ++ block
  | .leDBlock block => leBytes 4 block.length ++ block

/-- The length of an `LNTS` is the same in both byte orders. -/
def OneOrder : WriteOp → Prop
  | .lnts s => (s.length + 1) % 2 ^ 8 = (s.length + 1) / 2 ^ 8
  | _ => True

end WriteOp

/-- The buffer a script fills. -/
def writeAll (script : List WriteOp) : Buffer := script.foldl (fun b op => op.write b) empty

/-- The values a script of the same calls reads, and the buffer after them. -/
def readAll : List WriteOp → Buffer → List WriteOp × Buffer
  | [], b => ([], b)
  | op :: script, b =>
    let (value, b) := op.read b
    let (values, b) := readAll script b
    (value :: values, b)

/-! ## One write -/

theorem write_eq {op : WriteOp} (h : op.WellFormed) (b : Buffer) :
    op.write b = b.addString op.bytes := by
  cases op with
  | byte x => exact addByte_eq x b
  | word w => exact addWord_eq w b
  | leWord w => exact addLEWord_eq w b
  | dWord dw => exact addDWord_eq dw b
  | leDWord dw => exact addLEDWord_eq dw b
  | bstr s => exact addBSTR_eq h.1 b
  | buin s => exact addBUIN_eq h.1 b
  | lnts s => exact addLNTS_eq h.1 b
  | leLNTS s => exact (addLELNTS_eq h.1 b).trans (addLNTS_eq h.1 b)
  | leBlock block => exact addLEBlock_eq block b
  | leDBlock block => exact addLEDBlock_eq block b

/-- The two bytes of a little-endian word, read in the other order. -/
theorem leBytes_two_swap (n : Nat) :
    leBytes 2 n = beBytes 2 (n % 2 ^ 8 * 2 ^ 8 + n / 2 ^ 8 % 2 ^ 8) := by
  have hLow : (n % 2 ^ 8 * 2 ^ 8 + n / 2 ^ 8 % 2 ^ 8) / 2 ^ 8 = n % 2 ^ 8 := by
    rw [Nat.mul_comm, Nat.mul_add_div (by decide), Nat.div_eq_of_lt (Nat.mod_lt _ (by decide)),
      Nat.add_zero]
  simp only [leBytes, beBytes, pow_one, pow_zero, Nat.div_one, List.cons.injEq, and_true,
    ← UInt8.toNat_inj, UInt8.toNat_ofNat']
  exact ⟨(congrArg (· % 2 ^ 8) hLow).trans (Nat.mod_mod ..) |>.symm, by omega⟩

/-- A read of the same name returns what was written. -/
theorem reads_read {op : WriteOp} (h : op.WellFormed) (hOrder : op.OneOrder) :
    Reads op.read op.bytes op := by
  cases op with
  | byte x => exact (reads_getByte x).map _
  | word w => exact (reads_getWord h).map _
  | leWord w => exact (reads_getLEWord h).map _
  | dWord dw => exact (reads_getDWord h).map _
  | leDWord dw => exact (reads_getLEDWord h).map _
  | bstr s => exact (reads_getBSTR h.2).map _
  | buin s => exact (reads_getBUIN h.2).map _
  | leLNTS s => exact (reads_getLELNTS h.2).map _
  | leBlock block => exact (reads_getLEBlock h).map _
  | leDBlock block => exact (reads_getLEDBlock h).map _
  | lnts s =>
    obtain ⟨-, hLength⟩ := h
    replace hOrder : (s.length + 1) % 2 ^ 8 = (s.length + 1) / 2 ^ 8 := hOrder
    have hSwap : (s.length + 1) % 2 ^ 8 * 2 ^ 8 + (s.length + 1) / 2 ^ 8 % 2 ^ 8 =
        s.length + 1 := by omega
    have hReads : Reads getLNTS (beBytes 2 (s.length + 1) ++ (s ++ [0])) s :=
      (reads_getWord hLength).bind getTerminated (reads_getTerminated s)
    have hBytes := leBytes_two_swap (s.length + 1)
    rw [hSwap] at hBytes
    rw [← hBytes] at hReads
    exact hReads.map _

/-- With the length in the other order, a longer or shorter string is read. -/
theorem getLNTS_ne {s r : List UInt8} {b : Buffer} (hLength : s.length + 1 < 2 ^ 16)
    (hOrder : (s.length + 1) % 2 ^ 8 ≠ (s.length + 1) / 2 ^ 8) (hb : Ready b)
    (hr : b.remaining = (WriteOp.lnts s).bytes ++ r) : b.getLNTS.1 ≠ s := by
  set m := (s.length + 1) % 2 ^ 8 * 2 ^ 8 + (s.length + 1) / 2 ^ 8 % 2 ^ 8 with hm
  rw [WriteOp.bytes, leBytes_two_swap, ← hm, List.append_assoc] at hr
  have hWord := reads_getWord (n := m) (by omega) b _ hb hr
  obtain ⟨hReady, hRest⟩ := hb.advance hr
  rw [length_beBytes] at hWord hReady hRest
  have hPos : m > 0 := by omega
  have hBlock := getBlock_take (m - 1) hReady.1 hReady.2
  rw [hRest] at hBlock
  have hValue : b.getLNTS.1 = (s ++ [0] ++ r).take (m - 1) := by
    simp only [getLNTS, hWord, getTerminated, if_pos hPos, hBlock]
  intro hSame
  have hCount := congrArg List.length (hValue.symm.trans hSame)
  simp only [List.length_take, List.length_append, List.length_singleton] at hCount
  omega

/-! ## Scripts -/

/-- Writes only add bytes. -/
theorem writeAll_eq {script : List WriteOp} (h : ∀ op ∈ script, op.WellFormed) :
    writeAll script = ofBytes (script.flatMap WriteOp.bytes) := by
  have hFold (b : Buffer) : script.foldl (fun b op => op.write b) b =
      b.addString (script.flatMap WriteOp.bytes) := by
    induction script generalizing b with
    | nil => exact (addString_nil b).symm
    | cons op script ih =>
      rw [List.foldl_cons, ih (fun op hop => h op (List.mem_cons_of_mem _ hop)),
        write_eq (h op List.mem_cons_self), addString_addString, List.flatMap_cons]
  rw [writeAll, hFold, addString_empty]

theorem reads_readAll {script : List WriteOp} (h : ∀ op ∈ script, op.WellFormed)
    (hOrder : ∀ op ∈ script, op.OneOrder) :
    Reads (readAll script) (script.flatMap WriteOp.bytes) script := by
  induction script with
  | nil => exact Reads.pure []
  | cons op script ih =>
    have hHead := reads_read (h op List.mem_cons_self) (hOrder op List.mem_cons_self)
    have hTail := ih (fun op hop => h op (List.mem_cons_of_mem _ hop))
      (fun op hop => hOrder op (List.mem_cons_of_mem _ hop))
    rw [List.flatMap_cons]
    exact hHead.map₂ List.cons hTail

/-- A script that is read back has every length in one order. -/
theorem oneOrder_of_readAll {script : List WriteOp} (h : ∀ op ∈ script, op.WellFormed)
    {b : Buffer} {r : List UInt8} (hb : Ready b)
    (hr : b.remaining = script.flatMap WriteOp.bytes ++ r) (hSame : (readAll script b).1 = script) :
    ∀ op ∈ script, op.OneOrder := by
  induction script generalizing b with
  | nil =>
    intro op hop
    cases hop
  | cons op script ih =>
    rw [List.flatMap_cons, List.append_assoc] at hr
    have hWF := h op List.mem_cons_self
    replace hSame : (op.read b).1 :: (readAll script (op.read b).2).1 = op :: script := hSame
    obtain ⟨hHead, hTail⟩ := List.cons.inj hSame
    have hOp : op.OneOrder := by
      by_contra hNot
      cases op with
      | lnts s => exact getLNTS_ne hWF.2 hNot hb hr (WriteOp.lnts.inj hHead)
      | _ => exact hNot trivial
    -- what is left after the first read starts with the second write
    have hRead := reads_read hWF hOp b _ hb hr
    obtain ⟨hReady, hRest⟩ := hb.advance hr
    have hScript := ih (fun op hop => h op (List.mem_cons_of_mem _ hop)) hReady hRest
      (by rwa [hRead] at hTail)
    intro op' hop'
    rcases List.mem_cons.mp hop' with rfl | hop'
    · exact hOp
    · exact hScript op' hop'

/--
**Scripts.** A well-formed script is read back, to the last byte, if and only if
the length of every `LNTS` in it is the same in both byte orders.
-/
theorem readAll_writeAll_iff (script : List WriteOp) (h : ∀ op ∈ script, op.WellFormed) :
    ((readAll script (writeAll script)).1 = script ∧
        (readAll script (writeAll script)).2.bytesAvailable = 0) ↔
      ∀ op ∈ script, op.OneOrder := by
  rw [writeAll_eq h]
  have hReady := ready_ofBytes (script.flatMap WriteOp.bytes)
  have hRemaining : (ofBytes (script.flatMap WriteOp.bytes)).remaining =
      script.flatMap WriteOp.bytes ++ [] := by rw [remaining_ofBytes, List.append_nil]
  constructor
  · rintro ⟨hSame, -⟩
    exact oneOrder_of_readAll h hReady hRemaining hSame
  · intro hOrder
    have hAll := reads_readAll h hOrder _ _ hReady hRemaining
    rw [hAll]
    refine ⟨rfl, ?_⟩
    simp [bytesAvailable, advance, size, ofBytes]

/-- Two pairs with different byte orders. -/
theorem readAll_writeAll_words :
    ((readAll [.word 1, .leLNTS [97]] (writeAll [.word 1, .leLNTS [97]])).1 =
        [.word 1, .leLNTS [97]] ∧
      (readAll [.word 1, .leLNTS [97]] (writeAll [.word 1, .leLNTS [97]])).2.bytesAvailable =
        0) ↔ ∀ op ∈ [WriteOp.word 1, .leLNTS [97]], op.OneOrder :=
  readAll_writeAll_iff _ (by simp [WriteOp.WellFormed])

/-- `addLNTS( "a" )` writes the length 2 as `02 00`. `getLNTS` takes it for 512
and returns the NUL as well. -/
theorem readAll_lnts : ¬ ∀ script : List WriteOp, (∀ op ∈ script, op.WellFormed) →
    (readAll script (writeAll script)).1 = script ∧
      (readAll script (writeAll script)).2.bytesAvailable = 0 := by
  intro h
  have hRead := (h [.lnts [97]] (by simp [WriteOp.WellFormed])).1
  exact absurd hRead (by decide)

end Buffer

end Oscar
