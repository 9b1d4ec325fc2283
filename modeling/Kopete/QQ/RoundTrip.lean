import Kopete.Lib.BlockChain
import Kopete.QQ.Packet

/-!
# QQ — the round trip of a packet body

`encrypt` and `decrypt` walk through one byte stream: header byte, padding,
fillers, text and zeros. Byte `k` of it is byte `k % 8` of block `k / 8` in the
chain of `qqChain`, so each loop is followed by one number, how many bytes of
the stream lie behind it.

Main results:

* `encrypt_data` — what `encrypt` writes is the chained cipher of the complete
  blocks of its stream;
* `decryptFrom_data` — what `decrypt` returns, for every code, in terms of the
  chained plain text;
* `decrypt_encrypt_iff` — the round trip succeeds exactly when the size of the
  text does not leave the remainder 7 when divided by 8.
-/

namespace Eva

/-- The chaining of `encrypt64` and `decrypt64`. -/
def qqChain (key : Key) : BlockChain Block where
  zero := zeroBlock
  mix := xorBlock
  enc := fun v => TEA.encipher v key
  dec := fun v => TEA.decipher v key
  zero_mix b := by
    funext i
    simp [xorBlock, zeroBlock]
  mix_comm a b := by
    funext i
    exact UInt8.xor_comm _ _
  mix_cancel a b := by
    funext i
    show a i ^^^ b i ^^^ b i = a i
    rw [UInt8.xor_assoc, UInt8.xor_self, UInt8.xor_zero]
  dec_enc := TEA.decipher_leftInverse key

/-- Block `j` of a byte stream. -/
def blockOf (S : Nat → UInt8) (j : Nat) : Block := fun i => S (8 * j + i)

/-- Byte `k` of a stream of blocks. -/
def byteOf (B : Nat → Block) (k : Nat) : UInt8 := B (k / 8) ⟨k % 8, Nat.mod_lt _ (by decide)⟩

/-- The first `n` bytes of a stream of blocks. -/
def firstBytes (B : Nat → Block) (n : Nat) : List UInt8 := (List.range n).map (byteOf B)

@[simp] theorem firstBytes_length (B : Nat → Block) (n : Nat) : (firstBytes B n).length = n := by
  simp [firstBytes]

theorem byteOf_blockOf (S : Nat → UInt8) (k : Nat) : byteOf (blockOf S) k = S k := by
  simp only [byteOf, blockOf, Nat.div_add_mod]

theorem byteOf_add (B : Nat → Block) (j : Nat) (i : Fin 8) : byteOf B (8 * j + i) = B j i := by
  have hdiv : (8 * j + i.val) / 8 = j := by omega
  have hmod : (8 * j + i.val) % 8 = i := by omega
  simp only [byteOf, hdiv, hmod]

theorem firstBytes_succ (B : Nat → Block) (j : Nat) :
    firstBytes B (8 * (j + 1)) = firstBytes B (8 * j) ++ bytes (B j) := by
  rw [firstBytes, show 8 * (j + 1) = 8 * j + 8 from rfl, List.range_add, List.map_append]
  refine congrArg _ (List.ext_getElem (by simp [bytes]) fun i hi _ => ?_)
  rw [List.length_map, List.length_map, List.length_range] at hi
  rw [List.getElem_map, List.getElem_map, List.getElem_range]
  simp only [bytes, List.getElem_ofFn]
  exact byteOf_add B j ⟨i, hi⟩

theorem ByteArray.append_data {b : ByteArray} {d : List UInt8}
    (h : b.data.length + d.length ≤ b.capacity) :
    (b.append d).data = b.data ++ d ∧ (b.append d).capacity = b.capacity := by
  rw [append, dif_neg (by simp only [size]; omega)]
  exact ⟨rfl, rfl⟩

/-! ## encrypt -/

/-- The encoder with `p` bytes of block `j` in `plain` and the blocks before it
written out. -/
structure EncAt (key : Key) (S : Nat → UInt8) (cap j p : Nat) (s : EncState) : Prop where
  pos : s.pos = p
  plain : ∀ i : Fin 8, i.val < p → s.plain i = blockOf S j i
  link : (s.plain_pre, s.crypted_pre) = (qqChain key).link (blockOf S) j
  header : s.isHeader = true → j = 0
  capacity : s.encoded.capacity = cap
  encoded : s.encoded.data = firstBytes ((qqChain key).cipher (blockOf S)) (8 * j)

/-- The encoder with `q` bytes of the stream behind it. -/
abbrev EncBehind (key : Key) (S : Nat → UInt8) (cap q : Nat) : EncState → Prop :=
  EncAt key S cap (q / 8) (q % 8)

variable {key : Key} {S : Nat → UInt8} {cap j p q : Nat}

theorem EncAt.putPlain {s : EncState} (h : EncAt key S cap j p s) (hp : p < 8) {b : UInt8}
    (hb : b = S (8 * j + p)) : EncAt key S cap j (p + 1) (putPlain b s) := by
  have hpos : s.pos < 8 := by rw [h.pos]; exact hp
  rw [Eva.putPlain, dif_pos hpos]
  refine ⟨congrArg (· + 1) h.pos, fun i hi => ?_, h.link, h.header, h.capacity, h.encoded⟩
  simp only [Function.update_apply]
  split
  · next hi' =>
    have hval : i.val = p := by rw [hi']; exact h.pos
    rw [hb, blockOf, hval]
  · next hi' =>
    have hne : i.val ≠ p := fun hval => hi' (Fin.ext (hval.trans h.pos.symm))
    exact h.plain i (by omega)

/-- A full block goes out as the next cipher block of the chain. -/
theorem EncAt.flush {s : EncState} (h : EncAt key S cap j 8 s) (hcap : 8 * (j + 1) ≤ cap) :
    EncAt key S cap (j + 1) 0 { flush key s with pos := 0 } := by
  obtain ⟨hpre, hcpre⟩ := Prod.mk.injEq .. ▸ h.link
  have hplain : s.plain = blockOf S j := funext fun i => h.plain i i.isLt
  -- before the first block both halves of the chain are zero
  have hmask : (if s.isHeader = true then s.plain_pre else s.crypted_pre) =
      ((qqChain key).link (blockOf S) j).2 := by
    split
    · next hh => rw [hpre, h.header hh]; rfl
    · exact hcpre
  have hfit : s.encoded.data.length + (bytes ((qqChain key).cipher (blockOf S) j)).length ≤
      s.encoded.capacity := by
    rw [h.encoded, h.capacity, firstBytes_length, bytes, List.length_ofFn]
    omega
  obtain ⟨hdata, hcapacity⟩ := ByteArray.append_data hfit
  have hcrypted : xorBlock (TEA.encipher (xorBlock s.plain
      (if s.isHeader = true then s.plain_pre else s.crypted_pre)) key) s.plain_pre =
      (qqChain key).cipher (blockOf S) j := by
    rw [hmask, hplain, hpre]
    rfl
  simp only [Eva.flush, encrypt64, hcrypted]
  refine ⟨rfl, fun i hi => by omega, ?_, Bool.noConfusion, hcapacity.trans h.capacity, ?_⟩
  · rw [hmask, hplain]
    rfl
  · rw [hdata, h.encoded, firstBytes_succ]

theorem EncAt.putByte {s : EncState} (h : EncAt key S cap j p s) (hp : p < 8) {b : UInt8}
    (hb : b = S (8 * j + p)) (hcap : 8 * (j + 1) ≤ cap) :
    EncBehind key S cap (8 * j + p + 1) (putByte key s b) := by
  have hput := h.putPlain hp hb
  rw [Eva.putByte]
  simp only [hput.pos]
  split
  · next h8 =>
    have hdiv : (8 * j + p + 1) / 8 = j + 1 := by omega
    have hmod : (8 * j + p + 1) % 8 = 0 := by omega
    rw [EncBehind, hdiv, hmod]
    exact (h8 ▸ hput).flush hcap
  · have hdiv : (8 * j + p + 1) / 8 = j := by omega
    have hmod : (8 * j + p + 1) % 8 = p + 1 := by omega
    rw [EncBehind, hdiv, hmod]
    exact hput

/-- A block that is already full goes out, and the byte is lost. -/
theorem EncAt.putByte_full {s : EncState} (h : EncAt key S cap j 8 s) (b : UInt8)
    (hcap : 8 * (j + 1) ≤ cap) : EncBehind key S cap (8 * j + 8) (Eva.putByte key s b) := by
  have hput : Eva.putPlain b s = s := dif_neg (by rw [h.pos]; omega)
  have hdiv : (8 * j + 8) / 8 = j + 1 := by omega
  have hmod : (8 * j + 8) % 8 = 0 := by omega
  rw [Eva.putByte, EncBehind, hdiv, hmod, hput]
  simp only [h.pos, if_true]
  exact h.flush hcap

/-- A stream given by the list of its bytes. -/
def streamOf (L : List UInt8) (k : Nat) : UInt8 := L.getD k 0

theorem streamOf_append (pre : List UInt8) (b : UInt8) (post : List UInt8) :
    streamOf (pre ++ b :: post) pre.length = b := by
  simp [streamOf]

theorem EncBehind.putByte {L pre post : List UInt8} {b : UInt8} {s : EncState}
    (h : EncBehind key (streamOf L) cap pre.length s) (hL : L = pre ++ b :: post)
    (hcap : L.length + 8 ≤ cap) :
    EncBehind key (streamOf L) cap (pre.length + 1) (Eva.putByte key s b) := by
  have hlen : pre.length < L.length := by
    rw [hL, List.length_append, List.length_cons]
    omega
  have hq : 8 * (pre.length / 8) + pre.length % 8 = pre.length := Nat.div_add_mod _ _
  have hput := EncAt.putByte h (b := b) (Nat.mod_lt _ (by decide))
    (by rw [hq, hL, streamOf_append]) (by omega)
  rwa [hq] at hput

/-- The filler and text loops, byte by byte. -/
theorem EncBehind.foldl {L pre post : List UInt8} (l : List UInt8) {s : EncState}
    (h : EncBehind key (streamOf L) cap pre.length s) (hL : L = pre ++ l ++ post)
    (hcap : L.length + 8 ≤ cap) :
    EncBehind key (streamOf L) cap (pre ++ l).length (l.foldl (Eva.putByte key) s) := by
  induction l generalizing pre s with
  | nil => rwa [List.append_nil]
  | cons b l ih =>
    have hL' : L = pre ++ b :: (l ++ post) := by rw [hL]; simp
    have hput := EncBehind.putByte h hL' hcap
    have hlen : (pre ++ [b]).length = pre.length + 1 := by simp
    rw [List.foldl_cons, show pre ++ b :: l = pre ++ [b] ++ l by simp]
    exact ih (hlen ▸ hput) (by rw [hL]; simp)

/-- The loop over the zeros writes the last block if they fill it. -/
theorem EncBehind.putZeros {L pre : List UInt8} (n : Nat) {s : EncState}
    (h : EncBehind key (streamOf L) cap pre.length s) (hL : L = pre ++ List.replicate n 0)
    (hn : pre.length % 8 + n ≤ 8) (hcap : L.length + 8 ≤ cap) :
    (putZeros key n s).encoded.data =
      firstBytes ((qqChain key).cipher (blockOf (streamOf L))) (8 * (L.length / 8)) := by
  induction n generalizing pre s with
  | zero =>
    rw [Eva.putZeros, h.encoded, hL]
    simp
  | succ n ih =>
    have hlen : L.length = pre.length + (n + 1) := by
      rw [hL, List.length_append, List.length_replicate]
    have hq : 8 * (pre.length / 8) + pre.length % 8 = pre.length := Nat.div_add_mod _ _
    have hput := h.putPlain (b := 0) (Nat.mod_lt _ (by decide)) (by
      rw [hq, hL, List.replicate_succ, streamOf_append])
    rw [Eva.putZeros]
    simp only [hput.pos]
    split
    · next h8 =>
      have hdiv : L.length / 8 = pre.length / 8 + 1 := by omega
      rw [hdiv]
      exact ((h8 ▸ hput).flush (by omega)).encoded
    · have hdiv : pre.length / 8 = (pre.length + 1) / 8 := by omega
      have hmod : pre.length % 8 + 1 = (pre.length + 1) % 8 := by omega
      have hpre : (pre ++ [0]).length = pre.length + 1 := by simp
      rw [hdiv, hmod, ← hpre] at hput
      exact ih hput (by rw [hL, List.replicate_succ]; simp) (by rw [hpre]; omega)

/-- The filler bytes that reach the stream. Where the padding fills the first
block, the first filler byte finds no room and is lost. -/
def fillers (rand : Nat → UInt32) (size : Nat) : List UInt8 :=
  if padding size = 7 then [randByte rand 3] else [randByte rand 2, randByte rand 3]

/-- What stands before the text. -/
def prologue (rand : Nat → UInt32) (size : Nat) : List UInt8 :=
  headerByte rand size :: List.replicate (padding size) (randByte rand 1) ++ fillers rand size

/-- The byte stream `encrypt` walks through. -/
def stream (rand : Nat → UInt32) (text : ByteArray) : List UInt8 :=
  prologue rand text.size ++ text.data ++ List.replicate 7 0

theorem padding_le (size : Nat) : padding size ≤ 7 := by
  simp only [padding]
  split <;> omega

theorem padding_add (size : Nat) : (size + 10 + padding size) % 8 = 0 := by
  simp only [padding]
  split <;> omega

theorem padding_eq_seven_iff (size : Nat) : padding size = 7 ↔ size % 8 = 7 := by
  simp only [padding]
  split <;> omega

variable {rand : Nat → UInt32} {text : ByteArray}

theorem prologue_length (rand : Nat → UInt32) (size : Nat) :
    (prologue rand size).length = if padding size = 7 then 9 else padding size + 3 := by
  simp only [prologue, fillers]
  split <;> simp_all

theorem stream_length (rand : Nat → UInt32) (text : ByteArray) :
    (stream rand text).length = (prologue rand text.size).length + text.size + 7 := by
  simp only [stream, ByteArray.size, List.length_append, List.length_replicate]

theorem encryptStart_at (key : Key) (rand : Nat → UInt32) (text : ByteArray) :
    EncAt key (streamOf (stream rand text)) (text.size + 32) 0 (padding text.size + 1)
      (encryptStart rand text) := by
  refine ⟨rfl, fun i hi => ?_, rfl, fun _ => rfl, rfl, rfl⟩
  have hget : streamOf (stream rand text) i.val =
      (headerByte rand text.size :: List.replicate (padding text.size) (randByte rand 1)).getD
        i.val 0 := by
    simp only [streamOf, stream, prologue, List.append_assoc]
    rw [List.getD_eq_getElem?_getD, List.getElem?_append_left (by simpa using hi),
      List.getD_eq_getElem?_getD]
  rw [blockOf, Nat.mul_zero, Nat.zero_add, hget]
  simp only [encryptStart]
  cases hval : i.val with
  | zero => rfl
  | succ k =>
    have hk : k + 1 ≤ padding text.size := by omega
    simp [hk]

/-- The state before the text, whether or not the first filler byte was lost. -/
theorem encrypt_prologue (key : Key) (rand : Nat → UInt32) (text : ByteArray) :
    EncBehind key (streamOf (stream rand text)) (text.size + 32) (prologue rand text.size).length
      ([randByte rand 2, randByte rand 3].foldl (putByte key) (encryptStart rand text)) := by
  have hstart := encryptStart_at key rand text
  have hpad := padding_le text.size
  have hcap : (stream rand text).length + 8 ≤ text.size + 32 := by
    rw [stream_length, prologue_length]
    split <;> omega
  by_cases h7 : padding text.size = 7
  · rw [h7] at hstart
    have hfull := hstart.putByte_full (randByte rand 2) (by omega)
    set full := headerByte rand text.size :: List.replicate 7 (randByte rand 1) with hdef
    have hlen : full.length = 8 := by simp [hdef]
    have hstream : stream rand text = full ++ [randByte rand 3] ++
        (text.data ++ List.replicate 7 0) := by
      simp [stream, prologue, fillers, h7, hdef]
    rw [Nat.mul_zero, Nat.zero_add, ← hlen] at hfull
    have hfold := EncBehind.foldl [randByte rand 3] hfull hstream hcap
    have hCount : (prologue rand text.size).length = (full ++ [randByte rand 3]).length := by
      simp [prologue, fillers, h7, hdef]
    rw [hCount, List.foldl_cons]
    exact hfold
  · set pre := headerByte rand text.size :: List.replicate (padding text.size) (randByte rand 1)
      with hdef
    have hlen : pre.length = padding text.size + 1 := by simp [hdef]
    have hstream : stream rand text = pre ++ [randByte rand 2, randByte rand 3] ++
        (text.data ++ List.replicate 7 0) := by
      simp [stream, prologue, fillers, h7, hdef]
    have hbehind : EncBehind key (streamOf (stream rand text)) (text.size + 32) pre.length
        (encryptStart rand text) := by
      have hdiv : pre.length / 8 = 0 := by omega
      have hmod : pre.length % 8 = padding text.size + 1 := by omega
      rw [EncBehind, hdiv, hmod]
      exact hstart
    have hfold := EncBehind.foldl [randByte rand 2, randByte rand 3] hbehind hstream hcap
    have hCount : (prologue rand text.size).length =
        (pre ++ [randByte rand 2, randByte rand 3]).length := by
      simp [prologue, fillers, h7, hdef]
    rw [hCount]
    exact hfold

/-- **What `encrypt` writes**: the cipher blocks of the complete blocks of its
stream. -/
theorem encrypt_data (rand : Nat → UInt32) (text : ByteArray) (key : Key) :
    (encrypt rand text key).data =
      firstBytes ((qqChain key).cipher (blockOf (streamOf (stream rand text))))
        (8 * ((stream rand text).length / 8)) := by
  have hcap : (stream rand text).length + 8 ≤ text.size + 32 := by
    have := padding_le text.size
    rw [stream_length, prologue_length]
    split <;> omega
  have hstream : stream rand text =
      prologue rand text.size ++ text.data ++ List.replicate 7 0 := rfl
  refine ((encrypt_prologue key rand text).foldl text.data hstream hcap).putZeros 7 hstream ?_ hcap
  have hlen : (prologue rand text.size ++ text.data).length =
      (prologue rand text.size).length + text.size := List.length_append
  have := padding_add text.size
  rw [hlen, prologue_length]
  split <;> omega

/-! ## decrypt -/

/-- The plain text of a code in the chain. -/
def plainOf (key : Key) (c : Code) : Nat → Block :=
  (qqChain key).plain fun j => c.blockAt (8 * j)

/-- The decoder in block `j`, `p` bytes of it behind it. -/
structure DecAt (key : Key) (c : Code) (j p : Nat) (s : DecState) : Prop where
  pos : s.pos = p
  decrypted : s.decrypted = ((qqChain key).unlink (fun j => c.blockAt (8 * j)) (j + 1)).1
  pre : s.preBlock c = ((qqChain key).unlink (fun j => c.blockAt (8 * j)) j).2
  crypt : s.crypt = 8 * (j + 1)

/-- The decoder with `q` bytes of the stream behind it. -/
abbrev DecBehind (key : Key) (c : Code) (q : Nat) : DecState → Prop :=
  DecAt key c (q / 8) (q % 8)

variable {c : Code}

/-- The byte under the position. -/
theorem DecAt.byte {s : DecState} (h : DecAt key c j p s) (hp : s.pos < 8) :
    s.preBlock c ⟨s.pos, hp⟩ ^^^ s.decrypted ⟨s.pos, hp⟩ = byteOf (plainOf key c) (8 * j + p) := by
  have hval : p = (⟨s.pos, hp⟩ : Fin 8).val := h.pos.symm
  rw [hval, byteOf_add, h.pre, h.decrypted]
  rfl

/-- The next block of the chain. Its predecessor is the block at `8 * j`. -/
theorem DecAt.nextBlock {s : DecState} (h : DecAt key c j p s) :
    DecAt key c (j + 1) 0 (nextBlock c key (some (8 * j)) s) := by
  refine ⟨rfl, ?_, rfl, ?_⟩
  · show TEA.decipher (xorBlock s.decrypted (c.blockAt s.crypt)) key = _
    rw [h.decrypted, h.crypt]
    rfl
  · show s.crypt + 8 = _
    rw [h.crypt]
    omega

/-- One byte on, and into the next block where the block ends. -/
theorem DecAt.advance {s : DecState} (h : DecAt key c j p s) (hp : p < 8) (pre : Option Nat)
    (outside : Bool) (hpre : p = 7 → pre = some (8 * j)) :
    DecBehind key c (8 * j + p + 1)
      (if s.pos + 1 = 8 then
        Eva.nextBlock c key pre { s with pos := s.pos + 1, outside := outside }
       else { s with pos := s.pos + 1, outside := outside }) := by
  have hnext : DecAt key c j (p + 1) { s with pos := s.pos + 1, outside := outside } :=
    ⟨congrArg (· + 1) h.pos, h.decrypted, h.pre, h.crypt⟩
  rw [h.pos] at hnext ⊢
  split
  · next h8 =>
    have hdiv : (8 * j + p + 1) / 8 = j + 1 := by omega
    have hmod : (8 * j + p + 1) % 8 = 0 := by omega
    rw [DecBehind, hdiv, hmod, hpre (by omega)]
    exact hnext.nextBlock
  · have hdiv : (8 * j + p + 1) / 8 = j := by omega
    have hmod : (8 * j + p + 1) % 8 = p + 1 := by omega
    rw [DecBehind, hdiv, hmod]
    exact hnext

theorem decryptStart_at (c : Code) (key : Key) :
    DecAt key c 0 ((byteOf (plainOf key c) 0 &&& 0x7).toNat + 1) (decryptStart c key) := by
  have hblock : TEA.decipher (c.blockAt 0) key =
      ((qqChain key).unlink (fun j => c.blockAt (8 * j)) 1).1 := by
    simp only [BlockChain.unlink, (qqChain key).zero_mix]
    rfl
  have hbyte : TEA.decipher (c.blockAt 0) key ⟨0, zero_lt_blockSize⟩ =
      byteOf (plainOf key c) 0 := by
    rw [hblock]
    show _ = (qqChain key).mix (qqChain key).zero
      ((qqChain key).unlink (fun j => c.blockAt (8 * j)) 1).1 0
    rw [(qqChain key).zero_mix]
    rfl
  refine ⟨?_, hblock, rfl, rfl⟩
  simp only [decryptStart, hbyte]

theorem DecBehind.skip {s : DecState} {i : Nat} (hi : i < 2)
    (h : DecBehind key c q s) (hq : q ≤ 9) :
    ∃ s', skipFillers c key i s = skipFillers c key (i + 1) s' ∧ DecBehind key c (q + 1) s' := by
  have hpos : s.pos < 8 := by
    have := h.pos
    omega
  refine ⟨_, by rw [skipFillers, if_pos hi, if_pos hpos], ?_⟩
  have hadv := h.advance (Nat.mod_lt _ (by decide)) (some 0) s.outside (fun h7 => by
    have : q / 8 = 0 := by omega
    rw [this])
  rwa [Nat.div_add_mod] at hadv

/-- The two filler bytes, from behind the padding. -/
theorem skipFillers_behind {s : DecState} (h : DecAt key c 0 p s) (hp : p ≤ 8) :
    DecBehind key c (p + 2) (skipFillers c key 0 s) := by
  have hrun : ∀ {q s}, DecBehind key c q s → q ≤ 8 →
      DecBehind key c (q + 2) (skipFillers c key 0 s) := by
    intro q s hq hle
    obtain ⟨s1, h1, hs1⟩ := DecBehind.skip (i := 0) (by omega) hq (by omega)
    obtain ⟨s2, h2, hs2⟩ := DecBehind.skip (i := 1) (by omega) hs1 (by omega)
    rw [h1, h2, skipFillers, if_neg (by omega)]
    exact hs2
  by_cases h8 : p = 8
  · -- the padding ended with the block: the next one is deciphered first
    subst h8
    have hpos : ¬ s.pos < 8 := by
      rw [h.pos]
      omega
    rw [skipFillers, if_pos (by omega), if_neg hpos]
    exact hrun h.nextBlock (Nat.le_refl 8)
  · have hdiv : p / 8 = 0 := by omega
    have hmod : p % 8 = p := by omega
    refine hrun ?_ (by omega)
    rw [DecBehind, hdiv, hmod]
    exact h

/-- The bytes of the plain text from `q` on. -/
def plainBytes (key : Key) (c : Code) (q n : Nat) : List UInt8 :=
  (List.range n).map fun t => byteOf (plainOf key c) (q + t)

theorem plainBytes_succ (key : Key) (c : Code) (q n : Nat) :
    plainBytes key c q (n + 1) =
      byteOf (plainOf key c) q :: plainBytes key c (q + 1) n := by
  simp only [plainBytes, List.range_succ_eq_map, List.map_cons, List.map_map, Nat.add_zero]
  refine congrArg _ (List.map_congr_left fun t _ => ?_)
  simp only [Function.comp_apply, Nat.succ_eq_add_one, Nat.add_assoc, Nat.add_comm 1]

/-- The text loop appends the plain text. -/
theorem readText_behind {len i n : Nat} (text : ByteArray) {s : DecState}
    (h : DecBehind key c q s) (hn : len = i + n)
    (hcap : text.data.length + n ≤ text.capacity) :
    (readText c key len i text s).1.data = text.data ++ plainBytes key c q n ∧
      DecBehind key c (q + n) (readText c key len i text s).2 := by
  induction n generalizing i q text s with
  | zero =>
    rw [readText, if_neg (by omega)]
    exact ⟨by simp [plainBytes], h⟩
  | succ n ih =>
    have hpos : s.pos < 8 := by
      have := h.pos
      omega
    have hbyte := h.byte hpos
    have hadv := h.advance (Nat.mod_lt _ (by decide)) (some (s.crypt - 8))
      (s.outside || s.preOutside c) (fun _ => by
        rw [h.crypt]
        rfl)
    rw [Nat.div_add_mod] at hbyte hadv
    rw [readText, if_pos (by omega), dif_pos hpos]
    simp only [hbyte]
    have hroom : text.data.length + [byteOf (plainOf key c) q].length ≤ text.capacity := by
      rw [List.length_singleton]
      omega
    obtain ⟨hdata, hcapacity⟩ := ByteArray.append_data hroom
    have hfit : (text.append [byteOf (plainOf key c) q]).data.length + n ≤
        (text.append [byteOf (plainOf key c) q]).capacity := by
      rw [hdata, hcapacity, List.length_append, List.length_singleton]
      omega
    obtain ⟨htext, hend⟩ := ih (i := i + 1) _ hadv (by omega) hfit
    refine ⟨?_, by rwa [show q + (n + 1) = q + 1 + n by omega]⟩
    rw [htext, hdata, plainBytes_succ, List.append_assoc]
    rfl

/-- The loop over the zeros checks the plain text to the end of the block. -/
theorem readZeros_behind {n : Nat} {s : DecState} (h : DecBehind key c q s)
    (hn : q % 8 + n ≤ 8) :
    (readZeros c key n s).1 = true ↔ plainBytes key c q n = List.replicate n 0 := by
  induction n generalizing q s with
  | zero => simp [readZeros, plainBytes]
  | succ n ih =>
    have hpos : s.pos < 8 := by
      have := h.pos
      omega
    have hbyte := h.byte hpos
    rw [Nat.div_add_mod] at hbyte
    rw [readZeros, dif_pos hpos, hbyte, plainBytes_succ, List.replicate_succ, List.cons.injEq]
    by_cases hzero : byteOf (plainOf key c) q = 0
    · rw [if_neg (not_not.mpr hzero)]
      simp only [hzero, true_and]
      split
      · next h8 =>
        have hn0 : n = 0 := by
          have := h.pos
          omega
        simp [hn0, plainBytes]
      · next h8 =>
        have hp : q % 8 < 7 := by
          have := h.pos
          omega
        have hadv := h.advance (by omega) none (s.outside || s.preOutside c) (by omega)
        rw [if_neg h8, Nat.div_add_mod] at hadv
        exact ih hadv (by omega)
    · rw [if_pos hzero]
      simp [hzero]

/-- The padding a code announces. -/
def codePadding (key : Key) (c : Code) : Nat := (byteOf (plainOf key c) 0 &&& 0x7).toNat

/-- `decrypt` with room for `n` bytes of text. -/
theorem decryptFrom_eq {n : Nat} {s : DecState}
    (hn : (c.data.length : Int) - ((s.pos : Int) - 1) - 10 = n) :
    (decryptFrom c key s).1 =
      if (readZeros c key 7 (readText c key n 0 (ByteArray.ofCapacity n)
        (skipFillers c key 0 s)).2).1 = true
      then (readText c key n 0 (ByteArray.ofCapacity n) (skipFillers c key 0 s)).1
      else ByteArray.ofCapacity 0 := by
  simp only [decryptFrom, hn, Int.toNat_natCast, if_neg (show ¬ (n : Int) < 0 by omega)]

/-- **What `decrypt` returns**, for every code of complete blocks that is long
enough for the padding `p` it announces: the plain text between the fillers and
the last seven bytes, if these are zeros. -/
theorem decryptFrom_data {s : DecState} (hstart : DecAt key c 0 (p + 1) s) (hp : p ≤ 7)
    (hlen : c.data.length % 8 = 0) (hsize : p + 10 ≤ c.data.length) :
    (decryptFrom c key s).1.data =
      if plainBytes key c (c.data.length - 7) 7 = List.replicate 7 0 then
        plainBytes key c (p + 3) (c.data.length - p - 10)
      else [] := by
  have hn : (c.data.length : Int) - ((s.pos : Int) - 1) - 10 = (c.data.length - p - 10 : Nat) := by
    rw [hstart.pos]
    omega
  obtain ⟨hdata, hend⟩ := readText_behind (n := c.data.length - p - 10)
    (ByteArray.ofCapacity (c.data.length - p - 10)) (skipFillers_behind hstart (by omega))
    (Nat.zero_add _).symm (Nat.le_of_eq (Nat.zero_add _))
  have hq : p + 1 + 2 + (c.data.length - p - 10) = c.data.length - 7 := by omega
  rw [hq] at hend
  have hzeros := readZeros_behind hend (n := 7) (by omega)
  rw [decryptFrom_eq hn]
  by_cases hz : plainBytes key c (c.data.length - 7) 7 = List.replicate 7 0
  · rw [if_pos hz, if_pos (hzeros.mpr hz), hdata, ByteArray.ofCapacity, List.nil_append]
  · rw [if_neg hz, if_neg (fun h => hz (hzeros.mp h)), ByteArray.ofCapacity]

/-- With no room for a text nothing is returned. -/
theorem decryptFrom_short {s : DecState} (hpos : s.pos = p + 1)
    (hsize : c.data.length < p + 10) : (decryptFrom c key s).1.data = [] := by
  have hneg : (c.data.length : Int) - ((s.pos : Int) - 1) - 10 < 0 := by
    rw [hpos]
    omega
  simp only [decryptFrom, if_pos hneg, ByteArray.ofCapacity]

/-! ## The round trip -/

/-- What `decrypt` gets when it is handed what `encrypt` wrote. -/
def sent (mem : Nat → UInt8) (rand : Nat → UInt32) (text : ByteArray) (key : Key) : Code :=
  ⟨(encrypt rand text key).data, mem⟩

variable {mem : Nat → UInt8}

theorem sent_length (mem : Nat → UInt8) (rand : Nat → UInt32) (text : ByteArray) (key : Key) :
    (sent mem rand text key).data.length = 8 * ((stream rand text).length / 8) := by
  rw [sent, encrypt_data, firstBytes_length]

theorem sent_blockAt {j : Nat} (h : j < (stream rand text).length / 8) :
    (sent mem rand text key).blockAt (8 * j) =
      (qqChain key).cipher (blockOf (streamOf (stream rand text))) j := by
  funext i
  have hlt : 8 * j + i.val < (sent mem rand text key).data.length := by
    rw [sent_length]
    omega
  rw [Code.blockAt, Code.byteAt, dif_pos hlt]
  simp only [sent, encrypt_data, firstBytes, List.getElem_map, List.getElem_range]
  exact byteOf_add _ j i

/-- The decoder sees the encoder's stream, as far as it was written. -/
theorem sent_plain {q : Nat} (h : q < (sent mem rand text key).data.length) :
    byteOf (plainOf key (sent mem rand text key)) q = streamOf (stream rand text) q := by
  rw [sent_length] at h
  have hblock : plainOf key (sent mem rand text key) (q / 8) =
      blockOf (streamOf (stream rand text)) (q / 8) :=
    (qqChain key).plain_cipher fun i hi => sent_blockAt (by omega)
  rw [byteOf, hblock]
  exact byteOf_blockOf _ q

theorem sent_plainBytes {q n : Nat} (h : q + n ≤ (sent mem rand text key).data.length) :
    plainBytes key (sent mem rand text key) q n = ((stream rand text).drop q).take n := by
  have hlen := sent_length mem rand text key
  refine List.ext_getElem (by simp [plainBytes]; omega) fun i hi _ => ?_
  have hin : i < n := by simpa [plainBytes] using hi
  have hstream : q + i < (stream rand text).length := by omega
  simp only [plainBytes, List.getElem_map, List.getElem_range, List.getElem_take, List.getElem_drop]
  rw [sent_plain (by omega), streamOf, List.getD_eq_getElem?_getD, List.getElem?_eq_getElem hstream,
    Option.getD_some]

/-- The low bits of the header byte are the padding. -/
theorem headerByte_and (rand : Nat → UInt32) (size : Nat) :
    (headerByte rand size &&& 0x7).toNat = padding size := by
  have hpad : padding size % 8 = padding size := Nat.mod_eq_of_lt (by
    have := padding_le size
    omega)
  have hmask : ∀ n : Nat, n &&& 7 = n % 2 ^ 3 := fun n => Nat.and_two_pow_sub_one_eq_mod n 3
  simp only [headerByte, UInt8.toNat_and, UInt32.toNat_toUInt8, UInt32.toNat_or, UInt32.toNat_and,
    UInt32.toNat_ofNat', UInt32.reduceToNat, UInt8.reduceToNat, hmask]
  rw [Nat.mod_mod_of_dvd _ (by decide), Nat.or_mod_two_pow, Nat.and_mod_two_pow,
    Nat.mod_mod_of_dvd _ (by decide)]
  simpa using hpad

theorem sent_start (mem : Nat → UInt8) (rand : Nat → UInt32) (text : ByteArray) (key : Key)
    (h : 0 < (sent mem rand text key).data.length) :
    DecAt key (sent mem rand text key) 0 (padding text.size + 1)
      (decryptStart (sent mem rand text key) key) := by
  have hhead : byteOf (plainOf key (sent mem rand text key)) 0 = headerByte rand text.size :=
    sent_plain h
  have hstart := decryptStart_at (sent mem rand text key) key
  rwa [hhead, headerByte_and] at hstart

theorem decrypt_encrypt_eq (h : 16 ≤ (sent mem rand text key).data.length) :
    decrypt mem (encrypt rand text key) key =
      (decryptFrom (sent mem rand text key) key (decryptStart (sent mem rand text key) key)).1 := by
  have hlen := sent_length mem rand text key
  rw [decrypt, if_neg]
  · rfl
  · simp only [ByteArray.size]
    simp only [sent] at h hlen
    omega

/-- The round trip with whole blocks. -/
theorem decrypt_encrypt_of_ne (h : padding text.size ≠ 7) :
    (decrypt mem (encrypt rand text key) key).data = text.data := by
  have hlen := sent_length mem rand text key
  have hstream := stream_length rand text
  have hpad := padding_add text.size
  have hle := padding_le text.size
  rw [prologue_length, if_neg h] at hstream
  have hfull : (sent mem rand text key).data.length = padding text.size + text.size + 10 := by
    omega
  rw [decrypt_encrypt_eq (by omega), decryptFrom_data (sent_start mem rand text key (by omega)) hle
    (by omega) (by omega), sent_plainBytes (by omega), sent_plainBytes (by omega)]
  have hpro : (prologue rand text.size).length = padding text.size + 3 := by
    rw [prologue_length, if_neg h]
  have hzeros : (stream rand text).drop ((sent mem rand text key).data.length - 7) =
      List.replicate 7 0 :=
    List.drop_left' (by simp only [List.length_append, hpro, ByteArray.size] at *; omega)
  have htext : ((stream rand text).drop (padding text.size + 3)).take
      ((sent mem rand text key).data.length - padding text.size - 10) = text.data := by
    rw [stream, List.append_assoc, List.drop_left' hpro]
    exact List.take_left' (by simp only [ByteArray.size] at *; omega)
  rw [hzeros, if_pos (by rfl), htext]

/-- The round trip with a filler byte lost: the end of the last block is never
written, and the decoder takes eight bytes too few for the text. -/
theorem decrypt_encrypt_length (mem : Nat → UInt8) (rand : Nat → UInt32) {text : ByteArray}
    (key : Key) (h : padding text.size = 7) :
    (decrypt mem (encrypt rand text key) key).data.length < text.size := by
  have hlen := sent_length mem rand text key
  have hstream := stream_length rand text
  have hpad := padding_add text.size
  rw [prologue_length, if_pos h] at hstream
  have hfull : (sent mem rand text key).data.length = text.size + 9 := by omega
  have hstart := sent_start mem rand text key (by omega)
  rw [decrypt_encrypt_eq (by omega)]
  by_cases hsize : padding text.size + 10 ≤ (sent mem rand text key).data.length
  · rw [decryptFrom_data hstart (by omega) (by omega) hsize]
    split
    · rw [plainBytes, List.length_map, List.length_range]
      omega
    · rw [List.length_nil]
      omega
  · rw [decryptFrom_short hstart.pos (by omega), List.length_nil]
    omega

/--
**When the round trip succeeds.** For every text, key, `rand` and memory behind
the code, `decrypt` gives back what `encrypt` was given if and only if the size
of the text does not leave the remainder 7 when divided by 8.
-/
theorem decrypt_encrypt_iff (mem : Nat → UInt8) (rand : Nat → UInt32) (text : ByteArray)
    (key : Key) :
    (decrypt mem (encrypt rand text key) key).data = text.data ↔ text.size % 8 ≠ 7 := by
  rw [← not_iff_not, not_not, ← padding_eq_seven_iff]
  constructor
  · intro hne
    by_contra h7
    exact hne (decrypt_encrypt_of_ne h7)
  · intro h7 heq
    have hlt := decrypt_encrypt_length mem rand key h7
    rw [heq] at hlt
    exact Nat.lt_irrefl _ hlt

/-- Seven bytes of text. -/
theorem decrypt_encrypt_seven :
    ¬ ∀ (mem : Nat → UInt8) (rand : Nat → UInt32) (text : ByteArray) (key : Key),
      (decrypt mem (encrypt rand text key) key).data = text.data := by
  intro h
  have h7 : padding (ByteArray.ofData [1, 2, 3, 4, 5, 6, 7]).size = 7 := by decide
  have hlt := decrypt_encrypt_length (fun _ => 0) (fun _ => 0xdead) (fun _ => 0) h7
  rw [h] at hlt
  exact Nat.lt_irrefl _ hlt

end Eva
