import Mathlib

/-!
# QQ — `TEA`

The block cipher under every QQ packet: sixteen rounds over two 32-bit words,
with a 128-bit key. The words are read from and written to memory in network
order (`ntohl`, `htonl`), so a block is its eight bytes, whatever the host.

Main results:

* `decipher_leftInverse` — under one key `decipher` undoes `encipher`;
* `encipher_decipher` — each of the two undoes the other.
-/

namespace Eva

/-- Eight bytes. -/
abbrev Block := Fin 8 → UInt8

/-- A key, `KeyLength` bytes. -/
abbrev Key := Fin 16 → UInt8

namespace TEA

/-- `ntohl` of four bytes in memory. -/
def ntohl (b0 b1 b2 b3 : UInt8) : UInt32 :=
  UInt32.ofNat (b0.toNat * 2 ^ 24 + b1.toNat * 2 ^ 16 + b2.toNat * 2 ^ 8 + b3.toNat)

/-- Byte `i` in memory of `htonl`. -/
def htonl (w : UInt32) (i : Nat) : UInt8 := UInt8.ofNat (w.toNat / 2 ^ (8 * (3 - i)))

/-- The variables of the loops. -/
structure Vars where
  y : UInt32
  z : UInt32
  sum : UInt32
deriving DecidableEq, Repr

def delta : UInt32 := 0x9E3779B9

/-- The term a word is moved by: `(v << 4) + k` and so on, over the other word. -/
def term (v k sum k' : UInt32) : UInt32 := ((v <<< 4) + k) ^^^ (v + sum) ^^^ ((v >>> 5) + k')

/-- The body of the loop of `encipher`. -/
def encRound (a b c d : UInt32) (v : Vars) : Vars :=
  let sum := v.sum + delta
  let y := v.y + term v.z a sum b
  let z := v.z + term y c sum d
  ⟨y, z, sum⟩

/-- The body of the loop of `decipher`. -/
def decRound (a b c d : UInt32) (v : Vars) : Vars :=
  let z := v.z - term v.y c v.sum d
  let y := v.y - term z a v.sum b
  ⟨y, z, v.sum - delta⟩

/-- Word `i` of a key. -/
def keyWord (k : Key) (i : Fin 4) : UInt32 :=
  ntohl (k ⟨4 * i, by omega⟩) (k ⟨4 * i + 1, by omega⟩) (k ⟨4 * i + 2, by omega⟩)
    (k ⟨4 * i + 3, by omega⟩)

/-- `v[0]` and `v[1]` in host order, with a start value for `sum`. -/
def load (v : Block) (sum : UInt32) : Vars :=
  ⟨ntohl (v 0) (v 1) (v 2) (v 3), ntohl (v 4) (v 5) (v 6) (v 7), sum⟩

/-- `w[0] = htonl(y); w[1] = htonl(z)`. -/
def store (v : Vars) : Block := fun i =>
  if i.val < 4 then htonl v.y i.val else htonl v.z (i.val - 4)

/-- `TEA::encipher`. -/
def encipher (v : Block) (k : Key) : Block :=
  store ((encRound (keyWord k 0) (keyWord k 1) (keyWord k 2) (keyWord k 3))^[0x10] (load v 0))

/-- `TEA::decipher`. -/
def decipher (v : Block) (k : Key) : Block :=
  store ((decRound (keyWord k 0) (keyWord k 1) (keyWord k 2) (keyWord k 3))^[0x10]
    (load v 0xE3779B90))

/-! ## Words and their bytes -/

theorem ntohl_htonl (w : UInt32) : ntohl (htonl w 0) (htonl w 1) (htonl w 2) (htonl w 3) = w := by
  have hw : w.toNat < 2 ^ 32 := w.toNat_lt
  apply UInt32.toNat_inj.mp
  simp only [ntohl, htonl, UInt32.toNat_ofNat', UInt8.toNat_ofNat']
  omega

theorem htonl_ntohl (b0 b1 b2 b3 : UInt8) (i : Nat) :
    htonl (ntohl b0 b1 b2 b3) i =
      match i with
      | 0 => b0
      | 1 => b1
      | 2 => b2
      | _ => b3 := by
  have h0 : b0.toNat < 2 ^ 8 := b0.toNat_lt
  have h1 : b1.toNat < 2 ^ 8 := b1.toNat_lt
  have h2 : b2.toNat < 2 ^ 8 := b2.toNat_lt
  have h3 : b3.toNat < 2 ^ 8 := b3.toNat_lt
  apply UInt8.toNat_inj.mp
  simp only [ntohl, htonl, UInt32.toNat_ofNat', UInt8.toNat_ofNat']
  match i with
  | 0 | 1 | 2 => simp only; omega
  | i + 3 =>
    have hshift : 8 * (3 - (i + 3)) = 0 := by omega
    rw [hshift]
    simp only
    omega

/-- Storing then loading keeps the words. -/
theorem load_store (v : Vars) : load (store v) v.sum = v := by
  cases v with
  | mk y z sum => simp [load, store, ntohl_htonl]

/-- Loading then storing keeps the bytes. -/
theorem store_load (v : Block) (sum : UInt32) : store (load v sum) = v := by
  funext i
  fin_cases i <;> simp [store, load, htonl_ntohl]

/-! ## The rounds -/

theorem decRound_encRound (a b c d : UInt32) :
    Function.LeftInverse (decRound a b c d) (encRound a b c d) := by
  intro v
  simp [decRound, encRound]

theorem encRound_decRound (a b c d : UInt32) :
    Function.LeftInverse (encRound a b c d) (decRound a b c d) := by
  intro v
  simp [decRound, encRound]

/-- `sum` moves by `delta` a round. -/
theorem encRound_iterate_sum (a b c d : UInt32) (n : Nat) (v : Vars) :
    ((encRound a b c d)^[n] v).sum = (fun s => s + delta)^[n] v.sum := by
  induction n generalizing v with
  | zero => rfl
  | succ n ih => rw [Function.iterate_succ_apply, Function.iterate_succ_apply, ih]; rfl

theorem decRound_iterate_sum (a b c d : UInt32) (n : Nat) (v : Vars) :
    ((decRound a b c d)^[n] v).sum = (fun s => s - delta)^[n] v.sum := by
  induction n generalizing v with
  | zero => rfl
  | succ n ih => rw [Function.iterate_succ_apply, Function.iterate_succ_apply, ih]; rfl

/-- Sixteen rounds on, `sum` is where `decipher` starts. -/
theorem sum_after : (fun s => s + delta)^[0x10] 0 = (0xE3779B90 : UInt32) := by decide

/-- Sixteen rounds back, it is where `encipher` starts. -/
theorem sum_before : (fun s => s - delta)^[0x10] 0xE3779B90 = (0 : UInt32) := by decide

/-- **`decipher` undoes `encipher`.** -/
theorem decipher_leftInverse (k : Key) :
    Function.LeftInverse (fun v => decipher v k) (fun v => encipher v k) := by
  intro v
  simp only [decipher, encipher]
  generalize keyWord k 0 = a, keyWord k 1 = b, keyWord k 2 = c, keyWord k 3 = d
  have hsum : ((encRound a b c d)^[0x10] (load v 0)).sum = 0xE3779B90 := by
    rw [encRound_iterate_sum]
    exact sum_after
  have hload := load_store ((encRound a b c d)^[0x10] (load v 0))
  rw [hsum] at hload
  rw [hload, (decRound_encRound a b c d).iterate 0x10, store_load]

/-- **`encipher` undoes `decipher`.** -/
theorem encipher_leftInverse (k : Key) :
    Function.LeftInverse (fun v => encipher v k) (fun v => decipher v k) := by
  intro v
  simp only [decipher, encipher]
  generalize keyWord k 0 = a, keyWord k 1 = b, keyWord k 2 = c, keyWord k 3 = d
  have hsum : ((decRound a b c d)^[0x10] (load v 0xE3779B90)).sum = 0 := by
    rw [decRound_iterate_sum]
    exact sum_before
  have hload := load_store ((decRound a b c d)^[0x10] (load v 0xE3779B90))
  rw [hsum] at hload
  rw [hload, (encRound_decRound a b c d).iterate 0x10, store_load]

/-- **Each undoes the other**, for every block and every key. -/
theorem encipher_decipher (v : Block) (k : Key) :
    decipher (encipher v k) k = v ∧ encipher (decipher v k) k = v :=
  ⟨decipher_leftInverse k v, encipher_leftInverse k v⟩

end TEA

end Eva
