import Mathlib

/-!
# Chained block ciphers — both neighbours mixed in

A chaining in which each block is mixed with the *cipher* block before it ahead
of the cipher, and with the *input* of the cipher before it behind the cipher.
With `X j` what went into the cipher for the block before `j`, and `C j` what
came out for it,

    X (j + 1) = P j + C j        C (j + 1) = enc (X (j + 1)) + X j

Blocks are numbered and a stream is a function of the number, so a finite
message is read through the numbers it covers.

Main results:

* `unlink_cipher` — the decoder's state follows the encoder's, as far as the
  cipher blocks are the encoder's;
* `plain_cipher` — so it gives back the blocks.
-/

/-- A block cipher with a self-inverse mixing of blocks. -/
structure BlockChain (B : Type*) where
  zero : B
  mix : B → B → B
  enc : B → B
  dec : B → B
  zero_mix : ∀ b, mix zero b = b
  mix_comm : ∀ a b, mix a b = mix b a
  mix_cancel : ∀ a b, mix (mix a b) b = a
  dec_enc : Function.LeftInverse dec enc

namespace BlockChain

variable {B : Type*} (K : BlockChain B)

/-- The encoder before block `j`: the last input of the cipher and the last
cipher block. -/
def link (P : Nat → B) : Nat → B × B
  | 0 => (K.zero, K.zero)
  | j + 1 =>
    let s := link P j
    let x := K.mix (P j) s.2
    (x, K.mix (K.enc x) s.1)

/-- The cipher block of block `j`. -/
def cipher (P : Nat → B) (j : Nat) : B := (K.link P (j + 1)).2

/-- The decoder before cipher block `j`: the last output of the inverse cipher
and the last cipher block. -/
def unlink (C : Nat → B) : Nat → B × B
  | 0 => (K.zero, K.zero)
  | j + 1 => (K.dec (K.mix (unlink C j).1 (C j)), C j)

/-- The block of cipher block `j`. -/
def plain (C : Nat → B) (j : Nat) : B := K.mix (K.unlink C j).2 (K.unlink C (j + 1)).1

/-- Decoding up to a block looks at no later one. -/
theorem unlink_congr {C C' : Nat → B} {j : Nat} (h : ∀ i < j, C i = C' i) :
    K.unlink C j = K.unlink C' j := by
  induction j with
  | zero => rfl
  | succ j ih => rw [unlink, unlink, ih fun i hi => h i (by omega), h j (by omega)]

theorem plain_congr {C C' : Nat → B} {j : Nat} (h : ∀ i ≤ j, C i = C' i) :
    K.plain C j = K.plain C' j := by
  rw [plain, plain, K.unlink_congr fun i hi => h i (by omega),
    K.unlink_congr fun i (hi : i < j + 1) => h i (by omega)]

/-- The decoder's step undoes the encoder's. -/
theorem dec_mix_cipher (P : Nat → B) (j : Nat) :
    K.dec (K.mix (K.link P j).1 (K.cipher P j)) = (K.link P (j + 1)).1 := by
  rw [K.mix_comm, cipher]
  simp only [link]
  rw [K.mix_cancel, K.dec_enc]

/-- **The decoder follows the encoder.** -/
theorem unlink_cipher {P C : Nat → B} {j : Nat} (h : ∀ i < j, C i = K.cipher P i) :
    K.unlink C j = K.link P j := by
  induction j with
  | zero => rfl
  | succ j ih =>
    have hPrev : K.unlink C j = K.link P j := ih fun i hi => h i (by omega)
    have hC : C j = K.cipher P j := h j (by omega)
    rw [unlink, hPrev, hC, K.dec_mix_cipher]
    rfl

/-- **Decoding gives back the blocks.** -/
theorem plain_cipher {P C : Nat → B} {j : Nat} (h : ∀ i ≤ j, C i = K.cipher P i) :
    K.plain C j = P j := by
  rw [plain, K.unlink_cipher fun i hi => h i (by omega),
    K.unlink_cipher fun i (hi : i < j + 1) => h i (by omega), K.mix_comm]
  exact K.mix_cancel _ _

end BlockChain
