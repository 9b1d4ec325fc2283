import Kopete.QQ.RoundTrip

/-!
# QQ — the bytes that `Packet::decrypt` reads

The padding that a packet announces decides where its text starts and how long it is,
and with that where each loop of `decrypt` stands in its block. The three loops keep
inside the code, whatever the padding. What does not is the block that the last of them
deciphers behind the seventh zero: there is none left, so each packet that decrypts to
a text has eight bytes behind it read.

Main results:

* `readZeros_outside` — the last loop leaves the code exactly when it finds the zeros;
* `decryptOutside_iff`, `decrypt_safe_iff` — the codes for which `decrypt` stays inside.
-/

namespace Eva

variable {c : Code} {key : Key} {q : Nat} {s : DecState}

/-! ## What decrypt should keep to -/

/-- Whether `decrypt` has read a byte behind the code. -/
def decryptOutside (mem : Nat → UInt8) (code : ByteArray) (key : Key) : Bool :=
  if code.size < 16 ∨ code.size % 8 ≠ 0 then false
  else
    let c : Code := ⟨code.data, mem⟩
    (decryptFrom c key (decryptStart c key)).2.outside

/-- **Safety of `decrypt`**: no byte is read outside the code, the text is written within
its capacity, and it is empty or shorter than the code by ten bytes. -/
structure DecryptSafe (mem : Nat → UInt8) (code : ByteArray) (key : Key) : Prop where
  inside : decryptOutside mem code key = false
  fits : (decrypt mem code key).size ≤ (decrypt mem code key).capacity
  short : (decrypt mem code key).size = 0 ∨ (decrypt mem code key).size + 10 ≤ code.size

/-- The code by itself. -/
def bare (code : ByteArray) : Code := ⟨code.data, fun _ => 0⟩

/-- The code is one of a text: it consists of complete blocks, at least two, has room for
the padding it announces, and the last seven bytes under its cipher are zeros. -/
structure HoldsText (code : ByteArray) (key : Key) : Prop where
  long : 16 ≤ code.size
  blocks : code.size % 8 = 0
  room : codePadding key (bare code) + 10 ≤ code.size
  zeros : plainBytes key (bare code) (code.size - 7) 7 = List.replicate 7 0

/-! ## The loops -/

/-- Nothing outside has been read with `q` bytes of the stream behind the decoder, and
`crypt_pre` points to a block of the code. -/
structure Inside (c : Code) (q : Nat) (s : DecState) : Prop where
  outside : s.outside = false
  pre : ∀ off, s.crypt_pre = some off → off + 8 ≤ c.data.length
  place : s.crypt + s.pos = q + 8
  aligned : s.crypt % 8 = 0
  behindFirst : 8 ≤ s.crypt
  inCode : s.crypt ≤ c.data.length

theorem Inside.preOutside (h : Inside c q s) (hPos : s.pos < 8) : s.preOutside c = false := by
  rw [DecState.preOutside]
  rcases hPre : s.crypt_pre with _ | off
  · rfl
  · have hBlock := h.pre off hPre
    simp only [decide_eq_false_iff_not]
    omega

/-- One byte on, past a byte that was not looked at. -/
theorem Inside.skip (h : Inside c q s) : Inside c (q + 1) { s with pos := s.pos + 1 } :=
  ⟨h.outside, h.pre, by have := h.place; simp only; omega, h.aligned, h.behindFirst, h.inCode⟩

/-- One byte on, past a byte that was read. -/
theorem Inside.read (h : Inside c q s) (hPos : s.pos < 8) :
    Inside c (q + 1) { s with pos := s.pos + 1, outside := s.outside || s.preOutside c } := by
  rw [h.preOutside hPos, Bool.or_false]
  exact h.skip

/-- **The next block** is there as long as bytes of the stream are left. -/
theorem Inside.nextBlock (h : Inside c q s) (hPos : s.pos = 8) (hMore : q < c.data.length)
    (hBlocks : c.data.length % 8 = 0) {off : Nat} (hOff : off + 8 ≤ c.data.length) :
    Inside c q (nextBlock c key (some off) s) := by
  obtain ⟨hOutside, -, hPlace, hAligned, hBehind, -⟩ := h
  have hNext : s.crypt + 8 ≤ c.data.length := by omega
  refine ⟨?_, ?_, ?_, ?_, ?_, hNext⟩
  · simp only [Eva.nextBlock, decrypt64, hOutside, Bool.false_or, decide_eq_false_iff_not]
    omega
  · rintro _ ⟨⟩
    exact hOff
  all_goals
    simp only [Eva.nextBlock, decrypt64]
    omega

theorem skipFillers_inside (key : Key) {i : Nat} (h : Inside c q s) (hPos : s.pos ≤ 8)
    (hMore : q + 2 < c.data.length + i) (hLe : i ≤ 2) (hBlocks : c.data.length % 8 = 0) :
    Inside c (q + (2 - i)) (skipFillers c key i s) ∧ (skipFillers c key i s).pos ≤ 8 := by
  have hFirst : 0 + 8 ≤ c.data.length := by
    have := h.behindFirst
    have := h.inCode
    omega
  induction i, s using skipFillers.induct c key generalizing q with
  | case1 =>
    rename_i i s hi hPos' s' ih
    rw [skipFillers, if_pos hi, if_pos hPos']
    have hSkip : Inside c (q + 1) s' := h.skip
    rw [show q + (2 - i) = q + 1 + (2 - (i + 1)) by omega]
    refine ih ?_ ?_ (by omega) (by omega)
    · split
      · next h8 => exact hSkip.nextBlock h8 (by omega) hBlocks hFirst
      · exact hSkip
    · split
      · exact Nat.zero_le _
      · exact hPos'
  | case2 i s hi hPos' ih =>
    rw [skipFillers, if_pos hi, if_neg hPos']
    refine ih (h.nextBlock (by omega) (by omega) hBlocks hFirst) (Nat.zero_le _) hMore
      (by omega)
  | case3 i s hi' =>
    rw [skipFillers, if_neg hi', show q + (2 - i) = q by omega]
    exact ⟨h, hPos⟩

theorem readText_inside (key : Key) {len i : Nat} (text : ByteArray) (h : Inside c q s)
    (hPos : s.pos ≤ 8) (hi : i ≤ len) (hMore : q + (len - i) < c.data.length) (hBlocks : c.data.length % 8 = 0) :
    Inside c (q + (len - i)) (readText c key len i text s).2 := by
  induction i, text, s using readText.induct c key len generalizing q with
  | case1 =>
    rename_i i text s hi' hPos' text' s' ih
    rw [readText, if_pos hi', dif_pos hPos']
    have hRead : Inside c (q + 1) s' := h.read hPos'
    rw [show q + (len - i) = q + 1 + (len - (i + 1)) by omega]
    refine ih ?_ ?_ (by omega) (by omega)
    · split
      · next h8 =>
        have hBehind := hRead.behindFirst
        have hIn := hRead.inCode
        exact hRead.nextBlock h8 (by omega) hBlocks (by omega)
      · exact hRead
    · split
      · exact Nat.zero_le _
      · exact hPos'
  | case2 i text s hi' hPos' ih =>
    rw [readText, if_pos hi', dif_neg hPos']
    have hBehind := h.behindFirst
    have hIn := h.inCode
    exact ih (h.nextBlock (by omega) (by omega) hBlocks (by omega)) (Nat.zero_le _) hi hMore
  | case3 i text s hi' =>
    rw [readText, if_neg hi', show q + (len - i) = q by omega]
    exact h

/-- **The zeros.** Each of them is in the code. The block behind them is not, and it is
read when all of them have been found. -/
theorem readZeros_outside (key : Key) {n : Nat} (h : Inside c q s) (hEnd : s.pos + n = 8)
    (hn : 0 < n) (hLast : q + n = c.data.length) :
    (readZeros c key n s).2.outside = (readZeros c key n s).1 := by
  induction n generalizing q s with
  | zero => omega
  | succ n ih =>
    have hPos : s.pos < 8 := by omega
    rw [readZeros, dif_pos hPos]
    split
    · simp [h.outside, h.preOutside hPos]
    · dsimp only
      split
      · next h8 =>
        have hPlace := h.place
        have hBehind : c.data.length < s.crypt + 8 := by
          omega
        simp [decrypt64, hBehind]
      · next h8 =>
        exact ih (h.read hPos) (by simp only; omega) (by omega) (by omega)

/-! ## The whole code -/

theorem decryptStart_inside (key : Key) (hLong : 16 ≤ c.data.length) {p : Nat}
    (hPos : (decryptStart c key).pos = p + 1) : Inside c (p + 1) (decryptStart c key) := by
  refine ⟨?_, by simp [decryptStart], ?_, by simp [decryptStart], Nat.le_refl 8, ?_⟩
  · simp only [decryptStart, decide_eq_false_iff_not]
    omega
  · rw [hPos]
    exact Nat.add_comm _ _
  · exact Nat.le_trans (Nat.le_add_left 8 8) hLong

theorem codePadding_le (key : Key) (c : Code) : codePadding key c ≤ 7 := by
  rw [codePadding, UInt8.toNat_and]
  exact Nat.and_le_right

/-- `decrypt` behind its first block leaves the code exactly when it has room for a text
and finds the zeros. -/
theorem decryptFrom_outside (key : Key) (hLong : 16 ≤ c.data.length)
    (hBlocks : c.data.length % 8 = 0) :
    (decryptFrom c key (decryptStart c key)).2.outside = true ↔
      codePadding key c + 10 ≤ c.data.length ∧
        plainBytes key c (c.data.length - 7) 7 = List.replicate 7 0 := by
  have hStart := decryptStart_at c key
  have hPadding := codePadding_le key c
  have hInside := decryptStart_inside key hLong hStart.pos
  rw [← codePadding] at hStart hInside
  by_cases hRoom : codePadding key c + 10 ≤ c.data.length
  · obtain ⟨n, hn⟩ : ∃ n, c.data.length = codePadding key c + 10 + n :=
      ⟨_, (Nat.add_sub_cancel' hRoom).symm⟩
    have hLen : (c.data.length : Int) - ((decryptStart c key).pos - 1) - 10 = n := by
      rw [hStart.pos]
      omega
    -- the same states, with what has been deciphered and with what has been read
    obtain ⟨-, hText⟩ := readText_behind (n := n) (ByteArray.ofCapacity n)
      (skipFillers_behind hStart (by omega)) (Nat.zero_add _).symm
      (Nat.le_of_eq (Nat.zero_add _))
    obtain ⟨hFillers, hPos⟩ := skipFillers_inside key (i := 0) hInside
      (by rw [hStart.pos]; omega) (by omega) (by omega) hBlocks
    have hRead := readText_inside key (i := 0) (ByteArray.ofCapacity n) hFillers hPos
      (Nat.zero_le n) (by omega) hBlocks
    have hEnd : codePadding key c + 1 + 2 + n = c.data.length - 7 := by omega
    have hEnd' : codePadding key c + 1 + (2 - 0) + (n - 0) = c.data.length - 7 := by omega
    rw [hEnd] at hText
    rw [hEnd'] at hRead
    have hOutside := readZeros_outside key (n := 7) hRead
      (by rw [hText.pos]; omega) (by decide) (by omega)
    have hZeros := readZeros_behind hText (n := 7) (by omega)
    simp only [decryptFrom, hLen, Int.toNat_natCast, if_neg (show ¬ (n : Int) < 0 by omega)]
    rw [hOutside, hZeros]
    exact ⟨fun h => ⟨hRoom, h⟩, fun h => h.2⟩
  · have hNeg : (c.data.length : Int) - ((decryptStart c key).pos - 1) - 10 < 0 := by
      rw [hStart.pos]
      omega
    simp only [decryptFrom, if_pos hNeg, hInside.outside, Bool.false_eq_true, hRoom, false_and]

/-- The length of what `decrypt` returns. -/
theorem decryptFrom_length (hBlocks : c.data.length % 8 = 0) :
    (decryptFrom c key (decryptStart c key)).1.size = 0 ∨
      (decryptFrom c key (decryptStart c key)).1.size + 10 ≤ c.data.length := by
  have hStart := decryptStart_at c key
  rw [← codePadding] at hStart
  by_cases hRoom : codePadding key c + 10 ≤ c.data.length
  · rw [ByteArray.size, decryptFrom_data hStart (codePadding_le key c) hBlocks hRoom]
    split
    · right
      simp only [plainBytes, List.length_map, List.length_range]
      omega
    · exact .inl rfl
  · left
    rw [ByteArray.size, decryptFrom_short hStart.pos (Nat.lt_of_not_le hRoom), List.length_nil]

/-- A block of the code does not depend on what is behind the code. -/
theorem blockAt_bare (mem : Nat → UInt8) (code : ByteArray) {off : Nat}
    (h : off + 8 ≤ code.size) : Code.blockAt ⟨code.data, mem⟩ off = (bare code).blockAt off := by
  funext i
  have hi : off + i < code.data.length := Nat.lt_of_lt_of_le (by omega) h
  exact (dif_pos hi).trans (dif_pos hi).symm

/-- The plain text of the code, neither. -/
theorem plainOf_bare (mem : Nat → UInt8) (code : ByteArray) (key : Key) {k : Nat}
    (hBlocks : code.size % 8 = 0) (h : k < code.size) :
    byteOf (plainOf key ⟨code.data, mem⟩) k = byteOf (plainOf key (bare code)) k := by
  rw [byteOf, byteOf, plainOf, plainOf,
    BlockChain.plain_congr (qqChain key) fun i hi => blockAt_bare mem code (by omega)]

theorem plainBytes_bare (mem : Nat → UInt8) (code : ByteArray) (key : Key) {q n : Nat}
    (hBlocks : code.size % 8 = 0) (h : q + n ≤ code.size) :
    plainBytes key ⟨code.data, mem⟩ q n = plainBytes key (bare code) q n := by
  refine List.map_congr_left fun t ht => plainOf_bare mem code key hBlocks ?_
  have := List.mem_range.mp ht
  omega

theorem codePadding_bare (mem : Nat → UInt8) (code : ByteArray) (key : Key)
    (hBlocks : code.size % 8 = 0) (h : 0 < code.size) :
    codePadding key ⟨code.data, mem⟩ = codePadding key (bare code) := by
  rw [codePadding, codePadding, plainOf_bare mem code key hBlocks h]

theorem decryptOutside_iff (mem : Nat → UInt8) (code : ByteArray) (key : Key) :
    decryptOutside mem code key = true ↔ HoldsText code key := by
  by_cases hReturns : code.size < 16 ∨ code.size % 8 ≠ 0
  · rw [decryptOutside, if_pos hReturns]
    refine ⟨fun h => absurd h Bool.false_ne_true, fun hText => ?_⟩
    have := hText.long
    have := hText.blocks
    omega
  · obtain ⟨hLong, hBlocks⟩ : 16 ≤ code.size ∧ code.size % 8 = 0 := by omega
    have hOutside := decryptFrom_outside (c := ⟨code.data, mem⟩) key hLong hBlocks
    have hBytes := plainBytes_bare mem code key (q := code.size - 7) (n := 7) hBlocks (by omega)
    rw [decryptOutside, if_neg hReturns]
    refine hOutside.trans ?_
    rw [codePadding_bare mem code key hBlocks (by omega)]
    show _ ∧ plainBytes key ⟨code.data, mem⟩ (code.size - 7) 7 = _ ↔ _
    rw [hBytes]
    exact ⟨fun h => ⟨hLong, hBlocks, h.1, h.2⟩, fun h => ⟨h.room, h.zeros⟩⟩

theorem decrypt_size (mem : Nat → UInt8) (code : ByteArray) (key : Key) :
    (decrypt mem code key).size = 0 ∨ (decrypt mem code key).size + 10 ≤ code.size := by
  rw [decrypt]
  split
  · exact .inl rfl
  · next hLong =>
    have hBlocks : code.size % 8 = 0 := by omega
    exact decryptFrom_length (c := ⟨code.data, mem⟩) hBlocks

/-- **`decrypt` is safe** exactly for the codes that hold no text. It never writes outside,
and what it returns is never longer than it should be. -/
theorem decrypt_safe_iff (mem : Nat → UInt8) (code : ByteArray) (key : Key) :
    DecryptSafe mem code key ↔ ¬ HoldsText code key := by
  rw [← decryptOutside_iff mem]
  constructor
  · intro hSafe
    simp [hSafe.inside]
  · intro hInside
    exact ⟨by simpa using hInside, (decrypt mem code key).fits, decrypt_size mem code key⟩

/-- **The empty text**, as it is sent under a key of zeros: eight bytes behind it are read. -/
theorem decrypt_reads_behind : ¬ DecryptSafe (fun _ => 0) (ByteArray.ofData
    [146, 141, 80, 67, 78, 100, 125, 205, 163, 111, 239, 74, 246, 147, 107, 74]) fun _ => 0 :=
  fun hSafe => absurd hSafe.inside (by
    rw [(decryptOutside_iff _ _ _).mpr ⟨by decide, by decide, by decide +kernel,
      by decide +kernel⟩]
    decide)

end Eva
