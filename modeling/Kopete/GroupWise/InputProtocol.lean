import Kopete.Lib.CountedReader
import Kopete.Lib.DataStream
import Mathlib

/-!
# GroupWise — `InputProtocolBase`

What the two parsers of the server's stream share. Before each read they ask
`okToProceed` whether there is any input left, and this is the only test: an
integer is read from fewer bytes than it needs, and a string from fewer than its
length says. `m_bytes` counts the bytes that should have been there.

Strings are a parameter: `Text` gives the conversions of `QString` that the
parsers call.

Main results:

* `reads_readString`, `reads_readFlags`, `reads_readStatus` — the items of an
  event, and where each is read over the end of the input;
* `regular_safeReadBytes` — a read within the input does not see what follows.
-/

namespace GroupWise

open CountedReader DataStream

/-- `InputProtocolBase::EventProtocolState`. -/
inductive EventProtocolState where
  | Success | NeedMore | OutOfSync | ProtocolError
deriving DecidableEq, Repr

/-- `m_state`, `m_bytes` and the bytes `m_din` has not read. -/
abbrev InputProtocolBase := Cursor EventProtocolState UInt8

/-- A member function of a parser; failure is its early return. -/
abbrev Parser := Reader EventProtocolState UInt8

/-- The conversions of `QString`. -/
structure Text (τ : Type) where
  fromUtf8 : List UInt8 → τ
  toLower : τ → τ
  toInt : τ → Int

def NMFIELD_MAX_STR_LENGTH : Nat := 32768

/-! ## Reads -/

/-- `okToProceed`. -/
def okToProceed : Parser Unit := fun p =>
  if p.rest = [] then (none, { p with state := .NeedMore }) else (some (), p)

/-- `m_din >> val`, for an integer of `n` bytes. -/
def readNat (n : Nat) : Parser Nat := fun p => (some (readInt leNat n p.rest).1, p.advance n)

/-- `m_din.readRawData( temp.data(), val )` into a zeroed array. -/
def readRawData (val : Nat) : Parser (List UInt8) := fun p =>
  (some (p.rest.take val ++ List.replicate (val - p.rest.length) 0), p.advance val)

/-- `m_state = state; return false`. -/
def failWith {α : Type} (state : EventProtocolState) : Parser α := fun p =>
  (none, { p with state := state })

/-- `safeReadBytes`: the bytes and their number. -/
def safeReadBytes : Parser (List UInt8 × Nat) := do
  okToProceed
  let val ← readNat 4
  if val > NMFIELD_MAX_STR_LENGTH then
    fail
  else if val ≠ 0 then
    okToProceed
    let temp ← readRawData val
    if temp.length < val - 1 then
      failWith .NeedMore -- string broke
    else
      pure (temp, val)
  else
    pure ([], val)

variable {τ : Type}

/-- `readString`. -/
def readString (text : Text τ) : Parser τ := do
  let (rawData, len) ← safeReadBytes
  pure (text.fromUtf8 (rawData.take (len - 1)))

/-- `EventProtocol::readFlags`. -/
def readFlags : Parser Nat := do
  okToProceed
  readNat 4

/-- The status of a `StatusChange`. -/
def readStatus : Parser Nat := do
  okToProceed
  readNat 2

/-! ## Regularity -/

theorem okToProceed_cons {p : InputProtocolBase} (h : p.rest ≠ []) :
    okToProceed p = (some (), p) := if_neg h

theorem okToProceed_nil {p : InputProtocolBase} (h : p.rest = []) :
    okToProceed p = (none, { p with state := .NeedMore }) := if_pos h

theorem okToProceed_some {p q : InputProtocolBase} {a : Unit} (h : okToProceed p = (some a, q)) :
    p.rest ≠ [] ∧ p = q := by
  by_cases hrest : p.rest = []
  · rw [okToProceed_nil hrest] at h
    cases h
  · rw [okToProceed_cons hrest] at h
    exact ⟨hrest, (Prod.mk.inj h).2⟩

theorem regular_okToProceed : Regular okToProceed := by
  intro c a d h
  obtain ⟨hrest, rfl⟩ := okToProceed_some h
  exact ⟨0, rfl, fun _ s k ys => okToProceed_cons (by simp [hrest])⟩

theorem regular_readNat (n : Nat) : Regular (readNat n) := by
  intro c a d h
  obtain ⟨hval, rfl⟩ := Prod.mk.inj h
  refine ⟨n, rfl, fun hle s k ys => ?_⟩
  have hdrop : (c.rest ++ ys).drop n = c.rest.drop n ++ ys := List.drop_append_of_le_length hle
  simp only [readNat, Cursor.advance, readInt_append ys hle, hdrop]
  rw [← hval]

theorem regular_readRawData (val : Nat) : Regular (readRawData val) := by
  intro c a d h
  obtain ⟨hval, rfl⟩ := Prod.mk.inj h
  refine ⟨val, rfl, fun hle s k ys => ?_⟩
  have hdrop : (c.rest ++ ys).drop val = c.rest.drop val ++ ys :=
    List.drop_append_of_le_length hle
  have hlen : val - (c.rest ++ ys).length = 0 := by
    rw [List.length_append]
    omega
  simp only [readRawData, Cursor.advance, hdrop, List.take_append_of_le_length hle, hlen]
  rw [← hval, Nat.sub_eq_zero_of_le hle]

theorem regular_failWith {α : Type} (state : EventProtocolState) :
    Regular (failWith state : Parser α) := by
  intro c a d h
  cases h

/-- **Strings.** -/
theorem regular_safeReadBytes : Regular safeReadBytes := by
  refine regular_okToProceed.bind fun _ => (regular_readNat 4).bind fun val => ?_
  refine Regular.fail.ite (Regular.ite ?_ (Regular.pure _))
  refine regular_okToProceed.bind fun _ => (regular_readRawData val).bind fun temp => ?_
  exact (regular_failWith _).ite (Regular.pure _)

theorem regular_readString (text : Text τ) : Regular (readString text) :=
  regular_safeReadBytes.bind fun _ => Regular.pure _

/-! ## Items -/

/-- The length in front of a string; `0` if it is not all there. -/
def lengthField (w : List UInt8) : Nat := (readInt leNat 4 w).1

/-- An integer of `n` bytes. -/
def intItem (n : Nat) : Item UInt8 where
  size w := if n ≤ w.length then some n else none
  Cut w := 0 < w.length ∧ w.length < n

/-- A string with its length in front. Between the two the input may end
without harm. -/
def stringItem : Item UInt8 where
  size w :=
    if 4 ≤ w.length ∧ lengthField w ≤ NMFIELD_MAX_STR_LENGTH ∧ 4 + lengthField w ≤ w.length then
      some (4 + lengthField w)
    else none
  Cut w := (0 < w.length ∧ w.length < 4) ∨
    (4 < w.length ∧ lengthField w ≤ NMFIELD_MAX_STR_LENGTH ∧ w.length < 4 + lengthField w)

theorem lengthField_short {w : List UInt8} (h : w.length < 4) : lengthField w = 0 :=
  if_neg (by omega)

theorem reads_int {n : Nat} (hn : 0 < n) :
    Reads .NeedMore (intItem n) (do okToProceed; readNat n : Parser Nat) where
  regular := regular_okToProceed.bind fun _ => regular_readNat n
  whole := by
    intro c m hm
    obtain ⟨hle, rfl⟩ : n ≤ c.rest.length ∧ n = m := by simpa [intItem] using hm
    have hrest : c.rest ≠ [] := by
      rintro hnil
      simp [hnil] at hle
      omega
    exact ⟨hle, _, bind_some (okToProceed_cons hrest)⟩
  cut := by
    rintro c ⟨hpos, hlt⟩
    have hrest : c.rest ≠ [] := List.length_pos_iff.mp hpos
    exact ⟨_, n, bind_some (okToProceed_cons hrest), hlt⟩
  fails := by
    intro c hsize hcut
    have hlt : c.rest.length < n := by simpa [intItem] using hsize
    have hrest : c.rest = [] := by
      by_contra hne
      exact hcut ⟨List.length_pos_iff.mpr hne, hlt⟩
    exact ⟨_, bind_none (okToProceed_nil hrest), .inr rfl⟩
  nil := by simp [intItem]; omega

theorem reads_readFlags : Reads .NeedMore (intItem 4) readFlags := reads_int (by decide)

theorem reads_readStatus : Reads .NeedMore (intItem 2) readStatus := reads_int (by decide)

/-- What `safeReadBytes` does, once there is input. The bytes it has are never
found to be too few. -/
theorem safeReadBytes_eq {p : InputProtocolBase} (h : p.rest ≠ []) :
    safeReadBytes p =
      if lengthField p.rest > NMFIELD_MAX_STR_LENGTH then (none, p.advance 4)
      else if lengthField p.rest = 0 then (some ([], 0), p.advance 4)
      else if p.rest.length ≤ 4 then (none, { p.advance 4 with state := .NeedMore })
      else (some ((p.rest.drop 4).take (lengthField p.rest) ++
        List.replicate (lengthField p.rest - (p.rest.drop 4).length) 0, lengthField p.rest),
        p.advance (4 + lengthField p.rest)) := by
  rw [safeReadBytes, bind_some (okToProceed_cons h)]
  rw [bind_some (show readNat 4 p = (some (lengthField p.rest), p.advance 4) from rfl)]
  by_cases hMax : lengthField p.rest > NMFIELD_MAX_STR_LENGTH
  · rw [if_pos hMax, if_pos hMax]
    rfl
  rw [if_neg hMax, if_neg hMax]
  by_cases hZero : lengthField p.rest = 0
  · rw [if_neg (not_not.mpr hZero), if_pos hZero, hZero]
    rfl
  rw [if_pos hZero, if_neg hZero]
  by_cases hEnd : p.rest.length ≤ 4
  · have hrest : (p.advance 4).rest = [] := List.drop_of_length_le hEnd
    rw [bind_none (okToProceed_nil hrest), if_pos hEnd]
  have hrest : (p.advance 4).rest ≠ [] := by
    simp [Cursor.advance]
    omega
  rw [bind_some (okToProceed_cons hrest), if_neg hEnd]
  set temp := (p.rest.drop 4).take (lengthField p.rest) ++
    List.replicate (lengthField p.rest - (p.rest.drop 4).length) (0 : UInt8) with hTemp
  have hLength : temp.length = lengthField p.rest := by
    rw [hTemp, List.length_append, List.length_take, List.length_replicate]
    omega
  have hRaw : readRawData (lengthField p.rest) (p.advance 4) =
      (some temp, p.advance (4 + lengthField p.rest)) := by
    rw [← Cursor.advance_advance]
    rfl
  rw [bind_some hRaw, if_neg (by omega), pure_apply]

theorem readString_some (text : Text τ) {p q : InputProtocolBase} {raw : List UInt8} {len : Nat}
    (h : safeReadBytes p = (some (raw, len), q)) :
    readString text p = (some (text.fromUtf8 (raw.take (len - 1))), q) := bind_some h

theorem reads_readString (text : Text τ) : Reads .NeedMore stringItem (readString text) where
  regular := regular_readString text
  whole := by
    intro c n hn
    have hsize : (4 ≤ c.rest.length ∧ lengthField c.rest ≤ NMFIELD_MAX_STR_LENGTH ∧
        4 + lengthField c.rest ≤ c.rest.length) ∧ 4 + lengthField c.rest = n := by
      simpa [stringItem] using hn
    obtain ⟨⟨hFour, hMax, hAll⟩, rfl⟩ := hsize
    have hrest : c.rest ≠ [] := by
      rintro hnil
      simp [hnil] at hFour
    refine ⟨hAll, ?_⟩
    have hread := safeReadBytes_eq hrest
    rw [if_neg (not_lt.mpr hMax)] at hread
    by_cases hZero : lengthField c.rest = 0
    · rw [if_pos hZero] at hread
      rw [hZero]
      exact ⟨_, readString_some text hread⟩
    · rw [if_neg hZero, if_neg (by omega)] at hread
      exact ⟨_, readString_some text hread⟩
  cut := by
    rintro c (⟨hpos, hlt⟩ | ⟨hFour, hMax, hlt⟩)
    · have hread := safeReadBytes_eq (List.length_pos_iff.mp hpos)
      rw [lengthField_short hlt, if_neg (by decide), if_pos rfl] at hread
      exact ⟨_, 4, readString_some text hread, hlt⟩
    · have hread := safeReadBytes_eq (p := c) (List.length_pos_iff.mp (by omega))
      rw [if_neg (not_lt.mpr hMax), if_neg (by omega), if_neg (by omega)] at hread
      exact ⟨_, _, readString_some text hread, hlt⟩
  fails := by
    intro c hsize hcut
    by_cases hnil : c.rest = []
    · exact ⟨_, bind_none (bind_none (okToProceed_nil hnil)), .inr rfl⟩
    have hpos : 0 < c.rest.length := List.length_pos_iff.mpr hnil
    have hread := safeReadBytes_eq hnil
    have hNone : 4 ≤ c.rest.length → lengthField c.rest ≤ NMFIELD_MAX_STR_LENGTH →
        c.rest.length < 4 + lengthField c.rest := by
      simpa [stringItem] using hsize
    have hFour : 4 ≤ c.rest.length := by
      by_contra hlt
      exact hcut (.inl ⟨hpos, by omega⟩)
    by_cases hMax : lengthField c.rest > NMFIELD_MAX_STR_LENGTH
    · rw [if_pos hMax] at hread
      exact ⟨_, bind_none hread, .inl rfl⟩
    · have hlt := hNone hFour (not_lt.mp hMax)
      have hEnd : c.rest.length ≤ 4 := by
        by_contra hMore
        exact hcut (.inr ⟨by omega, not_lt.mp hMax, hlt⟩)
      rw [if_neg hMax, if_neg (by omega), if_pos hEnd] at hread
      exact ⟨_, bind_none hread, .inr rfl⟩
  nil := by simp [stringItem]

end GroupWise
