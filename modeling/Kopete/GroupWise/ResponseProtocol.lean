import Kopete.GroupWise.InputProtocol

/-!
# GroupWise — `ResponseProtocol`

A response is an HTTP header and a list of fields, closed by a type byte `0`.
Fields nest: an array announces the number of its own. The closing byte is asked
for with `okToProceed` and read whole, so a response is never made from too few
bytes, however short the integers and strings before it were read.

The recursion of `readFields` and the loop over the header lines run on fuel;
each round takes a byte at least, so more fuel than there are bytes is enough.

Main results:

* `readFields_fuel`, `readHeaderRest_fuel` — fuel beyond the input changes nothing;
* `hungry_readFields` — a list of fields is read within the input;
* `ResponseProtocol.parse_stable` — a response is the same whatever follows it.
-/

namespace GroupWise

open CountedReader DataStream

variable {τ : Type}

/-! ## Fields -/

/-- The `QVariant` of a single field. -/
inductive Value (τ : Type)
  | text (s : τ)
  | number (n : Nat)
deriving DecidableEq, Repr

/-- `Field::SingleField` and `Field::MultiField`. -/
inductive Field (τ : Type)
  | single (tag : List UInt8) (method type : Nat) (value : Value τ)
  | multi (tag : List UInt8) (method type : Nat) (fields : List (Field τ))

def Field.tag : Field τ → List UInt8
  | .single tag .. => tag
  | .multi tag .. => tag

def NMFIELD_TYPE_ARRAY : Nat := 9
def NMFIELD_TYPE_UTF8 : Nat := 10
def NMFIELD_TYPE_MV : Nat := 12
def NMFIELD_TYPE_DN : Nat := 13

/-- A `quint32` passed as an `int`. -/
def toInt (n : Nat) : Int := if n < 2 ^ 31 then n else n - 2 ^ 32

/-- A `QByteArray` made from a `const char *`. -/
def cString (bytes : List UInt8) : List UInt8 := bytes.takeWhile (· ≠ 0)

/-- One field of `readFields`, behind its type. Of a nested list that a type byte
`0` has closed early the fields are dropped. -/
def readField (text : Text τ) (readNested : Int → Parser (List (Field τ) × Int)) (type : Nat) :
    Parser (Field τ) := do
  okToProceed
  let method ← readNat 1
  let (tag, _) ← safeReadBytes
  if type = NMFIELD_TYPE_MV ∨ type = NMFIELD_TYPE_ARRAY then
    okToProceed
    let val ← readNat 4
    let (fields, left) ← readNested (toInt val)
    pure (.multi (cString tag) method type (if left = 0 then fields else []))
  else if type = NMFIELD_TYPE_UTF8 ∨ type = NMFIELD_TYPE_DN then
    let (rawData, val) ← safeReadBytes
    pure (.single (cString tag) method type (.text (text.fromUtf8 (rawData.take (val - 1)))))
  else
    okToProceed
    let val ← readNat 4
    pure (.single (cString tag) method type (.number val))

/-- `readFields`, with the fields read so far: the list, and what is left of
`fieldCount`. -/
def readFields (text : Text τ) : Nat → Int → List (Field τ) → Parser (List (Field τ) × Int)
  | 0, _, _ => fail
  | fuel + 1, fieldCount, currentList =>
    if fieldCount = 0 then
      pure (currentList, fieldCount)
    else do
      okToProceed
      let type ← readNat 1
      if type = 0 then
        pure (currentList, fieldCount) -- end of field list
      else
        let field ← readField text (fun count => readFields text fuel count []) type
        readFields text fuel (if fieldCount > 0 then fieldCount - 1 else fieldCount)
          (currentList ++ [field])

/-! ## Header -/

/-- The bytes up to and with the first newline, and the rest. -/
def splitLine : List UInt8 → Option (List UInt8 × List UInt8)
  | [] => none
  | c :: w => if c = 10 then some ([c], w) else (splitLine w).map fun r => (c :: r.1, r.2)

/-- `readGroupWiseLine`. -/
def readGroupWiseLine : Parser (List UInt8) := fun p =>
  match splitLine p.rest with
  | some (line, _) => (some line, p.advance line.length)
  | none => (none, { p.advance p.rest.length with state := .NeedMore })

/-- The lines up to the empty one. -/
def readHeaderRest : Nat → Parser Unit
  | 0 => fail
  | fuel + 1 => do
    let line ← readGroupWiseLine
    if line = [13, 10] then pure () else readHeaderRest fuel

/-- The three bytes behind the first space. -/
def returnField (headerFirst : List UInt8) : List UInt8 :=
  match headerFirst.idxOf? 32 with
  | some firstSpace => (headerFirst.drop (firstSpace + 1)).take 3
  | none => headerFirst.take 3

/-- `301`, `500` and `404`. -/
def refusals : List (List UInt8) := [[51, 48, 49], [53, 48, 48], [52, 48, 52]]

/-! ## Parsing -/

/-- `Response`. -/
structure Response (τ : Type) where
  transactionId : Int
  resultCode : Int
  fields : List (Field τ)

def NM_A_SZ_TRANSACTION_ID : List UInt8 := "NM_A_SZ_TRANSACTION_ID".toUTF8.toList
def NM_A_SZ_RESULT_CODE : List UInt8 := "NM_A_SZ_RESULT_CODE".toUTF8.toList

/-- `QVariant::toInt`. -/
def Value.toInt (text : Text τ) : Value τ → Int
  | .text s => text.toInt s
  | .number n => GroupWise.toInt n

/-- The value of the first field with a tag, and the fields without it; nothing
if there is none or if it is not a single field. -/
def takeField (text : Text τ) (tag : List UInt8) : List (Field τ) → Option (Int × List (Field τ))
  | [] => none
  | f :: fields =>
    if f.tag = tag then
      match f with
      | .single _ _ _ value => some (value.toInt text, fields)
      | .multi .. => none
    else (takeField text tag fields).map fun r => (r.1, f :: r.2)

/-- The response in a list of fields, if it has a transaction id. -/
def makeResponse (text : Text τ) (fields : List (Field τ)) : Option (Response τ) :=
  let (tId, fields) := (takeField text NM_A_SZ_TRANSACTION_ID fields).getD (0, fields)
  let (resultCode, fields) := (takeField text NM_A_SZ_RESULT_CODE fields).getD (-1, fields)
  if tId ≠ 0 then some ⟨tId, resultCode, fields⟩ else none

/-- What `parse` makes of the fields. -/
def checkResponse (text : Text τ) (fields : List (Field τ)) : Parser (Response τ) :=
  match makeResponse text fields with
  | some response => pure response
  | none => failWith .ProtocolError

/-- `m_din.atEnd()`: no fields. -/
def refuseAtEnd : Parser Unit := fun p => if p.rest = [] then (none, p) else (some (), p)

/-- `ResponseProtocol::parse` as a reader. -/
def readResponse (text : Text τ) (fuel : Nat) : Parser (Response τ) := do
  let _ ← readNat 4
  let headerFirst ← readGroupWiseLine
  readHeaderRest fuel
  if returnField headerFirst ∈ refusals then
    fail
  else
    refuseAtEnd
    let (fields, _) ← readFields text fuel (-1) []
    checkResponse text fields

/-- `ResponseProtocol::parse`: the transfer with the number of bytes parsed, and
the state. -/
def ResponseProtocol.parse (text : Text τ) (state : EventProtocolState) (wire : List UInt8) :
    Option (Response τ × Nat) × EventProtocolState :=
  match readResponse text (wire.length + 1) ⟨state, 0, wire⟩ with
  | (some response, p) => (some (response, p.count), p.state)
  | (none, p) => (none, p.state)

/-! ## Regularity -/

theorem regular_readField (text : Text τ) {readNested : Int → Parser (List (Field τ) × Int)}
    (hNested : ∀ count, Regular (readNested count)) (type : Nat) :
    Regular (readField text readNested type) := by
  refine regular_okToProceed.bind fun _ => (regular_readNat 1).bind fun method =>
    regular_safeReadBytes.bind fun tag => Regular.ite ?_ (Regular.ite ?_ ?_)
  · exact regular_okToProceed.bind fun _ => (regular_readNat 4).bind fun val =>
      (hNested _).bind fun _ => Regular.pure _
  · exact regular_safeReadBytes.bind fun _ => Regular.pure _
  · exact regular_okToProceed.bind fun _ => (regular_readNat 4).bind fun _ => Regular.pure _

theorem regular_readFields (text : Text τ) (fuel : Nat) (fieldCount : Int)
    (currentList : List (Field τ)) : Regular (readFields text fuel fieldCount currentList) := by
  induction fuel generalizing fieldCount currentList with
  | zero => exact Regular.fail
  | succ fuel ih =>
    refine Regular.ite (Regular.pure _) ?_
    refine regular_okToProceed.bind fun _ => (regular_readNat 1).bind fun type => ?_
    exact (Regular.pure _).ite
      ((regular_readField text (fun count => ih count []) type).bind fun _ => ih _ _)

/-- A guarded byte. -/
theorem hungry_readByte : Hungry (do okToProceed; readNat 1 : Parser Nat) := by
  intro c a d h
  by_cases hrest : c.rest = []
  · rw [bind_none (okToProceed_nil hrest)] at h
    cases h
  · rw [bind_some (okToProceed_cons hrest)] at h
    obtain ⟨-, rfl⟩ := Prod.mk.inj h
    have hpos : 0 < c.rest.length := List.length_pos_iff.mpr hrest
    simp only [Cursor.advance]
    omega

/-- **Lists of fields that end with a type byte.** -/
theorem hungry_readFields (text : Text τ) (fuel : Nat) {fieldCount : Int} (h : fieldCount < 0)
    (currentList : List (Field τ)) : Hungry (readFields text fuel fieldCount currentList) := by
  induction fuel generalizing currentList with
  | zero =>
    intro c a d h
    cases h
  | succ fuel ih =>
    have hNested : ∀ count, Regular (readFields text fuel count []) :=
      fun count => regular_readFields text fuel count []
    have hNext : (if fieldCount > 0 then fieldCount - 1 else fieldCount) = fieldCount :=
      if_neg (by omega)
    rw [readFields, if_neg (by omega), hNext]
    have hField := fun type => regular_readField text hNested type
    -- the byte, and then the end or a field with the list behind it
    have hByte := hungry_readByte.bind (regular_okToProceed.bind fun _ => regular_readNat 1)
      (f := fun type => if type = 0 then pure (currentList, fieldCount) else do
        let field ← readField text (fun count => readFields text fuel count []) type
        readFields text fuel fieldCount (currentList ++ [field]))
      (fun type => (Regular.pure _).ite ((hField type).bind fun _ => regular_readFields text fuel _ _))
      (fun type => by
        split
        · exact Within.pure _
        · exact (Hungry.of_bind (hField type) fun _ => ih _).within)
    rwa [Reader.bind_assoc] at hByte

theorem splitLine_length {w line rest : List UInt8} (h : splitLine w = some (line, rest)) :
    w = line ++ rest ∧ 0 < line.length := by
  induction w generalizing line with
  | nil => cases h
  | cons c w ih =>
    rw [splitLine] at h
    split at h
    · obtain ⟨rfl, rfl⟩ := Prod.mk.inj (Option.some.inj h)
      exact ⟨rfl, Nat.one_pos⟩
    · obtain ⟨⟨line', rest'⟩, hLine, hCons⟩ := Option.map_eq_some_iff.mp h
      obtain ⟨rfl, rfl⟩ := Prod.mk.inj hCons
      obtain ⟨rfl, -⟩ := ih hLine
      exact ⟨rfl, Nat.succ_pos _⟩

theorem splitLine_append {w line rest : List UInt8} (h : splitLine w = some (line, rest))
    (more : List UInt8) : splitLine (w ++ more) = some (line, rest ++ more) := by
  induction w generalizing line with
  | nil => cases h
  | cons c w ih =>
    rw [splitLine] at h
    rw [List.cons_append, splitLine]
    split at h
    · rename_i hNewline
      obtain ⟨rfl, rfl⟩ := Prod.mk.inj (Option.some.inj h)
      rw [if_pos hNewline]
    · rename_i hOther
      obtain ⟨⟨line', rest'⟩, hLine, hCons⟩ := Option.map_eq_some_iff.mp h
      obtain ⟨rfl, rfl⟩ := Prod.mk.inj hCons
      rw [if_neg hOther, ih hLine, Option.map_some]

theorem readGroupWiseLine_some {p q : InputProtocolBase} {line : List UInt8}
    (h : readGroupWiseLine p = (some line, q)) :
    ∃ rest, splitLine p.rest = some (line, rest) ∧ q = p.advance line.length := by
  unfold readGroupWiseLine at h
  split at h
  · rename_i line' rest hLine
    obtain ⟨hSame, rfl⟩ := Prod.mk.inj h
    obtain rfl := Option.some.inj hSame
    exact ⟨rest, hLine, rfl⟩
  · cases h

theorem regular_readGroupWiseLine : Regular readGroupWiseLine := by
  intro c line d h
  obtain ⟨rest, hLine, rfl⟩ := readGroupWiseLine_some h
  refine ⟨line.length, rfl, fun _ s k ys => ?_⟩
  obtain ⟨hSplit, -⟩ := splitLine_length hLine
  have hMore := splitLine_append hLine ys
  simp only [readGroupWiseLine, hMore, Cursor.advance]
  rw [hSplit]
  simp

theorem hungry_readGroupWiseLine : Hungry readGroupWiseLine := by
  intro c line d h
  obtain ⟨rest, hLine, rfl⟩ := readGroupWiseLine_some h
  obtain ⟨hSplit, hpos⟩ := splitLine_length hLine
  have hlen := congrArg List.length hSplit
  rw [List.length_append] at hlen
  simp only [Cursor.advance]
  omega

theorem regular_readHeaderRest (fuel : Nat) : Regular (readHeaderRest fuel) := by
  induction fuel with
  | zero => exact Regular.fail
  | succ fuel ih => exact regular_readGroupWiseLine.bind fun _ => (Regular.pure _).ite ih

theorem within_readHeaderRest (fuel : Nat) : Within (readHeaderRest fuel) := by
  induction fuel with
  | zero => exact Within.fail
  | succ fuel ih =>
    refine Within.bind regular_readGroupWiseLine hungry_readGroupWiseLine.within fun line => ?_
    split
    · exact Within.pure _
    · exact ih

theorem regular_refuseAtEnd : Regular refuseAtEnd := by
  intro c a d h
  unfold refuseAtEnd at h
  split at h
  · cases h
  · rename_i hrest
    obtain ⟨-, rfl⟩ := Prod.mk.inj h
    exact ⟨0, rfl, fun _ s k ys => by simp [refuseAtEnd, hrest]⟩

theorem within_refuseAtEnd : Within refuseAtEnd := by
  intro c a d h
  unfold refuseAtEnd at h
  split at h
  · cases h
  · obtain ⟨-, rfl⟩ := Prod.mk.inj h
    exact Nat.le_add_right _ _

theorem regular_checkResponse (text : Text τ) (fields : List (Field τ)) :
    Regular (checkResponse text fields) := by
  unfold checkResponse
  split
  · exact Regular.pure _
  · exact regular_failWith _

theorem within_checkResponse (text : Text τ) (fields : List (Field τ)) :
    Within (checkResponse text fields) := by
  unfold checkResponse
  split
  · exact Within.pure _
  · intro c a d h
    cases h

theorem regular_readResponse (text : Text τ) (fuel : Nat) : Regular (readResponse text fuel) := by
  refine (regular_readNat 4).bind fun _ => regular_readGroupWiseLine.bind fun headerFirst =>
    (regular_readHeaderRest fuel).bind fun _ => Regular.fail.ite ?_
  exact regular_refuseAtEnd.bind fun _ => (regular_readFields text fuel (-1) []).bind fun r =>
    regular_checkResponse text r.1

/-- **A response is read within the input.** -/
theorem hungry_readResponse (text : Text τ) (fuel : Nat) : Hungry (readResponse text fuel) := by
  have hFields := hungry_readFields text fuel (show (-1 : Int) < 0 by decide) []
  refine Hungry.of_bind (regular_readNat 4) fun _ =>
    hungry_readGroupWiseLine.bind regular_readGroupWiseLine (fun headerFirst => ?_)
      fun headerFirst => ?_
  · exact (regular_readHeaderRest fuel).bind fun _ => Regular.fail.ite <|
      regular_refuseAtEnd.bind fun _ => (regular_readFields text fuel (-1) []).bind fun r =>
        regular_checkResponse text r.1
  · refine Within.bind (regular_readHeaderRest fuel) (within_readHeaderRest fuel) fun _ => ?_
    split
    · exact Within.fail
    · exact Within.bind regular_refuseAtEnd within_refuseAtEnd fun _ =>
        Within.bind (regular_readFields text fuel (-1) []) hFields.within fun r =>
          within_checkResponse text r.1

/-! ## Fuel -/

/-- The nested lists of a field lie behind its type. -/
theorem readField_congr (text : Text τ) {readNested readNested' :
      Int → Parser (List (Field τ) × Int)} (type : Nat) {p : InputProtocolBase}
    (h : ∀ count (q : InputProtocolBase), q.rest.length ≤ p.rest.length →
      readNested count q = readNested' count q) :
    readField text readNested type p = readField text readNested' type p := by
  refine bind_congr rfl fun _ d hOk => bind_congr rfl fun method e hMethod =>
    bind_congr rfl fun tag f hTag => ?_
  have hLength : f.rest.length ≤ p.rest.length :=
    (regular_safeReadBytes.length_le hTag).trans <|
      ((regular_readNat 1).length_le hMethod).trans (regular_okToProceed.length_le hOk)
  dsimp only
  split
  · refine bind_congr rfl fun _ g hOk' => bind_congr rfl fun val i hVal => ?_
    have hShorter : i.rest.length ≤ p.rest.length :=
      ((regular_readNat 4).length_le hVal).trans <|
        (regular_okToProceed.length_le hOk').trans hLength
    exact bind_congr (h _ i hShorter) fun _ _ _ => rfl
  · rfl

/-- **Enough fuel for the fields.** -/
theorem readFields_fuel (text : Text τ) {fuel : Nat} {fieldCount : Int}
    {currentList : List (Field τ)} {p : InputProtocolBase} (h : p.rest.length < fuel) :
    readFields text (fuel + 1) fieldCount currentList p =
      readFields text fuel fieldCount currentList p := by
  induction fuel generalizing fieldCount currentList p with
  | zero => exact absurd h (Nat.not_lt_zero _)
  | succ fuel ih =>
    rw [readFields, readFields]
    split
    · rfl
    refine bind_congr rfl fun _ d hOk => bind_congr rfl fun type e hType => ?_
    obtain ⟨hrest, rfl⟩ := okToProceed_some hOk
    obtain rfl : p.advance 1 = e := (Prod.mk.inj hType).2
    -- the type has been taken
    have hShorter : (p.advance 1).rest.length < fuel := by
      have hpos : 0 < p.rest.length := List.length_pos_iff.mpr hrest
      simp only [Cursor.advance, List.length_drop]
      omega
    split
    · rfl
    have hField := regular_readField text
      (fun count => regular_readFields text (fuel + 1) count []) type
    refine bind_congr (readField_congr text type fun count q hq => ih (by omega))
      fun field q hRead => ih ?_
    have hle := hField.length_le hRead
    omega

/-- **Enough fuel for the header.** -/
theorem readHeaderRest_fuel {fuel : Nat} {p : InputProtocolBase} (h : p.rest.length < fuel) :
    readHeaderRest (fuel + 1) p = readHeaderRest fuel p := by
  induction fuel generalizing p with
  | zero => exact absurd h (Nat.not_lt_zero _)
  | succ fuel ih =>
    rw [readHeaderRest, readHeaderRest]
    refine bind_congr rfl fun line q hLine => ?_
    obtain ⟨rest, hSplit, rfl⟩ := readGroupWiseLine_some hLine
    obtain ⟨hWhole, hpos⟩ := splitLine_length hSplit
    split
    · rfl
    · refine ih ?_
      have hlen := congrArg List.length hWhole
      rw [List.length_append] at hlen
      simp only [Cursor.advance, List.length_drop]
      omega

theorem readResponse_fuel (text : Text τ) {fuel : Nat} {p : InputProtocolBase}
    (h : p.rest.length < fuel) : readResponse text (fuel + 1) p = readResponse text fuel p := by
  refine bind_congr rfl fun _ a hVal => bind_congr rfl fun headerFirst b hLine => ?_
  have hHeader : b.rest.length ≤ p.rest.length :=
    (regular_readGroupWiseLine.length_le hLine).trans ((regular_readNat 4).length_le hVal)
  refine bind_congr (readHeaderRest_fuel (by omega)) fun _ c hRest => ?_
  have hBody : c.rest.length ≤ b.rest.length :=
    (regular_readHeaderRest (fuel + 1)).length_le hRest
  split
  · rfl
  · refine bind_congr rfl fun _ d hEnd => ?_
    have hFields := regular_refuseAtEnd.length_le hEnd
    exact bind_congr (readFields_fuel text (by omega)) fun _ _ _ => rfl

/-- Two amounts of fuel, both enough. -/
theorem readResponse_fuel_eq (text : Text τ) {fuel fuel' : Nat} {p : InputProtocolBase}
    (h : p.rest.length < fuel) (hle : fuel ≤ fuel') :
    readResponse text fuel' p = readResponse text fuel p := by
  induction fuel', hle using Nat.le_induction with
  | base => rfl
  | succ n hn ih => rw [readResponse_fuel text (by omega), ih]

/-! ## Results of `parse` -/

theorem ResponseProtocol.parse_some {text : Text τ} {state : EventProtocolState}
    {wire : List UInt8} {t : Response τ} {n : Nat}
    (h : (ResponseProtocol.parse text state wire).1 = some (t, n)) :
    readResponse text (wire.length + 1) ⟨state, 0, wire⟩ =
      (some t, Cursor.advance ⟨state, 0, wire⟩ n) := by
  unfold ResponseProtocol.parse at h
  rcases hRead : readResponse text (wire.length + 1) ⟨state, 0, wire⟩ with ⟨_ | t', p⟩
  · rw [hRead] at h
    cases h
  · rw [hRead] at h
    obtain ⟨m, rfl, -⟩ := regular_readResponse text _ _ _ _ hRead
    obtain ⟨rfl, hn⟩ := Prod.mk.inj (Option.some.inj h)
    rw [show m = n by simpa [Cursor.advance] using hn]

/-- **A response is all there.** -/
theorem ResponseProtocol.parse_within {text : Text τ} {state : EventProtocolState}
    {wire : List UInt8} {t : Response τ} {n : Nat}
    (h : (ResponseProtocol.parse text state wire).1 = some (t, n)) :
    0 < n ∧ n ≤ wire.length := by
  have hHungry := hungry_readResponse text _ _ _ _ (ResponseProtocol.parse_some h)
  simpa [Cursor.advance] using hHungry

/-- It is made from the same bytes whatever follows them. -/
theorem ResponseProtocol.parse_stable {text : Text τ} {state : EventProtocolState}
    {wire : List UInt8} {t : Response τ} {n : Nat}
    (h : (ResponseProtocol.parse text state wire).1 = some (t, n))
    (state' : EventProtocolState) (more : List UInt8) :
    (ResponseProtocol.parse text state' (wire ++ more)).1 = some (t, n) := by
  have hRead := ResponseProtocol.parse_some h
  obtain ⟨-, hn⟩ := ResponseProtocol.parse_within h
  have hFuel : (wire ++ more).length + 1 ≥ wire.length + 1 := by
    rw [List.length_append]
    omega
  rw [← readResponse_fuel_eq text (p := ⟨state, 0, wire⟩) (Nat.lt_succ_self _) hFuel] at hRead
  obtain ⟨m, hm, hSame⟩ := regular_readResponse text _ _ _ _ hRead
  obtain rfl : n = m := by
    have hcount := congrArg Cursor.count hm
    simpa [Cursor.advance] using hcount
  unfold ResponseProtocol.parse
  rw [hSame hn state' 0 more]
  simp

end GroupWise
