import Kopete.GroupWise.CoreProtocol

/-!
# GroupWise — field lists on the wire

The binary form of a list of fields, as the server sends it: a field is its type,
its method, its tag and its value, or, for an array, the number of its fields and
these fields. The list itself ends with a type byte `0`; a nested one is only
counted.

`readFields` calls itself for a nested list, with its count, and gives the fields
to the array it has appended last. An empty array does not enter the loop.

Main results:

* `readFields_field`, `readFields_encode` — a field and a counted list of fields
  are read back, with any bytes behind them;
* `collatingFields_forest` — so is the list of a whole response.
-/

namespace GroupWise

open CountedReader DataStream

variable {τ : Type}

/-! ## The binary form -/

/-- A conversion to UTF-8 that the one of `text` undoes. -/
structure Encoder (text : Text τ) where
  toUtf8 : τ → List UInt8
  fromUtf8_toUtf8 : ∀ s, text.fromUtf8 (toUtf8 s) = s

/-- How strings are put on the wire: as UTF-8, with the NULs counted with a tag, if any. -/
structure Codec (text : Text τ) extends Encoder text where
  tagEnd : List UInt8
  tagEnd_nul : ∀ b ∈ tagEnd, b = 0

variable {text : Text τ}

/-- Bytes with their number in front. -/
def encodeBytes (bytes : List UInt8) : List UInt8 := leBytes 4 bytes.length ++ bytes

namespace Codec

variable (c : Codec text)

def encodeTag (tag : List UInt8) : List UInt8 := encodeBytes (tag ++ c.tagEnd)

/-- A string is sent with its NUL, and a number as a `quint32`. -/
def encodeValue : Value τ → List UInt8
  | .text s => encodeBytes (c.toUtf8 s ++ [0])
  | .number n => leBytes 4 n

mutual
def encodeField : Field τ → List UInt8
  | .single tag method type value =>
    UInt8.ofNat type :: UInt8.ofNat method :: (c.encodeTag tag ++ c.encodeValue value)
  | .multi tag method type fields =>
    UInt8.ofNat type :: UInt8.ofNat method ::
      (c.encodeTag tag ++ (leBytes 4 fields.length ++ encodeFields fields))

def encodeFields : List (Field τ) → List UInt8
  | [] => []
  | f :: fields => encodeField f ++ encodeFields fields
end

/-- A tag is a C string, and no longer than strings may be. -/
def TagFits (tag : List UInt8) : Prop :=
  0 ∉ tag ∧ (tag ++ c.tagEnd).length ≤ NMFIELD_MAX_STR_LENGTH

/-- The types whose value is a number. -/
def IsNumeric (type : Nat) : Prop :=
  0 < type ∧ type < 256 ∧ type ≠ NMFIELD_TYPE_MV ∧ type ≠ NMFIELD_TYPE_ARRAY ∧
    type ≠ NMFIELD_TYPE_UTF8 ∧ type ≠ NMFIELD_TYPE_DN

/-- The value is of the type, and fits on the wire. -/
def ValueFits (type : Nat) : Value τ → Prop
  | .text s => (type = NMFIELD_TYPE_UTF8 ∨ type = NMFIELD_TYPE_DN) ∧ (c.toUtf8 s).length ≤ 32767
  | .number n => IsNumeric type ∧ n < 2 ^ 32

mutual
/-- A field of the protocol. The number of fields in an array is an `int`. -/
def FieldFits : Field τ → Prop
  | .single tag method type value => c.TagFits tag ∧ method < 256 ∧ c.ValueFits type value
  | .multi tag method type fields => c.TagFits tag ∧ method < 256 ∧
      (type = NMFIELD_TYPE_MV ∨ type = NMFIELD_TYPE_ARRAY) ∧ fields.length < 2 ^ 31 ∧
      FieldsFit fields

def FieldsFit : List (Field τ) → Prop
  | [] => True
  | f :: fields => FieldFits f ∧ FieldsFit fields
end

end Codec

/-- `m_collatingFields` after `readFields( -1 )`. -/
def collatingFields (text : Text τ) (fuel : Nat) : Parser (List (Field τ)) := do
  let (currentList, fieldCount) ← readFields text fuel (-1) []
  pure (if fieldCount = -1 then currentList else [])

/-! ## Reading strings and numbers -/

theorem readNat_leBytes {n v : Nat} (h : v < 256 ^ n) (s : EventProtocolState) (k : Nat)
    (more : List UInt8) : readNat n ⟨s, k, leBytes n v ++ more⟩ = (some v, ⟨s, k + n, more⟩) := by
  have hLength : n ≤ (leBytes n v).length := by rw [length_leBytes]
  simp only [readNat, Cursor.advance, readInt_append more hLength]
  rw [List.drop_left' (length_leBytes n v), readInt, if_pos hLength,
    List.take_of_length_le (le_of_eq (length_leBytes n v)), leNat_leBytes h]

theorem length_encodeBytes (bytes : List UInt8) :
    (encodeBytes bytes).length = 4 + bytes.length := by
  rw [encodeBytes, List.length_append, length_leBytes]

theorem encodeBytes_ne_nil (bytes more : List UInt8) : encodeBytes bytes ++ more ≠ [] := by
  rw [ne_eq, List.append_eq_nil_iff, not_and_or]
  left
  apply List.ne_nil_of_length_pos
  rw [length_encodeBytes]
  omega

/-- **Strings** are read back. -/
theorem safeReadBytes_encode {bytes : List UInt8} (h : bytes.length ≤ NMFIELD_MAX_STR_LENGTH)
    (s : EventProtocolState) (k : Nat) (more : List UInt8) :
    safeReadBytes ⟨s, k, encodeBytes bytes ++ more⟩ =
      (some (bytes, bytes.length), ⟨s, k + (encodeBytes bytes).length, more⟩) := by
  have hMax : bytes.length < 256 ^ 4 := lt_of_le_of_lt h (by decide)
  have hField : lengthField (encodeBytes bytes ++ more) = bytes.length := by
    have hRead := readNat_leBytes hMax s k (bytes ++ more)
    rw [← List.append_assoc] at hRead
    exact Option.some.inj (Prod.mk.inj hRead).1
  have hDrop : (encodeBytes bytes ++ more).drop 4 = bytes ++ more := by
    rw [encodeBytes, List.append_assoc, List.drop_left' (length_leBytes 4 _)]
  rw [safeReadBytes_eq (p := ⟨s, k, encodeBytes bytes ++ more⟩) (encodeBytes_ne_nil bytes more)]
  simp only [hField, Cursor.advance, hDrop, length_encodeBytes, List.length_append]
  rw [if_neg (not_lt.mpr h)]
  by_cases hZero : bytes.length = 0
  · obtain rfl := List.length_eq_zero_iff.mp hZero
    rw [if_pos hZero]
    rfl
  · rw [if_neg hZero, if_neg (by omega), List.take_left' rfl,
      Nat.sub_eq_zero_of_le (Nat.le_add_right _ _), List.replicate_zero, List.append_nil,
      ← List.drop_drop, hDrop, List.drop_left' rfl]

theorem cString_tag (c : Codec text) {tag : List UInt8} (h : 0 ∉ tag) :
    cString (tag ++ c.tagEnd) = tag := by
  have hTag : ∀ b ∈ tag, decide (b ≠ 0) = true := by
    intro b hb
    exact decide_eq_true fun hZero => h (hZero ▸ hb)
  rw [cString, List.takeWhile_append_of_pos hTag]
  rcases hEnd : c.tagEnd with _ | ⟨b, bs⟩
  · simp
  · have hNul := c.tagEnd_nul b (by simp [hEnd])
    simp [hNul]

theorem readTag_encode (c : Codec text) {tag : List UInt8} (h : c.TagFits tag)
    (s : EventProtocolState) (k : Nat) (more : List UInt8) :
    safeReadBytes ⟨s, k, c.encodeTag tag ++ more⟩ =
      (some (tag ++ c.tagEnd, (tag ++ c.tagEnd).length),
        ⟨s, k + (c.encodeTag tag).length, more⟩) :=
  safeReadBytes_encode h.2 s k more

theorem toInt_of_lt {n : Nat} (h : n < 2 ^ 31) : toInt n = n := if_pos h

/-! ## Reading fields -/

/-- The method and the tag, which every field begins with. -/
theorem readField_start (c : Codec text) {tag : List UInt8} {method type : Nat}
    (hTag : c.TagFits tag) (hMethod : method < 256)
    (readNested : Int → Parser (List (Field τ) × Int)) (s : EventProtocolState) (k : Nat)
    (more : List UInt8) :
    readField text readNested type
        ⟨s, k, UInt8.ofNat method :: (c.encodeTag tag ++ more)⟩ =
      (if type = NMFIELD_TYPE_MV ∨ type = NMFIELD_TYPE_ARRAY then do
        okToProceed
        let val ← readNat 4
        let (fields, left) ← readNested (toInt val)
        pure (.multi tag method type (if left = 0 then fields else []))
      else if type = NMFIELD_TYPE_UTF8 ∨ type = NMFIELD_TYPE_DN then do
        let (rawData, val) ← safeReadBytes
        pure (.single tag method type (.text (text.fromUtf8 (rawData.take (val - 1)))))
      else do
        okToProceed
        let val ← readNat 4
        pure (.single tag method type (.number val)) : Parser (Field τ))
      ⟨s, k + (1 + (c.encodeTag tag).length), more⟩ := by
  have hByte : readNat 1 ⟨s, k, UInt8.ofNat method :: (c.encodeTag tag ++ more)⟩ =
      (some method, ⟨s, k + 1, c.encodeTag tag ++ more⟩) :=
    readNat_leBytes (n := 1) (by simpa using hMethod) s k _
  rw [readField, bind_some (okToProceed_cons (List.cons_ne_nil _ _)), bind_some hByte,
    bind_some (readTag_encode c hTag s (k + 1) more)]
  dsimp only
  rw [cString_tag c hTag.1, Nat.add_assoc]

variable (c : Codec text)

theorem readField_single {tag : List UInt8} {method type : Nat} {value : Value τ}
    (h : c.FieldFits (.single tag method type value))
    (readNested : Int → Parser (List (Field τ) × Int)) (s : EventProtocolState) (k : Nat)
    (more : List UInt8) :
    readField text readNested type ⟨s, k + 1, UInt8.ofNat method ::
        (c.encodeTag tag ++ (c.encodeValue value ++ more))⟩ =
      (some (.single tag method type value),
        ⟨s, k + (c.encodeField (.single tag method type value)).length, more⟩) := by
  obtain ⟨hTag, hMethod, hValue⟩ := h
  have hEnd : (c.encodeField (.single tag method type value)).length =
      1 + (1 + (c.encodeTag tag).length) + (c.encodeValue value).length := by
    simp only [Codec.encodeField, List.length_cons, List.length_append]
    omega
  rw [readField_start c hTag hMethod, hEnd]
  match value, hValue with
  | .text str, ⟨hType, hLength⟩ =>
    have hNotMulti : ¬ (type = NMFIELD_TYPE_MV ∨ type = NMFIELD_TYPE_ARRAY) := by
      rcases hType with rfl | rfl <;> decide
    have hShort : (c.toUtf8 str ++ [0]).length ≤ NMFIELD_MAX_STR_LENGTH := by
      rw [List.length_append]
      exact Nat.succ_le_succ hLength
    have hRead := safeReadBytes_encode hShort s (k + 1 + (1 + (c.encodeTag tag).length)) more
    rw [if_neg hNotMulti, if_pos hType, Codec.encodeValue, bind_some hRead]
    dsimp only
    rw [List.length_append, List.length_singleton, Nat.add_sub_cancel, List.take_left' rfl,
      c.fromUtf8_toUtf8, pure_apply]
    simp only [Nat.add_assoc]
  | .number n, hNumber =>
    obtain ⟨⟨-, -, hMV, hArray, hUtf8, hDN⟩, hn⟩ := hNumber
    have hRead := readNat_leBytes (n := 4) (v := n) (by simpa using hn) s
      (k + 1 + (1 + (c.encodeTag tag).length)) more
    have hSome : leBytes 4 n ++ more ≠ [] := List.append_ne_nil_of_left_ne_nil (by simp [leBytes]) _
    rw [if_neg (by simp [hMV, hArray]), if_neg (by simp [hUtf8, hDN]), Codec.encodeValue,
      bind_some (okToProceed_cons hSome), bind_some hRead, pure_apply, length_leBytes]
    simp only [Nat.add_assoc]

/-- An array, if the nested list is read back. -/
theorem readField_multi {tag : List UInt8} {method type : Nat} {fields : List (Field τ)}
    (h : c.FieldFits (.multi tag method type fields))
    {readNested : Int → Parser (List (Field τ) × Int)}
    (hNested : ∀ (s : EventProtocolState) (k : Nat) (more : List UInt8),
      readNested fields.length ⟨s, k, c.encodeFields fields ++ more⟩ =
        (some (fields, 0), ⟨s, k + (c.encodeFields fields).length, more⟩))
    (s : EventProtocolState) (k : Nat) (more : List UInt8) :
    readField text readNested type ⟨s, k + 1, UInt8.ofNat method :: (c.encodeTag tag ++
        (leBytes 4 fields.length ++ (c.encodeFields fields ++ more)))⟩ =
      (some (.multi tag method type fields),
        ⟨s, k + (c.encodeField (.multi tag method type fields)).length, more⟩) := by
  obtain ⟨hTag, hMethod, hType, hCount, -⟩ := h
  have hEnd : (c.encodeField (.multi tag method type fields)).length =
      1 + (1 + (c.encodeTag tag).length) + 4 + (c.encodeFields fields).length := by
    simp only [Codec.encodeField, List.length_cons, List.length_append, length_leBytes]
    omega
  have hRead := readNat_leBytes (n := 4) (v := fields.length) (by omega) s
    (k + 1 + (1 + (c.encodeTag tag).length)) (c.encodeFields fields ++ more)
  have hSome : leBytes 4 fields.length ++ (c.encodeFields fields ++ more) ≠ [] :=
    List.append_ne_nil_of_left_ne_nil (by simp [leBytes]) _
  rw [readField_start c hTag hMethod, hEnd, if_pos hType, bind_some (okToProceed_cons hSome),
    bind_some hRead, toInt_of_lt hCount, bind_some (hNested _ _ _)]
  dsimp only
  rw [pure_apply, if_pos rfl]
  simp only [Nat.add_assoc]

theorem encodeField_pos (f : Field τ) : 0 < (c.encodeField f).length := by
  cases f <;> simp [Codec.encodeField]

/-- One round of the loop of `readFields`. -/
theorem readFields_cons {fuel : Nat} {fieldCount : Int} (hCount : fieldCount ≠ 0)
    {currentList : List (Field τ)} {f : Field τ} {s : EventProtocolState} {k : Nat}
    {more : List UInt8} {type : Nat} {w : List UInt8} (hType : 0 < type ∧ type < 256)
    (hWire : c.encodeField f ++ more = UInt8.ofNat type :: w)
    (hField : readField text (fun count => readFields text fuel count []) type ⟨s, k + 1, w⟩ =
      (some f, ⟨s, k + (c.encodeField f).length, more⟩)) :
    readFields text (fuel + 1) fieldCount currentList ⟨s, k, c.encodeField f ++ more⟩ =
      readFields text fuel (if fieldCount > 0 then fieldCount - 1 else fieldCount)
        (currentList ++ [f]) ⟨s, k + (c.encodeField f).length, more⟩ := by
  have hByte : readNat 1 ⟨s, k, UInt8.ofNat type :: w⟩ = (some type, ⟨s, k + 1, w⟩) :=
    readNat_leBytes (n := 1) (by simpa using hType.2) s k w
  rw [readFields, if_neg hCount, hWire, bind_some (okToProceed_cons (List.cons_ne_nil _ _)),
    bind_some hByte, if_neg (Nat.ne_of_gt hType.1), bind_some hField]

theorem type_of_single {tag : List UInt8} {method type : Nat} {value : Value τ}
    (h : c.FieldFits (.single tag method type value)) : 0 < type ∧ type < 256 := by
  match value, h.2.2 with
  | .text _, hText => rcases hText.1 with rfl | rfl <;> decide
  | .number _, hNumber => exact ⟨hNumber.1.1, hNumber.1.2.1⟩

mutual
/-- **One field** takes one round of the loop, with any fields before it and any bytes
behind it. -/
theorem readFields_field (f : Field τ) (h : c.FieldFits f) {fuel : Nat}
    (hFuel : (c.encodeField f).length ≤ fuel) {fieldCount : Int} (hCount : fieldCount ≠ 0)
    (currentList : List (Field τ)) (s : EventProtocolState) (k : Nat) (more : List UInt8) :
    readFields text (fuel + 1) fieldCount currentList ⟨s, k, c.encodeField f ++ more⟩ =
      readFields text fuel (if fieldCount > 0 then fieldCount - 1 else fieldCount)
        (currentList ++ [f]) ⟨s, k + (c.encodeField f).length, more⟩ := by
  match f, h with
  | .single tag method type value, h =>
    refine readFields_cons c hCount (type_of_single c h) ?_
      (readField_single c h (fun count => readFields text fuel count []) s k more)
    simp [Codec.encodeField]
  | .multi tag method type fields, h =>
    have hShorter : (c.encodeFields fields).length < fuel := by
      have hLength : (c.encodeField (.multi tag method type fields)).length =
          2 + (c.encodeTag tag).length + 4 + (c.encodeFields fields).length := by
        simp only [Codec.encodeField, List.length_cons, List.length_append, length_leBytes]
        omega
      omega
    have hType : 0 < type ∧ type < 256 := by rcases h.2.2.1 with rfl | rfl <;> decide
    refine readFields_cons c hCount hType ?_ (readField_multi c h
      (fun s k more => readFields_encode fields h.2.2.2.2 hShorter [] s k more) s k more)
    simp [Codec.encodeField]

/-- **A counted list** is read back. -/
theorem readFields_encode (fields : List (Field τ)) (h : c.FieldsFit fields) {fuel : Nat}
    (hFuel : (c.encodeFields fields).length < fuel) (currentList : List (Field τ))
    (s : EventProtocolState) (k : Nat) (more : List UInt8) :
    readFields text fuel fields.length currentList ⟨s, k, c.encodeFields fields ++ more⟩ =
      (some (currentList ++ fields, 0), ⟨s, k + (c.encodeFields fields).length, more⟩) := by
  match fields, h with
  | [], _ =>
    obtain ⟨fuel, rfl⟩ := Nat.exists_eq_succ_of_ne_zero (Nat.ne_of_gt (Nat.zero_lt_of_lt hFuel))
    simp [readFields, Codec.encodeFields, pure_apply]
  | f :: fields, h =>
    obtain ⟨fuel, rfl⟩ := Nat.exists_eq_succ_of_ne_zero (Nat.ne_of_gt (Nat.zero_lt_of_lt hFuel))
    have hPos := encodeField_pos c f
    rw [Codec.encodeFields, List.length_append] at hFuel
    have hField := readFields_field f h.1 (show _ ≤ fuel by omega)
      (show ((f :: fields).length : Int) ≠ 0 by simp; omega) currentList s k
      (c.encodeFields fields ++ more)
    have hNext : (if ((f :: fields).length : Int) > 0 then ((f :: fields).length : Int) - 1
        else (f :: fields).length) = fields.length := by
      rw [if_pos (by simp), List.length_cons]
      omega
    rw [hNext] at hField
    rw [Codec.encodeFields, List.append_assoc, hField,
      readFields_encode fields h.2 (by omega) (currentList ++ [f])]
    simp [Nat.add_assoc]
end

/-- The list of a whole response: the fields, and the closing byte. -/
theorem readFields_all (fields : List (Field τ)) (h : c.FieldsFit fields) {fuel : Nat}
    (hFuel : (c.encodeFields fields).length + 1 < fuel) (currentList : List (Field τ))
    (s : EventProtocolState) (k : Nat) (more : List UInt8) :
    readFields text fuel (-1) currentList ⟨s, k, c.encodeFields fields ++ 0 :: more⟩ =
      (some (currentList ++ fields, -1), ⟨s, k + ((c.encodeFields fields).length + 1), more⟩) := by
  induction fields generalizing fuel currentList k with
  | nil =>
    obtain ⟨fuel, rfl⟩ := Nat.exists_eq_succ_of_ne_zero (Nat.ne_of_gt (Nat.zero_lt_of_lt hFuel))
    have hByte : readNat 1 ⟨s, k, 0 :: more⟩ = (some 0, ⟨s, k + 1, more⟩) := rfl
    rw [Codec.encodeFields, List.nil_append, readFields, if_neg (by decide),
      bind_some (okToProceed_cons (List.cons_ne_nil _ _)), bind_some hByte, if_pos rfl, pure_apply,
      List.append_nil]
    rfl
  | cons f fields ih =>
    obtain ⟨fuel, rfl⟩ := Nat.exists_eq_succ_of_ne_zero (Nat.ne_of_gt (Nat.zero_lt_of_lt hFuel))
    have hPos := encodeField_pos c f
    rw [Codec.encodeFields, List.length_append] at hFuel
    have hField := readFields_field c f h.1 (show _ ≤ fuel by omega)
      (show (-1 : Int) ≠ 0 by decide)
      currentList s k (c.encodeFields fields ++ 0 :: more)
    rw [if_neg (by decide)] at hField
    rw [Codec.encodeFields, List.append_assoc, hField, ih h.2 (by omega)]
    simp [Nat.add_assoc]

/-- **Field lists.** `readFields( -1 )` leaves the list that was sent, and stops behind the
closing byte. -/
theorem collatingFields_forest (text : Text τ) (c : Codec text) (forest : List (Field τ))
    (h : c.FieldsFit forest) (s : EventProtocolState) (k : Nat) (more : List UInt8) {fuel : Nat}
    (hFuel : (c.encodeFields forest).length + 1 < fuel) :
    collatingFields text fuel ⟨s, k, c.encodeFields forest ++ 0 :: more⟩ =
      (some forest, ⟨s, k + ((c.encodeFields forest).length + 1), more⟩) := by
  rw [collatingFields, bind_some (readFields_all c forest h hFuel [] s k more)]
  rfl

/-- Text that is its UTF-8, and tags sent with their NUL. -/
def rawCodec : Codec Session.rawText where
  toUtf8 := id
  fromUtf8_toUtf8 _ := rfl
  tagEnd := [0]
  tagEnd_nul _ h := List.mem_singleton.mp h

/-- A number, and an array with an empty array and a string in it. -/
def someFields : List (Field (List UInt8)) :=
  [.single [65] 0 8 (.number 123),
    .multi [66] 0 NMFIELD_TYPE_ARRAY
      [.multi [67] 2 NMFIELD_TYPE_MV [], .single [68] 5 NMFIELD_TYPE_UTF8 (.text [97, 98])]]

theorem collatingFields_someFields :
    collatingFields Session.rawText 60
        ⟨.NeedMore, 0, rawCodec.encodeFields someFields ++ 0 :: [1, 2]⟩ =
      (some someFields, ⟨.NeedMore, 0 + ((rawCodec.encodeFields someFields).length + 1), [1, 2]⟩) :=
  collatingFields_forest Session.rawText rawCodec someFields
    (by simp [someFields, Codec.FieldsFit, Codec.FieldFits, Codec.TagFits, Codec.ValueFits,
      Codec.IsNumeric, rawCodec, NMFIELD_MAX_STR_LENGTH, NMFIELD_TYPE_ARRAY, NMFIELD_TYPE_MV,
      NMFIELD_TYPE_UTF8, NMFIELD_TYPE_DN]) .NeedMore 0 [1, 2] (by decide)

end GroupWise
