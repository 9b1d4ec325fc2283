import Kopete.GroupWise.FieldForest
import Mathlib

/-!
# GroupWise — requests as text

A request sends its fields as text: the tag, the method, the value and the type of
each, with `&tag=`, `&cmd=`, `&val=` and `&type=` in front. Values that are strings
are escaped, so that no byte of theirs is an `&`. For an array the value is the
number of its fields, which follow.

The number is taken before the fields are written, and the loop leaves some of them
out: those of the type `BINARY`, and those with the method `IGNORE`.

Main results:

* `unescape_escape`, `url_escape_string_inj` — escaping is undone;
* `readItem_head` — the text of a field is read back, whatever follows it;
* `readText_iff` — the whole text is read back exactly when no array that is written
  has a field that is left out, and no string has a NUL.
-/

namespace GroupWise

variable {τ : Type}

/-! ## Escaping -/

/-- `NO_ESCAPE`. -/
def noEscape (ch : UInt8) : Bool :=
  ch = 0x20 ∨ (0x30 ≤ ch ∧ ch ≤ 0x39) ∨ (0x41 ≤ ch ∧ ch ≤ 0x5a) ∨ (0x61 ≤ ch ∧ ch ≤ 0x7a)

/-- `hex_table`. -/
def hexTable : List UInt8 := [48, 49, 50, 51, 52, 53, 54, 55, 56, 57, 97, 98, 99, 100, 101, 102]

def hexDigit (n : Nat) : UInt8 := hexTable.getD n 0

/-- The bytes that are inserted for one of `src`. -/
def escapeByte (ch : UInt8) : List UInt8 :=
  if noEscape ch then
    if ch ≠ 0x20 then [ch] else [43]
  else [37, hexDigit (ch.toNat / 16), hexDigit (ch.toNat % 16)]

/-- `url_escape_string`. The array is made of zeros first, and then the bytes are
inserted in front of them. -/
def url_escape_string (src : List UInt8) : List UInt8 :=
  let s := cString src
  let escape := s.countP fun ch => !noEscape ch
  s.flatMap escapeByte ++ 0 :: List.replicate (s.length + escape * 2 + 1) 0

/-- The digit of a hexadecimal number. -/
def hexValue (b : UInt8) : Nat := hexTable.idxOf b

/-- A reader of escaped text. -/
def unescape : List UInt8 → List UInt8
  | [] => []
  | ch :: w =>
    if ch = 43 then 0x20 :: unescape w
    else if ch = 37 then
      match w with
      | a :: b :: w => UInt8.ofNat (16 * hexValue a + hexValue b) :: unescape w
      | _ => []
    else ch :: unescape w

theorem hexDigit_mem {n : Nat} (h : n < 16) : hexDigit n ∈ hexTable := by
  have hAll : ∀ n < 16, hexDigit n ∈ hexTable := by decide
  exact hAll n h

theorem hexValue_hexDigit {n : Nat} (h : n < 16) : hexValue (hexDigit n) = n := by
  have hAll : ∀ n < 16, hexValue (hexDigit n) = n := by decide
  exact hAll n h

theorem unescape_plain {ch : UInt8} (hPlus : ch ≠ 43) (hPercent : ch ≠ 37) (w : List UInt8) :
    unescape (ch :: w) = ch :: unescape w := by
  rw [unescape.eq_def]
  exact (if_neg hPlus).trans (if_neg hPercent)

/-- **One byte** is read back, whatever follows it. -/
theorem unescape_escapeByte (ch : UInt8) (w : List UInt8) :
    unescape (escapeByte ch ++ w) = ch :: unescape w := by
  unfold escapeByte
  by_cases hNo : noEscape ch = true
  · rw [if_pos hNo]
    by_cases hSpace : ch = 0x20
    · rw [if_neg (not_not.mpr hSpace), hSpace, List.singleton_append, unescape.eq_def]
      rfl
    · have hPlus : ch ≠ 43 := by
        rintro rfl
        exact absurd hNo (by decide)
      have hPercent : ch ≠ 37 := by
        rintro rfl
        exact absurd hNo (by decide)
      rw [if_pos hSpace, List.singleton_append, unescape_plain hPlus hPercent]
  · have hLt := ch.toNat_lt
    have hByte : UInt8.ofNat (16 * (ch.toNat / 16) + ch.toNat % 16) = ch := by
      rw [Nat.div_add_mod]
      exact UInt8.ofNat_toNat
    rw [if_neg hNo]
    show UInt8.ofNat (16 * hexValue _ + hexValue _) :: unescape w = _
    rw [hexValue_hexDigit (by omega), hexValue_hexDigit (by omega), hByte]

/-- **Escaping is undone.** -/
theorem unescape_escape (s : List UInt8) : unescape (s.flatMap escapeByte) = s := by
  induction s with
  | nil => rfl
  | cons ch s ih => rw [List.flatMap_cons, unescape_escapeByte, ih]

theorem escapeByte_ne {ch b : UInt8} (h : b ∈ escapeByte ch) : b ≠ 0 ∧ b ≠ 38 := by
  unfold escapeByte at h
  split at h
  · rename_i hNo
    split at h
    · rw [List.mem_singleton.mp h]
      constructor <;>
        · rintro rfl
          exact absurd hNo (by decide)
    · rw [List.mem_singleton.mp h]
      decide
  · have hTable : ∀ c ∈ hexTable, c ≠ 0 ∧ c ≠ 38 :=
      List.all_iff_forall_prop.mp (by decide)
    have hLt := ch.toNat_lt
    rcases List.mem_cons.mp h with rfl | h
    · decide
    · rcases List.mem_cons.mp h with rfl | h
      · exact hTable _ (hexDigit_mem (by omega))
      · rw [List.mem_singleton.mp h]
        exact hTable _ (hexDigit_mem (by omega))

/-- **No separator** is in an escaped string, nor a NUL. -/
theorem escape_ne {s : List UInt8} {b : UInt8} (h : b ∈ s.flatMap escapeByte) : b ≠ 0 ∧ b ≠ 38 := by
  obtain ⟨ch, -, hb⟩ := List.mem_flatMap.mp h
  exact escapeByte_ne hb

theorem cString_append {s : List UInt8} (h : ∀ b ∈ s, b ≠ 0) (w : List UInt8) :
    cString (s ++ 0 :: w) = s := by
  have hAll : ∀ b ∈ s, decide (b ≠ 0) = true := fun b hb => decide_eq_true (h b hb)
  rw [cString, List.takeWhile_append_of_pos hAll]
  simp

theorem cString_eq {s : List UInt8} (h : 0 ∉ s) : cString s = s := by
  rw [cString]
  exact List.takeWhile_eq_self_iff.mpr fun b hb => decide_eq_true fun hZero => h (hZero ▸ hb)

/-- `url_escape_string( … ).data()` as a C string. -/
theorem cString_url_escape_string (src : List UInt8) :
    cString (url_escape_string src) = (cString src).flatMap escapeByte :=
  cString_append (fun _ hb => (escape_ne hb).1) _

/-- **Escaping is injective** on C strings. -/
theorem url_escape_string_inj {a b : List UInt8} (ha : 0 ∉ a) (hb : 0 ∉ b)
    (h : url_escape_string a = url_escape_string b) : a = b := by
  have hSame := congrArg cString h
  rw [cString_url_escape_string, cString_url_escape_string, cString_eq ha, cString_eq hb] at hSame
  rw [← unescape_escape a, hSame, unescape_escape]

/-! ## Numbers -/

/-- A number in decimal, as `%u` and `setNum` print it. -/
def decimal (n : Nat) : List UInt8 := (Nat.toDigits 10 n).map fun c => UInt8.ofNat c.toNat

/-- A reader of decimal numbers. -/
def readDecimal (w : List UInt8) : Nat :=
  Nat.ofDigitChars 10 (w.map fun b => Char.ofNat b.toNat) 0

def isDigit (b : UInt8) : Bool := 48 ≤ b ∧ b ≤ 57

/-- A digit is one byte. -/
theorem digit_byte {c : Char} (h : c.isDigit = true) :
    isDigit (UInt8.ofNat c.toNat) = true ∧ Char.ofNat (UInt8.ofNat c.toNat).toNat = c := by
  obtain ⟨hLow, hHigh⟩ : 48 ≤ c.toNat ∧ c.toNat ≤ 57 := by
    simpa [Char.isDigit, UInt32.le_iff_toNat_le] using h
  have hByte : (UInt8.ofNat c.toNat).toNat = c.toNat := by
    rw [UInt8.toNat_ofNat', Nat.mod_eq_of_lt (by omega)]
  rw [hByte, Char.ofNat_toNat]
  refine ⟨decide_eq_true ⟨?_, ?_⟩, rfl⟩ <;>
    · rw [UInt8.le_iff_toNat_le, hByte]
      simpa

theorem isDigit_decimal {n : Nat} {b : UInt8} (h : b ∈ decimal n) : isDigit b = true := by
  obtain ⟨c, hc, rfl⟩ := List.mem_map.mp h
  exact (digit_byte (Nat.isDigit_of_mem_toDigits (by decide) (by decide) hc)).1

/-- **Numbers** are read back. -/
theorem readDecimal_decimal (n : Nat) : readDecimal (decimal n) = n := by
  have hSame : (decimal n).map (fun b => Char.ofNat b.toNat) = Nat.toDigits 10 n := by
    rw [decimal, List.map_map]
    refine (List.map_congr_left fun c hc => ?_).trans (List.map_id _)
    exact (digit_byte (Nat.isDigit_of_mem_toDigits (by decide) (by decide) hc)).2
  rw [readDecimal, hSame, Nat.ofDigitChars_ten_toDigits]

theorem length_decimal {n : Nat} (h : n < 2 ^ 32) : (decimal n).length < 32767 := by
  have hTen : (Nat.toDigits 10 n).length ≤ 10 :=
    (Nat.length_toDigits_le_iff (by decide) (by decide)).mpr (by omega)
  rw [decimal, List.length_map]
  omega

/-! ## Writing -/

def NMFIELD_TYPE_BINARY : Nat := 2
def NMFIELD_METHOD_VALID : Nat := 0
def NMFIELD_METHOD_IGNORE : Nat := 1

/-- The methods of the header, and the letters of `encode_method`. -/
def methodLetters : List (Nat × UInt8) :=
  [(4, 71), -- NMFIELD_METHOD_EQUAL
    (6, 70), -- NMFIELD_METHOD_UPDATE
    (10, 69), -- NMFIELD_METHOD_GTE
    (12, 68), -- NMFIELD_METHOD_LTE
    (14, 67), -- NMFIELD_METHOD_NE
    (15, 66), -- NMFIELD_METHOD_EXIST
    (16, 65), -- NMFIELD_METHOD_NOTEXIST
    (17, 57), -- NMFIELD_METHOD_SEARCH
    (19, 56), -- NMFIELD_METHOD_MATCHBEGIN
    (20, 55), -- NMFIELD_METHOD_MATCHEND
    (40, 54), -- NMFIELD_METHOD_NOT_ARRAY
    (41, 53), -- NMFIELD_METHOD_OR_ARRAY
    (42, 52), -- NMFIELD_METHOD_AND_ARRAY
    (3, 51), -- NMFIELD_METHOD_DELETE_ALL
    (2, 50), -- NMFIELD_METHOD_DELETE
    (5, 49)] -- NMFIELD_METHOD_ADD

/-- `encode_method`. -/
def encode_method (method : Nat) : UInt8 := (methodLetters.lookup method).getD 48

/-- `&tag=`, `&cmd=`, `&val=` and `&type=`. -/
def GW_URLVAR_TAG : List UInt8 := [38, 116, 97, 103, 61]
def GW_URLVAR_METHOD : List UInt8 := [38, 99, 109, 100, 61]
def GW_URLVAR_VAL : List UInt8 := [38, 118, 97, 108, 61]
def GW_URLVAR_TYPE : List UInt8 := [38, 116, 121, 112, 101, 61]

def Field.method : Field τ → Nat
  | .single _ method .. => method
  | .multi _ method .. => method

def Field.type : Field τ → Nat
  | .single _ _ type _ => type
  | .multi _ _ type _ => type

/-- The fields that the loop leaves out. -/
def Field.ignored (f : Field τ) : Bool :=
  f.type = NMFIELD_TYPE_BINARY ∨ f.method = NMFIELD_METHOD_IGNORE

variable {text : Text τ} (e : Encoder text)

/-- `snprintf( valString, NMFIELD_MAX_STR_LENGTH, … )`. -/
def snprintf (s : List UInt8) : List UInt8 := (cString s).take (NMFIELD_MAX_STR_LENGTH - 1)

/-- `value().toString().toUtf8()`. -/
def Encoder.toString : Value τ → List UInt8
  | .text s => e.toUtf8 s
  | .number n => decimal n

/-- `valString`. -/
def Encoder.valString : Field τ → List UInt8
  | .single _ _ type value =>
    if type = NMFIELD_TYPE_UTF8 ∨ type = NMFIELD_TYPE_DN then
      snprintf (url_escape_string (e.toString value))
    else
      snprintf (decimal ((value.toInt text) % 2 ^ 32).toNat)
  | .multi _ _ _ fields => snprintf (decimal fields.length)

/-- `outgoing`: what is written for a field, without the fields of an array. -/
def Encoder.outgoing (f : Field τ) : List UInt8 :=
  GW_URLVAR_TAG ++ f.tag ++ GW_URLVAR_METHOD ++ [encode_method f.method] ++
    GW_URLVAR_VAL ++ e.valString f ++ GW_URLVAR_TYPE ++ decimal f.type

mutual
/-- One round of the loop: the signals `outgoingData`. -/
def Encoder.fieldToWire (depth : Nat) : Field τ → List (List UInt8)
  | .single tag method type value =>
    let f : Field τ := .single tag method type value
    if f.ignored then [] else [e.outgoing f]
  | .multi tag method type fields =>
    let f : Field τ := .multi tag method type fields
    if f.ignored then []
    else e.outgoing f ::
      (if fields.length > 0 then Encoder.fieldsToWire (depth + 1) fields else [])

/-- `CoreProtocol::fieldsToWire`. -/
def Encoder.fieldsToWire (depth : Nat) : List (Field τ) → List (List UInt8)
  | [] => if depth = 0 then [[13, 10]] else [] -- the entire request has been sent
  | f :: fields => Encoder.fieldToWire depth f ++ Encoder.fieldsToWire depth fields
end

/-! ## Reading -/

/-- A tag, a method, a value and a type. -/
structure Item where
  tag : List UInt8
  method : Nat
  val : List UInt8
  type : Nat
deriving DecidableEq, Repr

/-- The method of a letter. -/
def decodeMethod (letter : UInt8) : Nat :=
  ((methodLetters.find? fun m => m.2 = letter).map Prod.fst).getD NMFIELD_METHOD_VALID

/-- Take a word off the front. -/
def expect (word w : List UInt8) : Option (List UInt8) :=
  if word <+: w then some (w.drop word.length) else none

/-- Take one byte off the front. -/
def takeByte : List UInt8 → Option (UInt8 × List UInt8)
  | [] => none
  | b :: w => some (b, w)

/-- Read the text of one field. -/
def readItem (w : List UInt8) : Option (Item × List UInt8) := do
  let w ← expect GW_URLVAR_TAG w
  let (tag, w) := w.span (· ≠ 38)
  let w ← expect GW_URLVAR_METHOD w
  let (letter, w) ← takeByte w
  let w ← expect GW_URLVAR_VAL w
  let (val, w) := w.span (· ≠ 38)
  let w ← expect GW_URLVAR_TYPE w
  let (type, w) := w.span isDigit
  pure (⟨tag, decodeMethod letter, val, readDecimal type⟩, w)

/-- The value of a field that is no array. -/
def Item.value (text : Text τ) (item : Item) : Value τ :=
  if item.type = NMFIELD_TYPE_UTF8 ∨ item.type = NMFIELD_TYPE_DN then
    .text (text.fromUtf8 (unescape item.val))
  else .number (readDecimal item.val)

/-- Read a field; for an array, with as many fields as its value says. -/
def readFieldText (text : Text τ)
    (readNested : Nat → List UInt8 → Option (List (Field τ) × List UInt8)) (w : List UInt8) :
    Option (Field τ × List UInt8) := do
  let (item, w) ← readItem w
  if item.type = NMFIELD_TYPE_MV ∨ item.type = NMFIELD_TYPE_ARRAY then
    let (fields, w) ← readNested (readDecimal item.val) w
    pure (.multi item.tag item.method item.type fields, w)
  else
    pure (.single item.tag item.method item.type (item.value text), w)

/-- Read some number of fields. -/
def readFieldsText (text : Text τ) : Nat → Nat → List UInt8 → Option (List (Field τ) × List UInt8)
  | _, 0, w => some ([], w)
  | 0, _ + 1, _ => none
  | fuel + 1, count + 1, w => do
    let (f, w) ← readFieldText text (readFieldsText text fuel) w
    let (fields, w) ← readFieldsText text fuel count w
    pure (f :: fields, w)

/-- Read the fields of a whole request, up to the empty line. -/
def readText (text : Text τ) : Nat → List UInt8 → Option (List (Field τ))
  | 0, _ => none
  | fuel + 1, w =>
    if w = [13, 10] then some []
    else do
      let (f, w) ← readFieldText text (readFieldsText text fuel) w
      let fields ← readText text fuel w
      pure (f :: fields)

/-! ## Fields of the protocol -/

/-- The methods of the header, but for the one that is left out. -/
def methods : List Nat := NMFIELD_METHOD_VALID :: methodLetters.map Prod.fst

/-- The value is of the type, and a string is shorter than `valString`. -/
def Encoder.ValueFits (type : Nat) : Value τ → Prop
  | .text s => (type = NMFIELD_TYPE_UTF8 ∨ type = NMFIELD_TYPE_DN) ∧
      (cString (url_escape_string (e.toUtf8 s))).length < NMFIELD_MAX_STR_LENGTH
  | .number n => Codec.IsNumeric type ∧ n < 2 ^ 32

mutual
/-- A field of the protocol, or one that is left out. -/
def Encoder.FieldValid : Field τ → Prop
  | .single tag method type value =>
    (Field.single tag method type value).ignored = true ∨
      38 ∉ tag ∧ method ∈ methods ∧ e.ValueFits type value
  | .multi tag method type fields =>
    (Field.multi tag method type fields).ignored = true ∨
      38 ∉ tag ∧ method ∈ methods ∧ (type = NMFIELD_TYPE_MV ∨ type = NMFIELD_TYPE_ARRAY) ∧
        fields.length < 2 ^ 31 ∧ Encoder.FieldsValid fields

def Encoder.FieldsValid : List (Field τ) → Prop
  | [] => True
  | f :: fields => Encoder.FieldValid f ∧ Encoder.FieldsValid fields
end

mutual
/-- A field without those that are left out. -/
def Field.written : Field τ → Field τ
  | .single tag method type value => .single tag method type value
  | .multi tag method type fields => .multi tag method type (writtenFields fields)

/-- The fields without those that are left out. -/
def writtenFields : List (Field τ) → List (Field τ)
  | [] => []
  | f :: fields => if f.ignored then writtenFields fields else f.written :: writtenFields fields
end

mutual
/-- No array has a field that is left out, and no string a NUL. -/
def Encoder.FieldIntact : Field τ → Prop
  | .single _ _ _ value => ∀ s, value = .text s → 0 ∉ e.toUtf8 s
  | .multi _ _ _ fields => (∀ f ∈ fields, f.ignored = false) ∧ Encoder.FieldsIntact fields

/-- This is so of all the fields that are written. -/
def Encoder.FieldsIntact : List (Field τ) → Prop
  | [] => True
  | f :: fields => (f.ignored = true ∨ Encoder.FieldIntact f) ∧ Encoder.FieldsIntact fields
end

mutual
/-- The value of an array is the number of its fields that are written. -/
def Encoder.CountAgrees : Field τ → Prop
  | .single .. => True
  | .multi tag method type fields =>
    readDecimal (e.valString (.multi tag method type fields)) = (writtenFields fields).length ∧
      Encoder.CountsAgree fields

def Encoder.CountsAgree : List (Field τ) → Prop
  | [] => True
  | f :: fields => (f.ignored = true ∨ Encoder.CountAgrees f) ∧ Encoder.CountsAgree fields
end

/-! ## One field -/

theorem expect_append (word w : List UInt8) : expect word (word ++ w) = some w := by
  rw [expect, if_pos (List.prefix_append _ _), List.drop_left]

/-- Up to the next separator. -/
theorem span_append {p : UInt8 → Bool} {a w : List UInt8} (ha : ∀ b ∈ a, p b = true)
    (hw : ∀ b ∈ w.head?, p b = false) : (a ++ w).span p = (a, w) := by
  rw [List.span_eq_takeWhile_dropWhile, List.takeWhile_append_of_pos ha,
    List.dropWhile_append_of_pos ha]
  rcases w with _ | ⟨b, w⟩
  · simp
  · have hb : p b = false := hw b rfl
    simp [hb]

theorem decodeMethod_encode {method : Nat} (h : method ∈ methods) :
    decodeMethod (encode_method method) = method := by
  have hAll : ∀ m ∈ methods, decodeMethod (encode_method m) = m := by decide
  exact hAll method h

/-- What follows the type of a field does not go on with it. -/
def NoDigit (w : List UInt8) : Prop := ∀ b ∈ w.head?, isDigit b = false

/-- **The text of a field** is read back, whatever follows it. -/
theorem readItem_outgoing {f : Field τ} (hTag : 38 ∉ f.tag) (hMethod : f.method ∈ methods)
    (hVal : 38 ∉ e.valString f) {more : List UInt8} (hMore : NoDigit more) :
    readItem (e.outgoing f ++ more) =
      some (⟨f.tag, f.method, e.valString f, f.type⟩, more) := by
  have hFree : ∀ {a : List UInt8}, 38 ∉ a → ∀ b ∈ a, decide (b ≠ 38) = true :=
    fun h b hb => decide_eq_true fun hSep => h (hSep ▸ hb)
  have hText : e.outgoing f ++ more = GW_URLVAR_TAG ++ (f.tag ++ (GW_URLVAR_METHOD ++
      (encode_method f.method :: (GW_URLVAR_VAL ++ (e.valString f ++ (GW_URLVAR_TYPE ++
        (decimal f.type ++ more))))))) := by simp [Encoder.outgoing]
  have hTagEnd := span_append (hFree hTag) (w := GW_URLVAR_METHOD ++ (encode_method f.method ::
    (GW_URLVAR_VAL ++ (e.valString f ++ (GW_URLVAR_TYPE ++ (decimal f.type ++ more))))))
    (by simp [GW_URLVAR_METHOD])
  have hValEnd := span_append (hFree hVal) (w := GW_URLVAR_TYPE ++ (decimal f.type ++ more))
    (by simp [GW_URLVAR_TYPE])
  have hTypeEnd := span_append (p := isDigit) (fun b hb => isDigit_decimal (n := f.type) hb) hMore
  rw [hText, readItem, expect_append]
  simp only [Option.bind_eq_bind, Option.bind_some, hTagEnd, expect_append, takeByte, hValEnd,
    hTypeEnd, decodeMethod_encode hMethod, readDecimal_decimal]
  rfl

theorem snprintf_decimal {n : Nat} (h : n < 2 ^ 32) : snprintf (decimal n) = decimal n := by
  have hNul : 0 ∉ decimal n := by
    intro hZero
    exact absurd (isDigit_decimal hZero) (by decide)
  have hLength : (decimal n).length ≤ NMFIELD_MAX_STR_LENGTH - 1 := le_of_lt (length_decimal h)
  rw [snprintf, cString_eq hNul, List.take_of_length_le hLength]

theorem toInt_mod {n : Nat} (h : n < 2 ^ 32) : (toInt n % 2 ^ 32).toNat = n := by
  unfold toInt
  split <;> omega

/-- What is read for a value: a string ends at its first NUL. -/
def Encoder.received : Value τ → Value τ
  | .text s => .text (text.fromUtf8 (cString (e.toUtf8 s)))
  | .number n => .number n

/-- **The value of a field that is no array.** -/
theorem value_outgoing {tag : List UInt8} {method type : Nat} {value : Value τ}
    (h : e.ValueFits type value) :
    38 ∉ e.valString (.single tag method type value) ∧
      Item.value text ⟨tag, method, e.valString (.single tag method type value), type⟩ =
        e.received value := by
  match value, h with
  | .text s, ⟨hType, hLength⟩ =>
    have hVal : e.valString (.single tag method type (.text s)) =
        (cString (e.toUtf8 s)).flatMap escapeByte := by
      rw [Encoder.valString, if_pos hType, snprintf, Encoder.toString,
        List.take_of_length_le (by omega), cString_url_escape_string]
    rw [hVal, Item.value, if_pos hType, unescape_escape]
    exact ⟨fun hSep => (escape_ne hSep).2 rfl, rfl⟩
  | .number n, ⟨hType, hn⟩ =>
    obtain ⟨-, -, -, -, hUtf8, hDN⟩ := hType
    have hVal : e.valString (.single tag method type (.number n)) = decimal n := by
      rw [Encoder.valString, if_neg (by simp [hUtf8, hDN]), Value.toInt, toInt_mod hn,
        snprintf_decimal hn]
    rw [hVal, Item.value, if_neg (by simp [hUtf8, hDN]), readDecimal_decimal]
    exact ⟨fun hSep => absurd (isDigit_decimal hSep) (by decide), rfl⟩

/-! ## Arrays -/

/-- What is written behind a field: the fields of an array. -/
def Encoder.nested (depth : Nat) : Field τ → List UInt8
  | .single .. => []
  | .multi _ _ _ fields => (e.fieldsToWire (depth + 1) fields).flatten

theorem fieldToWire_flatten {f : Field τ} (h : f.ignored = false) (depth : Nat) :
    (e.fieldToWire depth f).flatten = e.outgoing f ++ e.nested depth f := by
  match f, h with
  | .single tag method type value, h => simp [Encoder.fieldToWire, h, Encoder.nested]
  | .multi tag method type fields, h =>
    rcases fields with _ | ⟨g, fields⟩
    · simp [Encoder.fieldToWire, h, Encoder.nested, Encoder.fieldsToWire]
    · simp [Encoder.fieldToWire, h, Encoder.nested]

theorem fieldToWire_ignored {f : Field τ} (h : f.ignored = true) (depth : Nat) :
    e.fieldToWire depth f = [] := by
  match f, h with
  | .single tag method type value, h => simp [Encoder.fieldToWire, h]
  | .multi tag method type fields, h => simp [Encoder.fieldToWire, h]

theorem fieldsToWire_nested (depth : Nat) (f : Field τ) (fields : List (Field τ)) :
    (e.fieldsToWire depth (f :: fields)).flatten =
      (e.fieldToWire depth f).flatten ++ (e.fieldsToWire depth fields).flatten := by
  rw [Encoder.fieldsToWire, List.flatten_append]

theorem length_outgoing (f : Field τ) : 20 ≤ (e.outgoing f).length := by
  simp only [Encoder.outgoing, GW_URLVAR_TAG, GW_URLVAR_METHOD, GW_URLVAR_VAL, GW_URLVAR_TYPE,
    List.length_append, List.length_cons, List.length_nil]
  omega

/-- The text of any fields begins with a separator. -/
theorem noDigit_fields (depth : Nat) (fields : List (Field τ)) {more : List UInt8}
    (h : NoDigit more) : NoDigit ((e.fieldsToWire depth fields).flatten ++ more) := by
  induction fields with
  | nil =>
    rw [Encoder.fieldsToWire]
    split
    · intro b hb
      obtain rfl : (13 : UInt8) = b := by simpa using hb
      decide
    · exact h
  | cons f fields ih =>
    rw [fieldsToWire_nested]
    rcases hIgnored : f.ignored with _ | _
    · rw [fieldToWire_flatten e hIgnored]
      intro b hb
      obtain rfl : (38 : UInt8) = b := by simpa [Encoder.outgoing, GW_URLVAR_TAG] using hb
      decide
    · rw [fieldToWire_ignored e hIgnored]
      exact ih

theorem length_writtenFields (fields : List (Field τ)) :
    (writtenFields fields).length = (fields.filter fun f => !f.ignored).length := by
  induction fields with
  | nil => rfl
  | cons f fields ih =>
    rw [writtenFields, List.filter_cons]
    rcases f.ignored <;> simp [ih]

/-- The number of an array's fields is that of those that are written exactly when none is
left out. -/
theorem length_writtenFields_iff (fields : List (Field τ)) :
    fields.length = (writtenFields fields).length ↔ ∀ f ∈ fields, f.ignored = false := by
  rw [length_writtenFields, eq_comm, List.length_filter_eq_length_iff]
  simp

theorem readFieldsText_length {fuel count : Nat} {w rest : List UInt8} {fields : List (Field τ)}
    (h : readFieldsText text fuel count w = some (fields, rest)) : fields.length = count := by
  induction count generalizing fuel w rest fields with
  | zero =>
    rw [readFieldsText] at h
    rw [← (Prod.mk.inj (Option.some.inj h)).1, List.length_nil]
  | succ count ih =>
    rcases fuel with _ | fuel
    · cases h
    rw [readFieldsText] at h
    obtain ⟨⟨f, w'⟩, -, h⟩ := Option.bind_eq_some_iff.mp h
    obtain ⟨⟨fields', w''⟩, hRest, h⟩ := Option.bind_eq_some_iff.mp h
    obtain ⟨rfl, -⟩ := Prod.mk.inj (Option.some.inj h)
    rw [List.length_cons, ih hRest]

/-- An encoder of Unicode: what stands before the first NUL of a string is a string. -/
structure UnicodeEncoder (text : Text τ) extends Encoder text where
  cut : ∀ s, toUtf8 (text.fromUtf8 (cString (toUtf8 s))) = cString (toUtf8 s)

/-- A string is read back exactly when it has no NUL. -/
theorem fromUtf8_cString_iff (u : UnicodeEncoder text) (s : τ) :
    text.fromUtf8 (cString (u.toUtf8 s)) = s ↔ 0 ∉ u.toUtf8 s := by
  constructor
  · intro hSame hNul
    have hCut := u.cut s
    rw [hSame] at hCut
    rw [hCut, cString] at hNul
    have hNone := List.mem_takeWhile_imp hNul
    exact absurd hNone (by decide)
  · intro hNul
    rw [cString_eq hNul, u.fromUtf8_toUtf8]

theorem notMulti_of_valueFits {type : Nat} {value : Value τ} (h : e.ValueFits type value) :
    ¬ (type = NMFIELD_TYPE_MV ∨ type = NMFIELD_TYPE_ARRAY) := by
  rcases value with str | n
  · obtain ⟨rfl | rfl, -⟩ := h <;> decide
  · obtain ⟨⟨-, -, hMV, hArray, -⟩, -⟩ := h
    rintro (hSame | hSame)
    · exact hMV hSame
    · exact hArray hSame

theorem readFieldText_single (u : UnicodeEncoder text) {tag : List UInt8} {method type : Nat}
    {value : Value τ} (hTag : 38 ∉ tag) (hMethod : method ∈ methods)
    (hValue : u.ValueFits type value)
    (readNested : Nat → List UInt8 → Option (List (Field τ) × List UInt8)) {more : List UInt8}
    (hMore : NoDigit more) (rest : List UInt8) :
    readFieldText text readNested (u.outgoing (.single tag method type value) ++ more) =
        some (.single tag method type value, rest) ↔
      u.FieldIntact (.single tag method type value) ∧ rest = more := by
  obtain ⟨hSep, hDecoded⟩ : 38 ∉ u.toEncoder.valString (.single tag method type value) ∧
      Item.value text ⟨tag, method, u.toEncoder.valString (.single tag method type value), type⟩ =
        u.toEncoder.received value := value_outgoing u.toEncoder hValue
  have hItem := readItem_outgoing u.toEncoder (f := .single tag method type value) hTag hMethod
    hSep hMore
  have hRead : readFieldText text readNested (u.outgoing (.single tag method type value) ++ more) =
      some (.single tag method type (u.received value), more) := by
    rw [readFieldText, hItem, Option.bind_eq_bind, Option.bind_some]
    dsimp only [Field.type, Field.tag, Field.method]
    rw [if_neg (notMulti_of_valueFits u.toEncoder hValue), hDecoded, Option.pure_def]
  rw [hRead, Option.some.injEq, Prod.mk.injEq, Field.single.injEq, eq_comm (a := more)]
  refine and_congr ?_ Iff.rfl
  simp only [true_and]
  rcases value with str | n
  · rw [Encoder.received, Value.text.injEq, fromUtf8_cString_iff, Encoder.FieldIntact]
    simp
  · simp [Encoder.FieldIntact, Encoder.received]

theorem readFieldText_multi (u : UnicodeEncoder text) {tag : List UInt8} {method type : Nat}
    {fields : List (Field τ)} (hTag : 38 ∉ tag) (hMethod : method ∈ methods)
    (hType : type = NMFIELD_TYPE_MV ∨ type = NMFIELD_TYPE_ARRAY) (hCount : fields.length < 2 ^ 31)
    (readNested : Nat → List UInt8 → Option (List (Field τ) × List UInt8)) {more : List UInt8}
    (hMore : NoDigit more) (fields' : List (Field τ)) (rest : List UInt8) :
    readFieldText text readNested (u.outgoing (.multi tag method type fields) ++ more) =
        some (.multi tag method type fields', rest) ↔
      readNested fields.length more = some (fields', rest) := by
  have hVal : u.valString (.multi tag method type fields) = decimal fields.length := by
    rw [Encoder.valString, snprintf_decimal (by omega)]
  have hItem := readItem_outgoing u.toEncoder (f := .multi tag method type fields) hTag hMethod
    (by rw [hVal]; exact fun hSep => absurd (isDigit_decimal hSep) (by decide)) hMore
  rw [readFieldText, hItem, Option.bind_eq_bind, Option.bind_some]
  dsimp only [Field.type, Field.tag, Field.method]
  rw [if_pos hType, hVal, readDecimal_decimal]
  rcases readNested fields.length more with _ | ⟨nested, w⟩
  · simp
  · simp [Option.bind_some]

mutual
/-- **One field**, with the fields of an array. -/
theorem readFieldText_iff (u : UnicodeEncoder text) (f : Field τ) (hValid : u.FieldValid f)
    (hIgnored : f.ignored = false) (depth : Nat) {fuel : Nat}
    (hFuel : (u.fieldToWire depth f).flatten.length ≤ fuel + 1) {more : List UInt8}
    (hMore : NoDigit more) (rest : List UInt8) :
    readFieldText text (readFieldsText text fuel) ((u.fieldToWire depth f).flatten ++ more) =
        some (f.written, rest) ↔ u.FieldIntact f ∧ rest = more := by
  rw [fieldToWire_flatten u.toEncoder hIgnored, List.append_assoc]
  rw [fieldToWire_flatten u.toEncoder hIgnored, List.length_append] at hFuel
  match f, hValid with
  | .single tag method type value, hValid =>
    obtain ⟨hTag, hMethod, hValue⟩ := hValid.resolve_left (by simp [hIgnored])
    exact readFieldText_single u hTag hMethod hValue _ hMore rest
  | .multi tag method type fields, hValid =>
    obtain ⟨hTag, hMethod, hType, hCount, hFields⟩ := hValid.resolve_left (by simp [hIgnored])
    have hHead := length_outgoing u.toEncoder (.multi tag method type fields)
    have hNested := fun rest => readFieldsText_iff u fields hFields depth
      (show _ ≤ fuel by simp only [Encoder.nested] at hFuel; omega) hMore rest
    have hStart := noDigit_fields u.toEncoder (depth + 1) fields hMore
    rw [Encoder.nested, Field.written, readFieldText_multi u hTag hMethod hType hCount _ hStart,
      Encoder.FieldIntact, and_assoc]
    constructor
    · intro hRead
      have hLength := (readFieldsText_length hRead).symm
      rw [hLength] at hRead
      exact ⟨(length_writtenFields_iff fields).mp hLength, (hNested rest).mp hRead⟩
    · rintro ⟨hNone, hIntact⟩
      rw [(length_writtenFields_iff fields).mpr hNone]
      exact (hNested rest).mpr hIntact

/-- **As many fields as are written.** -/
theorem readFieldsText_iff (u : UnicodeEncoder text) (fields : List (Field τ))
    (hValid : u.FieldsValid fields) (depth : Nat) {fuel : Nat}
    (hFuel : (u.fieldsToWire (depth + 1) fields).flatten.length ≤ fuel) {more : List UInt8}
    (hMore : NoDigit more) (rest : List UInt8) :
    readFieldsText text fuel (writtenFields fields).length
        ((u.fieldsToWire (depth + 1) fields).flatten ++ more) =
      some (writtenFields fields, rest) ↔ u.FieldsIntact fields ∧ rest = more := by
  match fields, hValid with
  | [], _ =>
    simp [writtenFields, readFieldsText, Encoder.fieldsToWire, Encoder.FieldsIntact, eq_comm]
  | f :: fields, hValid =>
    rw [fieldsToWire_nested, List.append_assoc, Encoder.FieldsIntact, writtenFields]
    rw [fieldsToWire_nested, List.length_append] at hFuel
    rcases hIgnored : f.ignored with _ | _
    · have hText := length_outgoing u.toEncoder f
      rw [fieldToWire_flatten u.toEncoder hIgnored, List.length_append] at hFuel
      obtain ⟨fuel, rfl⟩ := Nat.exists_eq_succ_of_ne_zero (show fuel ≠ 0 by omega)
      have hLength : (u.fieldToWire (depth + 1) f).flatten.length ≤ fuel + 1 := by
        rw [fieldToWire_flatten u.toEncoder hIgnored, List.length_append]
        omega
      have hField := readFieldText_iff u f hValid.1 hIgnored (depth + 1) hLength
        (noDigit_fields u.toEncoder (depth + 1) fields hMore)
      have hRest := readFieldsText_iff u fields hValid.2 depth (show _ ≤ fuel by omega) hMore
      rw [if_neg (by decide), List.length_cons, readFieldsText]
      simp only [Option.bind_eq_bind, Option.bind_eq_some_iff, Prod.exists, Option.pure_def,
        Option.some.injEq, Prod.mk.injEq, List.cons.injEq]
      constructor
      · rintro ⟨g, w, hRead, gs, w', hReadRest, ⟨rfl, rfl⟩, rfl⟩
        obtain ⟨hIntact, rfl⟩ := (hField w).mp hRead
        obtain ⟨hIntactRest, rfl⟩ := (hRest w').mp hReadRest
        exact ⟨⟨.inr hIntact, hIntactRest⟩, rfl⟩
      · rintro ⟨⟨hIntact, hIntactRest⟩, rfl⟩
        exact ⟨_, _, (hField _).mpr ⟨hIntact.resolve_left (by simp), rfl⟩, _, _,
          (hRest rest).mpr ⟨hIntactRest, rfl⟩, ⟨rfl, rfl⟩, rfl⟩
    · rw [fieldToWire_ignored u.toEncoder hIgnored, List.flatten_nil, List.nil_append, if_pos rfl,
        readFieldsText_iff u fields hValid.2 depth (by omega) hMore rest]
      simp
end

/-! ## Requests -/

/-- The text of a request that is not empty does not begin like its end. -/
theorem outgoing_ne_end (f : Field τ) (w : List UInt8) : e.outgoing f ++ w ≠ [13, 10] := by
  simp [Encoder.outgoing, GW_URLVAR_TAG]

/-- **A whole request.** -/
theorem readText_iff (u : UnicodeEncoder text) (forest : List (Field τ))
    (hValid : u.FieldsValid forest) {fuel : Nat}
    (hFuel : (u.fieldsToWire 0 forest).flatten.length ≤ fuel) :
    readText text fuel (u.fieldsToWire 0 forest).flatten = some (writtenFields forest) ↔
      u.FieldsIntact forest := by
  induction forest generalizing fuel with
  | nil =>
    obtain ⟨fuel, rfl⟩ := Nat.exists_eq_succ_of_ne_zero
      (show fuel ≠ 0 by simp [Encoder.fieldsToWire] at hFuel; omega)
    simp [Encoder.fieldsToWire, readText, writtenFields, Encoder.FieldsIntact]
  | cons f forest ih =>
    rw [fieldsToWire_nested, Encoder.FieldsIntact, writtenFields]
    rw [fieldsToWire_nested, List.length_append] at hFuel
    rcases hIgnored : f.ignored with _ | _
    · have hText := length_outgoing u.toEncoder f
      have hMore : NoDigit (u.fieldsToWire 0 forest).flatten := by
        have hNil : NoDigit [] := fun b hb => by cases hb
        have hEnd := noDigit_fields u.toEncoder 0 forest hNil
        rwa [List.append_nil] at hEnd
      rw [fieldToWire_flatten u.toEncoder hIgnored, List.length_append] at hFuel
      obtain ⟨fuel, rfl⟩ := Nat.exists_eq_succ_of_ne_zero (show fuel ≠ 0 by omega)
      have hLength : (u.fieldToWire 0 f).flatten.length ≤ fuel + 1 := by
        rw [fieldToWire_flatten u.toEncoder hIgnored, List.length_append]
        omega
      have hField := readFieldText_iff u f hValid.1 hIgnored 0 hLength hMore
      have hRest := ih hValid.2 (show _ ≤ fuel by omega)
      have hNotEnd : (u.fieldToWire 0 f).flatten ++ (u.fieldsToWire 0 forest).flatten ≠
          [13, 10] := by
        rw [fieldToWire_flatten u.toEncoder hIgnored, List.append_assoc]
        exact outgoing_ne_end u.toEncoder f _
      rw [if_neg (by decide), readText, if_neg hNotEnd]
      simp only [Option.bind_eq_bind, Option.bind_eq_some_iff, Prod.exists, Option.pure_def,
        Option.some.injEq, List.cons.injEq]
      constructor
      · rintro ⟨g, w, hRead, gs, hReadRest, rfl, rfl⟩
        obtain ⟨hIntact, rfl⟩ := (hField w).mp hRead
        exact ⟨.inr hIntact, hRest.mp hReadRest⟩
      · rintro ⟨hIntact, hIntactRest⟩
        exact ⟨_, _, (hField _).mpr ⟨hIntact.resolve_left (by simp), rfl⟩, _,
          hRest.mpr hIntactRest, rfl, rfl⟩
    · rw [fieldToWire_ignored u.toEncoder hIgnored, List.flatten_nil, List.length_nil] at hFuel
      rw [fieldToWire_ignored u.toEncoder hIgnored, List.flatten_nil, List.nil_append, if_pos rfl,
        ih hValid.2 (by omega)]
      simp

mutual
theorem countAgrees_of_intact (f : Field τ) (hValid : e.FieldValid f)
    (hIgnored : f.ignored = false) (hIntact : e.FieldIntact f) : e.CountAgrees f := by
  match f, hValid with
  | .single .., _ => trivial
  | .multi tag method type fields, hValid =>
    obtain ⟨-, -, -, hCount, hFields⟩ := hValid.resolve_left (by simp [hIgnored])
    refine ⟨?_, countsAgree_of_intact fields hFields hIntact.2⟩
    rw [Encoder.valString, snprintf_decimal (by omega), readDecimal_decimal]
    exact (length_writtenFields_iff fields).mpr hIntact.1

/-- **The numbers announced** are right where no field is left out. -/
theorem countsAgree_of_intact (fields : List (Field τ)) (hValid : e.FieldsValid fields)
    (hIntact : e.FieldsIntact fields) : e.CountsAgree fields := by
  match fields, hValid with
  | [], _ => trivial
  | f :: fields, hValid =>
    refine ⟨?_, countsAgree_of_intact fields hValid.2 hIntact.2⟩
    rcases hIgnored : f.ignored with _ | _
    · exact .inr (countAgrees_of_intact f hValid.1 hIgnored
        (hIntact.1.resolve_left (by simp [hIgnored])))
    · exact .inl rfl
end

/-- **Requests.** The text is read back to the fields that are not left out, with the right
numbers in it, exactly when none is left out of an array and no string has a NUL; and the
escaping of C strings is injective. -/
theorem request_iff (u : UnicodeEncoder text) (forest : List (Field τ))
    (hValid : u.FieldsValid forest) :
    ((readText text (u.fieldsToWire 0 forest).flatten.length
          (u.fieldsToWire 0 forest).flatten = some (writtenFields forest) ∧
        u.CountsAgree forest) ↔ u.FieldsIntact forest) ∧
      ∀ a b, 0 ∉ a → 0 ∉ b → url_escape_string a = url_escape_string b → a = b := by
  have hRead := readText_iff u forest hValid (le_refl _)
  refine ⟨⟨fun h => hRead.mp h.1, fun hIntact => ⟨hRead.mpr hIntact, ?_⟩⟩,
    fun a b ha hb h => url_escape_string_inj ha hb h⟩
  exact countsAgree_of_intact u.toEncoder forest hValid hIntact

theorem fromUtf8_rawText (t : List UInt8) : Session.rawText.fromUtf8 (id t) = t := rfl

theorem cut_rawText (t : List UInt8) :
    id (Session.rawText.fromUtf8 (cString (id t))) = cString (id t) := rfl

/-- Text that is its UTF-8. -/
def rawEncoder : UnicodeEncoder Session.rawText where
  toUtf8 := id
  fromUtf8_toUtf8 := fromUtf8_rawText
  cut := cut_rawText

/-- A string with a separator in it, and an array of a number and an empty array. -/
def someRequest : List (Field (List UInt8)) :=
  [.single [65] 0 NMFIELD_TYPE_UTF8 (.text [97, 38, 32]),
    .multi [66] 5 NMFIELD_TYPE_ARRAY
      [.single [67] 2 8 (.number 4000000000), .multi [68] 0 NMFIELD_TYPE_MV []]]

theorem request_someRequest :
    readText Session.rawText (rawEncoder.fieldsToWire 0 someRequest).flatten.length
      (rawEncoder.fieldsToWire 0 someRequest).flatten = some someRequest := by
  have hNumeric : Codec.IsNumeric 8 := by simp [Codec.IsNumeric, NMFIELD_TYPE_MV,
    NMFIELD_TYPE_ARRAY, NMFIELD_TYPE_UTF8, NMFIELD_TYPE_DN]
  have hValid : rawEncoder.FieldsValid someRequest :=
    ⟨.inr ⟨by decide, by decide, .inl rfl, by decide⟩,
      .inr ⟨by decide, by decide, .inr rfl, by decide,
        .inr ⟨by decide, by decide, hNumeric, by decide⟩,
        .inr ⟨by decide, by decide, .inl rfl, by decide, trivial⟩, trivial⟩, trivial⟩
  have hIntact : rawEncoder.FieldsIntact someRequest := by
    simp [someRequest, Encoder.FieldsIntact, Encoder.FieldIntact, Field.ignored, Field.type,
      Field.method, NMFIELD_TYPE_BINARY, NMFIELD_METHOD_IGNORE, NMFIELD_TYPE_ARRAY,
      NMFIELD_TYPE_MV, rawEncoder]
  exact ((request_iff rawEncoder someRequest hValid).1.mpr hIntact).1

/-- An array of two fields, the first of which is left out. -/
def ignoredChild : List (Field (List UInt8)) :=
  [.multi [66] 5 NMFIELD_TYPE_ARRAY
    [.single [67] NMFIELD_METHOD_IGNORE 8 (.number 1), .single [68] 0 8 (.number 2)]]

/-- **A wrong number.** Two fields are announced and one is written; nothing is read back. -/
theorem ignored_child_shifts :
    rawEncoder.FieldsValid ignoredChild ∧
      readText Session.rawText (rawEncoder.fieldsToWire 0 ignoredChild).flatten.length
        (rawEncoder.fieldsToWire 0 ignoredChild).flatten ≠ some (writtenFields ignoredChild) := by
  have hNumeric : Codec.IsNumeric 8 := by simp [Codec.IsNumeric, NMFIELD_TYPE_MV,
    NMFIELD_TYPE_ARRAY, NMFIELD_TYPE_UTF8, NMFIELD_TYPE_DN]
  refine ⟨⟨.inr ⟨by decide, by decide, .inr rfl, by decide, .inl rfl,
    .inr ⟨by decide, by decide, hNumeric, by decide⟩, trivial⟩, trivial⟩, ?_⟩
  have hNone : readText Session.rawText (rawEncoder.fieldsToWire 0 ignoredChild).flatten.length
      (rawEncoder.fieldsToWire 0 ignoredChild).flatten = none := by rfl
  rw [hNone]
  exact fun h => by cases h

end GroupWise
