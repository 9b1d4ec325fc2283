import Mathlib

/-!
# Oscar — the text of a message

A text is stored in the narrowest encoding that has all of its characters. In UCS-2 the two bytes
of a character are put together by hand, and a null at the end is taken off: for that the last
character is looked at, whether there is one or not.

Main results:

* `text_setText` — a text is read as it was stored;
* `isSome_text_iff` — when nothing outside an array is read.
-/

namespace Oscar

abbrev QString := List UInt16

/-- What is used of a `QTextCodec`. -/
structure QTextCodec where
  toUnicode : List UInt8 → QString
  fromUnicode : QString → List UInt8

/-- `Message::Encoding`. -/
inductive Encoding
  | UserDefined | ASCII | LATIN1 | UTF8 | UCS2
deriving DecidableEq, Repr

/-- The text of a `Message`. -/
structure MessageText where
  textArray : List UInt8
  encoding : Encoding
deriving DecidableEq, Repr

namespace MessageText

/-! ## Characters -/

/-- `QChar( cell, row )`. -/
def charOf (cell row : UInt8) : UInt16 := UInt16.ofNat (row.toNat * 2 ^ 8 + cell.toNat)

/-- `QChar::row`. -/
def row (c : UInt16) : UInt8 := UInt8.ofNat (c.toNat / 2 ^ 8)

/-- `QChar::cell`. -/
def cell (c : UInt16) : UInt8 := UInt8.ofNat c.toNat

/-- `QString::toLatin1`; `toAscii` is the same. A character that is none becomes a question
mark. -/
def toLatin1 (s : QString) : List UInt8 :=
  s.map fun c => if c ≤ 0xFF then UInt8.ofNat c.toNat else 63

/-- `QString::fromLatin1`; `fromAscii` is the same. -/
def fromLatin1 (bytes : List UInt8) : QString := bytes.map fun b => UInt16.ofNat b.toNat

/-- An index of an array; `none` is a read outside of it. -/
def at? {α : Type} (l : List α) (i : Int) : Option α := if 0 ≤ i then l[i.toNat]? else none

/-! ## The text -/

/-- The loop over the characters of UCS-2. -/
def ucs2Chars (textArray : List UInt8) (len : Nat) : Option QString :=
  (List.range len).mapM fun (i : Nat) => do
    let row ← at? textArray (2 * (i : Int))
    let cell ← at? textArray (2 * (i : Int) + 1)
    some (charOf cell row)

/-- `Message::text`. The index of the last character is an `int` that a `uint` is made into, and
-1 where there is none. -/
def text (utf8 codec : QTextCodec) (m : MessageText) : Option QString :=
  match m.encoding with
  | .UserDefined => some (codec.toUnicode m.textArray)
  | .ASCII => some (fromLatin1 m.textArray)
  | .LATIN1 => some (fromLatin1 m.textArray)
  | .UTF8 => some (utf8.toUnicode m.textArray)
  | .UCS2 => do
    let len := m.textArray.length / 2
    let result ← ucs2Chars m.textArray len
    -- check if last character isn't null
    let last ← at? result ((len : Int) - 1)
    some (if last = 0 then result.take (len - 1) else result)

/-- The loop of `encodingForText`. -/
def encodingFrom (allowUCS2 : Bool) (encoding : Encoding) : QString → Encoding
  | [] => encoding
  | ch :: newText =>
    if ch > 0xFF then if allowUCS2 then .UCS2 else .UserDefined
    else if encoding = .ASCII ∧ ch > 0x7F then encodingFrom allowUCS2 .LATIN1 newText
    else encodingFrom allowUCS2 encoding newText

/-- `Message::encodingForText`. -/
def encodingForText (newText : QString) (allowUCS2 : Bool) : Encoding :=
  encodingFrom allowUCS2 .ASCII newText

/-- `Message::setText`. -/
def setText (utf8 codec : QTextCodec) (newEncoding : Encoding) (newText : QString) : MessageText :=
  ⟨match newEncoding with
    | .UserDefined => codec.fromUnicode newText
    | .ASCII => toLatin1 newText
    | .LATIN1 => toLatin1 newText
    | .UTF8 => utf8.fromUnicode newText
    | .UCS2 => newText.flatMap fun c => [row c, cell c], newEncoding⟩

/-! ## One byte for a character -/

theorem fromLatin1_toLatin1 {s : QString} (h : ∀ c ∈ s, c ≤ 0xFF) :
    fromLatin1 (toLatin1 s) = s := by
  unfold fromLatin1 toLatin1
  rw [List.map_map]
  refine (List.map_congr_left fun c hc => ?_).trans (List.map_id s)
  have hByte : c.toNat ≤ 0xFF := h c hc
  show UInt16.ofNat (if c ≤ 0xFF then UInt8.ofNat c.toNat else 63).toNat = c
  rw [if_pos (h c hc), UInt8.toNat_ofNat', Nat.mod_eq_of_lt (by omega), UInt16.ofNat_toNat]

/-- What the loop over the text says of its characters. -/
theorem encodingFrom_spec (encoding : Encoding) (hStart : encoding = .ASCII ∨ encoding = .LATIN1) :
    ∀ s : QString, (encodingFrom true encoding s = .UCS2 ∧ s ≠ []) ∨
      ((encodingFrom true encoding s = .ASCII ∨ encodingFrom true encoding s = .LATIN1) ∧
        ∀ c ∈ s, c ≤ 0xFF)
  | [] => .inr ⟨hStart, by simp⟩
  | ch :: s => by
    unfold encodingFrom
    by_cases hHigh : ch > 0xFF
    · rw [if_pos hHigh]
      exact .inl ⟨rfl, List.cons_ne_nil _ _⟩
    · rw [if_neg hHigh]
      have hNext : ∀ next, next = .ASCII ∨ next = .LATIN1 →
          (encodingFrom true next s = .UCS2 ∧ ch :: s ≠ []) ∨
            ((encodingFrom true next s = .ASCII ∨ encodingFrom true next s = .LATIN1) ∧
              ∀ c ∈ ch :: s, c ≤ 0xFF) := by
        intro next hNext
        obtain ⟨hUCS2, -⟩ | ⟨hByte, hChars⟩ := encodingFrom_spec next hNext s
        · exact .inl ⟨hUCS2, List.cons_ne_nil _ _⟩
        · exact .inr ⟨hByte, List.forall_mem_cons.mpr ⟨UInt16.not_lt.mp hHigh, hChars⟩⟩
      split
      · exact hNext .LATIN1 (.inr rfl)
      · exact hNext encoding hStart

/-! ## Two bytes for a character -/

theorem charOf_cell_row (c : UInt16) : charOf (cell c) (row c) = c := by
  have hLt := c.toNat_lt
  unfold charOf cell row
  rw [UInt8.toNat_ofNat', UInt8.toNat_ofNat', Nat.mod_eq_of_lt (a := c.toNat / 2 ^ 8) (by omega),
    Nat.mul_comm, Nat.div_add_mod, UInt16.ofNat_toNat]

theorem mapM_some {α β : Type} {f : α → Option β} {g : α → β} : ∀ {l : List α},
    (∀ a ∈ l, f a = some (g a)) → l.mapM f = some (l.map g)
  | [], _ => rfl
  | a :: l, h => by
    obtain ⟨hHead, hTail⟩ := List.forall_mem_cons.mp h
    rw [List.mapM_cons, hHead, mapM_some hTail]
    rfl

theorem at?_natCast {α : Type} {l : List α} {i : Nat} (h : i < l.length) :
    at? l i = some l[i] := by
  unfold at?
  rw [if_pos (Int.natCast_nonneg i), Int.toNat_natCast, List.getElem?_eq_getElem h]

/-- **The loop** reads the bytes of the characters, all of them inside the array. -/
theorem ucs2Chars_eq (textArray : List UInt8) :
    ucs2Chars textArray (textArray.length / 2) =
      some ((List.range (textArray.length / 2)).map fun i =>
        charOf (textArray.getD (2 * i + 1) 0) (textArray.getD (2 * i) 0)) := by
  unfold ucs2Chars
  refine mapM_some fun i hi => ?_
  rw [List.mem_range] at hi
  have hRow : at? textArray (2 * (i : Int)) = some (textArray.getD (2 * i) 0) := by
    rw [List.getD_eq_getElem _ _ (by omega)]
    exact_mod_cast at?_natCast (l := textArray) (i := 2 * i) (by omega)
  have hCell : at? textArray (2 * (i : Int) + 1) = some (textArray.getD (2 * i + 1) 0) := by
    rw [List.getD_eq_getElem _ _ (by omega)]
    exact_mod_cast at?_natCast (l := textArray) (i := 2 * i + 1) (by omega)
  rw [hRow, hCell]
  rfl

/-- The two bytes of a character, among those of all. -/
theorem getD_bytes : ∀ (s : QString) (i : Nat) (h : i < s.length),
    (s.flatMap fun c => [row c, cell c]).getD (2 * i) 0 = row s[i] ∧
      (s.flatMap fun c => [row c, cell c]).getD (2 * i + 1) 0 = cell s[i]
  | c :: s, 0, _ => ⟨rfl, rfl⟩
  | c :: s, i + 1, h => by
    obtain ⟨hRow, hCell⟩ := getD_bytes s i (Nat.lt_of_succ_lt_succ h)
    exact ⟨hRow, hCell⟩

theorem length_bytes (s : QString) :
    (s.flatMap fun c => [row c, cell c]).length = 2 * s.length := by
  induction s with
  | nil => rfl
  | cons c s ih =>
    rw [List.flatMap_cons, List.length_append, ih, List.length_cons]
    simp only [List.length_cons, List.length_nil]
    omega

theorem ucs2Chars_bytes (s : QString) :
    ucs2Chars (s.flatMap fun c => [row c, cell c])
      ((s.flatMap fun c => [row c, cell c]).length / 2) = some s := by
  rw [ucs2Chars_eq, length_bytes, Nat.mul_div_cancel_left _ (by decide)]
  congr 1
  refine List.ext_getElem (by simp) fun i hi hi' => ?_
  obtain ⟨hRow, hCell⟩ := getD_bytes s i hi'
  rw [List.getElem_map, List.getElem_range, hRow, hCell, charOf_cell_row]

/-! ## The text, stored and read -/

/-- **A text is read as it was stored**, in the encoding that is chosen for it. -/
theorem text_setText (utf8 codec : QTextCodec) {s : QString} (h : 0 ∉ s) :
    text utf8 codec (setText utf8 codec (encodingForText s true) s) = some s := by
  obtain ⟨hUCS2, hSome⟩ | ⟨hByte, hChars⟩ := encodingFrom_spec .ASCII (.inl rfl) s
  · have hPos : 0 < s.length := List.length_pos_iff.mpr hSome
    have hLast : at? s ((s.length : Int) - 1) = some s[s.length - 1] := by
      rw [← at?_natCast (by omega), Nat.cast_sub hPos]
      rfl
    have hNotNull : s[s.length - 1] ≠ 0 := fun hNull => h (hNull ▸ List.getElem_mem _)
    have hHalf : (s.flatMap fun c => [row c, cell c]).length / 2 = s.length := by
      rw [length_bytes, Nat.mul_div_cancel_left _ (by decide)]
    rw [encodingForText, hUCS2, setText, text]
    dsimp only
    rw [ucs2Chars_bytes, Option.bind_eq_bind, Option.bind_some, hHalf, hLast, Option.bind_eq_bind,
      Option.bind_some, if_neg hNotNull]
  · rw [encodingForText]
    obtain hASCII | hLATIN1 := hByte
    · rw [hASCII]
      exact congrArg some (fromLatin1_toLatin1 hChars)
    · rw [hLATIN1]
      exact congrArg some (fromLatin1_toLatin1 hChars)

/-- **Nothing outside an array is read** unless the text is one of UCS-2 with no character. -/
theorem isSome_text_iff (utf8 codec : QTextCodec) (m : MessageText) :
    (text utf8 codec m).isSome ↔ m.encoding ≠ .UCS2 ∨ 2 ≤ m.textArray.length := by
  cases hEncoding : m.encoding with
  | UCS2 =>
    have hText : text utf8 codec m = (do
        let result ← ucs2Chars m.textArray (m.textArray.length / 2)
        let last ← at? result (((m.textArray.length / 2 : Nat) : Int) - 1)
        some (if last = 0 then result.take (m.textArray.length / 2 - 1) else result)) := by
      unfold text
      rw [hEncoding]
    rw [hText, ucs2Chars_eq, Option.bind_eq_bind, Option.bind_some, Option.bind_eq_bind]
    by_cases hSize : 2 ≤ m.textArray.length
    · have hPos : 0 < m.textArray.length / 2 := by omega
      have hIndex : ((m.textArray.length / 2 : Nat) : Int) - 1 =
          ((m.textArray.length / 2 - 1 : Nat) : Int) := by omega
      rw [hIndex, at?_natCast (by rw [List.length_map, List.length_range]; omega)]
      exact iff_of_true rfl (.inr hSize)
    · have hNone : m.textArray.length / 2 = 0 := by omega
      rw [hNone]
      exact iff_of_false (by simp [at?]) (by simpa using hSize)
  | _ =>
    refine iff_of_true ?_ (.inl (by decide))
    unfold text
    rw [hEncoding]
    rfl

/-- **Text**: what is stored is read, and nothing outside an array unless a text of UCS-2 has no
character. -/
theorem text_iff (utf8 codec : QTextCodec) :
    (∀ s : QString, 0 ∉ s →
        text utf8 codec (setText utf8 codec (encodingForText s true) s) = some s) ∧
      ∀ m : MessageText, (text utf8 codec m).isSome ↔ m.encoding ≠ .UCS2 ∨ 2 ≤ m.textArray.length :=
  ⟨fun _ h => text_setText utf8 codec h, isSome_text_iff utf8 codec⟩

theorem text_iff_alpha :
    text ⟨fun _ => [], fun _ => []⟩ ⟨fun _ => [], fun _ => []⟩
      (setText ⟨fun _ => [], fun _ => []⟩ ⟨fun _ => [], fun _ => []⟩
        (encodingForText [0x61, 0x03B1] true) [0x61, 0x03B1]) = some [0x61, 0x03B1] :=
  (text_iff ⟨fun _ => [], fun _ => []⟩ ⟨fun _ => [], fun _ => []⟩).1 [0x61, 0x03B1] (by decide)

/-- A text of UCS-2 without a byte. -/
theorem text_empty :
    ¬ ∀ (utf8 codec : QTextCodec) (m : MessageText), (text utf8 codec m).isSome := by
  intro h
  have hSome := h ⟨fun _ => [], fun _ => []⟩ ⟨fun _ => [], fun _ => []⟩ ⟨[], .UCS2⟩
  exact absurd hSome (by decide)

end MessageText

end Oscar
