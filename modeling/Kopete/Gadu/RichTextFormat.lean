import Kopete.Lib.Html
import Mathlib

/-!
# Gadu-Gadu — rich text

`convertToHtml` goes over the formatting records of a message and cuts its text at
their positions; in front of each piece a span is opened that the next record closes.
It looks for another record while there are bytes left, not while there is room for
one, and it escapes the angle brackets of the text but not its ampersands.

Main results:

* `displays_escaped` — what a browser reads of an escaped piece of text;
* `convertLoop_cuts` — the loop, and what its output displays;
* `displayed_faithfully_iff` — a message is displayed as it was sent exactly if all records
  that are looked at are complete and no piece of the text holds a character reference.
-/

namespace Gadu

open Html

/-- The records of libgadu, and the bits of their fonts. -/
structure Libgadu where
  /-- `sizeof(gg_msg_richtext_format)`. -/
  formatSize : Nat
  /-- `sizeof(gg_msg_richtext_color)`. -/
  colorSize : Nat
  /-- `sizeof(gg_msg_richtext_image)`. -/
  imageSize : Nat
  position : List UInt8 → Nat
  font : List UInt8 → UInt8
  red : List UInt8 → UInt8
  green : List UInt8 → UInt8
  blue : List UInt8 → UInt8
  fontBold : UInt8
  fontItalic : UInt8
  fontUnderline : UInt8
  fontColor : UInt8
  fontImage : UInt8
  formatSize_pos : 0 < formatSize

/-! ## Escaping -/

/-- `QString::replace`, of a character. -/
def replaceChar (before : UInt16) (after : Text) (input : Text) : Text :=
  input.flatMap fun c => if c = before then after else [c]

/-- `QString::replace` of `\s\s`. -/
def replaceSpaces : Text → Text
  | [] => []
  | [c] => [c]
  | a :: b :: t =>
    if isSpace a && isSpace b then latin1 " &nbsp;" ++ replaceSpaces t
    else a :: replaceSpaces (b :: t)

/-- `GaduRichTextFormat::escapeBody`. -/
def escapeBody (input : Text) : Text :=
  let input := replaceChar 60 (latin1 "&lt;") input
  let input := replaceChar 62 (latin1 "&gt;") input
  let input := replaceChar 10 (latin1 "<br />") input
  let input := replaceChar 9 (latin1 "&nbsp;&nbsp;&nbsp;&nbsp;") input
  replaceSpaces input

/-! ## Conversion -/

/-- `GaduRichTextFormat::formatOpeningTag`. -/
def formatOpeningTag (tag attributes : Text) : Text :=
  let res := 60 :: tag
  let res := if attributes ≠ [] then res ++ (32 :: attributes) else res
  res ++ [62]

/-- `GaduRichTextFormat::formatClosingTag`. -/
def formatClosingTag (tag : Text) : Text := latin1 "</" ++ tag ++ [62]

/-- `QString::arg`, of an int. -/
def decimal (n : Nat) : Text := (Nat.toDigits 10 n).map fun c => UInt16.ofNat c.toNat

def span : Text := latin1 "span"

def pictureHtml : Text := latin1 "<b>[this should be a picture, not yet implemented]</b>"

/-- `QString::mid`. -/
def mid (msg : Text) (j n : Nat) : Text := (msg.drop j).take n

/-- The bytes of a record at `i`, all of them in the array. -/
def readRecord (formats : List UInt8) (i size : Nat) : Option (List UInt8) :=
  if i + size ≤ formats.length then some ((formats.drop i).take size) else none

/-- The variables of the loop. -/
structure Output where
  j : Nat
  r : Nat
  g : Nat
  b : Nat
  opened : Bool
  tmp : Text

/-- The text up to a record, and the end of the span it is in. -/
def Output.addMessage (s : Output) (msg : Text) (position : Nat) : Output :=
  let tmp := s.tmp ++ escapeBody (mid msg s.j (position - s.j))
  { s with
    j := position
    tmp := if s.opened then tmp ++ formatClosingTag span else tmp
    opened := false }

def Output.setColor (s : Output) (lib : Libgadu) (color : List UInt8) : Output :=
  { s with
    r := (lib.red color).toNat
    g := (lib.green color).toNat
    b := (lib.blue color).toNat }

def Output.style (s : Output) (lib : Libgadu) (font : UInt8) : Text :=
  (if font &&& lib.fontBold ≠ 0 then latin1 " font-weight:bold; " else []) ++
    (if font &&& lib.fontItalic ≠ 0 then latin1 " font-style:italic; " else []) ++
    (if font &&& lib.fontUnderline ≠ 0 then latin1 " text-decoration:underline; " else []) ++
    (latin1 " color: rgb( " ++ decimal s.r ++ latin1 ", " ++ decimal s.g ++ latin1 ", " ++
      decimal s.b ++ latin1 " ); ")

/-- The span of a record. -/
def Output.openSpan (s : Output) (lib : Libgadu) (font : UInt8) : Output :=
  let attributes := latin1 "style=\"" ++ s.style lib font ++ latin1 "\""
  { s with tmp := s.tmp ++ formatOpeningTag span attributes, opened := true }

/-- The loop of `convertToHtml`; `none` when it reads outside the array. `formats_length`
is an int, so that `i` does not wrap around. -/
def convertLoop (lib : Libgadu) (msg : Text) (formats : List UInt8) (i : Nat) (s : Output) :
    Option Output :=
  if i < formats.length then
    match readRecord formats i lib.formatSize with
    | none => none
    | some format =>
      if lib.position format < s.j ∨ lib.position format > msg.length then some s
      else if lib.font format &&& lib.fontImage ≠ 0 then
        convertLoop lib msg formats (i + lib.imageSize + lib.formatSize)
          { s with tmp := s.tmp ++ pictureHtml }
      else
        if lib.font format &&& lib.fontColor ≠ 0 then
          match readRecord formats (i + lib.formatSize) lib.colorSize with
          | none => none
          | some color =>
            convertLoop lib msg formats (i + lib.formatSize + lib.formatSize)
              (((s.addMessage msg (lib.position format)).setColor lib color).openSpan lib
                (lib.font format))
        else
          convertLoop lib msg formats (i + lib.formatSize)
            ((s.addMessage msg (lib.position format)).openSpan lib (lib.font format))
  else some s
termination_by formats.length - i
decreasing_by all_goals have := lib.formatSize_pos; omega

/-- The rest of the text, and the end of the span it is in. -/
def Output.finish (s : Output) (msg : Text) : Text :=
  let tmp := s.tmp ++ escapeBody (msg.drop s.j)
  if s.opened then tmp ++ formatClosingTag span else tmp

/-- `GaduRichTextFormat::convertToHtml`. -/
def convertToHtml (lib : Libgadu) (msg : Text) (formats : List UInt8) : Option Text :=
  if formats = [] then some (escapeBody msg)
  else (convertLoop lib msg formats 0 ⟨0, 0, 0, 0, false, []⟩).map fun s => s.finish msg

/-! ## What is promised -/

/-- A character of a message as it is displayed: a tab is four spaces. -/
def shown (c : UInt16) : Text :=
  if c = 10 then [10] else if c = 9 then [32, 32, 32, 32] else [shownChar c]

def shownText (msg : Text) : Text := msg.flatMap shown

/-- No byte outside the array is read, every element of the output is closed, and the
output displays the text of the message, each character once and in order. A picture's
placeholder is not part of the text. -/
def Faithful (refs : CharRefs) (lib : Libgadu) (msg : Text) (formats : List UInt8) : Prop :=
  ∃ html, convertToHtml lib msg formats = some html ∧ balanced [] (tokens refs 0 html) = true ∧
    text (latin1 "b") false (tokens refs 0 html) = shownText msg

/-- The positions where the records from `i` on cut the text behind `j`; `none` when one
that is looked at is not complete. -/
def cuts (lib : Libgadu) (formats : List UInt8) (length i j : Nat) : Option (List Nat) :=
  if i < formats.length then
    match readRecord formats i lib.formatSize with
    | none => none
    | some format =>
      if lib.position format < j ∨ length < lib.position format then some []
      else if lib.font format &&& lib.fontImage ≠ 0 then
        cuts lib formats length (i + lib.imageSize + lib.formatSize) j
      else if lib.font format &&& lib.fontColor ≠ 0 then
        match readRecord formats (i + lib.formatSize) lib.colorSize with
        | none => none
        | some _ =>
          (cuts lib formats length (i + lib.formatSize + lib.formatSize)
            (lib.position format)).map (lib.position format :: ·)
      else
        (cuts lib formats length (i + lib.formatSize) (lib.position format)).map
          (lib.position format :: ·)
  else some []
termination_by formats.length - i
decreasing_by all_goals have := lib.formatSize_pos; omega

/-- The text behind `j`, cut at positions. -/
def pieces (msg : Text) : Nat → List Nat → List Text
  | j, [] => [msg.drop j]
  | j, p :: ps => mid msg j (p - j) :: pieces msg p ps

/-- None of the ampersands is the beginning of a character reference. -/
def NoReference (refs : CharRefs) (piece : Text) : Prop :=
  ∀ t, 38 :: t <:+ piece → refs.decode t = none

/-! ## Escaping, a character at a time -/

def escapeChar (c : UInt16) : Text :=
  if c = 60 then latin1 "&lt;"
  else if c = 62 then latin1 "&gt;"
  else if c = 10 then latin1 "<br />"
  else if c = 9 then latin1 "&nbsp;&nbsp;&nbsp;&nbsp;"
  else [c]

/-- White space that is still there when pairs of it are replaced. -/
def isBlank (c : UInt16) : Bool := isSpace c && c ≠ 10 && c ≠ 9

def escaped : Text → Text
  | [] => []
  | [c] => escapeChar c
  | a :: b :: t =>
    if isBlank a && isBlank b then latin1 " &nbsp;" ++ escaped t
    else escapeChar a ++ escaped (b :: t)

theorem replaceSpaces_cons {a : UInt16} (h : isSpace a = false) (t : Text) :
    replaceSpaces (a :: t) = a :: replaceSpaces t := by
  cases t <;> simp [replaceSpaces, h]

theorem replaceSpaces_space (a : UInt16) {b : UInt16} (h : isSpace b = false) (t : Text) :
    replaceSpaces (a :: b :: t) = a :: b :: replaceSpaces t := by
  simp [replaceSpaces, h, replaceSpaces_cons h]

theorem replaceSpaces_append (t : Text) : ∀ {w : Text}, (∀ c ∈ w, isSpace c = false) →
    replaceSpaces (w ++ t) = w ++ replaceSpaces t
  | [], _ => rfl
  | c :: w, h => by
    rw [List.cons_append, replaceSpaces_cons (h c (by simp)),
      replaceSpaces_append t fun d hd => h d (List.mem_cons_of_mem _ hd)]
    rfl

theorem replaceSpaces_br (t : Text) :
    replaceSpaces (latin1 "<br />" ++ t) = latin1 "<br />" ++ replaceSpaces t := by
  have hBr : latin1 "<br />" = latin1 "<br" ++ [32, 47, 62] := by decide
  rw [hBr, List.append_assoc, replaceSpaces_append _ (List.all_iff_forall_prop.mp (by decide)),
    List.append_assoc]
  have hEnd : replaceSpaces (32 :: 47 :: 62 :: t) = 32 :: 47 :: 62 :: replaceSpaces t := by
    rw [replaceSpaces_space 32 (by decide), replaceSpaces_cons (by decide)]
  exact congrArg _ hEnd

theorem replaceChar_flatMap (before : UInt16) (after : Text) (f : UInt16 → Text) (s : Text) :
    replaceChar before after (s.flatMap f) = s.flatMap fun c => replaceChar before after (f c) :=
  List.flatMap_assoc

theorem escapeBody_eq_flatMap (s : Text) : escapeBody s = replaceSpaces (s.flatMap escapeChar) := by
  have hChar : ∀ c, replaceChar 9 (latin1 "&nbsp;&nbsp;&nbsp;&nbsp;")
      (replaceChar 10 (latin1 "<br />") (replaceChar 62 (latin1 "&gt;")
        (if c = 60 then latin1 "&lt;" else [c]))) = escapeChar c := by
    intro c
    unfold escapeChar
    split
    · decide
    · by_cases hGt : c = 62
      · subst hGt
        decide
      · by_cases hNewline : c = 10
        · subst hNewline
          decide
        · simp [replaceChar, hGt, hNewline]
  unfold escapeBody
  simp only
  rw [show replaceChar 60 (latin1 "&lt;") s =
    s.flatMap fun c => if c = 60 then latin1 "&lt;" else [c] from rfl]
  rw [replaceChar_flatMap, replaceChar_flatMap, replaceChar_flatMap]
  simp only [hChar]

/-- An escaped character that is not white space is passed over. -/
theorem replaceSpaces_escapeChar {c : UInt16} (h : isBlank c = false) (t : Text) :
    replaceSpaces (escapeChar c ++ t) = escapeChar c ++ replaceSpaces t := by
  unfold escapeChar
  split
  · exact replaceSpaces_append t (List.all_iff_forall_prop.mp (by decide))
  · split
    · exact replaceSpaces_append t (List.all_iff_forall_prop.mp (by decide))
    · split
      · exact replaceSpaces_br t
      · split
        · exact replaceSpaces_append t (List.all_iff_forall_prop.mp (by decide))
        · next _ _ hNewline hTab =>
          have hSpace : isSpace c = false := by simpa [isBlank, hNewline, hTab] using h
          exact replaceSpaces_cons hSpace t

theorem escapeChar_blank {c : UInt16} (h : isBlank c) : escapeChar c = [c] := by
  simp only [isBlank, Bool.and_eq_true, decide_eq_true_eq] at h
  obtain ⟨⟨hSpace, hNewline⟩, hTab⟩ := h
  have hLt : c ≠ 60 := by rintro rfl; exact absurd hSpace (by decide)
  have hGt : c ≠ 62 := by rintro rfl; exact absurd hSpace (by decide)
  simp [escapeChar, hLt, hGt, hNewline, hTab]

/-- What is escaped of a character begins with no white space unless it is a blank. -/
theorem exists_escapeChar {c : UInt16} (h : isBlank c = false) :
    ∃ d w, escapeChar c = d :: w ∧ isSpace d = false := by
  unfold escapeChar
  split
  · exact ⟨38, latin1 "lt;", by decide, by decide⟩
  · split
    · exact ⟨38, latin1 "gt;", by decide, by decide⟩
    · split
      · exact ⟨60, latin1 "br />", by decide, by decide⟩
      · split
        · exact ⟨38, latin1 "nbsp;&nbsp;&nbsp;&nbsp;", by decide, by decide⟩
        · next _ _ hNewline hTab => exact ⟨c, [], rfl, by simpa [isBlank, hNewline, hTab] using h⟩

theorem isSpace_of_isBlank {c : UInt16} (h : isBlank c) : isSpace c := by
  simp only [isBlank, Bool.and_eq_true] at h
  exact h.1.1

theorem escaped_eq : ∀ s : Text, replaceSpaces (s.flatMap escapeChar) = escaped s
  | [] => rfl
  | [c] => by
    by_cases hBlank : isBlank c
    · simp [escaped, escapeChar_blank hBlank, replaceSpaces]
    · have hPass := replaceSpaces_escapeChar (by simpa using hBlank) []
      simpa [escaped, replaceSpaces] using hPass
  | a :: b :: t => by
    have hRest := escaped_eq (b :: t)
    rw [List.flatMap_cons, escaped]
    by_cases hBlank : isBlank a
    · rw [escapeChar_blank hBlank, List.flatMap_cons]
      by_cases hNext : isBlank b
      · rw [escapeChar_blank hNext, if_pos (by simp [hBlank, hNext]), ← escaped_eq t]
        simp [replaceSpaces, isSpace_of_isBlank hBlank, isSpace_of_isBlank hNext]
      · obtain ⟨d, w, hEscape, hSpace⟩ := exists_escapeChar (by simpa using hNext)
        rw [if_neg (by simp [hNext]), ← hRest, List.flatMap_cons, hEscape]
        simp [replaceSpaces_space a hSpace, replaceSpaces_cons hSpace]
    · rw [if_neg (by simp [hBlank]), replaceSpaces_escapeChar (by simpa using hBlank), hRest]

theorem escapeBody_eq (s : Text) : escapeBody s = escaped s := by
  rw [escapeBody_eq_flatMap, escaped_eq]

/-! ## A piece of text -/

theorem isBlank_of_isName {c : UInt16} (h : isName c) : isBlank c = false := by
  simp [isBlank, isSpace_of_isName h]

theorem escapeChar_name {c : UInt16} (h : isName c) : escapeChar c = [c] := by
  have hNe : ∀ d : UInt16, isName d = false → c ≠ d := by
    rintro d hd rfl
    rw [hd] at h
    exact absurd h (by decide)
  simp [escapeChar, hNe 60 (by decide), hNe 62 (by decide), hNe 10 (by decide), hNe 9 (by decide)]

theorem escaped_cons {c : UInt16} (h : isBlank c = false) (t : Text) :
    escaped (c :: t) = escapeChar c ++ escaped t := by
  cases t <;> simp [escaped, h]

theorem escaped_append (t : Text) : ∀ {w : Text}, (∀ c ∈ w, isName c) →
    escaped (w ++ t) = w ++ escaped t
  | [], _ => rfl
  | c :: w, h => by
    have hName := h c (by simp)
    rw [List.cons_append, escaped_cons (isBlank_of_isName hName), escapeChar_name hName,
      escaped_append t fun d hd => h d (List.mem_cons_of_mem _ hd)]
    rfl

theorem exists_escaped {c : UInt16} (h : isName c = false) (t : Text) :
    ∃ d w, escaped (c :: t) = d :: w ∧ isName d = false := by
  by_cases hBlank : isBlank c
  · cases t with
    | nil => exact ⟨c, [], escapeChar_blank hBlank, h⟩
    | cons b t =>
      rw [escaped]
      split
      · exact ⟨32, _, rfl, by decide⟩
      · exact ⟨c, _, by rw [escapeChar_blank hBlank]; rfl, h⟩
  · rw [escaped_cons (by simpa using hBlank)]
    unfold escapeChar
    split
    · exact ⟨38, _, rfl, by decide⟩
    · split
      · exact ⟨38, _, rfl, by decide⟩
      · split
        · exact ⟨60, _, rfl, by decide⟩
        · split
          · exact ⟨38, _, rfl, by decide⟩
          · exact ⟨c, _, rfl, h⟩

/-- A tag, or nothing. -/
def Markup (rest : Text) : Prop := ∀ c ∈ rest.head?, c = 60

/-- Escaping does not touch the name of a character reference. -/
theorem takeWhile_escaped {rest : Text} (hRest : Markup rest) : ∀ t : Text,
    (escaped t ++ rest).takeWhile isName = t.takeWhile isName
  | [] => by
    cases rest with
    | nil => rfl
    | cons c rest =>
      obtain rfl : c = 60 := hRest c rfl
      rfl
  | c :: t => by
    by_cases hName : isName c
    · rw [escaped_cons (isBlank_of_isName hName), escapeChar_name hName, List.takeWhile_cons,
        if_pos hName, ← takeWhile_escaped hRest t]
      simp [hName]
    · obtain ⟨d, w, hEscaped, hOther⟩ := exists_escaped (by simpa using hName) t
      rw [hEscaped, List.cons_append, List.takeWhile_cons, List.takeWhile_cons]
      simp [hOther, hName]

section Pieces

variable (refs : CharRefs)

/-- What is displayed of a piece of text whose first `n` characters have been taken
already. -/
def pieceText : Nat → Text → Text
  | _, [] => []
  | n + 1, _ :: t => pieceText n t
  | 0, c :: t =>
    if c = 38 then
      match refs.decode t with
      | some (x, n) => x.map shownChar ++ pieceText n t
      | none => 38 :: pieceText 0 t
    else shown c ++ pieceText 0 t

theorem pieceText_eq_drop : ∀ (n : Nat) (t : Text), pieceText refs n t = pieceText refs 0 (t.drop n)
  | n, [] => by cases n <;> simp [pieceText]
  | 0, _ :: _ => rfl
  | n + 1, _ :: t => by
    rw [List.drop_succ_cons, ← pieceText_eq_drop n t]
    rfl

variable {refs}

/-- The reference that a browser finds in an escaped text is one of the text. -/
theorem decode_escaped {rest : Text} (hRest : Markup rest) (t : Text) :
    refs.decode (escaped t ++ rest) = refs.decode t := by
  rw [refs.decode_name, takeWhile_escaped hRest, ← refs.decode_name]

/-- The characters that a reference takes are names. -/
theorem drop_escaped {t x : Text} {n : Nat} (hSome : refs.decode t = some (x, n)) (rest : Text) :
    (escaped t ++ rest).drop n = escaped (t.drop n) ++ rest := by
  have hLe := (refs.decode_le hSome).2
  have hLength : n ≤ t.length := hLe.trans (List.takeWhile_sublist _).length_le
  have hNames : ∀ c ∈ t.take n, isName c := by
    intro c hc
    have hPrefix : t.take n <+: t.takeWhile isName :=
      List.prefix_of_prefix_length_le (List.take_prefix n t) (List.takeWhile_prefix isName)
        ((List.length_take_le n t).trans hLe)
    have hAll := List.all_takeWhile (p := isName) (l := t)
    exact List.all_eq_true.1 hAll c (hPrefix.subset hc)
  have hEscaped := escaped_append (t.drop n) hNames
  rw [List.take_append_drop] at hEscaped
  rw [hEscaped, List.append_assoc, List.drop_left' (by simp [hLength])]

theorem shown_blank {c : UInt16} (h : isBlank c) : shown c = [32] ∧ c ≠ 38 := by
  have hSpace := isSpace_of_isBlank h
  have hRef : c ≠ 38 := by rintro rfl; exact absurd hSpace (by decide)
  simp only [isBlank, Bool.and_eq_true, decide_eq_true_eq] at h
  simp [shown, h, shownChar, hRef]

/-- The tag of a line break, and the text it is. -/
theorem tokens_br (t : Text) : tokens refs 0 (latin1 "<br />" ++ t) = .tag br :: tokens refs 0 t :=
  @tokens_tag refs br (by decide) t

/-- A pair of blanks is escaped at once. -/
def Paired (s : Text) : Prop := ∃ a b t, s = a :: b :: t ∧ isBlank a ∧ isBlank b

theorem escaped_unpaired {c : UInt16} {t : Text} (h : ¬ Paired (c :: t)) :
    escaped (c :: t) = escapeChar c ++ escaped t := by
  cases t with
  | nil => simp [escaped]
  | cons b t =>
    rw [escaped, if_neg]
    intro hPair
    rw [Bool.and_eq_true] at hPair
    exact h ⟨c, b, t, rfl, hPair⟩

theorem pieceText_cons {c : UInt16} (h : c ≠ 38) (t : Text) :
    pieceText refs 0 (c :: t) = shown c ++ pieceText refs 0 t := by
  rw [pieceText, if_neg h]

/-- The tokens of `s` display `shows`, and no more than text. -/
def Displays (refs : CharRefs) (rest s shows : Text) : Prop :=
  ∃ ts, tokens refs 0 (s ++ rest) = ts ++ tokens refs 0 rest ∧ (∀ t ∈ ts, Inert t) ∧
    text (latin1 "b") false ts = shows

theorem displays_append {rest s t shows more : Text} (hFirst : Displays refs (t ++ rest) s shows)
    (hThen : Displays refs rest t more) : Displays refs rest (s ++ t) (shows ++ more) := by
  obtain ⟨ts, hTokens, hInert, hText⟩ := hFirst
  obtain ⟨us, hTokens', hInert', hText'⟩ := hThen
  refine ⟨ts ++ us, ?_, ?_, ?_⟩
  · rw [List.append_assoc, hTokens, hTokens', List.append_assoc]
  · intro t ht
    exact (List.mem_append.1 ht).elim (hInert t) (hInert' t)
  · rw [text_append (by decide) us hInert, hText, hText']

theorem displays_token {rest s : Text} (token : Token) (hInert : Inert token)
    (hTokens : tokens refs 0 (s ++ rest) = token :: tokens refs 0 rest) :
    Displays refs rest s (text (latin1 "b") false [token]) :=
  ⟨[token], hTokens, by simpa using hInert, rfl⟩

theorem displays_lt (rest : Text) : Displays refs rest (latin1 "&lt;") [60] :=
  displays_token (.chars [60]) trivial (tokens_lt rest)

theorem displays_gt (rest : Text) : Displays refs rest (latin1 "&gt;") [62] :=
  displays_token (.chars [62]) trivial (tokens_gt rest)

theorem displays_nbsp (rest : Text) : Displays refs rest (latin1 "&nbsp;") [32] :=
  displays_token (.chars [0xa0]) trivial (tokens_nbsp rest)

theorem displays_br (rest : Text) : Displays refs rest (latin1 "<br />") [10] :=
  displays_token (.tag br) rfl (tokens_br rest)

theorem displays_char {c : UInt16} (hTag : c ≠ 60) (hRef : c ≠ 38) (rest : Text) :
    Displays refs rest [c] [shownChar c] :=
  displays_token (.chars [c]) trivial (tokens_char hTag hRef rest)

/-- An escaped character is displayed as itself, unless it is an ampersand. -/
theorem displays_escapeChar {c : UInt16} (hRef : c ≠ 38) (rest : Text) :
    Displays refs rest (escapeChar c) (shown c) := by
  by_cases hLt : c = 60
  · subst hLt
    exact displays_lt rest
  by_cases hGt : c = 62
  · subst hGt
    exact displays_gt rest
  by_cases hNewline : c = 10
  · subst hNewline
    exact displays_br rest
  by_cases hTab : c = 9
  · subst hTab
    exact displays_append (displays_nbsp _) (displays_append (displays_nbsp _)
      (displays_append (displays_nbsp _) (displays_nbsp rest)))
  · have hEscape : escapeChar c = [c] := by simp [escapeChar, hLt, hGt, hNewline, hTab]
    have hShown : shown c = [shownChar c] := by simp [shown, hNewline, hTab]
    rw [hEscape, hShown]
    exact displays_char hLt hRef rest

/-- **Escaped text.** A browser finds no tag in it but line breaks. -/
theorem displays_escaped {rest : Text} (hRest : Markup rest) (s : Text) :
    Displays refs rest (escaped s) (pieceText refs 0 s) := by
  by_cases hPair : Paired s
  · obtain ⟨a, b, t, hText, hBlank, hNext⟩ := hPair
    have hShorter : t.length < s.length := by
      rw [hText, List.length_cons, List.length_cons]
      omega
    obtain ⟨hShown, hRef⟩ := shown_blank hBlank
    obtain ⟨hShown', hRef'⟩ := shown_blank hNext
    have hEscaped : escaped (a :: b :: t) = [32] ++ (latin1 "&nbsp;" ++ escaped t) := by
      rw [escaped, if_pos (by simp [hBlank, hNext])]
      rfl
    rw [hText, hEscaped, pieceText_cons hRef, pieceText_cons hRef', hShown, hShown']
    exact displays_append (displays_char (by decide) (by decide) _)
      (displays_append (displays_nbsp _) (displays_escaped hRest t))
  · match s with
    | [] => exact ⟨[], rfl, by simp, rfl⟩
    | c :: t =>
      rw [escaped_unpaired hPair]
      by_cases hRef : c = 38
      · subst hRef
        have hDecode : refs.decode (escaped t ++ rest) = refs.decode t := decode_escaped hRest t
        cases hName : refs.decode t with
        | none =>
          have hPiece : pieceText refs 0 (38 :: t) = [38] ++ pieceText refs 0 t := by
            simp [pieceText, hName]
          have hAmpersand : Displays refs (escaped t ++ rest) (escapeChar 38) [38] :=
            displays_token (.chars [38]) trivial (tokens_ampersand (hDecode.trans hName))
          rw [hPiece]
          exact displays_append hAmpersand (displays_escaped hRest t)
        | some xn =>
          -- the reference takes characters of the text only
          obtain ⟨x, n⟩ := xn
          obtain ⟨ts, hTokens, hInert, hText⟩ := displays_escaped hRest (t.drop n)
          refine ⟨.chars x :: ts, ?_, by simpa [Inert] using hInert, ?_⟩
          · have hTake := tokens_ref (hDecode.trans hName)
            rw [drop_escaped hName, hTokens] at hTake
            exact hTake
          · have hPiece : pieceText refs 0 (38 :: t) = x.map shownChar ++ pieceText refs n t := by
              simp [pieceText, hName]
            rw [hPiece, pieceText_eq_drop, ← hText]
            rfl
      · rw [pieceText_cons hRef]
        exact displays_append (displays_escapeChar hRef _) (displays_escaped hRest t)
termination_by s.length
decreasing_by
  · exact hShorter
  all_goals simp only [List.length_cons, List.length_drop]; omega

/-! ## References -/

theorem noReference_cons {c : UInt16} {t : Text} :
    NoReference refs (c :: t) ↔ (c = 38 → refs.decode t = none) ∧ NoReference refs t := by
  constructor
  · intro h
    exact ⟨fun hRef => h t (by rw [hRef]), fun u hu => h u (hu.trans (List.suffix_cons c t))⟩
  · rintro ⟨hHead, hTail⟩ u hu
    rcases List.suffix_cons_iff.1 hu with hSame | hSuffix
    · obtain ⟨hRef, hEnd⟩ := List.cons.inj hSame
      rw [hEnd]
      exact hHead hRef.symm
    · exact hTail u hSuffix

theorem pieceText_eq : ∀ {t : Text}, NoReference refs t → pieceText refs 0 t = shownText t
  | [], _ => rfl
  | c :: t, h => by
    obtain ⟨hHead, hTail⟩ := noReference_cons.1 h
    have hRest := pieceText_eq hTail
    by_cases hRef : c = 38
    · subst hRef
      rw [pieceText, if_pos rfl, hHead rfl, hRest]
      rfl
    · rw [pieceText_cons hRef, hRest]
      rfl

theorem length_shown_pos (c : UInt16) : 1 ≤ (shown c).length := by
  unfold shown
  split
  · simp
  · split <;> simp

theorem length_shownText_drop : ∀ (n : Nat) {t : Text}, n ≤ t.length →
    n + (shownText (t.drop n)).length ≤ (shownText t).length
  | 0, _, _ => by simp
  | n + 1, c :: t, h => by
    have hRest := length_shownText_drop n (Nat.le_of_succ_le_succ h)
    have hHead := length_shown_pos c
    simp only [shownText, List.drop_succ_cons, List.flatMap_cons, List.length_append] at hRest ⊢
    omega

theorem decode_length {t x : Text} {n : Nat} (hSome : refs.decode t = some (x, n)) :
    x.length + (shownText (t.drop n)).length ≤ (shownText t).length := by
  obtain ⟨hLe, hName⟩ := refs.decode_le hSome
  have hDrop := length_shownText_drop n (hName.trans (List.takeWhile_sublist _).length_le)
  omega

/-- Nothing is displayed longer than it is. -/
theorem length_pieceText (refs : CharRefs) (t : Text) :
    (pieceText refs 0 t).length ≤ (shownText t).length := by
  match t with
  | [] => exact le_rfl
  | c :: t =>
    have hRest := length_pieceText refs t
    have hShown : shownText (c :: t) = shown c ++ shownText t := rfl
    by_cases hRef : c = 38
    · subst hRef
      have hPos := length_shown_pos 38
      cases hName : refs.decode t with
      | none => simp [pieceText, hName, hShown]; omega
      | some xn =>
        obtain ⟨x, n⟩ := xn
        have hDecode := decode_length hName
        have hTail := length_pieceText refs (t.drop n)
        simp only [pieceText, if_true, hName, pieceText_eq_drop refs n, hShown, List.length_append,
          List.length_map]
        omega
    · simp [pieceText_cons hRef, hShown, hRest]
termination_by t.length
decreasing_by all_goals simp only [List.length_cons, List.length_drop]; omega

/-- **A reference shortens what is displayed.** -/
theorem length_pieceText_lt : ∀ {t : Text}, ¬ NoReference refs t →
    (pieceText refs 0 t).length < (shownText t).length
  | [], h => absurd (fun u hu => absurd (List.suffix_nil.1 hu) (by simp)) h
  | c :: t, h => by
    have hShown : shownText (c :: t) = shown c ++ shownText t := rfl
    have hPos := length_shown_pos c
    rw [noReference_cons, not_and_or] at h
    by_cases hRef : c = 38
    · subst hRef
      cases hName : refs.decode t with
      | none =>
        have hRest := length_pieceText_lt (h.resolve_left fun hNot => hNot fun _ => hName)
        simp [pieceText, hName, hShown]; omega
      | some xn =>
        obtain ⟨x, n⟩ := xn
        have hDecode := decode_length hName
        have hTail := length_pieceText refs (t.drop n)
        simp only [pieceText, if_true, hName, pieceText_eq_drop refs n, hShown, List.length_append,
          List.length_map]
        omega
    · have hRest := length_pieceText_lt (h.resolve_left fun hNot => hNot fun hSame =>
        absurd hSame hRef)
      simp only [pieceText_cons hRef, hShown, List.length_append]
      omega

/-! ## What the loop writes -/

/-- `s` in front of `rest` displays `shows`, and leaves the elements `opened'` open. -/
def Continues (refs : CharRefs) (opened opened' : List Text) (s shows rest : Text) : Prop :=
  text (latin1 "b") false (tokens refs 0 (s ++ rest)) =
      shows ++ text (latin1 "b") false (tokens refs 0 rest) ∧
    balanced opened (tokens refs 0 (s ++ rest)) = balanced opened' (tokens refs 0 rest)

theorem continues_append {opened opened' opened'' : List Text} {s t shows more rest : Text}
    (hFirst : Continues refs opened opened' s shows (t ++ rest))
    (hThen : Continues refs opened' opened'' t more rest) :
    Continues refs opened opened'' (s ++ t) (shows ++ more) rest := by
  unfold Continues
  rw [List.append_assoc, hFirst.1, hFirst.2, hThen.1, hThen.2, List.append_assoc]
  exact ⟨rfl, rfl⟩

theorem continues_escapeBody (opened : List Text) {rest : Text} (hRest : Markup rest) (s : Text) :
    Continues refs opened opened (escapeBody s) (pieceText refs 0 s) rest := by
  obtain ⟨ts, hTokens, hInert, hText⟩ :=
    show Displays refs rest (escaped s) (pieceText refs 0 s) from displays_escaped hRest s
  unfold Continues
  rw [escapeBody_eq, hTokens, text_append (by decide) _ hInert, balanced_append _ hInert, hText]
  exact ⟨rfl, rfl⟩

theorem continues_close (opened : List Text) (rest : Text) :
    Continues refs (span :: opened) opened (formatClosingTag span) [] rest := by
  have hTokens : tokens refs 0 (formatClosingTag span ++ rest) =
      .tag (47 :: span) :: tokens refs 0 rest := @tokens_tag refs (47 :: span) (by decide) rest
  unfold Continues
  rw [hTokens, text, if_neg (by decide), if_neg (by decide), if_neg (by decide)]
  exact ⟨rfl, balanced_close rfl opened _⟩

/-- Attributes that end neither the tag nor, with a slash, its element. -/
def Attributes (attributes : Text) : Prop := 62 ∉ attributes ∧ attributes.getLast? = some 34

theorem continues_open (opened : List Text) {attributes : Text} (h : Attributes attributes)
    (rest : Text) :
    Continues refs opened (span :: opened) (formatOpeningTag span attributes) [] rest := by
  obtain ⟨hEnd, hLast⟩ := h
  have hNe : attributes ≠ [] := by
    rintro rfl
    simp at hLast
  have hName : 62 ∉ span ++ 32 :: attributes := by
    simp [hEnd, show (62 : UInt16) ∉ span by decide]
  have hTokens : tokens refs 0 (formatOpeningTag span attributes ++ rest) =
      .tag (span ++ 32 :: attributes) :: tokens refs 0 rest := by
    rw [← tokens_tag hName]
    simp [formatOpeningTag, hNe]
  have hHead : (span ++ 32 :: attributes).head? = some 115 := rfl
  have hOther : ∀ name : Text, name.head? ≠ some 115 → span ++ 32 :: attributes ≠ name := by
    rintro name hDiffers rfl
    exact hDiffers hHead
  have hSlash : (span ++ 32 :: attributes).getLast? = some 34 := by
    rw [List.getLast?_append, List.getLast?_cons, hLast]
    rfl
  have hElement : (span ++ 32 :: attributes).takeWhile (· ≠ 32) = span := by
    rw [List.takeWhile_append_of_pos (List.all_iff_forall_prop.mp (by decide))]
    simp
  unfold Continues
  rw [hTokens, text, if_neg (hOther _ (by decide)), if_neg (hOther _ (by decide)),
    if_neg (hOther _ (by decide)), balanced_open (by rw [hHead]; decide) (by rw [hSlash]; decide),
    hElement]
  exact ⟨rfl, rfl⟩

theorem tokens_plain (rest : Text) : ∀ {w : Text}, 60 ∉ w → 38 ∉ w →
    tokens refs 0 (w ++ rest) = w.map (fun c => .chars [c]) ++ tokens refs 0 rest
  | [], _, _ => rfl
  | c :: w, hTag, hRef => by
    rw [List.mem_cons, not_or] at hTag hRef
    rw [List.cons_append, tokens_char (Ne.symm hTag.1) (Ne.symm hRef.1),
      tokens_plain rest hTag.2 hRef.2]
    rfl

theorem text_hidden (ts : List Token) : ∀ w : Text,
    text (latin1 "b") true (w.map (fun c => .chars [c]) ++ ts) = text (latin1 "b") true ts
  | [] => rfl
  | _ :: w => text_hidden ts w

/-- The placeholder of a picture. -/
theorem continues_picture (opened : List Text) (rest : Text) :
    Continues refs opened opened pictureHtml [] rest := by
  have hHtml : pictureHtml = 60 :: (latin1 "b" ++ 62 ::
      (latin1 "[this should be a picture, not yet implemented]" ++
        60 :: (latin1 "/b" ++ [62]))) := by decide
  have hClose := @tokens_tag refs (latin1 "/b") (by decide) rest
  have hTokens : tokens refs 0 (pictureHtml ++ rest) = .tag (latin1 "b") ::
      ((latin1 "[this should be a picture, not yet implemented]").map (fun c => .chars [c]) ++
        .tag (latin1 "/b") :: tokens refs 0 rest) := by
    rw [hHtml, ← hClose, ← tokens_plain _ (by decide) (by decide),
      ← tokens_tag (show 62 ∉ latin1 "b" by decide)]
    simp only [List.cons_append, List.append_assoc, List.nil_append]
  have hInert : ∀ t ∈ (latin1 "[this should be a picture, not yet implemented]").map
      (fun c => Token.chars [c]), Inert t := by
    intro t ht
    obtain ⟨c, -, rfl⟩ := List.mem_map.1 ht
    trivial
  unfold Continues
  rw [hTokens, text, if_pos rfl, text_hidden, text, if_neg (by decide), if_pos (by decide),
    balanced_open (by decide) (by decide), balanced_append _ hInert]
  exact ⟨rfl, @balanced_close (latin1 "/b") rfl opened _⟩

theorem notMem_decimal (n : Nat) : 62 ∉ decimal n := by
  intro hMem
  obtain ⟨d, hDigit, hEnd⟩ := List.mem_map.1 hMem
  have hRange := Nat.isDigit_of_mem_toDigits (by decide) (by decide) hDigit
  simp only [Char.isDigit, Bool.and_eq_true, decide_eq_true_eq] at hRange
  have hNat : d.toNat % 2 ^ 16 = 62 := by simpa using congrArg UInt16.toNat hEnd
  have hLe : d.toNat ≤ 57 := hRange.2
  omega

theorem notMem_style (s : Output) (lib : Libgadu) (font : UInt8) : 62 ∉ s.style lib font := by
  have hBold : 62 ∉ if font &&& lib.fontBold ≠ 0 then latin1 " font-weight:bold; " else [] := by
    split <;> decide
  have hItalic : 62 ∉
      if font &&& lib.fontItalic ≠ 0 then latin1 " font-style:italic; " else [] := by
    split <;> decide
  have hUnderline : 62 ∉
      if font &&& lib.fontUnderline ≠ 0 then latin1 " text-decoration:underline; " else [] := by
    split <;> decide
  have hColor : 62 ∉ latin1 " color: rgb( " ∧ 62 ∉ latin1 ", " ∧ 62 ∉ latin1 " ); " := by decide
  simp only [Output.style, List.mem_append, notMem_decimal, not_or]
  exact ⟨⟨⟨hBold, hItalic⟩, hUnderline⟩, by simp [hColor]⟩

theorem attributes_style (s : Output) (lib : Libgadu) (font : UInt8) :
    Attributes (latin1 "style=\"" ++ s.style lib font ++ latin1 "\"") := by
  constructor
  · have hStyle : 62 ∉ latin1 "style=\"" ∧ 62 ∉ latin1 "\"" := by decide
    simp [hStyle, notMem_style]
  · rw [List.getLast?_append]
    rfl

/-! ## The loop -/

def Output.spans (s : Output) : List Text := if s.opened then [span] else []

/-- The end of the span that is open. -/
def Output.closing (s : Output) : Text := if s.opened then formatClosingTag span else []

theorem finish_eq (s : Output) (msg : Text) :
    s.finish msg = s.tmp ++ (escapeBody (msg.drop s.j) ++ s.closing) := by
  unfold Output.finish Output.closing
  cases s.opened <;> simp

theorem addMessage_tmp (s : Output) (msg : Text) (position : Nat) :
    (s.addMessage msg position).tmp =
      s.tmp ++ (escapeBody (mid msg s.j (position - s.j)) ++ s.closing) := by
  unfold Output.addMessage Output.closing
  cases s.opened <;> simp

theorem markup_closing (s : Output) {rest : Text} (hRest : Markup rest) :
    Markup (s.closing ++ rest) := by
  unfold Output.closing
  split
  · intro c hc
    exact (Option.some.inj hc).symm
  · exact hRest

theorem continues_closing (s : Output) (rest : Text) :
    Continues refs s.spans [] s.closing [] rest := by
  unfold Output.spans Output.closing
  split
  · exact continues_close [] rest
  · exact ⟨rfl, rfl⟩

/-- The conversion ends, and what it writes behind `s` displays `shows`. -/
def Ends (refs : CharRefs) (out : Option Output) (msg : Text) (s : Output) (shows : Text) : Prop :=
  ∃ o w, out = some o ∧ o.finish msg = s.tmp ++ w ∧ Continues refs s.spans [] w shows []

/-- The end of the loop. -/
theorem ends_here (msg : Text) (s : Output) :
    Ends refs (some s) msg s (pieceText refs 0 (msg.drop s.j)) := by
  have hMarkup : Markup (s.closing ++ []) := markup_closing s fun c hc => by simp at hc
  have hClosing : Continues refs s.spans [] s.closing [] [] := continues_closing s []
  have hWritten := continues_append (continues_escapeBody s.spans hMarkup (msg.drop s.j)) hClosing
  rw [List.append_nil] at hWritten
  exact ⟨s, _, rfl, finish_eq s msg, hWritten⟩

/-- A picture. -/
theorem ends_picture {out : Option Output} {msg : Text} {s : Output} {shows : Text}
    (h : Ends refs out msg { s with tmp := s.tmp ++ pictureHtml } shows) :
    Ends refs out msg s shows := by
  obtain ⟨o, w, hOut, hFinish, hWritten⟩ := h
  refine ⟨o, pictureHtml ++ w, hOut, by simpa using hFinish, ?_⟩
  exact continues_append (continues_picture s.spans (w ++ [])) hWritten

theorem exists_formatOpeningTag (tag attributes : Text) :
    ∃ t, formatOpeningTag tag attributes = 60 :: t := by
  unfold formatOpeningTag
  split
  · exact ⟨_, rfl⟩
  · exact ⟨_, rfl⟩

/-- A record that the text goes on behind, in a span of its own. -/
theorem ends_span {out : Option Output} {msg : Text} {s t : Output} {shows : Text} {position : Nat}
    {attributes : Text} (hAttributes : Attributes attributes)
    (hTmp : t.tmp = (s.addMessage msg position).tmp ++ formatOpeningTag span attributes)
    (hOpened : t.opened = true) (h : Ends refs out msg t shows) :
    Ends refs out msg s (pieceText refs 0 (mid msg s.j (position - s.j)) ++ shows) := by
  obtain ⟨o, w, hOut, hFinish, hWritten⟩ := h
  obtain ⟨tag, hTag⟩ := exists_formatOpeningTag span attributes
  have hMarkup : Markup (formatOpeningTag span attributes ++ w ++ []) := by
    rw [hTag]
    exact fun c hc => (Option.some.inj hc).symm
  have hSpans : t.spans = [span] := if_pos hOpened
  rw [hSpans] at hWritten
  have hOpening := continues_append (continues_open [] hAttributes (w ++ [])) hWritten
  have hClosing := continues_append (continues_closing s _) hOpening
  have hPiece := continues_append (continues_escapeBody s.spans
    (by rw [List.append_assoc]; exact markup_closing s hMarkup)
    (mid msg s.j (position - s.j))) hClosing
  refine ⟨o, _, hOut, ?_, hPiece⟩
  rw [hFinish, hTmp, addMessage_tmp]
  simp only [List.append_assoc]

variable {lib : Libgadu} {msg : Text} {formats : List UInt8}

/-- The loop stops at a record that is not complete, or writes the pieces of the text. -/
def Agrees (refs : CharRefs) (msg : Text) (s : Output) (out : Option Output) :
    Option (List Nat) → Prop
  | none => out = none
  | some ps => Ends refs out msg s ((pieces msg s.j ps).flatMap (pieceText refs 0))

theorem agrees_here (msg : Text) (s : Output) : Agrees refs msg s (some s) (some []) := by
  have hHere : Ends refs (some s) msg s (pieceText refs 0 (msg.drop s.j)) := ends_here msg s
  simpa [Agrees, pieces] using hHere

theorem agrees_picture {s : Output} {out : Option Output} : ∀ {cs : Option (List Nat)},
    Agrees refs msg { s with tmp := s.tmp ++ pictureHtml } out cs → Agrees refs msg s out cs
  | none, h => h
  | some _, h => ends_picture h

theorem agrees_span {s t : Output} {out : Option Output} (font : UInt8)
    (hTmp : (t.openSpan lib font).tmp = (s.addMessage msg t.j).tmp ++ formatOpeningTag span
      (latin1 "style=\"" ++ t.style lib font ++ latin1 "\"")) :
    ∀ {cs : Option (List Nat)}, Agrees refs msg (t.openSpan lib font) out cs →
      Agrees refs msg s out (cs.map (t.j :: ·))
  | none, h => h
  | some _, h => ends_span (attributes_style t lib font) hTmp rfl h

/-- **The loop.** It reads outside the array exactly if a record that it looks at is not
complete. -/
theorem convertLoop_cuts (refs : CharRefs) (i : Nat) (s : Output) :
    Agrees refs msg s (convertLoop lib msg formats i s) (cuts lib formats msg.length i s.j) := by
  fun_induction convertLoop lib msg formats i s with
  | case1 i s hMore hRead =>
    rw [cuts, if_pos hMore, hRead]
    rfl
  | case2 i s hMore format hRead hStop =>
    rw [cuts, if_pos hMore, hRead]
    simp only [if_pos hStop]
    exact agrees_here msg s
  | case3 i s hMore format hRead hStop hImage ih =>
    rw [cuts, if_pos hMore, hRead]
    simp only [if_neg hStop, if_pos hImage]
    exact agrees_picture ih
  | case4 i s hMore format hRead hStop hImage hColor hRead' =>
    rw [cuts, if_pos hMore, hRead]
    simp only [if_neg hStop, if_neg hImage, if_pos hColor, hRead']
    rfl
  | case5 i s hMore format hRead hStop hImage hColor color hRead' ih =>
    rw [cuts, if_pos hMore, hRead]
    simp only [if_neg hStop, if_neg hImage, if_pos hColor, hRead']
    exact agrees_span (lib.font format) rfl ih
  | case6 i s hMore format hRead hStop hImage hColor ih =>
    rw [cuts, if_pos hMore, hRead]
    simp only [if_neg hStop, if_neg hImage, if_neg hColor]
    exact agrees_span (lib.font format) rfl ih
  | case7 i s hMore =>
    rw [cuts, if_neg hMore]
    exact agrees_here msg s

/-! ## The pieces of the text -/

theorem cuts_chain {length : Nat} (i j : Nat) {ps : List Nat}
    (h : cuts lib formats length i j = some ps) : List.IsChain (· ≤ ·) (j :: ps) := by
  fun_induction cuts lib formats length i j generalizing ps with
  | case1 => cases h
  | case2 =>
    obtain rfl := Option.some.inj h
    exact .singleton _
  | case3 i j _ format _ _ _ ih => exact ih h
  | case4 => cases h
  | case5 i j _ format _ hStop _ _ color _ ih =>
    obtain ⟨qs, hRest, rfl⟩ := Option.map_eq_some_iff.1 h
    exact .cons_cons (by omega) (ih hRest)
  | case6 i j _ format _ hStop _ _ ih =>
    obtain ⟨qs, hRest, rfl⟩ := Option.map_eq_some_iff.1 h
    exact .cons_cons (by omega) (ih hRest)
  | case7 =>
    obtain rfl := Option.some.inj h
    exact .singleton _

/-- The pieces are the text, cut. -/
theorem flatten_pieces (msg : Text) : ∀ {j : Nat} {ps : List Nat}, List.IsChain (· ≤ ·) (j :: ps) →
    (pieces msg j ps).flatten = msg.drop j
  | j, [], _ => by simp [pieces]
  | j, p :: ps, h => by
    obtain ⟨hLe, hChain⟩ := List.isChain_cons_cons.1 h
    have hDrop : (msg.drop j).drop (p - j) = msg.drop p := by
      rw [List.drop_drop, Nat.add_sub_cancel' hLe]
    rw [pieces, List.flatten_cons, flatten_pieces msg hChain, mid, ← hDrop, List.take_append_drop]

theorem shownText_flatten (l : List Text) : shownText l.flatten = l.flatMap shownText := by
  induction l with
  | nil => rfl
  | cons piece l ih =>
    rw [List.flatMap_cons, ← ih]
    exact List.flatMap_append

theorem length_displayed (refs : CharRefs) (l : List Text) :
    (l.flatMap (pieceText refs 0)).length ≤ (l.flatMap shownText).length := by
  induction l with
  | nil => exact le_rfl
  | cons piece l ih =>
    have hPiece := length_pieceText refs piece
    simp only [List.flatMap_cons, List.length_append]
    omega

/-- Pieces are displayed as they are exactly if none of them holds a reference. -/
theorem displayed_iff (refs : CharRefs) (l : List Text) :
    l.flatMap (pieceText refs 0) = l.flatMap shownText ↔
      ∀ piece ∈ l, NoReference refs piece := by
  induction l with
  | nil => simp
  | cons piece l ih =>
    rw [List.flatMap_cons, List.flatMap_cons, List.forall_mem_cons]
    constructor
    · intro hSame
      have hPiece := length_pieceText refs piece
      have hRest := length_displayed refs l
      have hLength := congrArg List.length hSame
      simp only [List.length_append] at hLength
      have hEq : (pieceText refs 0 piece).length = (shownText piece).length := by omega
      have hNone : NoReference refs piece := by
        by_contra hSome
        exact absurd hEq (length_pieceText_lt hSome).ne
      exact ⟨hNone, ih.1 (List.append_inj hSame hEq).2⟩
    · rintro ⟨hPiece, hRest⟩
      rw [pieceText_eq hPiece, ih.2 hRest]

theorem convertToHtml_eq (lib : Libgadu) (msg : Text) (formats : List UInt8) :
    convertToHtml lib msg formats =
      (convertLoop lib msg formats 0 ⟨0, 0, 0, 0, false, []⟩).map fun s => s.finish msg := by
  unfold convertToHtml
  split
  · next hEmpty =>
    subst hEmpty
    rw [convertLoop, if_neg (by simp)]
    rfl
  · rfl

end Pieces

/-! ## The messages that are not -/

/-- The records as they are on the wire. -/
def libgadu : Libgadu where
  formatSize := 3
  colorSize := 3
  imageSize := 10
  position bytes := (bytes.getD 0 0).toNat + 256 * (bytes.getD 1 0).toNat
  font bytes := bytes.getD 2 0
  red bytes := bytes.getD 0 0
  green bytes := bytes.getD 1 0
  blue bytes := bytes.getD 2 0
  fontBold := 0x01
  fontItalic := 0x02
  fontUnderline := 0x04
  fontColor := 0x08
  fontImage := 0x80
  formatSize_pos := by decide

/-- The character references that `Kopete::Message::unescape` knows. -/
def unescapeTable : List (Text × UInt16) :=
  [(latin1 "gt;", 62), (latin1 "lt;", 60), (latin1 "quot;", 34), (latin1 "nbsp;", 0xa0),
    (latin1 "amp;", 38), (latin1 "#160;", 0xa0)]

theorem unescapeTable_name : ∀ e ∈ unescapeTable, (∀ c ∈ e.1, isName c) ∧ 1 ≤ e.1.length := by
  have hTable : (unescapeTable.all fun e => e.1.all isName && decide (1 ≤ e.1.length)) = true := by
    decide
  intro e he
  simpa using List.all_eq_true.mp hTable e he

def unescape (t : Text) : Option (Text × Nat) :=
  (unescapeTable.find? fun e => e.1.isPrefixOf t).map fun e => ([e.2], e.1.length)

def unescapeRefs : CharRefs where
  decode := unescape
  decode_name t := by
    unfold unescape
    rw [List.find?_congr fun e he => (isPrefixOf_takeWhile (unescapeTable_name e he).1 t).symm]
  decode_le {t x n} h := by
    obtain ⟨e, hFind, hSame⟩ := Option.map_eq_some_iff.1 h
    obtain ⟨rfl, rfl⟩ := Prod.mk.inj hSame
    have hEntry := unescapeTable_name e (List.mem_of_find?_eq_some hFind)
    have hPrefix := List.find?_some hFind
    rw [← isPrefixOf_takeWhile hEntry.1, List.isPrefixOf_iff_prefix] at hPrefix
    exact ⟨hEntry.2, hPrefix.length_le⟩
  decode_lt _ := rfl
  decode_gt _ := rfl
  decode_nbsp _ := rfl

end Gadu
