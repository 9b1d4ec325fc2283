import Kopete.Lib.XmlStream

/-!
# XML text — the tokens of the content of an element

A reader of XML that is fed a character at a time: it keeps the elements that are open and
what it is in the middle of, and reports tokens as they are complete. What is not well formed
makes it fail, and then it reports nothing any more.

Main results:

* `feed_append` — text that comes in two parts;
* `feed_plain` — text without markup is reported as it is;
* `feed_value` — the same in the value of an attribute.
-/

namespace XmlStream

/-! ## Characters and names -/

/-- A character that may stand in a document at all. -/
def isChar (c : Char) : Bool :=
  c = '\t' || c = '\n' || c = '\r' || (' ' ≤ c && c ≠ Char.ofNat 0xFFFE && c ≠ Char.ofNat 0xFFFF)

def isSpace (c : Char) : Bool := c = ' ' || c = '\t' || c = '\n' || c = '\r'

def isNameStart (c : Char) : Bool :=
  [(0x3A, 0x3A), (0x41, 0x5A), (0x5F, 0x5F), (0x61, 0x7A), (0xC0, 0xD6), (0xD8, 0xF6),
    (0xF8, 0x2FF), (0x370, 0x37D), (0x37F, 0x1FFF), (0x200C, 0x200D), (0x2070, 0x218F),
    (0x2C00, 0x2FEF), (0x3001, 0xD7FF), (0xF900, 0xFDCF), (0xFDF0, 0xFFFD),
    (0x10000, 0xEFFFF)].any fun r => r.1 ≤ c.toNat && c.toNat ≤ r.2

def isNameChar (c : Char) : Bool :=
  isNameStart c || [(0x2D, 0x2E), (0x30, 0x39), (0xB7, 0xB7), (0x300, 0x36F),
    (0x203F, 0x2040)].any fun r => r.1 ≤ c.toNat && c.toNat ≤ r.2

/-- The prefix of a qualified name and its local part, which has no further colon. -/
def splitName (name : Text) : Option (Text × Text) :=
  let pre := name.takeWhile (· ≠ ':')
  match name.drop pre.length with
  | [] => some ([], name)
  | _ :: post => if pre = [] ∨ post = [] ∨ ':' ∈ post then none else some (pre, post)

/-- The value of a number in a character reference. -/
def number (base : Nat) (digits : Text) : Option Nat :=
  if digits = [] then none
  else digits.foldl (fun n c => n.bind fun n =>
    let d :=
      if '0' ≤ c ∧ c ≤ '9' then c.toNat - 48
      else if 'a' ≤ c ∧ c ≤ 'f' then c.toNat - 87
      else if 'A' ≤ c ∧ c ≤ 'F' then c.toNat - 55
      else base
    if d < base then some (n * base + d) else none) (some 0)

/-- The character that a reference stands for, by what is between `&` and `;`. -/
def reference (name : Text) : Option Char :=
  let character := fun n : Option Nat => n.bind fun n =>
    if h : n.isValidChar then
      let c := Char.ofNatAux n h
      if isChar c then some c else none
    else none
  match name with
  | '#' :: 'x' :: digits => character (number 16 digits)
  | '#' :: digits => character (number 10 digits)
  | _ =>
    if name = ['l', 't'] then some '<'
    else if name = ['g', 't'] then some '>'
    else if name = ['a', 'm', 'p'] then some '&'
    else if name = ['q', 'u', 'o', 't'] then some '"'
    else if name = ['a', 'p', 'o', 's'] then some '\''
    else none

/-! ## The lexer -/

/-- An open element, with the prefixes of names that it declares. -/
structure OpenElement where
  qualifiedName : Text
  prefixes : List Text
  deriving DecidableEq

/-- A start tag as far as it has been read. -/
structure StartTag where
  name : Text
  attributes : List (Text × Text)
  deriving DecidableEq

/-- What a value stands in. -/
inductive Quote where
  | single | double
  deriving DecidableEq

def Quote.char : Quote → Char
  | .single => '\''
  | .double => '"'

/-- What the lexer is in the middle of. In `content` it knows how many `]` came just now. -/
inductive Mode where
  | content (brackets : Nat)
  | entity (name : Text)
  | tagOpen
  | startName (name : Text)
  | inTag (tag : StartTag) (space : Bool)
  | emptyTag (tag : StartTag)
  | attributeName (tag : StartTag) (name : Text)
  | beforeEquals (tag : StartTag) (name : Text)
  | afterEquals (tag : StartTag) (name : Text)
  | attributeValue (tag : StartTag) (name : Text) (quote : Quote) (value : Text)
  | attributeEntity (tag : StartTag) (name : Text) (quote : Quote) (value entity : Text)
  | endName (name : Text)
  | afterEndName (name : Text)
  | declaration (text : Text)
  | comment (dashes : Nat)
  | cdata (brackets : Nat)
  | instruction (question : Bool)
  | failed
  deriving DecidableEq

/-- `carriageReturn` tells if the character before was one: a line feed after it belongs to
it. -/
structure Lexer where
  opened : List OpenElement
  mode : Mode
  carriageReturn : Bool
  deriving DecidableEq

namespace Lexer

def go (L : Lexer) (mode : Mode) : Lexer × List Token := ({ L with mode := mode }, [])

def emit (L : Lexer) (mode : Mode) (ts : List Token) : Lexer × List Token :=
  ({ L with mode := mode }, ts)

def isDeclaration (name : Text) : Bool :=
  name = "xmlns".toList || "xmlns:".toList.isPrefixOf name

/-- The prefix of a name is declared, where it has one. -/
def declares (prefixes : List Text) (name : Text) : Bool :=
  match splitName name with
  | none => false
  | some (pre, _) => pre = [] || pre = "xml".toList || pre = "xmlns".toList || pre ∈ prefixes

/-- The end of a start tag: the element is open now, or was empty. -/
def startElement (L : Lexer) (tag : StartTag) (isEmpty : Bool) : Lexer × List Token :=
  let names := tag.attributes.map (·.1)
  let own := names.filterMap fun name =>
    if "xmlns:".toList.isPrefixOf name then some (name.drop 6) else none
  let known := own ++ L.opened.flatMap (·.prefixes)
  if names.Nodup ∧ declares known tag.name ∧ names.all (declares known) then
    let attributes := (tag.attributes.filter fun a => ! isDeclaration a.1).map fun a =>
      (String.ofList a.1, a.2)
    let token := Token.startElement (String.ofList tag.name) attributes
    if isEmpty then L.emit (.content 0) [token, .endElement (String.ofList tag.name)]
    else ({ L with opened := ⟨tag.name, own⟩ :: L.opened, mode := .content 0 }, [token])
  else L.go .failed

/-- The end of an end tag, which is that of the innermost open element. -/
def endElement (L : Lexer) (name : Text) : Lexer × List Token :=
  match L.opened with
  | [] => L.go .failed
  | element :: opened =>
    if element.qualifiedName = name then
      ({ L with opened := opened, mode := .content 0 }, [.endElement (String.ofList name)])
    else L.go .failed

/-- One more character, line ends being line feeds. -/
def read (L : Lexer) (c : Char) : Lexer × List Token :=
  match L.mode with
  | .content brackets =>
    if c = '<' then L.go .tagOpen
    else if c = '&' then L.go (.entity [])
    else if c = '>' ∧ 2 ≤ brackets then L.go .failed
    else if ¬ isChar c ∨ (L.opened = [] ∧ ¬ isSpace c) then L.go .failed
    else L.emit (.content (if c = ']' then brackets + 1 else 0)) [.character c]
  | .entity name =>
    if c = ';' then
      match reference name with
      | some r => L.emit (.content 0) [.character r]
      | none => L.go .failed
    else if isNameChar c ∨ c = '#' then L.go (.entity (name ++ [c]))
    else L.go .failed
  | .tagOpen =>
    if c = '/' then L.go (.endName [])
    else if c = '!' then L.go (.declaration [])
    else if c = '?' then L.go (.instruction false)
    else if isNameStart c then L.go (.startName [c])
    else L.go .failed
  | .startName name =>
    if isNameChar c then L.go (.startName (name ++ [c]))
    else if c = '>' then L.startElement ⟨name, []⟩ false
    else if c = '/' then L.go (.emptyTag ⟨name, []⟩)
    else if isSpace c then L.go (.inTag ⟨name, []⟩ true)
    else L.go .failed
  | .inTag tag space =>
    if c = '>' then L.startElement tag false
    else if c = '/' then L.go (.emptyTag tag)
    else if isSpace c then L.go (.inTag tag true)
    else if isNameStart c ∧ space then L.go (.attributeName tag [c])
    else L.go .failed
  | .emptyTag tag => if c = '>' then L.startElement tag true else L.go .failed
  | .attributeName tag name =>
    if isNameChar c then L.go (.attributeName tag (name ++ [c]))
    else if c = '=' then L.go (.afterEquals tag name)
    else if isSpace c then L.go (.beforeEquals tag name)
    else L.go .failed
  | .beforeEquals tag name =>
    if c = '=' then L.go (.afterEquals tag name)
    else if isSpace c then L.go (.beforeEquals tag name)
    else L.go .failed
  | .afterEquals tag name =>
    if c = '"' then L.go (.attributeValue tag name .double [])
    else if c = '\'' then L.go (.attributeValue tag name .single [])
    else if isSpace c then L.go (.afterEquals tag name)
    else L.go .failed
  | .attributeValue tag name quote value =>
    if c = quote.char then L.go (.inTag ⟨tag.name, tag.attributes ++ [(name, value)]⟩ false)
    else if c = '<' ∨ ¬ isChar c then L.go .failed
    else if c = '&' then L.go (.attributeEntity tag name quote value [])
    else L.go (.attributeValue tag name quote (value ++ [if isSpace c then ' ' else c]))
  | .attributeEntity tag name quote value entity =>
    if c = ';' then
      match reference entity with
      | some r => L.go (.attributeValue tag name quote (value ++ [r]))
      | none => L.go .failed
    else if isNameChar c ∨ c = '#' then
      L.go (.attributeEntity tag name quote value (entity ++ [c]))
    else L.go .failed
  | .endName name =>
    if isNameChar c then L.go (.endName (name ++ [c]))
    else if c = '>' then L.endElement name
    else if isSpace c then L.go (.afterEndName name)
    else L.go .failed
  | .afterEndName name =>
    if c = '>' then L.endElement name
    else if isSpace c then L.go (.afterEndName name)
    else L.go .failed
  | .declaration text =>
    if text ++ [c] = "--".toList then L.go (.comment 0)
    else if text ++ [c] = "[CDATA[".toList then L.go (.cdata 0)
    else if (text ++ [c]).isPrefixOf "--".toList ∨ (text ++ [c]).isPrefixOf "[CDATA[".toList then
      L.go (.declaration (text ++ [c]))
    else L.go .failed
  | .comment dashes =>
    if ¬ isChar c then L.go .failed
    else if dashes = 2 then
      if c = '>' then L.emit (.content 0) [.comment] else L.go .failed
    else L.go (.comment (if c = '-' then dashes + 1 else 0))
  | .cdata brackets =>
    if ¬ isChar c then L.go .failed
    else if c = ']' then
      if brackets = 2 then L.emit (.cdata 2) [.character ']'] else L.go (.cdata (brackets + 1))
    else if c = '>' ∧ brackets = 2 then L.go (.content 0)
    else L.emit (.cdata 0) ((List.replicate brackets ']' ++ [c]).map .character)
  | .instruction question =>
    if ¬ isChar c then L.go .failed
    else if c = '>' ∧ question then L.emit (.content 0) [.comment]
    else L.go (.instruction (c = '?'))
  | .failed => (L, [])

/-- One more character, as it arrives. -/
def step (L : Lexer) (c : Char) : Lexer × List Token :=
  if L.carriageReturn ∧ c = '\n' then ({ L with carriageReturn := false }, [])
  else ({ L with carriageReturn := c = '\r' }).read (if c = '\r' then '\n' else c)

/-- The tokens of a text, and the lexer behind it. -/
def feed : Lexer → Text → Lexer × List Token
  | L, [] => (L, [])
  | L, c :: s => ((feed (L.step c).1 s).1, (L.step c).2 ++ (feed (L.step c).1 s).2)

theorem feed_append (L : Lexer) (s t : Text) :
    L.feed (s ++ t) = (((L.feed s).1.feed t).1, (L.feed s).2 ++ ((L.feed s).1.feed t).2) := by
  induction s generalizing L with
  | nil => rfl
  | cons c s ih =>
    rw [List.cons_append, feed, feed, ih]
    simp only [List.append_assoc]

/-! ## Text without markup -/

theorem feed_failed {L : Lexer} (h : L.mode = .failed) (s : Text) :
    (L.feed s).1.mode = .failed ∧ (L.feed s).2 = [] := by
  induction s generalizing L with
  | nil => exact ⟨h, rfl⟩
  | cons c s ih =>
    have hStep : (L.step c).1.mode = .failed ∧ (L.step c).2 = [] := by
      obtain ⟨opened, mode, cr⟩ := L
      obtain rfl : mode = .failed := h
      unfold step
      split <;> exact ⟨rfl, rfl⟩
    obtain ⟨hMode, hNone⟩ := ih hStep.1
    rw [feed]
    exact ⟨hMode, by rw [hStep.2, hNone]; rfl⟩

/-- The end of a section that must not stand in text. -/
def sectionEnd : Text := [']', ']', '>']

/-- A text that has no markup, and no carriage return, which would become a line feed. -/
structure Plain (s : Text) : Prop where
  unmarked : ∀ c ∈ s, c ≠ '<' ∧ c ≠ '&' ∧ c ≠ '\r'
  noEnd : ¬ sectionEnd <:+: s

/-- What is checked of one character after the other holds of all. -/
theorem forall_of_all {p : Char → Prop} [DecidablePred p] {s : Text}
    (h : s.all (fun c => decide (p c)) = true) : ∀ c ∈ s, p c := fun c hc =>
  of_decide_eq_true (List.all_eq_true.mp h c hc)

/-- A character in content that is no markup. -/
theorem step_character {opened : List OpenElement} (hOpened : opened ≠ []) {k : Nat} {c : Char}
    (hChar : isChar c) (hPlain : c ≠ '<' ∧ c ≠ '&' ∧ c ≠ '\r') (hEnd : ¬ (c = '>' ∧ 2 ≤ k)) :
    step ⟨opened, .content k, false⟩ c =
      (⟨opened, .content (if c = ']' then k + 1 else 0), false⟩, [.character c]) := by
  obtain ⟨hLt, hAmp, hReturn⟩ := hPlain
  have hGood : ¬ (¬ isChar c ∨ (opened = [] ∧ ¬ isSpace c)) := by
    rintro (h | h)
    · exact h hChar
    · exact hOpened h.1
  unfold step
  rw [if_neg (by exact fun h => Bool.false_ne_true h.1), if_neg hReturn]
  show read ⟨opened, .content k, decide (c = '\r')⟩ c = _
  rw [decide_eq_false hReturn]
  unfold read
  dsimp only
  rw [if_neg hLt, if_neg hAmp, if_neg hEnd, if_neg hGood]
  rfl

/-- **Text without markup** is reported as it is. -/
theorem feed_plain (opened : List OpenElement) (hOpened : opened ≠ []) {s : Text}
    (hChars : ∀ c ∈ s, isChar c) (hPlain : ∀ c ∈ s, c ≠ '<' ∧ c ≠ '&' ∧ c ≠ '\r') {k : Nat}
    (hEnd : ¬ sectionEnd <:+: List.replicate k ']' ++ s) :
    ∃ k', feed ⟨opened, .content k, false⟩ s =
      (⟨opened, .content k', false⟩, s.map .character) := by
  induction s generalizing k with
  | nil => exact ⟨k, rfl⟩
  | cons c s ih =>
    have hNotEnd : ¬ (c = '>' ∧ 2 ≤ k) := by
      rintro ⟨rfl, hk⟩
      obtain ⟨j, rfl⟩ : ∃ j, k = j + 2 := ⟨k - 2, by omega⟩
      refine hEnd ⟨List.replicate j ']', s, ?_⟩
      rw [List.replicate_add]
      simp [sectionEnd]
    have hStep := step_character hOpened (hChars c List.mem_cons_self)
      (hPlain c List.mem_cons_self) hNotEnd
    have hNext : ¬ sectionEnd <:+: List.replicate (if c = ']' then k + 1 else 0) ']' ++ s := by
      split
      case isTrue hc =>
        subst hc
        rw [List.replicate_succ', List.append_assoc]
        exact hEnd
      case isFalse =>
        intro h
        refine hEnd (h.trans ?_)
        exact ⟨List.replicate k ']' ++ [c], [], by simp⟩
    obtain ⟨k', hRest⟩ := ih (fun d hd => hChars d (List.mem_cons_of_mem _ hd))
      (fun d hd => hPlain d (List.mem_cons_of_mem _ hd)) hNext
    refine ⟨k', ?_⟩
    rw [feed, hStep, hRest]
    rfl

/-- **The value of an attribute** without its quote and markup comes to its end. -/
theorem feed_value (opened : List OpenElement) (tag : StartTag) (name : Text) (quote : Quote)
    {s : Text} (hPlain : ∀ c ∈ s, isChar c ∧ c ≠ quote.char ∧ c ≠ '<' ∧ c ≠ '&') (value : Text) (cr : Bool) :
    ∃ value' cr', feed ⟨opened, .attributeValue tag name quote value, cr⟩ s =
      (⟨opened, .attributeValue tag name quote value', cr'⟩, []) := by
  induction s generalizing value cr with
  | nil => exact ⟨value, cr, rfl⟩
  | cons c s ih =>
    obtain ⟨hChar, hNotQuote, hLt, hAmp⟩ := hPlain c List.mem_cons_self
    have hStep : ∃ value' cr', step ⟨opened, .attributeValue tag name quote value, cr⟩ c =
        (⟨opened, .attributeValue tag name quote value', cr'⟩, []) := by
      unfold step
      split
      · exact ⟨value, false, rfl⟩
      · by_cases hReturn : c = '\r'
        · rw [if_pos hReturn]
          unfold read
          dsimp only
          rw [if_neg (by cases quote <;> decide), if_neg (by decide), if_neg (by decide)]
          exact ⟨_, _, rfl⟩
        · rw [if_neg hReturn]
          unfold read
          dsimp only
          rw [if_neg hNotQuote, if_neg (by rintro (h | h); exacts [hLt h, h hChar]), if_neg hAmp]
          exact ⟨_, _, rfl⟩
    obtain ⟨value₁, cr₁, hFirst⟩ := hStep
    obtain ⟨value', cr', hRest⟩ :=
      ih (fun d hd => hPlain d (List.mem_cons_of_mem _ hd)) value₁ cr₁
    refine ⟨value', cr', ?_⟩
    rw [feed, hFirst, hRest]
    rfl

/-! ## How much text there can be -/

/-- How many characters the tokens have. -/
def letters (ts : List Token) : Nat := (ts.map fun t => t.text.length).sum

theorem letters_append (ts us : List Token) : letters (ts ++ us) = letters ts + letters us := by
  unfold letters
  rw [List.map_append, List.sum_append]

theorem letters_startElement (name : String) (attributes : List (String × Text))
    (ts : List Token) : letters (.startElement name attributes :: ts) = letters ts :=
  Nat.zero_add _

theorem letters_characters (s : Text) : letters (s.map .character) = s.length := by
  unfold letters
  induction s with
  | nil => rfl
  | cons c s ih =>
    rw [List.map_cons, List.map_cons, List.sum_cons, ih, List.length_cons, Nat.add_comm]
    rfl

/-- Characters that have been read and may yet turn out to be text. -/
def pending : Mode → Nat
  | .cdata brackets => brackets
  | _ => 0

/-- What one more character can be is one character of text. -/
def Bounded (L : Lexer) (r : Lexer × List Token) : Prop :=
  letters r.2 + pending r.1.mode ≤ 1 + pending L.mode

theorem bounded_startElement (L : Lexer) (tag : StartTag) (isEmpty : Bool) :
    Bounded L (L.startElement tag isEmpty) := by
  unfold startElement Bounded
  dsimp only
  split
  · split <;> exact Nat.zero_le _
  · exact Nat.zero_le _

theorem bounded_endElement (L : Lexer) (name : Text) : Bounded L (L.endElement name) := by
  unfold endElement Bounded
  split
  · exact Nat.zero_le _
  · split <;> exact Nat.zero_le _

theorem bounded_read (L : Lexer) (c : Char) : Bounded L (L.read c) := by
  obtain ⟨opened, mode, cr⟩ := L
  cases mode with
  | cdata brackets =>
    unfold read
    dsimp only
    split
    · exact Nat.zero_le _
    · split
      · split
        case isTrue hTwo => exact Nat.le_of_eq (by rw [hTwo]; rfl)
        case isFalse =>
          show 0 + (brackets + 1) ≤ 1 + brackets
          omega
      · split
        · exact Nat.zero_le _
        · show letters ((List.replicate brackets ']' ++ [c]).map .character) + 0 ≤ 1 + brackets
          rw [letters_characters, List.length_append, List.length_replicate, List.length_singleton]
          omega
  | content brackets =>
    unfold read
    dsimp only
    repeat' split
    all_goals first | exact Nat.zero_le _ | exact Nat.le_refl _
  | _ =>
    unfold read
    dsimp only
    repeat' split
    all_goals first
      | exact Nat.zero_le _
      | exact Nat.le_refl _
      | exact bounded_startElement _ _ _
      | exact bounded_endElement _ _

theorem bounded_step (L : Lexer) (c : Char) : Bounded L (L.step c) := by
  unfold step
  split
  · show 0 + pending L.mode ≤ 1 + pending L.mode
    omega
  · exact bounded_read _ _

theorem letters_feed_le (L : Lexer) (s : Text) :
    letters (L.feed s).2 + pending (L.feed s).1.mode ≤ s.length + pending L.mode := by
  induction s generalizing L with
  | nil => exact Nat.le_refl _
  | cons c s ih =>
    have hStep : letters (L.step c).2 + pending (L.step c).1.mode ≤ 1 + pending L.mode :=
      bounded_step L c
    have hRest := ih (L.step c).1
    rw [feed, letters_append, List.length_cons]
    dsimp only
    omega

/-- A character in content leaves content only if it begins markup. -/
theorem step_content {L : Lexer} {k : Nat} (hMode : L.mode = .content k) {c : Char}
    (hLt : c ≠ '<') (hAmp : c ≠ '&') :
    (∃ k', (L.step c).1.mode = .content k') ∨ (L.step c).1.mode = .failed := by
  obtain ⟨opened, mode, cr⟩ := L
  obtain rfl : mode = .content k := hMode
  unfold step
  split
  · exact .inl ⟨k, rfl⟩
  · have hPlain : ∀ d, d ≠ '<' → d ≠ '&' →
        (∃ k', ((read ⟨opened, .content k, decide (c = '\r')⟩ d).1.mode = .content k')) ∨
          (read ⟨opened, .content k, decide (c = '\r')⟩ d).1.mode = .failed := by
      intro d hd hd'
      unfold read
      dsimp only
      rw [if_neg hd, if_neg hd']
      split
      · exact .inr rfl
      · split
        · exact .inr rfl
        · exact .inl ⟨_, rfl⟩
    split
    · exact hPlain _ (by decide) (by decide)
    · exact hPlain c hLt hAmp

theorem step_markup {L : Lexer} {k : Nat} (hMode : L.mode = .content k) {c : Char}
    (h : c = '<' ∨ c = '&') : (L.step c).2 = [] ∧ pending (L.step c).1.mode = 0 := by
  obtain ⟨opened, mode, cr⟩ := L
  obtain rfl : mode = .content k := hMode
  rcases h with rfl | rfl
  · unfold step
    rw [if_neg (by exact fun h => absurd h.2 (by decide))]
    exact ⟨rfl, rfl⟩
  · unfold step
    rw [if_neg (by exact fun h => absurd h.2 (by decide))]
    exact ⟨rfl, rfl⟩

/-- **Markup costs text**: where there is some, fewer characters are reported than read. -/
theorem letters_feed_lt {L : Lexer} {k : Nat} (hMode : L.mode = .content k) {s : Text}
    (h : ∃ c ∈ s, c = '<' ∨ c = '&') : letters (L.feed s).2 < s.length := by
  induction s generalizing L k with
  | nil =>
    obtain ⟨c, hc, -⟩ := h
    exact absurd hc List.not_mem_nil
  | cons c s ih =>
    rw [feed, letters_append, List.length_cons]
    by_cases hMarkup : c = '<' ∨ c = '&'
    · obtain ⟨hNone, hPending⟩ := step_markup hMode hMarkup
      have hRest := letters_feed_le (L.step c).1 s
      rw [hNone]
      show 0 + _ < _
      omega
    · rw [not_or] at hMarkup
      have hStep : letters (L.step c).2 + pending (L.step c).1.mode ≤ 1 + pending L.mode :=
        bounded_step L c
      rw [hMode] at hStep
      have hLater : ∃ d ∈ s, d = '<' ∨ d = '&' := by
        obtain ⟨d, hd, hdMarkup⟩ := h
        rcases List.mem_cons.1 hd with rfl | hd
        · exact absurd hdMarkup (not_or.2 hMarkup)
        · exact ⟨d, hd, hdMarkup⟩
      have hOne : letters (L.step c).2 ≤ 1 := Nat.le_trans (Nat.le_add_right _ _) hStep
      rcases step_content hMode hMarkup.1 hMarkup.2 with ⟨k', hk'⟩ | hFailed
      · have hRest := ih hk' hLater
        omega
      · rw [(feed_failed hFailed s).2]
        obtain ⟨d, hd, -⟩ := hLater
        have hPos := List.length_pos_of_mem hd
        show _ + 0 < _
        omega

/-- Behind brackets and another character, the end of a section is in the rest. -/
theorem sectionEnd_tail {k : Nat} {c : Char} {s : Text} (hBracket : c ≠ ']')
    (hNow : ¬ (c = '>' ∧ 2 ≤ k)) (h : sectionEnd <:+: List.replicate k ']' ++ c :: s) :
    sectionEnd <:+: s := by
  obtain ⟨pre, post, hEq⟩ := h
  by_cases hLong : k + 1 ≤ pre.length
  · have hDrop := congrArg (List.drop (k + 1)) hEq
    rw [List.append_assoc, List.drop_append_of_le_length hLong,
      List.drop_append, List.length_replicate, Nat.add_sub_cancel_left] at hDrop
    refine ⟨pre.drop (k + 1), post, ?_⟩
    rw [List.append_assoc, hDrop]
    simp
  · -- Then one of its three characters stands where `c` does.
    exfalso
    have hAt : ∀ j, j < 3 → sectionEnd[j]? = (List.replicate k ']' ++ c :: s)[pre.length + j]? := by
      intro j hj
      rw [← hEq, List.append_assoc, List.getElem?_append_right (Nat.le_add_right _ _),
        Nat.add_sub_cancel_left, List.getElem?_append_left (by exact hj)]
    have hC : ∀ j, pre.length + j = k → (List.replicate k ']' ++ c :: s)[pre.length + j]? = some c := by
      intro j hj
      rw [hj, List.getElem?_append_right (Nat.le_of_eq List.length_replicate),
        List.length_replicate, Nat.sub_self]
      rfl
    rcases Nat.lt_trichotomy (pre.length + 2) k with hLt | hEq' | hGt
    · have hLast := hAt 2 (by decide)
      rw [List.getElem?_append_left (by rw [List.length_replicate]; exact hLt),
        List.getElem?_replicate, if_pos hLt] at hLast
      exact absurd hLast (by decide)
    · have hLast := (hAt 2 (by decide)).trans (hC 2 hEq')
      exact hNow ⟨(Option.some.inj hLast).symm, by omega⟩
    · rcases Nat.lt_or_ge pre.length k with hLt | hGe
      · have hMiddle := (hAt 1 (by decide)).trans (hC 1 (by omega))
        exact hBracket (Option.some.inj hMiddle).symm
      · have hFirst := (hAt 0 (by decide)).trans (hC 0 (by omega))
        exact hBracket (Option.some.inj hFirst).symm

/-- The end of a section does not pass for text. -/
theorem feed_sectionEnd {opened : List OpenElement} (hOpened : opened ≠ []) {s : Text}
    (hPlain : ∀ c ∈ s, c ≠ '<' ∧ c ≠ '&' ∧ c ≠ '\r') {k : Nat}
    (hEnd : sectionEnd <:+: List.replicate k ']' ++ s) :
    (feed ⟨opened, .content k, false⟩ s).1.mode = .failed := by
  induction s generalizing k with
  | nil =>
    rw [List.append_nil] at hEnd
    have hMem : '>' ∈ List.replicate k ']' := hEnd.subset (by decide)
    exact absurd (List.eq_of_mem_replicate hMem) (by decide)
  | cons c s ih =>
    rw [feed]
    have hPlain' := hPlain c List.mem_cons_self
    by_cases hNow : (c = '>' ∧ 2 ≤ k) ∨ ¬ isChar c
    · refine (feed_failed ?_ s).1
      unfold step
      rw [if_neg (by exact fun h => Bool.false_ne_true h.1), if_neg hPlain'.2.2]
      unfold read
      dsimp only
      rw [if_neg hPlain'.1, if_neg hPlain'.2.1]
      rcases hNow with hNow | hNow
      · rw [if_pos hNow]
        rfl
      · split
        · rfl
        · rw [if_pos (.inl hNow)]
          rfl
    · rw [not_or, not_not] at hNow
      rw [step_character hOpened hNow.2 hPlain' hNow.1]
      refine ih (fun d hd => hPlain d (List.mem_cons_of_mem _ hd)) ?_
      split
      case isTrue hc =>
        rw [hc] at hEnd
        rw [List.replicate_succ', List.append_assoc]
        exact hEnd
      case isFalse hc => exact sectionEnd_tail hc hNow.1 hEnd

/-! ## Text that cannot end what the lexer is in the middle of -/

theorem read_carriageReturn (L : Lexer) (c : Char) :
    (L.read c).1.carriageReturn = L.carriageReturn := by
  have hStart : ∀ tag isEmpty, (L.startElement tag isEmpty).1.carriageReturn =
      L.carriageReturn := by
    intro tag isEmpty
    unfold startElement
    dsimp only
    split
    · split <;> rfl
    · rfl
  have hEnd : ∀ name, (L.endElement name).1.carriageReturn = L.carriageReturn := by
    intro name
    unfold endElement
    split
    · rfl
    · split <;> rfl
  unfold read
  repeat' split
  all_goals first | rfl | exact hStart _ _ | exact hEnd _

/-- What ends a comment, a section or a processing instruction, which go on over tags. -/
def ending : Mode → Option Text
  | .comment _ => some ['-', '-', '>']
  | .cdata _ => some sectionEnd
  | .instruction _ => some ['?', '>']
  | _ => none

/-- What the lexer has read of it. -/
def held : Mode → Text
  | .comment dashes => List.replicate dashes '-'
  | .cdata brackets => List.replicate brackets ']'
  | .instruction question => if question then ['?'] else []
  | _ => []

/-- Such a thing goes on until its end is there. -/
theorem read_ending (opened : List OpenElement) {mode : Mode} (cr : Bool) (c : Char) {e : Text}
    (h : ending mode = some e) :
    (read ⟨opened, mode, cr⟩ c).1.mode = .failed ∨ e <:+ held mode ++ [c] ∨
      (ending (read ⟨opened, mode, cr⟩ c).1.mode = some e ∧
        held (read ⟨opened, mode, cr⟩ c).1.mode <:+ held mode ++ [c]) := by
  cases mode with
  | comment dashes =>
    obtain rfl := Option.some.inj h
    unfold read
    dsimp only
    split
    · exact .inl rfl
    · split
      case isTrue hTwo =>
        split
        case isTrue hc =>
          rw [hTwo, hc]
          exact .inr (.inl List.suffix_rfl)
        case isFalse => exact .inl rfl
      case isFalse =>
        refine .inr (.inr ⟨rfl, ?_⟩)
        show List.replicate (if c = '-' then dashes + 1 else 0) '-' <:+
          List.replicate dashes '-' ++ [c]
        split
        case isTrue hc =>
          rw [hc]
          exact List.replicate_succ' ▸ List.suffix_refl _
        case isFalse => exact List.nil_suffix
  | cdata brackets =>
    obtain rfl := Option.some.inj h
    unfold read
    dsimp only
    split
    · exact .inl rfl
    · split
      case isTrue hc =>
        subst hc
        split
        case isTrue hTwo =>
          subst hTwo
          exact .inr (.inr ⟨rfl, ⟨[']'], rfl⟩⟩)
        case isFalse =>
          refine .inr (.inr ⟨rfl, ?_⟩)
          show List.replicate (brackets + 1) ']' <:+ List.replicate brackets ']' ++ [']']
          exact List.replicate_succ' ▸ List.suffix_refl _
      case isFalse =>
        split
        case isTrue hEnd =>
          rw [hEnd.1, hEnd.2]
          exact .inr (.inl List.suffix_rfl)
        case isFalse => exact .inr (.inr ⟨rfl, List.nil_suffix⟩)
  | instruction question =>
    obtain rfl := Option.some.inj h
    unfold read
    dsimp only
    split
    · exact .inl rfl
    · split
      case isTrue hEnd =>
        rw [hEnd.1]
        refine .inr (.inl ?_)
        show _ <:+ (if question then ['?'] else []) ++ ['>']
        rw [if_pos hEnd.2]
        exact List.suffix_rfl
      case isFalse =>
        refine .inr (.inr ⟨rfl, ?_⟩)
        show (if decide (c = '?') then ['?'] else []) <:+ held (.instruction question) ++ [c]
        by_cases hc : c = '?'
        · rw [hc]
          exact List.suffix_append _ _
        · rw [decide_eq_false hc]
          exact List.nil_suffix
  | _ => exact absurd h (by simp [ending])

/-- **What has not been ended** is still going on behind a text without its end. -/
theorem feed_ending {L : Lexer} {e : Text} (h : ending L.mode = some e)
    (hReturn : L.carriageReturn = false) {s : Text} (hNoReturn : '\r' ∉ s)
    (hEndless : ¬ e <:+: held L.mode ++ s) :
    (L.feed s).1.mode = .failed ∨
      (ending (L.feed s).1.mode = some e ∧ (L.feed s).1.carriageReturn = false ∧
        held (L.feed s).1.mode <:+ held L.mode ++ s) := by
  induction s generalizing L with
  | nil => exact .inr ⟨h, hReturn, by rw [List.append_nil]; exact List.suffix_rfl⟩
  | cons c s ih =>
    obtain ⟨opened, mode, cr⟩ := L
    obtain rfl : cr = false := hReturn
    have hc : c ≠ '\r' := fun hc => hNoReturn (by rw [hc]; exact List.mem_cons_self)
    have hStep : step ⟨opened, mode, false⟩ c = read ⟨opened, mode, false⟩ c := by
      unfold step
      rw [if_neg (by exact fun h => Bool.false_ne_true h.1), if_neg hc, decide_eq_false hc]
    have hSplit : held mode ++ c :: s = held mode ++ [c] ++ s := by simp
    rw [feed, hStep]
    rcases read_ending opened false c h with hFailed | hNow | hOn
    · exact .inl (feed_failed hFailed s).1
    · refine absurd ?_ hEndless
      show e <:+: held mode ++ c :: s
      rw [hSplit]
      exact hNow.isInfix.trans (List.prefix_append _ _).isInfix
    · obtain ⟨hEnding, hHeld⟩ := hOn
      have hHere : held (read ⟨opened, mode, false⟩ c).1.mode ++ s <:+ held mode ++ c :: s := by
        obtain ⟨pre, hPre⟩ := hHeld
        exact ⟨pre, by rw [hSplit, ← hPre, List.append_assoc]⟩
      have hRest := ih hEnding (read_carriageReturn _ c)
        (fun hMem => hNoReturn (List.mem_cons_of_mem _ hMem))
        (fun hMem => hEndless (hMem.trans hHere.isInfix))
      refine hRest.imp_right fun hOn => ⟨hOn.1, hOn.2.1, ?_⟩
      exact hOn.2.2.trans hHere

/-- Anything else than content, or what goes on over tags, has no place for a tag. -/
theorem step_lt {L : Lexer} (hContent : ∀ k, L.mode ≠ .content k) (hNone : ending L.mode = none) :
    (L.step '<').1.mode = .failed := by
  obtain ⟨opened, mode, cr⟩ := L
  unfold step
  rw [if_neg (by exact fun h => absurd h.2 (by decide))]
  cases mode with
  | content k => exact absurd rfl (hContent k)
  | comment | cdata | instruction => exact absurd hNone (by simp [ending])
  | attributeValue tag name quote value => cases quote <;> rfl
  | declaration text =>
    have hMem : '<' ∈ text ++ ['<'] := List.mem_append_right _ (List.mem_singleton_self _)
    have hNot : ∀ t : Text, '<' ∉ t → ¬ (text ++ ['<']) <+: t := fun t ht h => ht (h.subset hMem)
    have hDashes := hNot "--".toList (by decide)
    have hData := hNot "[CDATA[".toList (by decide)
    show (read ⟨opened, .declaration text, decide ('<' = '\r')⟩ '<').1.mode = _
    unfold read
    dsimp only
    rw [if_neg fun h => hDashes ⟨[], by rw [List.append_nil, h]⟩,
      if_neg fun h => hData ⟨[], by rw [List.append_nil, h]⟩, if_neg]
    · rfl
    · rintro (h | h)
      · exact hDashes (List.isPrefixOf_iff_prefix.1 h)
      · exact hData (List.isPrefixOf_iff_prefix.1 h)
  | _ => rfl

theorem feed_carriageReturn {L : Lexer} (h : L.carriageReturn = false) {s : Text}
    (hNoReturn : '\r' ∉ s) : (L.feed s).1.carriageReturn = false := by
  induction s generalizing L with
  | nil => exact h
  | cons c s ih =>
    have hc : c ≠ '\r' := fun hc => hNoReturn (by rw [hc]; exact List.mem_cons_self)
    refine ih ?_ fun hMem => hNoReturn (List.mem_cons_of_mem _ hMem)
    unfold step
    split
    · rfl
    · rw [read_carriageReturn]
      exact decide_eq_false hc

/-- The ends of what goes on over tags. -/
def endings : List Text := [['-', '-', '>'], sectionEnd, ['?', '>']]

theorem mem_endings {mode : Mode} {e : Text} (h : ending mode = some e) : e ∈ endings := by
  cases mode with
  | comment | cdata | instruction =>
    rw [← Option.some.inj h]
    decide
  | _ => exact absurd h (by simp [ending])

theorem not_mem_held (mode : Mode) : '>' ∉ held mode := by
  cases mode with
  | comment dashes | cdata brackets =>
    exact fun h => absurd (List.eq_of_mem_replicate h) (by decide)
  | instruction question => cases question <;> simp [held]
  | _ => simp [held]

/-- An infix without a character is on one side of it. -/
theorem infix_of_append_cons {e a b : Text} {c : Char} (hc : c ∉ e) (h : e <:+: a ++ c :: b) :
    e <:+: a ∨ e <:+: b := by
  obtain ⟨pre, post, hEq⟩ := h
  rw [List.append_assoc] at hEq
  rcases List.append_eq_append_iff.1 hEq with ⟨mid, rfl, hRest⟩ | ⟨mid, rfl, hRest⟩
  · -- The infix begins before the character, so that it ends there.
    rcases List.append_eq_append_iff.1 hRest with ⟨gap, rfl, -⟩ | ⟨gap, rfl, hOver⟩
    · exact .inl ⟨pre, gap, by rw [List.append_assoc]⟩
    · cases gap with
      | nil => exact .inl ⟨pre, [], by simp⟩
      | cons d gap =>
        rw [List.cons_append] at hOver
        refine absurd ?_ hc
        rw [(List.cons.inj hOver).1]
        simp
  · cases mid with
    | nil =>
      cases e with
      | nil => exact .inl ⟨[], a, rfl⟩
      | cons d e =>
        refine absurd ?_ hc
        rw [List.nil_append] at hRest
        rw [(List.cons.inj hRest).1]
        exact List.mem_cons_self
    | cons d mid =>
      rw [List.cons_append] at hRest
      exact .inr ⟨mid, post, by rw [(List.cons.inj hRest).2, List.append_assoc]⟩

/-- **A tag does not end** what goes on over tags. -/
theorem not_infix_tag {mode : Mode} {e s : Text} (h : e ∈ endings) (hRest : ¬ e <:+: s) :
    ¬ e <:+: held mode ++ '<' :: s := by
  have hNoTag : '<' ∉ e := (by decide : ∀ e ∈ endings, '<' ∉ e) e h
  have hEnd : '>' ∈ e := (by decide : ∀ e ∈ endings, '>' ∈ e) e h
  intro hMem
  rcases infix_of_append_cons hNoTag hMem with hHeld | hHere
  · exact not_mem_held mode (hHeld.subset hEnd)
  · exact hRest hHere

/-- Behind the end of a tag nothing is held. -/
theorem held_eq_nil {mode : Mode} {s : Text} (h : held mode <:+ s ++ ['>']) : held mode = [] := by
  obtain ⟨pre, hEq⟩ := h
  rcases List.eq_nil_or_concat (held mode) with hNil | ⟨q, c, hSnoc⟩
  · exact hNil
  · rw [List.concat_eq_append] at hSnoc
    rw [hSnoc, ← List.append_assoc] at hEq
    have hc : c = '>' := List.singleton_inj.1 (List.append_inj_right' hEq rfl)
    refine absurd ?_ (not_mem_held mode)
    rw [hSnoc, hc]
    exact List.mem_append_right _ (List.mem_singleton_self _)

end Lexer

end XmlStream
