import Mathlib

/-!
# HTML as it is displayed

A text is cut into tags, character references and characters. What a character
reference stands for is a parameter: of the names only those that a text is escaped
with are fixed.

Main results:

* `tokens_tag`, `tokens_char`, `tokens_ref` — how a text begins;
* `text_append`, `balanced_append` — what text adds to a document;
* `Writes.append` — what is written piece by piece.
-/

namespace Html

/-- UTF-16. -/
abbrev Text := List UInt16

/-- A text in Latin-1. -/
def latin1 (s : String) : Text := s.toList.map fun c => UInt16.ofNat c.toNat

/-- White space. -/
def isSpace (c : UInt16) : Bool :=
  c = 0x20 ∨ (0x09 ≤ c ∧ c ≤ 0x0d) ∨ c = 0x85 ∨ c = 0xa0 ∨ c = 0x1680 ∨
    (0x2000 ≤ c ∧ c ≤ 0x200a) ∨ c = 0x2028 ∨ c = 0x2029 ∨ c = 0x202f ∨ c = 0x205f ∨ c = 0x3000

/-- What character references are made of: letters, digits, the hash sign and the
semicolon. -/
def isName (c : UInt16) : Bool :=
  (48 ≤ c ∧ c ≤ 57) ∨ (65 ≤ c ∧ c ≤ 90) ∨ (97 ≤ c ∧ c ≤ 122) ∨ c = 35 ∨ c = 59

theorem isSpace_of_isName {c : UInt16} (h : isName c) : isSpace c = false := by
  simp only [isName, decide_eq_true_eq, UInt16.le_iff_toNat_le, ← UInt16.toNat_inj,
    UInt16.reduceToNat] at h
  simp only [isSpace, decide_eq_false_iff_not, UInt16.le_iff_toNat_le, ← UInt16.toNat_inj,
    UInt16.reduceToNat]
  omega

/-- Character references, read after their ampersand: what they stand for, and how many
characters they take. -/
structure CharRefs where
  decode : Text → Option (Text × Nat)
  /-- Only the name counts. -/
  decode_name : ∀ t, decode t = decode (t.takeWhile isName)
  /-- A reference is longer than what it stands for. -/
  decode_le : ∀ {t x n}, decode t = some (x, n) → x.length ≤ n ∧ n ≤ (t.takeWhile isName).length
  decode_lt : ∀ t, decode (latin1 "lt;" ++ t) = some ([60], 3)
  decode_gt : ∀ t, decode (latin1 "gt;" ++ t) = some ([62], 3)
  decode_nbsp : ∀ t, decode (latin1 "nbsp;" ++ t) = some ([0xa0], 5)

inductive Token where
  | chars (s : Text)
  | tag (name : Text)
deriving DecidableEq, Repr

/-! ## Tokens -/

section Tokens

variable (refs : CharRefs)

/-- The tokens of a text whose first `n` characters have been taken already. -/
def tokens : Nat → Text → List Token
  | _, [] => []
  | n + 1, _ :: t => tokens n t
  | 0, c :: t =>
    if c = 60 ∧ 62 ∈ t then
      .tag (t.takeWhile (· ≠ 62)) :: tokens ((t.takeWhile (· ≠ 62)).length + 1) t
    else if c = 38 then
      match refs.decode t with
      | some (x, n) => .chars x :: tokens n t
      | none => .chars [c] :: tokens 0 t
    else .chars [c] :: tokens 0 t

@[simp] theorem tokens_nil (n : Nat) : tokens refs n [] = [] := by cases n <;> rfl

theorem tokens_eq_drop : ∀ (n : Nat) (t : Text), tokens refs n t = tokens refs 0 (t.drop n)
  | _, [] => by simp
  | 0, _ :: _ => rfl
  | n + 1, _ :: t => by
    rw [List.drop_succ_cons, ← tokens_eq_drop n t]
    rfl

variable {refs}

theorem tokens_tag {name : Text} (hName : 62 ∉ name) (t : Text) :
    tokens refs 0 (60 :: (name ++ 62 :: t)) = .tag name :: tokens refs 0 t := by
  have hTake : (name ++ 62 :: t).takeWhile (· ≠ 62) = name := by
    rw [List.takeWhile_append_of_pos fun a ha => by
      simpa using fun (hEnd : a = 62) => hName (hEnd ▸ ha)]
    simp
  rw [tokens, if_pos ⟨rfl, by simp⟩, hTake, tokens_eq_drop]
  simp

theorem tokens_char {c : UInt16} (hTag : c ≠ 60) (hRef : c ≠ 38) (t : Text) :
    tokens refs 0 (c :: t) = .chars [c] :: tokens refs 0 t := by
  rw [tokens, if_neg fun h => hTag h.1, if_neg hRef]

theorem tokens_ampersand {t : Text} (hNone : refs.decode t = none) :
    tokens refs 0 (38 :: t) = .chars [38] :: tokens refs 0 t := by
  rw [tokens, if_neg fun h => absurd h.1 (by decide), if_pos rfl, hNone]

theorem tokens_ref {t x : Text} {n : Nat} (hSome : refs.decode t = some (x, n)) :
    tokens refs 0 (38 :: t) = .chars x :: tokens refs 0 (t.drop n) := by
  rw [tokens, if_neg fun h => absurd h.1 (by decide), if_pos rfl, hSome]
  exact congrArg _ (tokens_eq_drop refs n t)

theorem tokens_lt (t : Text) :
    tokens refs 0 (latin1 "&lt;" ++ t) = .chars [60] :: tokens refs 0 t :=
  tokens_ref (refs.decode_lt t)

theorem tokens_gt (t : Text) :
    tokens refs 0 (latin1 "&gt;" ++ t) = .chars [62] :: tokens refs 0 t :=
  tokens_ref (refs.decode_gt t)

theorem tokens_nbsp (t : Text) :
    tokens refs 0 (latin1 "&nbsp;" ++ t) = .chars [0xa0] :: tokens refs 0 t :=
  tokens_ref (refs.decode_nbsp t)

end Tokens

/-! ## What is displayed -/

/-- White space is displayed as a space. -/
def shownChar (c : UInt16) : UInt16 := if isSpace c then 32 else c

def br : Text := latin1 "br /"

/-- The text outside the elements named `picture`; `hidden` in one of them. -/
def text (picture : Text) : Bool → List Token → Text
  | _, [] => []
  | hidden, .chars s :: ts => (if hidden then [] else s.map shownChar) ++ text picture hidden ts
  | hidden, .tag name :: ts =>
    if name = picture then text picture true ts
    else if name = 47 :: picture then text picture false ts
    else if name = br then (if hidden then [] else [10]) ++ text picture hidden ts
    else text picture hidden ts

/-- Every element that is opened is closed, the last one first; `opened` are open. -/
def balanced : List Text → List Token → Bool
  | opened, [] => opened.isEmpty
  | opened, .chars _ :: ts => balanced opened ts
  | opened, .tag name :: ts =>
    if name.head? = some 47 then
      match opened with
      | [] => false
      | top :: opened => name.tail = top && balanced opened ts
    else if name.getLast? = some 47 then balanced opened ts
    else balanced (name.takeWhile (· ≠ 32) :: opened) ts

/-- Text and line breaks. -/
def Inert : Token → Prop
  | .chars _ => True
  | .tag name => name = br

theorem balanced_open {name : Text} (hHead : name.head? ≠ some 47)
    (hLast : name.getLast? ≠ some 47) (opened : List Text) (ts : List Token) :
    balanced opened (.tag name :: ts) = balanced (name.takeWhile (· ≠ 32) :: opened) ts := by
  rw [balanced.eq_def]
  simp only [if_neg hHead, if_neg hLast]

theorem balanced_close {name : Text} (hHead : name.head? = some 47) (opened : List Text)
    (ts : List Token) :
    balanced (name.tail :: opened) (.tag name :: ts) = balanced opened ts := by
  rw [balanced, if_pos hHead, decide_eq_true rfl, Bool.true_and]

theorem balanced_br (opened : List Text) (ts : List Token) :
    balanced opened (.tag br :: ts) = balanced opened ts := by
  rw [balanced.eq_def]
  rfl

theorem balanced_append {opened : List Text} (us : List Token) :
    ∀ {ts : List Token}, (∀ t ∈ ts, Inert t) → balanced opened (ts ++ us) = balanced opened us
  | [], _ => rfl
  | .chars _ :: ts, h => by
    rw [List.cons_append, balanced,
      balanced_append us fun t ht => h t (List.mem_cons_of_mem _ ht)]
  | .tag name :: ts, h => by
    have hName : Inert (.tag name) := h _ (by simp)
    obtain rfl : name = br := hName
    rw [List.cons_append, balanced_br,
      balanced_append us fun t ht => h t (List.mem_cons_of_mem _ ht)]

theorem text_append {picture : Text} (hPicture : br ≠ picture ∧ br ≠ 47 :: picture)
    (us : List Token) : ∀ {ts : List Token}, (∀ t ∈ ts, Inert t) →
      text picture false (ts ++ us) = text picture false ts ++ text picture false us
  | [], _ => rfl
  | .chars s :: ts, h => by
    rw [List.cons_append, text, text,
      text_append hPicture us fun t ht => h t (List.mem_cons_of_mem _ ht), List.append_assoc]
  | .tag name :: ts, h => by
    have hName : Inert (.tag name) := h _ (by simp)
    obtain rfl : name = br := hName
    have hRest := text_append hPicture us fun t ht => h t (List.mem_cons_of_mem _ ht)
    simp only [List.cons_append, text, if_neg hPicture.1, if_neg hPicture.2, hRest, if_true,
      List.append_assoc]

/-! ## Documents that are written piece by piece -/

/-- The reference of an ampersand is there as well. -/
structure EscapeRefs extends CharRefs where
  decode_amp : ∀ t, decode (latin1 "amp;" ++ t) = some ([38], 4)

theorem isPrefixOf_takeWhile {w : Text} (hw : ∀ c ∈ w, isName c) (t : Text) :
    w.isPrefixOf (t.takeWhile isName) = w.isPrefixOf t := by
  rw [Bool.eq_iff_iff, List.isPrefixOf_iff_prefix, List.isPrefixOf_iff_prefix]
  constructor
  · exact fun h => h.trans (List.takeWhile_prefix isName)
  · rintro ⟨u, rfl⟩
    rw [List.takeWhile_append_of_pos hw]
    exact List.prefix_append _ _

/-- The names that a text is escaped with. -/
def escapeTable : List (Text × UInt16) :=
  [(latin1 "lt;", 60), (latin1 "gt;", 62), (latin1 "amp;", 38), (latin1 "nbsp;", 0xa0)]

theorem isName_escapeTable : ∀ e ∈ escapeTable, (∀ c ∈ e.1, isName c) ∧ 1 ≤ e.1.length := by
  have hAll : (escapeTable.all fun e => e.1.all isName && decide (1 ≤ e.1.length)) = true := by
    decide
  intro e he
  have hEntry := List.all_eq_true.1 hAll e he
  rwa [Bool.and_eq_true, List.all_eq_true, decide_eq_true_eq] at hEntry

/-- No other references than these. -/
def escapeRefs : EscapeRefs where
  decode t := (escapeTable.find? fun e => e.1.isPrefixOf t).map fun e => ([e.2], e.1.length)
  decode_name t := by
    rw [List.find?_congr fun e he => (isPrefixOf_takeWhile (isName_escapeTable e he).1 t).symm]
  decode_le {t x n} h := by
    obtain ⟨e, hFind, hSame⟩ := Option.map_eq_some_iff.1 h
    obtain ⟨rfl, rfl⟩ := Prod.mk.inj hSame
    have hEntry := isName_escapeTable e (List.mem_of_find?_eq_some hFind)
    have hPrefix := List.find?_some hFind
    rw [← isPrefixOf_takeWhile hEntry.1, List.isPrefixOf_iff_prefix] at hPrefix
    exact ⟨hEntry.2, hPrefix.length_le⟩
  decode_lt _ := rfl
  decode_gt _ := rfl
  decode_nbsp _ := rfl
  decode_amp _ := rfl

/-- In HTML the tag of a line break needs no slash. -/
def closeVoid : Token → Token
  | .chars s => .chars s
  | .tag name => .tag (if name = latin1 "br" then br else name)

def document (refs : CharRefs) (s : Text) : List Token := (tokens refs 0 s).map closeVoid

/-- Every element that is opened is closed before another one is opened; `opened` is open. -/
def flat : Option Text → List Token → Bool
  | opened, [] => opened.isNone
  | opened, .chars _ :: ts => flat opened ts
  | opened, .tag name :: ts =>
    if name.head? = some 47 then decide (opened = some name.tail) && flat none ts
    else if name.getLast? = some 47 then flat opened ts
    else opened.isNone && flat (some (name.takeWhile (· ≠ 32))) ts

/-- The text where no element is hidden. -/
abbrev shown : List Token → Text := text [] false

/-- Whatever follows, `w` is read by itself: it takes the open element from `opened` to
`opened'`, and `ys` is displayed. -/
def Writes (refs : CharRefs) (opened opened' : Option Text) (w ys : Text) : Prop :=
  ∃ ts, (∀ t, document refs (w ++ t) = ts ++ document refs t) ∧
    (∀ us, flat opened (ts ++ us) = flat opened' us) ∧ ∀ us, shown (ts ++ us) = ys ++ shown us

section Writes

variable {refs : CharRefs} {opened opened' opened'' : Option Text}

theorem Writes.nil : Writes refs opened opened [] [] :=
  ⟨[], fun _ => rfl, fun _ => rfl, fun _ => rfl⟩

/-- **Piece by piece.** -/
theorem Writes.append {w w' ys ys' : Text} (h : Writes refs opened opened' w ys)
    (h' : Writes refs opened' opened'' w' ys') :
    Writes refs opened opened'' (w ++ w') (ys ++ ys') := by
  obtain ⟨ts, hRead, hFlat, hShown⟩ := h
  obtain ⟨ts', hRead', hFlat', hShown'⟩ := h'
  refine ⟨ts ++ ts', fun t => ?_, fun us => ?_, fun us => ?_⟩
  · rw [List.append_assoc, hRead, hRead', List.append_assoc]
  · rw [List.append_assoc, hFlat, hFlat']
  · rw [List.append_assoc, hShown, hShown', List.append_assoc]

/-- **A document** that is written so. -/
theorem Writes.document_eq {w ys : Text} (h : Writes refs none opened w ys) :
    flat none (document refs w) = opened.isNone ∧ shown (document refs w) = ys := by
  obtain ⟨ts, hRead, hFlat, hShown⟩ := h
  have hAll : document refs w = ts := by
    have hEnd := hRead []
    rw [List.append_nil] at hEnd
    rw [hEnd]
    exact List.append_nil ts
  have hOpen := hFlat []
  have hText := hShown []
  rw [List.append_nil] at hOpen hText
  rw [hAll, hOpen, hText]
  exact ⟨rfl, List.append_nil ys⟩

theorem writes_chars {w s : Text}
    (hRead : ∀ t, tokens refs 0 (w ++ t) = .chars s :: tokens refs 0 t) :
    Writes refs opened opened w (s.map shownChar) := by
  refine ⟨[.chars s], fun t => ?_, fun _ => rfl, fun _ => rfl⟩
  rw [document, hRead]
  rfl

theorem writes_char {c : UInt16} (hTag : c ≠ 60) (hRef : c ≠ 38) :
    Writes refs opened opened [c] [shownChar c] :=
  writes_chars (s := [c]) (tokens_char hTag hRef)

theorem writes_lt : Writes refs opened opened (latin1 "&lt;") [60] :=
  writes_chars (s := [60]) tokens_lt

theorem writes_gt : Writes refs opened opened (latin1 "&gt;") [62] :=
  writes_chars (s := [62]) tokens_gt

theorem writes_amp {refs : EscapeRefs} :
    Writes refs.toCharRefs opened opened (latin1 "&amp;") [38] :=
  writes_chars (s := [38]) fun t => tokens_ref (refs.decode_amp t)

theorem writes_br : Writes refs opened opened (latin1 "<br>") [10] := by
  refine ⟨[.tag br], fun t => ?_, fun us => ?_, fun us => ?_⟩
  · have hName : (62 : UInt16) ∉ latin1 "br" := by decide
    have hTag : tokens refs 0 (latin1 "<br>" ++ t) = .tag (latin1 "br") :: tokens refs 0 t :=
      tokens_tag hName t
    rw [document, hTag]
    rfl
  · rw [List.singleton_append, flat.eq_def]
    rfl
  · rw [List.singleton_append, shown, text]
    rfl

/-- What a tag that is no line break is read as. -/
theorem document_tag {name : Text} (hName : 62 ∉ name) (hBreak : name ≠ latin1 "br") (t : Text) :
    document refs (60 :: (name ++ 62 :: t)) = .tag name :: document refs t := by
  rw [document, tokens_tag hName, List.map_cons, closeVoid, if_neg hBreak]
  rfl

theorem shown_tag {name : Text} (hName : name ≠ [] ∧ name ≠ [47] ∧ name ≠ br) (us : List Token) :
    shown (.tag name :: us) = shown us := by
  rw [shown, text, if_neg hName.1, if_neg hName.2.1, if_neg hName.2.2]

end Writes

end Html
