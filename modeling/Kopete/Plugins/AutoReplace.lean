import Kopete.Lib.Html

/-!
# Auto replace plugin

`slotInterceptMessage` replaces the words of a table in the messages that come in or go out.
A word is found by the regular expression `(^|\s|\.|\;|\,|\:)(key)(\b)`, and all matches are
replaced by what is in front of the first one and the value, which `QString::replace` takes
for a text with back-references. What the expression asks about characters is a parameter.

Main results:

* `render_scanned` — the delimiters and the key make the text again;
* `render_eq_replaceWords` — with its own delimiter and the value for each match, the words
  are replaced;
* `intercept_iff` — when the words are replaced, and nothing else.
-/

namespace AutoReplacePlugin

open Html (Text isSpace)

/-- `\s|\.|\;|\,|\:` -/
def isDelimiter (c : UInt16) : Bool := isSpace c || c == 46 || c == 59 || c == 44 || c == 58

/-- What `QChar` knows: which characters words are made of (letters, digits, marks and the
underscore), and which are digits. Delimiters are neither. -/
structure CharClasses where
  isWord : UInt16 → Bool
  digitValue : UInt16 → Option ℕ
  toUpper : UInt16 → UInt16
  isWord_delimiter : ∀ c, isDelimiter c → isWord c = false
  digitValue_delimiter : ∀ c, isDelimiter c → digitValue c = none

variable (classes : CharClasses)

/-! ## The regular expression -/

/-- `\b`, between two characters. -/
def wordBoundary (before after : Option UInt16) : Bool :=
  before.any classes.isWord != after.any classes.isWord

/-- `(key)(\b)`, behind `before`. -/
def keyHere (key : Text) (before : Option UInt16) (s : Text) : Bool :=
  key.isPrefixOf s && wordBoundary classes (key.getLast?.or before) (s.drop key.length).head?

/-- The expression at a place of the text: `cap(1)`. At most one of the two ways to match is
possible. -/
def matchHere (key : Text) (atStart : Bool) : Text → Option Text
  | [] => if atStart && keyHere classes key none [] then some [] else none
  | c :: s =>
    if atStart && keyHere classes key none (c :: s) then some []
    else if isDelimiter c && keyHere classes key (some c) s then some [c]
    else none

/-- A character that is in no match, or a match, with its `cap(1)`. -/
inductive Piece where
  | char (c : UInt16)
  | word (cap : Text)
deriving DecidableEq, Repr

/-- The matches from a place on, of which `n` characters have been passed over. Behind a
match without characters the search goes on one character later. -/
def scan (key : Text) : Bool → ℕ → Text → List Piece
  | _, _, [] => []
  | _, n + 1, _ :: s => scan key false n s
  | atStart, 0, c :: s =>
    match matchHere classes key atStart (c :: s) with
    | some cap =>
      match (cap ++ key).length with
      | 0 => .word cap :: .char c :: scan key false 0 s
      | n + 1 => .word cap :: scan key false n s
    | none => .char c :: scan key false 0 s

/-- The text with something for each match. -/
def render (f : Text → Text) : List Piece → Text
  | [] => []
  | .char c :: ps => c :: render f ps
  | .word cap :: ps => f cap ++ render f ps

/-- `cap(1)` of all matches. -/
def caps : List Piece → List Text
  | [] => []
  | .char _ :: ps => caps ps
  | .word cap :: ps => cap :: caps ps

/-! ## Replacing -/

/-- Whether a backslash and a character are a back-reference: there are three captures, so
a second digit is none of the number. -/
def backRef (c x : UInt16) : Option ℕ :=
  if c = 92 then (classes.digitValue x).filter fun no => 0 < no ∧ no ≤ 3 else none

/-- `cap(no)`: the delimiter, the key, and the word boundary. -/
def capture (key cap : Text) : ℕ → Text
  | 1 => cap
  | 2 => key
  | _ => []

/-- What a match is replaced by. -/
def expand (key cap : Text) : Text → Text
  | c :: x :: after =>
    match backRef classes c x with
    | some no => capture key cap no ++ expand key cap after
    | none => c :: expand key cap (x :: after)
  | after => after

/-- The body of the loop over the table; `none` if there is no match. -/
def replaceEntry (key value text : Text) : Option Text :=
  match caps (scan classes key true 0 text) with
  | [] => none
  | before :: _ =>
    let after : Text := []
    some (render (fun cap => expand classes key cap (before ++ value ++ after))
      (scan classes key true 0 text))

/-- The loop: the text, and `isReplaced`. -/
def replaceEntries (map : List (Text × Text)) (text : Text) : Text × Bool :=
  map.foldl (fun (text, isReplaced) (key, value) =>
    match replaceEntry classes key value text with
    | some replaced => (replaced, true)
    | none => (text, isReplaced)) (text, false)

/-- `replace(QRegExp("([a-z])$"), "\\1.")`. -/
def dotEnd (text : Text) : Text :=
  match text.getLast? with
  | some c => if 97 ≤ c ∧ c ≤ 122 then text ++ [46] else text
  | none => text

/-- `AutoReplaceConfig`; the table is in the order of its keys. -/
structure AutoReplaceConfig where
  map : List (Text × Text)
  autoReplaceIncoming : Bool
  autoReplaceOutgoing : Bool
  dotEndSentence : Bool
  capitalizeBeginningSentence : Bool

inductive Direction where
  | inbound
  | outbound
  | internal
deriving DecidableEq, Repr

structure Message where
  direction : Direction
  plainBody : Text
deriving DecidableEq, Repr

def Active (m_prefs : AutoReplaceConfig) (msg : Message) : Prop :=
  (msg.direction = .outbound ∧ m_prefs.autoReplaceOutgoing) ∨
    (msg.direction = .inbound ∧ m_prefs.autoReplaceIncoming)

instance (m_prefs : AutoReplaceConfig) (msg : Message) : Decidable (Active m_prefs msg) :=
  inferInstanceAs (Decidable (_ ∨ _))

/-- `slotInterceptMessage`; `none` where the first character of an empty text is read. -/
def slotInterceptMessage (m_prefs : AutoReplaceConfig) (msg : Message) : Option Message :=
  if Active m_prefs msg then
    let (text, isReplaced) := replaceEntries classes m_prefs.map msg.plainBody
    let text := if m_prefs.dotEndSentence then dotEnd text else text
    if m_prefs.capitalizeBeginningSentence then
      match text with
      | [] => none
      | c :: text => some { msg with plainBody := classes.toUpper c :: text }
    else if isReplaced || m_prefs.dotEndSentence then some { msg with plainBody := text }
    else some msg
  else some msg

/-! ## What is asked for -/

/-- The key is here, and ends at a word boundary. -/
def wordHere (key s : Text) : Bool :=
  key.isPrefixOf s && key.getLast?.any classes.isWord !=
    (s.drop key.length).head?.any classes.isWord

/-- From the left, the key becomes the value wherever a word begins: at the start of the text
and behind a delimiter, as long as that is not itself in a word that has been replaced. Of
such a word `n` characters are left to pass over. -/
def replaceWords (key value : Text) : Bool → ℕ → Text → Text
  | _, _, [] => []
  | _, n + 1, _ :: s => replaceWords key value false n s
  | begins, 0, c :: s =>
    if begins && wordHere classes key (c :: s) then
      match key.length with
      | 0 => value ++ c :: replaceWords key value (isDelimiter c) 0 s
      | n + 1 => value ++ replaceWords key value false n s
    else c :: replaceWords key value (isDelimiter c) 0 s

/-- In front of each match is what is in front of the first one, and the value stands for
itself: with the back-references resolved, the first delimiter and the value are the
match's own delimiter and the value. -/
def Uniform (key value text : Text) : Prop :=
  let delimiters := caps (scan classes key true 0 text)
  ∀ before ∈ delimiters.head?, ∀ cap ∈ delimiters,
    before ++ expand classes key cap value = cap ++ value

/-! ## Matches -/

section Matches

variable {classes} {key : Text}

theorem not_isDelimiter {c : UInt16} (h : classes.isWord c = true) : isDelimiter c = false := by
  by_contra hDelimiter
  have hNot := classes.isWord_delimiter c (by simpa using hDelimiter)
  rw [h] at hNot
  cases hNot

theorem keyHere_eq_wordHere {before : Option UInt16}
    (h : before.any classes.isWord = false) (s : Text) :
    keyHere classes key before s = wordHere classes key s := by
  unfold keyHere wordHere wordBoundary
  cases key.getLast? with
  | none => rw [Option.none_or, h, Option.any_none]
  | some c => rw [Option.some_or]

theorem keyHere_none (s : Text) : keyHere classes key none s = wordHere classes key s :=
  keyHere_eq_wordHere rfl s

theorem keyHere_delimiter {c : UInt16} (h : isDelimiter c = true) (s : Text) :
    keyHere classes key (some c) s = wordHere classes key s := by
  apply keyHere_eq_wordHere
  rw [Option.any_some]
  exact classes.isWord_delimiter c h

theorem wordHere_nil : wordHere classes key [] = false := by
  cases key with
  | nil => simp [wordHere]
  | cons c key => simp [wordHere]

theorem isWord_of_wordHere_nil {c : UInt16} {s : Text} (h : wordHere classes [] (c :: s) = true) :
    classes.isWord c = true := by
  simpa [wordHere] using h

theorem scan_succ (atStart : Bool) (n : ℕ) (s : Text) :
    scan classes key atStart (n + 1) s = scan classes key false 0 (s.drop (n + 1)) := by
  induction s generalizing atStart n with
  | nil => rfl
  | cons c s ih =>
    rw [scan, List.drop_succ_cons]
    cases n with
    | zero => rw [List.drop_zero]
    | succ n => exact ih false n

theorem scan_drop (n : ℕ) (s : Text) :
    scan classes key false n s = scan classes key false 0 (s.drop n) := by
  cases n with
  | zero => rw [List.drop_zero]
  | succ n => exact scan_succ false n s

theorem replaceWords_drop {value : Text} (n : ℕ) (s : Text) :
    replaceWords classes key value false n s =
      replaceWords classes key value false 0 (s.drop n) := by
  induction n generalizing s with
  | zero => rw [List.drop_zero]
  | succ n ih =>
    cases s with
    | nil => rfl
    | cons c s => rw [replaceWords, List.drop_succ_cons, ih]

end Matches

/-! ## The scan -/

/-- What the scan makes of a text; `begins` at its start. -/
inductive Scanned (key : Text) : Bool → Text → List Piece → Prop
  | nil (begins : Bool) : Scanned key begins [] []
  /-- Without a key: a word at the start. -/
  | empty {c : UInt16} {s : Text} {ps : List Piece} (hKey : key = [])
      (hHere : wordHere classes key (c :: s) = true) (hRest : Scanned key false s ps) :
      Scanned key true (c :: s) (.word [] :: .char c :: ps)
  | start {s : Text} {ps : List Piece} (hKey : key ≠ [])
      (hHere : wordHere classes key (key ++ s) = true) (hRest : Scanned key false s ps) :
      Scanned key true (key ++ s) (.word [] :: ps)
  | delimiter {begins : Bool} {c : UInt16} {s : Text} {ps : List Piece}
      (hDelimiter : isDelimiter c = true)
      (hNot : (begins && wordHere classes key (c :: (key ++ s))) = false)
      (hHere : wordHere classes key (key ++ s) = true) (hRest : Scanned key false s ps) :
      Scanned key begins (c :: (key ++ s)) (.word [c] :: ps)
  | char {begins : Bool} {c : UInt16} {s : Text} {ps : List Piece}
      (hNot : (begins && wordHere classes key (c :: s)) = false)
      (hBehind : (isDelimiter c && wordHere classes key s) = false)
      (hRest : Scanned key false s ps) : Scanned key begins (c :: s) (.char c :: ps)

section Scan

variable {classes} {key : Text}

theorem eq_append_of_wordHere {s : Text} (h : wordHere classes key s = true) :
    s = key ++ s.drop key.length := by
  simp only [wordHere, Bool.and_eq_true, List.isPrefixOf_iff_prefix] at h
  exact (List.prefix_iff_eq_append.1 h.1).symm

theorem matchHere_cons (begins : Bool) (c : UInt16) (s : Text) :
    matchHere classes key begins (c :: s) =
      if begins && wordHere classes key (c :: s) then some []
      else if isDelimiter c && wordHere classes key s then some [c] else none := by
  rw [matchHere, keyHere_none]
  cases hDelimiter : isDelimiter c with
  | false => rfl
  | true => rw [keyHere_delimiter hDelimiter]

/-- **What the scan does**, by the length of the text. -/
theorem scanned_scan (begins : Bool) (s : Text) :
    Scanned classes key begins s (scan classes key begins 0 s) := by
  cases s with
  | nil => exact .nil begins
  | cons c s =>
    have hRest : ∀ n, Scanned classes key false (s.drop n) (scan classes key false n s) := by
      intro n
      rw [scan_drop]
      exact scanned_scan false (s.drop n)
    rw [scan, matchHere_cons]
    cases hStart : begins && wordHere classes key (c :: s) with
    | true =>
      obtain ⟨rfl, hHere⟩ := Bool.and_eq_true_iff.1 hStart
      rw [if_pos rfl]
      cases key with
      | nil => exact .empty rfl hHere (hRest 0)
      | cons d key =>
        have hText := eq_append_of_wordHere hHere
        rw [hText] at hHere ⊢
        exact .start (List.cons_ne_nil d key) hHere (hRest key.length)
    | false =>
      rw [if_neg Bool.false_ne_true]
      cases hBehind : isDelimiter c && wordHere classes key s with
      | true =>
        obtain ⟨hDelimiter, hHere⟩ := Bool.and_eq_true_iff.1 hBehind
        have hNext := hRest key.length
        have hText := eq_append_of_wordHere hHere
        rw [if_pos rfl]
        simp only [List.singleton_append, List.length_cons]
        generalize scan classes key false key.length s = ps at hNext ⊢
        generalize s.drop key.length = u at hText hNext
        subst hText
        exact .delimiter hDelimiter hStart hHere hNext
      | false => exact .char hStart hBehind (hRest 0)
termination_by s.length
decreasing_by
  simp only [List.length_drop, List.length_cons]
  omega

/-- **Nothing is lost**: the delimiters and the key make the text again. -/
theorem render_scanned {begins : Bool} {s : Text} {ps : List Piece}
    (h : Scanned classes key begins s ps) : render (fun cap => cap ++ key) ps = s := by
  induction h with
  | nil => rfl
  | empty hKey hHere hRest ih => rw [render, render, ih, hKey, List.nil_append, List.nil_append]
  | start hKey hHere hRest ih => rw [render, ih, List.nil_append]
  | delimiter hDelimiter hNot hHere hRest ih =>
    rw [render, ih, List.append_assoc, List.singleton_append]
  | char hNot hBehind hRest ih => rw [render, ih]

variable {value : Text}

theorem replaceWords_char {begins : Bool} {c : UInt16} {s : Text}
    (h : (begins && wordHere classes key (c :: s)) = false) :
    replaceWords classes key value begins 0 (c :: s) =
      c :: replaceWords classes key value (isDelimiter c) 0 s := by
  rw [replaceWords, h, if_neg Bool.false_ne_true]

theorem replaceWords_begins {s : Text} (h : wordHere classes key s = false) (begins : Bool) :
    replaceWords classes key value begins 0 s = replaceWords classes key value false 0 s := by
  cases s with
  | nil => rfl
  | cons c s =>
    rw [replaceWords_char (by rw [h, Bool.and_false]), replaceWords_char (Bool.false_and _)]

/-- **At a word.** -/
theorem replaceWords_word {s : Text} (h : wordHere classes key (key ++ s) = true) :
    replaceWords classes key value true 0 (key ++ s) =
      value ++ replaceWords classes key value false 0 s := by
  cases key with
  | nil =>
    cases s with
    | nil => exact absurd (wordHere_nil.symm.trans h) Bool.false_ne_true
    | cons c s =>
      rw [List.nil_append] at h ⊢
      have hNone : (false && wordHere classes [] (c :: s)) = false := Bool.false_and _
      rw [replaceWords_char hNone, replaceWords, h, Bool.and_self, if_pos rfl]
      rfl
  | cons d key =>
    rw [List.cons_append, replaceWords, ← List.cons_append, h, Bool.and_self, if_pos rfl]
    change value ++ replaceWords classes (d :: key) value false key.length (key ++ s) = _
    rw [replaceWords_drop, List.drop_left]

/-- **With the value for each match**, the words are replaced. -/
theorem render_eq_replaceWords {begins : Bool} {s : Text} {ps : List Piece}
    (h : Scanned classes key begins s ps) :
    render (fun cap => cap ++ value) ps = replaceWords classes key value begins 0 s := by
  induction h with
  | nil => rfl
  | @empty c s ps hKey hHere hRest ih =>
    subst hKey
    have hWord : isDelimiter c = false := not_isDelimiter (isWord_of_wordHere_nil hHere)
    have hAll : replaceWords classes [] value true 0 (c :: s) = _ := replaceWords_word hHere
    rw [hAll, replaceWords_char (Bool.false_and _), hWord, ← ih]
    rfl
  | start hKey hHere hRest ih => rw [replaceWords_word hHere, ← ih, render, List.nil_append]
  | delimiter hDelimiter hNot hHere hRest ih =>
    rw [replaceWords_char hNot, hDelimiter, replaceWords_word hHere, ← ih, render,
      List.append_assoc, List.singleton_append]
  | @char begins c s ps hNot hBehind hRest ih =>
    have hNext : replaceWords classes key value (isDelimiter c) 0 s =
        replaceWords classes key value false 0 s := by
      cases hDelimiter : isDelimiter c with
      | false => rfl
      | true =>
        rw [hDelimiter, Bool.true_and] at hBehind
        exact replaceWords_begins hBehind true
    rw [replaceWords_char hNot, hNext, ← ih, render]

theorem caps_scanned {begins : Bool} {s : Text} {ps : List Piece}
    (h : Scanned classes key begins s ps) :
    ∀ cap ∈ (if begins then (caps ps).tail else caps ps),
      ∃ c, isDelimiter c = true ∧ cap = [c] := by
  induction h with
  | nil begins => cases begins <;> exact fun cap hMem => nomatch hMem
  | empty hKey hHere hRest ih => exact ih
  | start hKey hHere hRest ih => exact ih
  | @delimiter begins c s ps hDelimiter hNot hHere hRest ih =>
    cases begins with
    | true => exact ih
    | false =>
      intro cap hMem
      rcases List.mem_cons.1 hMem with rfl | hMem
      · exact ⟨c, hDelimiter, rfl⟩
      · exact ih cap hMem
  | @char begins c s ps hNot hBehind hRest ih =>
    intro cap hMem
    cases begins with
    | true => exact ih cap (List.mem_of_mem_tail hMem)
    | false => exact ih cap hMem

theorem head_caps_scanned {begins : Bool} {s : Text} {ps : List Piece}
    (h : Scanned classes key begins s ps) :
    ∀ cap ∈ (caps ps).head?, cap = [] ∨ ∃ c, isDelimiter c = true ∧ cap = [c] := by
  induction h with
  | nil => exact fun cap hMem => nomatch hMem
  | empty | start =>
    rintro cap hMem
    exact Or.inl (Option.some.inj hMem).symm
  | @delimiter _ c _ _ hDelimiter =>
    rintro cap hMem
    exact Or.inr ⟨c, hDelimiter, (Option.some.inj hMem).symm⟩
  | char hNot hBehind hRest ih => exact ih

end Scan

/-! ## Back-references -/

section BackReferences

variable {classes} {key : Text}

theorem not_delimiter_of_backRef {c x : UInt16} {no : ℕ} (h : backRef classes c x = some no) :
    c = 92 ∧ isDelimiter c = false ∧ isDelimiter x = false := by
  unfold backRef at h
  split at h
  · next hc =>
    subst hc
    refine ⟨rfl, rfl, ?_⟩
    by_contra hDelimiter
    rw [classes.digitValue_delimiter x (by simpa using hDelimiter)] at h
    cases h
  · cases h

theorem expand_append {before : Text}
    (h : before = [] ∨ ∃ c, isDelimiter c = true ∧ before = [c]) (cap value : Text) :
    expand classes key cap (before ++ value) = before ++ expand classes key cap value := by
  rcases h with rfl | ⟨c, hDelimiter, rfl⟩
  · rfl
  · cases value with
    | nil => rfl
    | cons x after =>
      have hNone : backRef classes c x = none := by
        by_contra hSome
        obtain ⟨no, hNo⟩ := Option.ne_none_iff_exists'.1 hSome
        rw [(not_delimiter_of_backRef hNo).2.1] at hDelimiter
        cases hDelimiter
      rw [List.singleton_append, expand, hNone]
      rfl

/-- How often the delimiter is referred to. -/
def delimiterRefs (classes : CharClasses) : Text → ℕ
  | c :: x :: after =>
    match backRef classes c x with
    | some no => (if no = 1 then 1 else 0) + delimiterRefs classes after
    | none => delimiterRefs classes (x :: after)
  | _ => 0

theorem countP_capture (p : UInt16 → Bool) (cap : Text) (no : ℕ) :
    (capture key cap no).countP p =
      (capture key [] no).countP p + (if no = 1 then 1 else 0) * cap.countP p := by
  match no with
  | 0 => simp [capture]
  | 1 => simp [capture]
  | 2 => simp [capture]
  | no + 3 => simp [capture]

/-- **What the delimiter adds** to the value. -/
theorem countP_expand (p : UInt16 → Bool) (cap value : Text) :
    (expand classes key cap value).countP p =
      (expand classes key [] value).countP p + delimiterRefs classes value * cap.countP p := by
  fun_induction delimiterRefs classes value with
  | case1 c x after no hNo ih =>
    have hRef : ∀ cap, expand classes key cap (c :: x :: after) =
        capture key cap no ++ expand classes key cap after := by
      intro cap
      rw [expand, hNo]
    rw [hRef, hRef, List.countP_append, List.countP_append, ih, countP_capture]
    ring
  | case2 c x after hNone ih =>
    have hChar : ∀ cap, expand classes key cap (c :: x :: after) =
        c :: expand classes key cap (x :: after) := by
      intro cap
      rw [expand, hNone]
    rw [hChar, hChar, List.countP_cons, List.countP_cons, ih]
    ring
  | case3 value hShort =>
    rcases value with - | ⟨c, - | ⟨x, after⟩⟩
    · simp [expand]
    · simp [expand]
    · exact absurd rfl (hShort c x after)

theorem length_expand (cap value : Text) :
    (expand classes key cap value).length =
      (expand classes key [] value).length + delimiterRefs classes value * cap.length := by
  simpa only [List.countP_true] using countP_expand (fun _ => true) cap value

theorem countP_delimiter_le (value : Text) :
    value.countP isDelimiter ≤ (expand classes key [] value).countP isDelimiter := by
  fun_induction expand classes key [] value with
  | case1 c x after no hNo ih =>
    obtain ⟨-, hc, hx⟩ := not_delimiter_of_backRef hNo
    rw [List.countP_cons_of_neg (by simp [hc]), List.countP_cons_of_neg (by simp [hx]),
      List.countP_append]
    omega
  | case2 c x after hNone ih =>
    simp only [List.countP_cons] at ih ⊢
    omega
  | case3 value hShort => exact Nat.le_refl _

end BackReferences

/-! ## Texts with something for each match -/

theorem countP_render (p : UInt16 → Bool) (f : Text → Text) (ps : List Piece) :
    (render f ps).countP p =
      (render (fun _ => []) ps).countP p + ((caps ps).map fun cap => (f cap).countP p).sum := by
  induction ps with
  | nil => rfl
  | cons piece ps ih =>
    cases piece with
    | char c =>
      rw [render, render, caps, List.countP_cons, List.countP_cons, ih]
      omega
    | word cap =>
      rw [render, render, caps, List.countP_append, List.nil_append, List.map_cons,
        List.sum_cons, ih]
      omega

/-- **Where the lengths agree**, equal texts have the same for each match. -/
theorem render_inj {f g : Text → Text} {ps : List Piece}
    (hLength : ∀ cap ∈ caps ps, (f cap).length = (g cap).length)
    (h : render f ps = render g ps) : ∀ cap ∈ caps ps, f cap = g cap := by
  induction ps with
  | nil => exact fun cap hMem => nomatch hMem
  | cons piece ps ih =>
    cases piece with
    | char c => exact ih hLength (List.cons.inj h).2
    | word cap =>
      obtain ⟨hHere, hRest⟩ := List.append_inj h (hLength cap List.mem_cons_self)
      have hLater := ih (fun cap hMem => hLength cap (List.mem_cons_of_mem _ hMem)) hRest
      intro cap' hMem
      rcases List.mem_cons.1 hMem with rfl | hMem
      · exact hHere
      · exact hLater cap' hMem

theorem render_congr {f g : Text → Text} {ps : List Piece} (h : ∀ cap ∈ caps ps, f cap = g cap) :
    render f ps = render g ps := by
  induction ps with
  | nil => rfl
  | cons piece ps ih =>
    cases piece with
    | char c => rw [render, render, ih h]
    | word cap =>
      rw [render, render, h cap List.mem_cons_self,
        ih fun cap hMem => h cap (List.mem_cons_of_mem _ hMem)]

/-! ## When the words are replaced -/

section Words

variable {classes} {key value : Text}

/-- What the lengths and the numbers of delimiters say together: `E` and `C` for the value
with its back-references resolved, `V` and `W` for the value, `a` references to the
delimiter, and `n` matches behind the first one, which has `b` delimiters. -/
theorem lengths_agree {a b n E V C W : ℕ} (hb : b = 0 ∨ b = 1)
    (hLength : E + a * b + n * (b + (E + a)) = V + n * (1 + V))
    (hDelimiters : C + a * b + n * (b + (C + a)) = W + n * (1 + W)) (hLe : W ≤ C) :
    E + a * b = V ∧ (0 < n → b + (E + a) = 1 + V) := by
  rcases hb with rfl | rfl
  · obtain ⟨t, rfl⟩ := Nat.exists_eq_add_of_le hLe
    rcases Nat.eq_zero_or_pos n with rfl | hPos
    · exact ⟨by omega, fun h => absurd h (Nat.lt_irrefl 0)⟩
    · have hSplit : (n + 1) * t + n * a = n := by linarith
      have hNone : t = 0 := by
        by_contra hSome
        have hMore : n + 1 ≤ (n + 1) * t := Nat.le_mul_of_pos_right _ (by omega)
        omega
      subst hNone
      have hOne : a = 1 := Nat.eq_of_mul_eq_mul_left hPos (by omega)
      subst hOne
      have hAll : (n + 1) * E = (n + 1) * V := by linarith
      have hEqual := Nat.eq_of_mul_eq_mul_left (Nat.succ_pos n) hAll
      exact ⟨by omega, fun _ => by omega⟩
  · have hAll : (n + 1) * (E + a) = (n + 1) * V := by linarith
    have hEqual := Nat.eq_of_mul_eq_mul_left (Nat.succ_pos n) hAll
    exact ⟨by omega, fun _ => by omega⟩

theorem sum_map_const {f : Text → ℕ} {k : ℕ} {l : List Text} (h : ∀ x ∈ l, f x = k) :
    (l.map f).sum = l.length * k := by
  rw [List.map_congr_left h, List.map_const', List.sum_replicate, smul_eq_mul]

variable (key value) in
theorem countP_render_eq {p : UInt16 → Bool} (hp : ∀ c, isDelimiter c = true → p c = true)
    {ps : List Piece} {before : Text} {rest : List Text} (hCaps : caps ps = before :: rest)
    (hBefore : before = [] ∨ ∃ c, isDelimiter c = true ∧ before = [c])
    (hRest : ∀ cap ∈ rest, ∃ c, isDelimiter c = true ∧ cap = [c])
    (hSame : render (fun cap => before ++ expand classes key cap value) ps =
      render (fun cap => cap ++ value) ps) :
    (expand classes key [] value).countP p + delimiterRefs classes value * before.length +
        rest.length *
          (before.length + ((expand classes key [] value).countP p + delimiterRefs classes value)) =
      value.countP p + rest.length * (1 + value.countP p) := by
  have hFirst : before.countP p = before.length := by
    rcases hBefore with rfl | ⟨c, hc, rfl⟩
    · rfl
    · simp [hp c hc]
  have hOne : ∀ cap ∈ rest, cap.countP p = 1 := by
    intro cap hMem
    obtain ⟨c, hc, rfl⟩ := hRest cap hMem
    simp [hp c hc]
  have hCount := congrArg (List.countP p) hSame
  rw [countP_render, countP_render (f := fun cap => cap ++ value), hCaps] at hCount
  simp only [List.map_cons, List.sum_cons, List.countP_append, hFirst] at hCount
  rw [sum_map_const fun cap hMem => by rw [countP_expand, hOne cap hMem, Nat.mul_one],
    sum_map_const fun cap hMem => by rw [hOne cap hMem], countP_expand, hFirst] at hCount
  omega

/-- **With the first delimiter for each**, the text agrees with the one that is asked for
only if that is the same for each match. Else the lengths differ, or the number of the
delimiters does. -/
theorem render_eq_iff {ps : List Piece} {before : Text} {rest : List Text}
    (hCaps : caps ps = before :: rest)
    (hBefore : before = [] ∨ ∃ c, isDelimiter c = true ∧ before = [c])
    (hRest : ∀ cap ∈ rest, ∃ c, isDelimiter c = true ∧ cap = [c]) :
    render (fun cap => before ++ expand classes key cap value) ps =
        render (fun cap => cap ++ value) ps ↔
      ∀ cap ∈ caps ps, before ++ expand classes key cap value = cap ++ value := by
  refine ⟨fun hSame => render_inj ?_ hSame, render_congr⟩
  have hLength := countP_render_eq key value (p := fun _ => true) (fun _ _ => rfl) hCaps hBefore
    hRest hSame
  have hDelimiters := countP_render_eq key value (p := isDelimiter) (fun _ h => h) hCaps hBefore
    hRest hSame
  simp only [List.countP_true] at hLength
  have hb : before.length = 0 ∨ before.length = 1 := by
    rcases hBefore with rfl | ⟨c, -, rfl⟩
    · exact Or.inl rfl
    · exact Or.inr rfl
  obtain ⟨hHere, hLater⟩ := lengths_agree hb hLength hDelimiters (countP_delimiter_le value)
  rw [hCaps]
  intro cap hMem
  rw [List.length_append, List.length_append, length_expand]
  rcases List.mem_cons.1 hMem with rfl | hMem
  · omega
  · obtain ⟨c, -, rfl⟩ := hRest cap hMem
    have hNext := hLater (List.length_pos_of_mem hMem)
    rw [List.length_singleton]
    omega

theorem replaceEntry_eq (text : Text) :
    replaceEntry classes key value text =
      (caps (scan classes key true 0 text)).head?.map fun before =>
        render (fun cap => before ++ expand classes key cap value)
          (scan classes key true 0 text) := by
  have hScan : Scanned classes key true text (scan classes key true 0 text) :=
    scanned_scan true text
  unfold replaceEntry
  cases hCaps : caps (scan classes key true 0 text) with
  | nil => rfl
  | cons before rest =>
    have hBefore := head_caps_scanned hScan before (by rw [hCaps]; rfl)
    simp only [List.append_nil, List.head?_cons, Option.map_some, Option.some.injEq]
    exact render_congr fun cap _ => expand_append hBefore cap value

/-- **The words of a text** are replaced exactly if it is uniform. -/
theorem replaceEntry_iff (text : Text) :
    (replaceEntry classes key value text).getD text =
        replaceWords classes key value true 0 text ↔
      Uniform classes key value text := by
  have hScan : Scanned classes key true text (scan classes key true 0 text) :=
    scanned_scan true text
  rw [replaceEntry_eq, ← render_eq_replaceWords hScan, Uniform]
  cases hCaps : caps (scan classes key true 0 text) with
  | nil =>
    have hSame : render (fun cap => cap ++ key) (scan classes key true 0 text) =
        render (fun cap => cap ++ value) (scan classes key true 0 text) := by
      apply render_congr
      rw [hCaps]
      exact fun cap hMem => nomatch hMem
    rw [render_scanned hScan] at hSame
    exact ⟨fun _ before hMem => (nomatch hMem), fun _ => hSame⟩
  | cons before rest =>
    have hBefore := head_caps_scanned hScan before (by rw [hCaps]; rfl)
    have hRest := caps_scanned hScan
    rw [if_pos rfl, hCaps] at hRest
    simp only [List.head?_cons, Option.map_some, Option.getD_some, Option.mem_def,
      Option.some.injEq, forall_eq']
    rw [render_eq_iff hCaps hBefore hRest, hCaps]

end Words

/-! ## The message -/

/-- A table with one entry, and no changes of sentences. -/
def oneEntry (m_prefs : AutoReplaceConfig) (key value : Text) : AutoReplaceConfig :=
  { m_prefs with
    map := [(key, value)]
    dotEndSentence := false
    capitalizeBeginningSentence := false }

/-- **When the words are replaced.** In a message that the settings are for, the words are
replaced, and nothing else is changed, exactly if its text is uniform. -/
theorem intercept_iff (m_prefs : AutoReplaceConfig) (key value : Text) (msg : Message) :
    (Active m_prefs msg → slotInterceptMessage classes (oneEntry m_prefs key value) msg =
      some { msg with plainBody := replaceWords classes key value true 0 msg.plainBody }) ↔
    (Active m_prefs msg → Uniform classes key value msg.plainBody) := by
  refine forall_congr' fun hActive => ?_
  have hEntry : slotInterceptMessage classes (oneEntry m_prefs key value) msg =
      some { msg with
        plainBody := (replaceEntry classes key value msg.plainBody).getD msg.plainBody } := by
    have hOne : Active (oneEntry m_prefs key value) msg := hActive
    rw [slotInterceptMessage, if_pos hOne]
    cases hReplaced : replaceEntry classes key value msg.plainBody <;>
      simp [oneEntry, replaceEntries, hReplaced]
  rw [hEntry, ← replaceEntry_iff]
  simp

theorem not_ascii_of_delimiter {c : UInt16} (h : isDelimiter c = true) :
    ¬ (48 ≤ c ∧ c ≤ 57) ∧ ¬ (65 ≤ c ∧ c ≤ 90) ∧ c ≠ 95 ∧ ¬ (97 ≤ c ∧ c ≤ 122) := by
  simp only [isDelimiter, isSpace, Bool.or_eq_true, decide_eq_true_eq, beq_iff_eq,
    UInt16.le_iff_toNat_le, ← UInt16.toNat_inj, UInt16.reduceToNat] at h
  simp only [UInt16.le_iff_toNat_le, ne_eq, ← UInt16.toNat_inj, UInt16.reduceToNat]
  omega

/-- Words in ASCII. -/
def asciiClasses : CharClasses where
  isWord c := (48 ≤ c ∧ c ≤ 57) ∨ (65 ≤ c ∧ c ≤ 90) ∨ c = 95 ∨ (97 ≤ c ∧ c ≤ 122)
  digitValue c := if 48 ≤ c ∧ c ≤ 57 then some (c.toNat - 48) else none
  toUpper c := if 97 ≤ c ∧ c ≤ 122 then c - 32 else c
  isWord_delimiter c h := by
    obtain ⟨hDigit, hUpper, hUnderscore, hLower⟩ := not_ascii_of_delimiter h
    exact decide_eq_false (by tauto)
  digitValue_delimiter c h := if_neg (not_ascii_of_delimiter h).1

/-- Outgoing messages only. -/
def outgoing : AutoReplaceConfig := ⟨[], false, true, false, false⟩

/-- "r r" with "are" for "r" loses the blank, and with `\\2` for it "r" stays as it is. -/
theorem intercept_not_uniform :
    slotInterceptMessage asciiClasses (oneEntry outgoing (Html.latin1 "r") (Html.latin1 "are"))
        ⟨.outbound, Html.latin1 "r r"⟩ = some ⟨.outbound, Html.latin1 "areare"⟩ ∧
      replaceWords asciiClasses (Html.latin1 "r") (Html.latin1 "are") true 0
        (Html.latin1 "r r") ≠ Html.latin1 "areare" ∧
      slotInterceptMessage asciiClasses (oneEntry outgoing (Html.latin1 "r") (Html.latin1 "\\2"))
        ⟨.outbound, Html.latin1 "r"⟩ = some ⟨.outbound, Html.latin1 "r"⟩ ∧
      replaceWords asciiClasses (Html.latin1 "r") (Html.latin1 "\\2") true 0 (Html.latin1 "r") ≠
        Html.latin1 "r" := by
  decide

end AutoReplacePlugin
