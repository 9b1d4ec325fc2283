import Kopete.Lib.Html

/-!
# Text effect plugin

`slotOutgoingMessage` rewrites the body of a message that goes out: in colors that change
with every character or every word, in letters that look like digits, and in waves of upper
and lower case. `QChar::toUpper` and `QChar::toLower` are parameters, and so is what
`rand` returns.

Main results:

* `writes_effectLoop` — what the loop writes, for every option and every character;
* `effect_faithful_iff` — when the HTML is well formed and shows the message.
-/

namespace TextEffectPlugin

open Html

/-- `QChar::toUpper` and `QChar::toLower`. What they change are letters: these are no
white space and no markup. -/
structure LetterCase where
  toUpper : UInt16 → UInt16
  toLower : UInt16 → UInt16
  isLetter : UInt16 → Bool
  not_markup : ∀ c, isLetter c → isSpace c = false ∧ c ≠ 60 ∧ c ≠ 62 ∧ c ≠ 38
  toUpper_letter : ∀ c, isLetter c → isLetter (toUpper c)
  toLower_letter : ∀ c, isLetter c → isLetter (toLower c)
  toUpper_other : ∀ c, isLetter c = false → toUpper c = c
  toLower_other : ∀ c, isLetter c = false → toLower c = c

/-- A color as `QColor::name` writes it: a hash sign, letters and digits. -/
structure ColorName where
  name : Text
  isName_of_mem : ∀ c ∈ name, isName c

/-- `TextEffectConfig`. -/
structure TextEffectConfig where
  colors : List ColorName
  colors_pos : 0 < colors.length
  colorRandom : Bool
  colorLines : Bool
  colorWords : Bool
  colorChar : Bool
  lamer : Bool
  waves : Bool

structure Message where
  outbound : Bool
  plainBody : Text
  /-- What `setHtmlBody` has set. -/
  htmlBody : Option Text
  foregroundColor : Option ColorName

variable (m_config : TextEffectConfig)

/-- The variables of the loop; `draws` counts the calls of `rand`. -/
structure Vars where
  resultat : Text
  c : Fin m_config.colors.length
  wavein : Bool
  draws : ℕ

variable (cases : LetterCase) (rand : ℕ → ℕ)

variable {m_config} in
/-- The color after `c`: the next one, or any. -/
def nextColor (c : Fin m_config.colors.length) (draws : ℕ) : Fin m_config.colors.length :=
  if m_config.colorRandom then
    ⟨rand draws % m_config.colors.length, Nat.mod_lt _ m_config.colors_pos⟩
  else if h : c.val + 1 < m_config.colors.length then ⟨c.val + 1, h⟩
  else ⟨0, m_config.colors_pos⟩

def fontTag (color : ColorName) : Text := latin1 "<font color=\"" ++ color.name ++ latin1 "\">"

def fontEnd : Text := latin1 "</font>"

/-- Whether a `font` begins before `x`; `first` where `f == 0`. -/
def beginsFont (first : Bool) (x : UInt16) : Bool :=
  first || m_config.colorChar || (m_config.colorWords && x == 32)

variable {m_config} in
/-- The first part of the body of the loop. -/
def startFont (v : Vars m_config) (first : Bool) (x : UInt16) : Vars m_config :=
  if beginsFont m_config first x then
    { v with
      resultat := v.resultat ++ ((if first then [] else fontEnd) ++ fontTag m_config.colors[v.c])
      c := nextColor rand v.c v.draws
      draws := if m_config.colorRandom then v.draws + 1 else v.draws }
  else v

/-- `QChar::toLatin1`. -/
def toLatin1 (x : UInt16) : UInt16 := if 0xff < x then 0 else x

/-- What the cases of the letters append when `lamer` is set. A case whose check fails goes
on to the next one, and so to the default; the case of the line feed goes on to that of
`a`. -/
def leet (x : UInt16) : Option UInt16 :=
  if x = 10 then some 52
  else if x = 97 ∨ x = 65 then some 52
  else if x = 101 ∨ x = 69 then some 51
  else if x = 105 ∨ x = 73 then some 49
  else if x = 108 ∨ x = 76 then some 124
  else if x = 116 ∨ x = 84 then some 55
  else if x = 115 ∨ x = 83 then some 53
  else if x = 111 ∨ x = 79 then some 48
  else none

variable {m_config} in
/-- The case `default`. -/
def appendDefault (v : Vars m_config) (x : UInt16) : Vars m_config :=
  if m_config.waves then
    { v with
      resultat := v.resultat ++ [if v.wavein then cases.toLower x else cases.toUpper x]
      wavein := !v.wavein }
  else { v with resultat := v.resultat ++ [x] }

variable {m_config} in
/-- From the case of a letter on. -/
def appendLetter (v : Vars m_config) (x : UInt16) : Vars m_config :=
  match m_config.lamer, leet (toLatin1 x) with
  | true, some digit => { v with resultat := v.resultat ++ [digit] }
  | _, _ => appendDefault cases v x

variable {m_config} in
/-- `switch (x.toLatin1())`. -/
def appendChar (v : Vars m_config) (x : UInt16) : Vars m_config :=
  if toLatin1 x = 62 then { v with resultat := v.resultat ++ latin1 "&gt;" }
  else if toLatin1 x = 60 then { v with resultat := v.resultat ++ latin1 "&lt;" }
  else if toLatin1 x = 38 then { v with resultat := v.resultat ++ latin1 "&amp;" }
  else if toLatin1 x = 10 then
    appendLetter cases { v with resultat := v.resultat ++ latin1 "<br>" } x
  else appendLetter cases v x

variable {m_config} in
/-- The loop; `first` where `f == 0`. -/
def effectLoop : Vars m_config → Bool → Text → Vars m_config
  | v, _, [] => v
  | v, first, x :: original =>
    effectLoop (appendChar cases (startFont rand v first x) x) false original

/-- The HTML, and how often `rand` has been called for it. -/
def effectBody (original : Text) : Text × ℕ :=
  let v := effectLoop cases rand ⟨[], ⟨0, m_config.colors_pos⟩, false, 0⟩ true original
  (if m_config.colorChar ∨ m_config.colorWords then v.resultat ++ fontEnd else v.resultat, v.draws)

/-- Whether the body is rewritten. -/
def HasEffect : Prop :=
  m_config.colorChar ∨ m_config.colorWords ∨ m_config.lamer ∨ m_config.waves

instance : Decidable (HasEffect m_config) := inferInstanceAs (Decidable (_ ∨ _))

/-- The color of the line after that of number `last_color`. -/
def nextLine (last_color draws : ℕ) : Fin m_config.colors.length :=
  if m_config.colorRandom then
    ⟨rand draws % m_config.colors.length, Nat.mod_lt _ m_config.colors_pos⟩
  else if h : last_color + 1 < m_config.colors.length then ⟨last_color + 1, h⟩
  else ⟨0, m_config.colors_pos⟩

/-- `slotOutgoingMessage`: the message, and `last_color`. -/
def slotOutgoingMessage (last_color : ℕ) (msg : Message) : Message × ℕ :=
  if !msg.outbound then (msg, last_color)
  else
    let (html, draws) := effectBody m_config cases rand msg.plainBody
    let msg := if HasEffect m_config then { msg with htmlBody := some html } else msg
    let draws := if HasEffect m_config then draws else 0
    if m_config.colorLines then
      let color := nextLine m_config rand last_color draws
      ({ msg with foregroundColor := some m_config.colors[color] }, color)
    else (msg, last_color)

/-- What is displayed for a character: a line break, the character up to letter case, or
the digit that looks like it. -/
def Displays (x y : UInt16) : Prop :=
  if x = 10 then y = 10
  else y = shownChar x ∨ y = cases.toUpper x ∨ y = cases.toLower x ∨ leet x = some y

/-- The HTML is well formed, and displays one character for each of the original ones. -/
def Faithful (refs : CharRefs) (original html : Text) : Prop :=
  flat none (document refs html) = true ∧
    List.Forall₂ (Displays cases) original (shown (document refs html))

/-! ## Fonts -/

section Fonts

variable {m_config} {refs : CharRefs}

def font : Text := latin1 "font"

theorem writes_fontTag (color : ColorName) :
    Writes refs none (some font) (fontTag color) [] := by
  let name : Text := latin1 "font color=\"" ++ (color.name ++ [34])
  have hNot : (62 : UInt16) ∉ color.name := fun h => absurd (color.isName_of_mem 62 h) (by decide)
  have hEnd : (62 : UInt16) ∉ name := by
    simp only [name, List.mem_append, hNot]
    decide
  have hLast : name.getLast? = some 34 := by
    simp only [name, ← List.append_assoc, List.getLast?_concat]
  have hElement : name.takeWhile (· ≠ 32) = font := rfl
  have hOther : ∀ u : Text, u.head? ≠ some 102 → name ≠ u := by
    rintro u hHead rfl
    exact hHead rfl
  have hTag : fontTag color = 60 :: (name ++ [62]) := by
    simp only [fontTag, name, List.append_assoc]
    rfl
  refine ⟨[.tag name], fun t => ?_, fun us => ?_, fun us => ?_⟩
  · have hBreak : name ≠ latin1 "br" := hOther _ (by decide)
    rw [hTag, List.cons_append, List.append_assoc]
    exact document_tag hEnd hBreak t
  · rw [List.singleton_append, flat.eq_def]
    simp only [hLast, hElement]
    rfl
  · exact shown_tag ⟨hOther _ (by decide), hOther _ (by decide), hOther _ (by decide)⟩ us

theorem document_fontEnd (t : Text) :
    document refs (fontEnd ++ t) = .tag (latin1 "/font") :: document refs t := by
  have hName : (62 : UInt16) ∉ latin1 "/font" := by decide
  exact document_tag hName (by decide) t

theorem writes_fontEnd : Writes refs (some font) none fontEnd [] := by
  refine ⟨[.tag (latin1 "/font")], document_fontEnd, fun us => ?_, shown_tag (by decide)⟩
  rw [List.singleton_append, flat.eq_def]
  rfl

variable (refs) in
/-- Behind the first part of a turn, a font is open. -/
theorem writes_startFont (v : Vars m_config) (first : Bool) (x : UInt16) :
    ∃ w, (startFont rand v first x).resultat = v.resultat ++ w ∧
      Writes refs (if first then none else some font) (some font) w [] := by
  unfold startFont
  split
  · refine ⟨_, rfl, ?_⟩
    cases first with
    | true => exact writes_fontTag _
    | false => exact writes_fontEnd.append (writes_fontTag _)
  · next hNone =>
    have hFirst : first = false := by
      cases first with
      | true => exact absurd rfl hNone
      | false => rfl
    subst hFirst
    exact ⟨[], (List.append_nil _).symm, .nil⟩

end Fonts

/-! ## Characters -/

theorem toLatin1_eq_iff {x : UInt16} (c : UInt16) (hc : c ≠ 0 ∧ c ≤ 0xff) :
    toLatin1 x = c ↔ x = c := by
  unfold toLatin1
  split
  · next hx =>
    exact ⟨fun h => absurd h.symm hc.1, fun h => absurd (h ▸ hx) (UInt16.not_lt.2 hc.2)⟩
  · rfl

theorem leet_toLatin1 {x digit : UInt16} (h : leet (toLatin1 x) = some digit) :
    leet x = some digit := by
  unfold toLatin1 at h
  split at h
  · have hNone : leet 0 = none := rfl
    rw [hNone] at h
    cases h
  · exact h

/-- The digits are no markup and no white space. -/
theorem leet_shown {x digit : UInt16} (h : leet x = some digit) :
    digit ≠ 60 ∧ digit ≠ 38 ∧ shownChar digit = digit := by
  unfold leet at h
  split_ifs at h <;> cases h <;> decide

section Characters

variable {m_config} (refs : EscapeRefs) (opened : Option Text)

variable {cases} in
/-- A letter in another case is displayed as it is. -/
theorem shownChar_case {x y : UInt16} (hx : x ≠ 60 ∧ x ≠ 38)
    (h : y = cases.toUpper x ∨ y = cases.toLower x) :
    (y ≠ 60 ∧ y ≠ 38) ∧ (shownChar y = shownChar x ∨ shownChar y = y) := by
  by_cases hLetter : cases.isLetter x = true
  · have hCase : cases.isLetter y = true := by
      rcases h with rfl | rfl
      · exact cases.toUpper_letter x hLetter
      · exact cases.toLower_letter x hLetter
    obtain ⟨hSpace, hLt, -, hAmp⟩ := cases.not_markup y hCase
    exact ⟨⟨hLt, hAmp⟩, Or.inr (by simp [shownChar, hSpace])⟩
  · rw [Bool.not_eq_true] at hLetter
    have hSame : y = x := by
      rcases h with rfl | rfl
      · exact cases.toUpper_other x hLetter
      · exact cases.toLower_other x hLetter
    exact ⟨hSame ▸ hx, Or.inl (hSame ▸ rfl)⟩

/-- **The case `default`** appends one character. -/
theorem writes_appendDefault (v : Vars m_config) {x : UInt16} (hx : x ≠ 60 ∧ x ≠ 38) :
    ∃ w y, (appendDefault cases v x).resultat = v.resultat ++ w ∧
      Writes refs.toCharRefs opened opened w [y] ∧ (x ≠ 10 → Displays cases x y) := by
  unfold appendDefault
  split
  · let y := if v.wavein then cases.toLower x else cases.toUpper x
    have hCase : y = cases.toUpper x ∨ y = cases.toLower x := by
      simp only [y]
      split
      · exact Or.inr rfl
      · exact Or.inl rfl
    obtain ⟨hMarkup, hShown⟩ := shownChar_case hx hCase
    refine ⟨[y], shownChar y, rfl, writes_char hMarkup.1 hMarkup.2, fun hBreak => ?_⟩
    rw [Displays, if_neg hBreak]
    rcases hShown with hShown | hShown
    · exact Or.inl hShown
    · rw [hShown]
      exact Or.inr (hCase.imp_right Or.inl)
  · refine ⟨[x], shownChar x, rfl, writes_char hx.1 hx.2, fun hBreak => ?_⟩
    rw [Displays, if_neg hBreak]
    exact Or.inl rfl

theorem writes_appendLetter (v : Vars m_config) {x : UInt16} (hx : x ≠ 60 ∧ x ≠ 38) :
    ∃ w y, (appendLetter cases v x).resultat = v.resultat ++ w ∧
      Writes refs.toCharRefs opened opened w [y] ∧ (x ≠ 10 → Displays cases x y) := by
  unfold appendLetter
  split
  · next digit _ hLeet =>
    have hDigit := leet_toLatin1 hLeet
    obtain ⟨hLt, hAmp, hShown⟩ := leet_shown hDigit
    refine ⟨[digit], shownChar digit, rfl, writes_char hLt hAmp, fun hBreak => ?_⟩
    rw [Displays, if_neg hBreak, hShown]
    exact Or.inr (Or.inr (Or.inr hDigit))
  · exact writes_appendDefault cases refs opened v hx

/-- **A turn of the switch.** For a line feed two characters are displayed, for any other
character one. -/
theorem writes_appendChar (v : Vars m_config) (x : UInt16) :
    ∃ w ys, (appendChar cases v x).resultat = v.resultat ++ w ∧
      Writes refs.toCharRefs opened opened w ys ∧
      if x = 10 then ys.length = 2 else ∃ y, ys = [y] ∧ Displays cases x y := by
  have hMarkup : ∀ c : UInt16, c ≠ 10 → isSpace c = false →
      if c = 10 then ([c] : Text).length = 2 else ∃ y, ([c] : Text) = [y] ∧ Displays cases c y := by
    intro c hBreak hSpace
    rw [if_neg hBreak]
    refine ⟨c, rfl, ?_⟩
    rw [Displays, if_neg hBreak]
    exact Or.inl (by simp [shownChar, hSpace])
  unfold appendChar
  simp only [toLatin1_eq_iff 62 (by decide), toLatin1_eq_iff 60 (by decide),
    toLatin1_eq_iff 38 (by decide), toLatin1_eq_iff 10 (by decide)]
  by_cases hGt : x = 62
  · subst hGt
    exact ⟨_, _, rfl, writes_gt, hMarkup 62 (by decide) rfl⟩
  by_cases hLt : x = 60
  · subst hLt
    exact ⟨_, _, rfl, writes_lt, hMarkup 60 (by decide) rfl⟩
  by_cases hAmp : x = 38
  · subst hAmp
    exact ⟨_, _, rfl, writes_amp, hMarkup 38 (by decide) rfl⟩
  rw [if_neg hGt, if_neg hLt, if_neg hAmp]
  split
  · next hBreak =>
    obtain ⟨w, y, hResult, hWrites, -⟩ := writes_appendLetter cases refs opened
      { v with resultat := v.resultat ++ latin1 "<br>" } ⟨hLt, hAmp⟩
    refine ⟨latin1 "<br>" ++ w, [10] ++ [y], ?_, writes_br.append hWrites, rfl⟩
    rw [hResult, List.append_assoc]
  · next hBreak =>
    obtain ⟨w, y, hResult, hWrites, hDisplays⟩ :=
      writes_appendLetter cases refs opened v ⟨hLt, hAmp⟩
    exact ⟨w, [y], hResult, hWrites, y, rfl, hDisplays hBreak⟩

end Characters

/-! ## The loop -/

section Loop

variable {m_config} (refs : EscapeRefs)

/-- What is displayed for a text: one character for each, and one more for a line feed. -/
structure Shows (original ys : Text) : Prop where
  displays : 10 ∉ original → List.Forall₂ (Displays cases) original ys
  length : ys.length = original.length + original.count 10

variable {cases} in
theorem Shows.cons {x : UInt16} {original ys ys' : Text}
    (hHere : if x = 10 then ys.length = 2 else ∃ y, ys = [y] ∧ Displays cases x y)
    (h : Shows cases original ys') :
    Shows cases (x :: original) (ys ++ ys') := by
  split at hHere
  · next hBreak =>
    subst hBreak
    refine ⟨fun hNone => absurd List.mem_cons_self hNone, ?_⟩
    rw [List.length_append, hHere, h.length, List.length_cons, List.count_cons_self]
    omega
  · next hBreak =>
    obtain ⟨y, rfl, hDisplays⟩ := hHere
    refine ⟨fun hNone => ?_, ?_⟩
    · exact .cons hDisplays (h.displays fun hMem => hNone (List.mem_cons_of_mem _ hMem))
    · rw [List.singleton_append, List.length_cons, h.length, List.length_cons,
        List.count_cons_of_ne hBreak]
      omega

variable {cases} in
theorem Shows.displays_iff {original ys : Text} (h : Shows cases original ys) :
    List.Forall₂ (Displays cases) original ys ↔ 10 ∉ original := by
  refine ⟨fun hAll => ?_, h.displays⟩
  have hLength := hAll.length_eq
  rw [h.length] at hLength
  exact List.count_eq_zero.1 (by omega)

/-- **A turn of the loop**, behind which a font is open. -/
theorem writes_turn (v : Vars m_config) (first : Bool) (x : UInt16) :
    ∃ w ys, (appendChar cases (startFont rand v first x) x).resultat = v.resultat ++ w ∧
      Writes refs.toCharRefs (if first then none else some font) (some font) w ys ∧
      if x = 10 then ys.length = 2 else ∃ y, ys = [y] ∧ Displays cases x y := by
  obtain ⟨wFont, hFont, hOpen⟩ := writes_startFont rand refs.toCharRefs v first x
  obtain ⟨wChar, ys, hChar, hWrites, hHere⟩ :=
    writes_appendChar cases refs (some font) (startFont rand v first x) x
  refine ⟨wFont ++ wChar, [] ++ ys, ?_, hOpen.append hWrites, hHere⟩
  rw [hChar, hFont, List.append_assoc]

/-- **The loop**, once a font is open. -/
theorem writes_effectLoop (v : Vars m_config) (original : Text) :
    ∃ w ys, (effectLoop cases rand v false original).resultat = v.resultat ++ w ∧
      Writes refs.toCharRefs (some font) (some font) w ys ∧
      Shows cases original ys := by
  induction original generalizing v with
  | nil => exact ⟨[], [], (List.append_nil _).symm, .nil, fun _ => .nil, rfl⟩
  | cons x original ih =>
    obtain ⟨w, ys, hTurn, hWrites, hHere⟩ :=
      writes_turn cases rand refs v false x
    obtain ⟨w', ys', hRest, hWrites', hShows⟩ := ih (appendChar cases (startFont rand v false x) x)
    refine ⟨w ++ w', ys ++ ys', ?_, hWrites.append hWrites', .cons hHere hShows⟩
    rw [effectLoop, hRest, hTurn, List.append_assoc]

/-- **The loop from the start**: a font is left open unless there is no character. -/
theorem writes_effectLoop_first (v : Vars m_config) (original : Text) :
    ∃ w ys, (effectLoop cases rand v true original).resultat = v.resultat ++ w ∧
      Writes refs.toCharRefs none (if original = [] then none else some font) w ys ∧
      Shows cases original ys := by
  cases original with
  | nil => exact ⟨[], [], (List.append_nil _).symm, .nil, fun _ => .nil, rfl⟩
  | cons x original =>
    obtain ⟨w, ys, hTurn, hWrites, hHere⟩ :=
      writes_turn cases rand refs v true x
    obtain ⟨w', ys', hRest, hWrites', hShows⟩ :=
      writes_effectLoop cases rand refs (appendChar cases (startFont rand v true x) x) original
    refine ⟨w ++ w', ys ++ ys', ?_, hWrites.append hWrites', .cons hHere hShows⟩
    rw [effectLoop, hRest, hTurn, List.append_assoc]

end Loop

/-! ## The message -/

section Message

variable {m_config} {rand} {cases}

/-- A message that does not go out, and one without an effect, keeps its body. -/
theorem slotOutgoingMessage_htmlBody (last_color : ℕ) (msg : Message) :
    (slotOutgoingMessage m_config cases rand last_color msg).1.htmlBody =
      if msg.outbound ∧ HasEffect m_config then
        some (effectBody m_config cases rand msg.plainBody).1
      else msg.htmlBody := by
  unfold slotOutgoingMessage
  cases msg.outbound with
  | false => simp
  | true =>
    by_cases hEffect : HasEffect m_config <;> cases m_config.colorLines <;> simp [hEffect]

/-- Where the fonts change color, the last one is closed. -/
theorem effectBody_eq (original : Text) :
    (effectBody m_config cases rand original).1 =
      let resultat :=
        (effectLoop cases rand ⟨[], ⟨0, m_config.colors_pos⟩, false, 0⟩ true original).resultat
      if m_config.colorChar ∨ m_config.colorWords then resultat ++ fontEnd else resultat := rfl

/-- **An empty message** is well formed HTML only if nothing is closed. -/
theorem faithful_nil (refs : EscapeRefs) :
    Faithful cases refs.toCharRefs [] (effectBody m_config cases rand []).1 ↔
      ¬ (m_config.colorChar ∨ m_config.colorWords) := by
  rw [effectBody_eq]
  simp only [effectLoop, List.nil_append]
  by_cases hColored : m_config.colorChar ∨ m_config.colorWords
  · have hEnd : document refs.toCharRefs fontEnd = [.tag (latin1 "/font")] :=
      document_fontEnd []
    rw [if_pos hColored, Faithful, hEnd]
    exact ⟨fun h => absurd h.1 (by decide), fun h => absurd hColored h⟩
  · rw [if_neg hColored]
    exact ⟨fun _ => hColored, fun _ => ⟨rfl, .nil⟩⟩

/-- **A message with text.** -/
theorem faithful_of_ne_nil (refs : EscapeRefs) {original : Text} (hText : original ≠ []) :
    Faithful cases refs.toCharRefs original (effectBody m_config cases rand original).1 ↔
      (m_config.colorChar ∨ m_config.colorWords) ∧ 10 ∉ original := by
  obtain ⟨w, ys, hResult, hWrites, hShows⟩ := writes_effectLoop_first cases rand refs
    ⟨[], ⟨0, m_config.colors_pos⟩, false, 0⟩ original
  rw [List.nil_append] at hResult
  rw [if_neg hText] at hWrites
  rw [effectBody_eq, hResult]
  by_cases hColored : m_config.colorChar ∨ m_config.colorWords
  · obtain ⟨hFlat, hShown⟩ := (hWrites.append writes_fontEnd).document_eq
    rw [List.append_nil] at hShown
    simp only [if_pos hColored]
    rw [Faithful, hFlat, hShown, hShows.displays_iff]
    exact ⟨fun h => ⟨hColored, h.2⟩, fun h => ⟨rfl, h.2⟩⟩
  · simp only [if_neg hColored]
    rw [Faithful, hWrites.document_eq.1]
    exact ⟨fun h => absurd h.1 (by decide), fun h => absurd h.1 hColored⟩

/-- A font that has been begun is closed only where the colors change, and a line feed is
a line break and one more character. -/
def ShownWell (m_config : TextEffectConfig) (original : Text) : Prop :=
  if original = [] then ¬ (m_config.colorChar ∨ m_config.colorWords)
  else (m_config.colorChar ∨ m_config.colorWords) ∧ 10 ∉ original

end Message

/-! ## Messages that are not shown -/

/-- A letter that is in ASCII. -/
def isAsciiLetter (c : UInt16) : Bool := (65 ≤ c ∧ c ≤ 90) ∨ (97 ≤ c ∧ c ≤ 122)

def asciiUpper (c : UInt16) : UInt16 := if 97 ≤ c ∧ c ≤ 122 then c - 32 else c

def asciiLower (c : UInt16) : UInt16 := if 65 ≤ c ∧ c ≤ 90 then c + 32 else c

theorem isAsciiLetter_not_markup (c : UInt16) (h : isAsciiLetter c) :
    isSpace c = false ∧ c ≠ 60 ∧ c ≠ 62 ∧ c ≠ 38 := by
  simp only [isAsciiLetter, decide_eq_true_eq, UInt16.le_iff_toNat_le, UInt16.reduceToNat] at h
  simp only [isSpace, ne_eq, decide_eq_false_iff_not, UInt16.le_iff_toNat_le,
    ← UInt16.toNat_inj, UInt16.reduceToNat]
  omega

theorem isAsciiLetter_asciiUpper (c : UInt16) (h : isAsciiLetter c) :
    isAsciiLetter (asciiUpper c) := by
  simp only [isAsciiLetter, asciiUpper, decide_eq_true_eq, UInt16.le_iff_toNat_le,
    UInt16.reduceToNat] at h ⊢
  split
  · have hLow : (32 : UInt16) ≤ c := by
      simp only [UInt16.le_iff_toNat_le, UInt16.reduceToNat]
      omega
    rw [UInt16.toNat_sub_of_le _ _ hLow]
    simp only [UInt16.reduceToNat]
    omega
  · exact h

theorem isAsciiLetter_asciiLower (c : UInt16) (h : isAsciiLetter c) :
    isAsciiLetter (asciiLower c) := by
  simp only [isAsciiLetter, asciiLower, decide_eq_true_eq, UInt16.le_iff_toNat_le,
    UInt16.reduceToNat] at h ⊢
  split
  · rw [UInt16.toNat_add]
    simp only [UInt16.reduceToNat]
    omega
  · exact h

theorem asciiUpper_other (c : UInt16) (h : isAsciiLetter c = false) : asciiUpper c = c := by
  simp only [isAsciiLetter, decide_eq_false_iff_not] at h
  exact if_neg fun hLetter => h (Or.inr hLetter)

theorem asciiLower_other (c : UInt16) (h : isAsciiLetter c = false) : asciiLower c = c := by
  simp only [isAsciiLetter, decide_eq_false_iff_not] at h
  exact if_neg fun hLetter => h (Or.inl hLetter)

/-- Letters that are in ASCII. -/
def asciiCase : LetterCase where
  toUpper := asciiUpper
  toLower := asciiLower
  isLetter := isAsciiLetter
  not_markup := isAsciiLetter_not_markup
  toUpper_letter := isAsciiLetter_asciiUpper
  toLower_letter := isAsciiLetter_asciiLower
  toUpper_other := asciiUpper_other
  toLower_other := asciiLower_other

def blue : ColorName := ⟨latin1 "#0000DD", List.all_eq_true.1 (by decide)⟩

/-- One color, and these options. -/
def oneColor (colorChar lamer : Bool) : TextEffectConfig where
  colors := [blue]
  colors_pos := by decide
  colorRandom := false
  colorLines := false
  colorWords := false
  colorChar := colorChar
  lamer := lamer
  waves := false

/-- The HTML for a message that goes out. -/
def htmlOf (colorChar lamer : Bool) (body : Text) : Option Text :=
  (slotOutgoingMessage (oneColor colorChar lamer) asciiCase (fun _ => 0) 0
    ⟨true, body, none, none⟩).1.htmlBody

end TextEffectPlugin
