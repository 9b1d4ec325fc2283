import Kopete.History.HistoryLogger
import Kopete.Lib.Replace

/-!
# libkopete — plain text as HTML and back

`escape` makes entities of what has a meaning in HTML, a tag of a line feed, four entities
of a tab, and an entity and a space of two spaces. `unescape` makes one space of all white
space that is adjacent, takes the tags out one after the other, and replaces the entities.

What QChar calls lower case is a parameter.

Main results:

* `tagLoop_terminates` — the loop over the tags ends on every text;
* `escape_text` — what is made of a text;
* `unescape_escape` — what comes back;
* `unescape_escape_iff` — for which texts that is the text itself.
-/

namespace Kopete

namespace Escape

open Html (Text latin1 isSpace)
open Replace (replaceAll)

/-! ## `Message::escape` -/

/-- `replace(QRegExp("\\s\\s"), "&nbsp; ")`. -/
def replacePairs : Text → Text
  | a :: b :: s =>
    if isSpace a ∧ isSpace b then latin1 "&nbsp; " ++ replacePairs s else a :: replacePairs (b :: s)
  | s => s

/-- `Message::escape`. -/
def escape (text : Text) : Text :=
  let html := History.toHtmlEscaped text
  let html := html.flatMap fun c => if c = 10 then latin1 "<br />" else [c]
  let html := html.flatMap fun c => if c = 9 then latin1 "&nbsp;&nbsp;&nbsp;&nbsp;" else [c]
  replacePairs html

/-! ## `Message::unescape` -/

/-- White space is one space, put where something follows; `owed` if there has been some. -/
def squeeze : Bool → Text → Text
  | _, [] => []
  | owed, c :: s =>
    if isSpace c then squeeze true s
    else (if owed then [32] else []) ++ c :: squeeze false s

/-- `QString::simplified`. -/
def simplified (s : Text) : Text := squeeze false (s.dropWhile isSpace)

/-- What is before the first `c`, and behind it: `indexOf`, for one character. -/
def cut (c : UInt16) : Text → Option (Text × Text)
  | [] => none
  | d :: s => if d = c then some ([], s) else (cut c s).map fun r => (d :: r.1, r.2)

/-- What is behind the first occurrence of `pat`: `indexOf`, for a text. -/
def behind (pat : Text) : Text → Option Text
  | [] => none
  | c :: s => if pat.isPrefixOf (c :: s) then some ((c :: s).drop pat.length) else behind pat s

section Unescape

variable (toLower : Text → Text)

/-- What a tag is replaced by; `inside` is what stands between the angle brackets. -/
def tagText (inside : Text) : Text :=
  let tag := simplified inside
  let elem := toLower (tag.takeWhile (· ≠ 32))
  if elem = latin1 "img" then
    -- a smiley has its text as its title
    match behind (latin1 "title=\"") (tag.dropWhile (· ≠ 32)) with
    | none => []
    | some title => ((cut 34 title).map Prod.fst).getD []
  else if elem = latin1 "/p" ∨ elem = latin1 "/div" ∨ elem = latin1 "br" then [10]
  else []

/-- One turn of the loop over the tags; `none` where it is left. -/
def tagStep (data : Text) : Option Text := do
  let (before, rest) ← cut 60 data
  let (inside, after) ← cut 62 rest
  return before ++ tagText toLower inside ++ after

def tagLoop : ℕ → Text → Option Text
  | 0, _ => none
  | fuel + 1, data =>
    match tagStep toLower data with
    | none => some data
    | some data => tagLoop fuel data

/-- The replacements of entities, in their order. -/
def replaceEntities (data : Text) : Text :=
  let data := replaceAll (latin1 "&nbsp;&nbsp;&nbsp;&nbsp;") [9] data
  let data := replaceAll (latin1 "&gt;") [62] data
  let data := replaceAll (latin1 "&lt;") [60] data
  let data := replaceAll (latin1 "&quot;") [34] data
  let data := replaceAll (latin1 "&nbsp;") [32] data
  let data := replaceAll (latin1 "&amp;") [38] data
  replaceAll (latin1 "&#160;") [32] data

/-- `Message::unescape`; `none` if the loop has not ended with this fuel. -/
def unescape (fuel : ℕ) (xml : Text) : Option Text :=
  (tagLoop toLower fuel (simplified xml)).map replaceEntities

/-! ## The loop ends -/

theorem length_squeeze_le (owed : Bool) (s : Text) :
    (squeeze owed s).length ≤ s.length + (if owed then 1 else 0) := by
  induction s generalizing owed with
  | nil => exact Nat.zero_le _
  | cons c s ih =>
    unfold squeeze
    split
    · have hRest := ih true
      rw [if_pos rfl] at hRest
      rw [List.length_cons]
      omega
    · have hRest := ih false
      rw [if_neg Bool.false_ne_true] at hRest
      rw [List.length_append, List.length_cons, List.length_cons]
      cases owed <;> simp <;> omega

theorem length_simplified_le (s : Text) : (simplified s).length ≤ s.length := by
  have hSqueeze := length_squeeze_le false (s.dropWhile isSpace)
  rw [if_neg Bool.false_ne_true] at hSqueeze
  exact hSqueeze.trans (List.dropWhile_suffix _).length_le

theorem eq_of_cut {c : UInt16} {s before after : Text} (h : cut c s = some (before, after)) :
    s = before ++ c :: after := by
  induction s generalizing before after with
  | nil => cases h
  | cons d s ih =>
    unfold cut at h
    split at h
    · next hSame =>
      cases h
      rw [hSame]
      rfl
    · obtain ⟨⟨before', after'⟩, hRest, hPair⟩ := Option.map_eq_some_iff.1 h
      cases hPair
      rw [ih hRest]
      rfl

theorem cut_append {c : UInt16} {before : Text} (h : c ∉ before) (after : Text) :
    cut c (before ++ c :: after) = some (before, after) := by
  induction before with
  | nil => exact if_pos rfl
  | cons d before ih =>
    obtain ⟨hNe, hRest⟩ := not_or.1 (mt List.mem_cons.2 h)
    rw [List.cons_append, cut, if_neg (Ne.symm hNe), ih hRest]
    rfl

theorem cut_eq_none {c : UInt16} {s : Text} (h : c ∉ s) : cut c s = none := by
  cases hCut : cut c s with
  | none => rfl
  | some r =>
    rw [eq_of_cut hCut] at h
    exact absurd (List.mem_append_right _ List.mem_cons_self) h

theorem length_behind {pat s t : Text} (h : behind pat s = some t) : t.length ≤ s.length := by
  induction s with
  | nil => cases h
  | cons c s ih =>
    unfold behind at h
    split at h
    · cases h
      rw [List.length_drop]
      exact Nat.sub_le _ _
    · exact (ih h).trans (Nat.le_succ _)

/-- What replaces a tag is shorter. -/
theorem length_tagText_lt (inside : Text) :
    (tagText toLower inside).length < inside.length + 2 := by
  unfold tagText
  simp only
  split
  · split
    · exact Nat.succ_pos _
    · next title hTitle =>
      have hBehind := length_behind hTitle
      have hDrop := (List.dropWhile_suffix (l := simplified inside) (· ≠ (32 : UInt16))).length_le
      have hTag := length_simplified_le inside
      cases hCut : cut 34 title with
      | none => exact Nat.succ_pos _
      | some r =>
        obtain ⟨orig, after⟩ := r
        have hOrig := congrArg List.length (eq_of_cut hCut)
        rw [List.length_append, List.length_cons] at hOrig
        simp only [Option.map_some, Option.getD_some]
        omega
  · split <;> simp

theorem length_tagStep_lt {data data' : Text} (h : tagStep toLower data = some data') :
    data'.length < data.length := by
  unfold tagStep at h
  simp only [Option.bind_eq_bind, Option.bind_eq_some_iff] at h
  obtain ⟨⟨before, rest⟩, hFirst, ⟨inside, after⟩, hSecond, hData⟩ := h
  cases hData
  have hBefore := congrArg List.length (eq_of_cut hFirst)
  have hInside := congrArg List.length (eq_of_cut hSecond)
  have hText := length_tagText_lt toLower inside
  simp only [List.length_append, List.length_cons] at hBefore hInside ⊢
  omega

/-- **The loop ends** on every text. -/
theorem tagLoop_terminates (data : Text) :
    ∃ result, ∀ fuel, data.length < fuel → tagLoop toLower fuel data = some result := by
  induction hLength : data.length using Nat.strong_induction_on generalizing data with
  | h n ih =>
    cases hStep : tagStep toLower data with
    | none =>
      refine ⟨data, fun fuel hFuel => ?_⟩
      obtain ⟨fuel, rfl⟩ := Nat.exists_eq_succ_of_ne_zero (Nat.ne_zero_of_lt hFuel)
      rw [tagLoop, hStep]
    | some data' =>
      have hLess := length_tagStep_lt toLower hStep
      obtain ⟨result, hResult⟩ := ih data'.length (hLength ▸ hLess) data' rfl
      refine ⟨result, fun fuel hFuel => ?_⟩
      obtain ⟨fuel, rfl⟩ := Nat.exists_eq_succ_of_ne_zero (Nat.ne_zero_of_lt hFuel)
      rw [tagLoop, hStep]
      exact hResult fuel (by omega)

theorem unescape_terminates (xml : Text) :
    ∃ result, ∀ fuel, xml.length < fuel → unescape toLower fuel xml = some result := by
  obtain ⟨result, hResult⟩ := tagLoop_terminates toLower (simplified xml)
  refine ⟨replaceEntities result, fun fuel hFuel => ?_⟩
  rw [unescape, hResult fuel ((length_simplified_le xml).trans_lt hFuel)]
  rfl

end Unescape

/-! ## Runs of spaces -/

/-- The characters other than spaces, each with how many spaces stand before it. -/
def runs : ℕ → Text → List (ℕ × UInt16)
  | _, [] => []
  | n, c :: s => if c = 32 then runs (n + 1) s else (n, c) :: runs 0 s

/-- The text with these. -/
def textOf (rs : List (ℕ × UInt16)) : Text := rs.flatMap fun r => List.replicate r.1 32 ++ [r.2]

theorem textOf_runs {n : ℕ} {s : Text} (hLast : s.getLast? ≠ some 32) (hEmpty : s = [] → n = 0) :
    textOf (runs n s) = List.replicate n 32 ++ s := by
  induction s generalizing n with
  | nil =>
    rw [hEmpty rfl]
    rfl
  | cons c s ih =>
    have hRest : s.getLast? ≠ some 32 := by
      intro hSpace
      refine hLast ?_
      rw [List.getLast?_cons, hSpace]
      rfl
    unfold runs
    split
    · next hc =>
      have hSome : s = [] → n + 1 = 0 := by
        rintro rfl
        exact absurd (by rw [hc]; rfl) hLast
      rw [ih hRest hSome, List.replicate_succ', hc, List.append_assoc]
      rfl
    · rw [textOf, List.flatMap_cons, List.append_assoc]
      exact congrArg (fun t => List.replicate n 32 ++ c :: t) (ih hRest fun _ => rfl)

theorem mem_runs {n : ℕ} {s : Text} {r : ℕ × UInt16} (h : r ∈ runs n s) : r.2 ∈ s ∧ r.2 ≠ 32 := by
  induction s generalizing n with
  | nil => cases h
  | cons c s ih =>
    unfold runs at h
    split at h
    · exact ⟨List.mem_cons_of_mem c (ih h).1, (ih h).2⟩
    · next hc =>
      rcases List.mem_cons.1 h with rfl | h
      · exact ⟨List.mem_cons_self, hc⟩
      · exact ⟨List.mem_cons_of_mem c (ih h).1, (ih h).2⟩

/-- A character that is not a space, and no white space but a tab and a line feed. -/
def IsPlain (c : UInt16) : Prop := c ≠ 32 ∧ (isSpace c = true → c = 9 ∨ c = 10)

/-- A text that is not to change: no white space around it, and none in it but spaces,
tabs and line feeds. -/
structure Plain (text : Text) : Prop where
  first : ∀ c, text.head? = some c → isSpace c = false
  last : ∀ c, text.getLast? = some c → isSpace c = false
  white : ∀ c ∈ text, isSpace c = true → c = 32 ∨ c = 9 ∨ c = 10

/-- The same of the characters and the spaces before them. -/
structure PlainRuns (rs : List (ℕ × UInt16)) : Prop where
  first : ∀ r, rs.head? = some r → r.1 = 0
  white : ∀ r ∈ rs, IsPlain r.2

theorem Plain.runs {text : Text} (h : Plain text) :
    PlainRuns (runs 0 text) ∧ textOf (Escape.runs 0 text) = text := by
  refine ⟨⟨?_, ?_⟩, textOf_runs (fun hLast => ?_) fun _ => rfl⟩
  · intro r hr
    cases text with
    | nil => cases hr
    | cons c s =>
      have hc : c ≠ 32 := by
        rintro rfl
        have hSpace := h.first 32 rfl
        revert hSpace
        decide
      rw [Escape.runs, if_neg hc] at hr
      cases hr
      rfl
  · intro r hr
    obtain ⟨hMem, hNe⟩ := mem_runs hr
    exact ⟨hNe, fun hSpace => (h.white _ hMem hSpace).resolve_left hNe⟩
  · have hSpace := h.last 32 hLast
    revert hSpace
    decide

/-! ## What is made of a text -/

/-- What a character becomes before the spaces are replaced. -/
def escapeChar (c : UInt16) : Text :=
  if c = 60 then latin1 "&lt;"
  else if c = 62 then latin1 "&gt;"
  else if c = 38 then latin1 "&amp;"
  else if c = 34 then latin1 "&quot;"
  else if c = 10 then latin1 "<br />"
  else if c = 9 then latin1 "&nbsp;&nbsp;&nbsp;&nbsp;"
  else [c]

theorem escape_eq (text : Text) : escape text = replacePairs (text.flatMap escapeChar) := by
  unfold escape History.toHtmlEscaped
  simp only [List.flatMap_assoc]
  congr 2
  funext c
  unfold escapeChar
  by_cases hc : c = 60 ∨ c = 62 ∨ c = 38 ∨ c = 34 ∨ c = 10 ∨ c = 9
  · rcases hc with rfl | rfl | rfl | rfl | rfl | rfl <;> rfl
  · simp only [not_or] at hc
    simp [hc]

/-- What a run of spaces becomes. -/
def pairRun : ℕ → Text
  | 0 => []
  | 1 => [32]
  | n + 2 => latin1 "&nbsp; " ++ pairRun n

theorem replacePairs_cons {c : UInt16} (h : isSpace c = false) (s : Text) :
    replacePairs (c :: s) = c :: replacePairs s := by
  cases s with
  | nil => rfl
  | cons d s => rw [replacePairs, if_neg (by simp [h])]

theorem replacePairs_append {u : Text} (h : ∀ c ∈ u, isSpace c = false) (s : Text) :
    replacePairs (u ++ s) = u ++ replacePairs s := by
  induction u with
  | nil => rfl
  | cons c u ih =>
    rw [List.cons_append, replacePairs_cons (h c List.mem_cons_self),
      ih fun d hd => h d (List.mem_cons_of_mem c hd)]
    rfl

theorem replacePairs_run {s : Text} (h : ∀ c, s.head? = some c → isSpace c = false) (n : ℕ) :
    replacePairs (List.replicate n 32 ++ s) = pairRun n ++ replacePairs s := by
  induction n using pairRun.induct with
  | case1 => rfl
  | case2 =>
    cases s with
    | nil => rfl
    | cons c s =>
      have hc := h c rfl
      show replacePairs (32 :: c :: s) = 32 :: replacePairs (c :: s)
      rw [replacePairs, if_neg (by simp [hc])]
  | case3 n ih =>
    have hPair : isSpace 32 ∧ isSpace 32 := by decide
    show replacePairs (32 :: 32 :: (List.replicate n 32 ++ s)) = _
    rw [replacePairs, if_pos hPair, ih, pairRun, List.append_assoc]

theorem solid_of_all {s : Text} (h : (s.all fun c => !isSpace c) = true) :
    ∀ d ∈ s, isSpace d = false := by
  intro d hd
  simpa using List.all_eq_true.1 h d hd

/-- Only the tag of a line feed has a space in it. -/
theorem escapeChar_solid {c : UInt16} (h : IsPlain c) (hc : c ≠ 10) :
    ∀ d ∈ escapeChar c, isSpace d = false := by
  by_cases hRef : c = 60 ∨ c = 62 ∨ c = 38 ∨ c = 34 ∨ c = 9
  · rcases hRef with rfl | rfl | rfl | rfl | rfl <;> exact solid_of_all (by decide)
  · simp only [not_or] at hRef
    obtain ⟨h60, h62, h38, h34, h9⟩ := hRef
    intro d hd
    rw [escapeChar, if_neg h60, if_neg h62, if_neg h38, if_neg h34, if_neg hc, if_neg h9,
      List.mem_singleton] at hd
    rw [hd]
    exact Bool.eq_false_iff.2 fun hSpace => (h.2 hSpace).elim h9 hc

theorem escapeChar_ne_nil (c : UInt16) : escapeChar c ≠ [] := by
  unfold escapeChar
  split_ifs <;> exact List.cons_ne_nil _ _

/-- It begins with what is not white space. -/
theorem head?_escapeChar_append {c d : UInt16} (h : IsPlain c) {s : Text}
    (hd : (escapeChar c ++ s).head? = some d) : isSpace d = false := by
  by_cases hc : c = 10
  · subst hc
    cases hd
    rfl
  · obtain ⟨e, u, hSome⟩ := List.exists_cons_of_ne_nil (escapeChar_ne_nil c)
    have hSolid := escapeChar_solid h hc e
    rw [hSome] at hd hSolid
    cases hd
    exact hSolid List.mem_cons_self

theorem replacePairs_escapeChar {c : UInt16} (h : IsPlain c) (s : Text) :
    replacePairs (escapeChar c ++ s) = escapeChar c ++ replacePairs s := by
  by_cases hc : c = 10
  · subst hc
    have hBefore : ∀ d ∈ latin1 "<br", isSpace d = false := solid_of_all (by decide)
    have hBehind : ∀ d ∈ latin1 "/>", isSpace d = false := solid_of_all (by decide)
    have hSplit : ∀ t, escapeChar 10 ++ t =
        latin1 "<br" ++ (List.replicate 1 32 ++ (latin1 "/>" ++ t)) := fun _ => rfl
    rw [hSplit, hSplit, replacePairs_append hBefore, replacePairs_run _ 1,
      replacePairs_append hBehind]
    · rfl
    · intro d hd
      cases hd
      decide
  · exact replacePairs_append (escapeChar_solid h hc) s

/-- The text with other runs of spaces and other characters. -/
def render (run : ℕ → Text) (char : UInt16 → Text) (rs : List (ℕ × UInt16)) : Text :=
  rs.flatMap fun r => run r.1 ++ char r.2

theorem render_cons (run : ℕ → Text) (char : UInt16 → Text) (r : ℕ × UInt16)
    (rs : List (ℕ × UInt16)) :
    render run char (r :: rs) = run r.1 ++ (char r.2 ++ render run char rs) := by
  rw [render, List.flatMap_cons, List.append_assoc]
  rfl

theorem flatMap_escapeChar (rs : List (ℕ × UInt16)) :
    (textOf rs).flatMap escapeChar = render (fun n => List.replicate n 32) escapeChar rs := by
  have hRun : ∀ n, (List.replicate n (32 : UInt16)).flatMap escapeChar = List.replicate n 32 := by
    intro n
    induction n with
    | zero => rfl
    | succ n ih =>
      rw [List.replicate_succ, List.flatMap_cons, ih]
      rfl
  unfold textOf render
  rw [List.flatMap_assoc]
  congr 1
  funext r
  rw [List.flatMap_append, hRun, List.flatMap_singleton]

/-- **What is made of a text**: every run of spaces and every character by itself. -/
theorem escape_text {rs : List (ℕ × UInt16)} (h : ∀ r ∈ rs, IsPlain r.2) :
    escape (textOf rs) = render pairRun escapeChar rs := by
  rw [escape_eq, flatMap_escapeChar]
  induction rs with
  | nil => rfl
  | cons r rs ih =>
    have hFirst := h r List.mem_cons_self
    rw [render_cons, render_cons, replacePairs_run fun d hd => head?_escapeChar_append hFirst hd,
      replacePairs_escapeChar hFirst, ih fun r' hr' => h r' (List.mem_cons_of_mem r hr')]

/-! ## Simplified -/

/-- A run that is odd and longer than one space comes back one space shorter. -/
def kept (n : ℕ) : ℕ := if n = 1 then 1 else n - n % 2

theorem squeeze_append {owed : Bool} {u : Text} (h : ∀ c ∈ u, isSpace c = false) (hSome : u ≠ [])
    (s : Text) : squeeze owed (u ++ s) = (if owed then [32] else []) ++ (u ++ squeeze false s) := by
  have hRest : ∀ u : Text, (∀ c ∈ u, isSpace c = false) →
      squeeze false (u ++ s) = u ++ squeeze false s := by
    intro u hu
    induction u with
    | nil => rfl
    | cons c u ih =>
      have hc : ¬ isSpace c = true := by simp [hu c List.mem_cons_self]
      rw [List.cons_append, squeeze, if_neg hc, ih fun d hd => hu d (List.mem_cons_of_mem c hd)]
      rfl
  obtain ⟨c, u, rfl⟩ := List.exists_cons_of_ne_nil hSome
  have hc : ¬ isSpace c = true := by simp [h c List.mem_cons_self]
  rw [List.cons_append, squeeze, if_neg hc, hRest u fun d hd => h d (List.mem_cons_of_mem c hd)]
  rfl

theorem squeeze_escapeChar {owed : Bool} {c : UInt16} (h : IsPlain c) (s : Text) :
    squeeze owed (escapeChar c ++ s) =
      (if owed then [32] else []) ++ (escapeChar c ++ squeeze false s) := by
  by_cases hc : c = 10
  · subst hc
    have hBefore : ∀ d ∈ latin1 "<br", isSpace d = false := solid_of_all (by decide)
    have hBehind : ∀ d ∈ latin1 "/>", isSpace d = false := solid_of_all (by decide)
    have hSplit : ∀ t, escapeChar 10 ++ t = latin1 "<br" ++ (32 :: (latin1 "/>" ++ t)) :=
      fun _ => rfl
    have hSpace : ∀ t, squeeze false (32 :: t) = squeeze true t := fun _ => rfl
    rw [hSplit, hSplit, squeeze_append hBefore (by decide), hSpace,
      squeeze_append hBehind (by decide)]
    rfl
  · exact squeeze_append (escapeChar_solid h hc) (escapeChar_ne_nil c) s

/-- Behind a space, an even number of spaces is left of a run. -/
theorem squeeze_true_run {c : UInt16} (h : IsPlain c) (s : Text) (n : ℕ) :
    squeeze true (pairRun n ++ (escapeChar c ++ s)) =
      32 :: (pairRun (n - n % 2) ++ (escapeChar c ++ squeeze false s)) := by
  induction n using pairRun.induct with
  | case1 => exact squeeze_escapeChar h s
  | case2 => exact squeeze_escapeChar h s
  | case3 n ih =>
    have hRef : ∀ d ∈ latin1 "&nbsp;", isSpace d = false := solid_of_all (by decide)
    have hEven : n + 2 - (n + 2) % 2 = n - n % 2 + 2 := by omega
    show squeeze true (latin1 "&nbsp;" ++ (32 :: (pairRun n ++ (escapeChar c ++ s)))) = _
    have hSpace : ∀ t, squeeze false (32 :: t) = squeeze true t := fun _ => rfl
    rw [squeeze_append hRef (by decide), hSpace, ih, hEven]
    rfl

theorem squeeze_run {c : UInt16} (h : IsPlain c) (s : Text) (n : ℕ) :
    squeeze false (pairRun n ++ (escapeChar c ++ s)) =
      pairRun (kept n) ++ (escapeChar c ++ squeeze false s) := by
  have hSpace : ∀ t, squeeze false (32 :: t) = squeeze true t := fun _ => rfl
  match n with
  | 0 => exact squeeze_escapeChar h s
  | 1 =>
    show squeeze false (32 :: (escapeChar c ++ s)) = _
    rw [hSpace, squeeze_escapeChar h]
    rfl
  | n + 2 =>
    have hRef : ∀ d ∈ latin1 "&nbsp;", isSpace d = false := solid_of_all (by decide)
    have hEven : kept (n + 2) = n - n % 2 + 2 := by
      rw [kept, if_neg (by omega)]
      omega
    show squeeze false (latin1 "&nbsp;" ++ (32 :: (pairRun n ++ (escapeChar c ++ s)))) = _
    rw [squeeze_append hRef (by decide), hSpace, squeeze_true_run h, hEven]
    rfl

/-- The runs that are kept. -/
def keptRuns (rs : List (ℕ × UInt16)) : List (ℕ × UInt16) := rs.map fun r => (kept r.1, r.2)

theorem simplified_render {rs : List (ℕ × UInt16)} (h : PlainRuns rs) :
    simplified (render pairRun escapeChar rs) = render pairRun escapeChar (keptRuns rs) := by
  have hStart : (render pairRun escapeChar rs).dropWhile isSpace =
      render pairRun escapeChar rs := by
    cases rs with
    | nil => rfl
    | cons r rs =>
      have hr := h.first r rfl
      have hHead := @head?_escapeChar_append r.2
      rw [render_cons, hr, pairRun, List.nil_append]
      obtain ⟨d, u, hSome⟩ := List.exists_cons_of_ne_nil (escapeChar_ne_nil r.2)
      have hd := hHead (d := d) (h.white r List.mem_cons_self) (s := []) (by rw [hSome]; rfl)
      rw [hSome, List.cons_append, List.dropWhile_cons_of_neg (by simp [hd])]
  have hAll := h.white
  rw [simplified, hStart]
  clear h hStart
  induction rs with
  | nil => rfl
  | cons r rs ih =>
    rw [render_cons, squeeze_run (hAll r List.mem_cons_self),
      ih fun r' hr' => hAll r' (List.mem_cons_of_mem r hr')]
    exact (render_cons pairRun escapeChar (kept r.1, r.2) (keptRuns rs)).symm

/-! ## Tags -/

/-- What is left of a character when the tags are gone. -/
def lineChar (c : UInt16) : Text := if c = 10 then [10] else escapeChar c

theorem not_mem_pairRun (n : ℕ) : (60 : UInt16) ∉ pairRun n := by
  induction n using pairRun.induct with
  | case1 => exact List.not_mem_nil
  | case2 => decide
  | case3 n ih =>
    rw [pairRun, List.mem_append, not_or]
    exact ⟨by decide, ih⟩

theorem not_mem_lineChar (c : UInt16) : (60 : UInt16) ∉ lineChar c := by
  by_cases hRef : c = 60 ∨ c = 62 ∨ c = 38 ∨ c = 34 ∨ c = 10 ∨ c = 9
  · rcases hRef with rfl | rfl | rfl | rfl | rfl | rfl <;> decide
  · simp only [not_or] at hRef
    obtain ⟨h60, h62, h38, h34, h10, h9⟩ := hRef
    rw [lineChar, if_neg h10, escapeChar, if_neg h60, if_neg h62, if_neg h38, if_neg h34,
      if_neg h10, if_neg h9, List.mem_singleton]
    exact fun hSame => h60 hSame.symm

section Tags

variable {toLower : Text → Text}

/-- The tag of a line feed becomes one. -/
theorem tagStep_br (hLower : toLower (latin1 "br") = latin1 "br") {before : Text}
    (h : 60 ∉ before) (after : Text) :
    tagStep toLower (before ++ (latin1 "<br />" ++ after)) = some (before ++ ([10] ++ after)) := by
  have hSplit : latin1 "<br />" ++ after = 60 :: (latin1 "br /" ++ 62 :: after) := rfl
  have hInside : 62 ∉ latin1 "br /" := by decide
  have hTag : simplified (latin1 "br /") = latin1 "br /" := by decide
  have hElem : (latin1 "br /").takeWhile (· ≠ 32) = latin1 "br" := by decide
  have hText : tagText toLower (latin1 "br /") = [10] := by
    have hImg : latin1 "br" ≠ latin1 "img" := by decide
    simp only [tagText, hTag, hElem, hLower, if_neg hImg, or_true, if_true]
  rw [hSplit, tagStep, cut_append h]
  simp only [Option.bind_eq_bind, Option.bind_some]
  rw [cut_append hInside]
  simp only [Option.bind_some, hText, List.append_assoc]
  rfl

theorem tagLoop_of_not_mem {data : Text} (h : 60 ∉ data) (fuel : ℕ) :
    tagLoop toLower (fuel + 1) data = some data := by
  rw [tagLoop, tagStep, cut_eq_none h]
  rfl

/-- **The loop** over what has been made of a text; `before` has been dealt with. -/
theorem tagLoop_render (hLower : toLower (latin1 "br") = latin1 "br") {rs : List (ℕ × UInt16)}
    {before : Text} (h : 60 ∉ before) {fuel : ℕ}
    (hFuel : (before ++ render pairRun escapeChar rs).length < fuel) :
    tagLoop toLower fuel (before ++ render pairRun escapeChar rs) =
      some (before ++ render pairRun lineChar rs) := by
  induction rs generalizing before fuel with
  | nil =>
    obtain ⟨fuel, rfl⟩ := Nat.exists_eq_succ_of_ne_zero (Nat.ne_zero_of_lt hFuel)
    refine tagLoop_of_not_mem ?_ fuel
    rwa [render, List.flatMap_nil, List.append_nil]
  | cons r rs ih =>
    have hBefore : 60 ∉ before ++ (pairRun r.1 ++ lineChar r.2) := by
      simp only [List.mem_append, not_or]
      exact ⟨h, not_mem_pairRun r.1, not_mem_lineChar r.2⟩
    rw [render_cons] at hFuel
    rw [render_cons, render_cons]
    by_cases hc : r.2 = 10
    · obtain ⟨fuel, rfl⟩ := Nat.exists_eq_succ_of_ne_zero (Nat.ne_zero_of_lt hFuel)
      have hTag : escapeChar r.2 = latin1 "<br />" := by rw [hc]; rfl
      have hLine : lineChar r.2 = [10] := if_pos hc
      have hRun : 60 ∉ before ++ pairRun r.1 := by
        rw [List.mem_append, not_or]
        exact ⟨h, not_mem_pairRun r.1⟩
      rw [hLine] at hBefore
      rw [hTag] at hFuel
      have hRest := @ih (before ++ (pairRun r.1 ++ [10])) hBefore fuel (by
        have hLength : (latin1 "<br />").length = 6 := rfl
        simp only [List.length_append, List.length_singleton, hLength] at hFuel ⊢
        omega)
      rw [hTag, hLine, ← List.append_assoc before, tagLoop, tagStep_br hLower hRun]
      simpa only [List.append_assoc] using hRest
    · have hSame : escapeChar r.2 = lineChar r.2 := (if_neg hc).symm
      have hAssoc : ∀ t, before ++ (pairRun r.1 ++ (lineChar r.2 ++ t)) =
          before ++ (pairRun r.1 ++ lineChar r.2) ++ t := by
        intro t
        simp only [List.append_assoc]
      rw [hSame, hAssoc] at hFuel ⊢
      rw [hAssoc]
      exact ih hBefore hFuel

end Tags

/-! ## Entities -/

/-- The entities that `escape` makes. -/
inductive Entity where
  | gt
  | lt
  | quot
  | nbsp
  | amp
deriving DecidableEq, Repr

def Entity.text : Entity → Text
  | .gt => latin1 "&gt;"
  | .lt => latin1 "&lt;"
  | .quot => latin1 "&quot;"
  | .nbsp => latin1 "&nbsp;"
  | .amp => latin1 "&amp;"

/-- What a text with entities is made of. -/
inductive Piece where
  | char (c : UInt16)
  | entity (e : Entity)
deriving DecidableEq

def Piece.text : Piece → Text
  | .char c => [c]
  | .entity e => e.text

/-- No ampersand but those of entities. -/
def Clean (ps : List Piece) : Prop := ∀ p ∈ ps, p ≠ .char 38

def resolve (e : Entity) (c : UInt16) (p : Piece) : Piece := if p = .entity e then .char c else p

theorem Clean.resolve {ps : List Piece} (h : Clean ps) (e : Entity) {c : UInt16} (hc : c ≠ 38) :
    Clean (ps.map (resolve e c)) := by
  intro p hp
  obtain ⟨q, hq, rfl⟩ := List.mem_map.1 hp
  unfold Escape.resolve
  split
  · exact fun hSame => hc (Piece.char.inj hSame)
  · exact h q hq

/-- An entity begins in a way of its own, and has one ampersand. -/
theorem Entity.text_eq (e : Entity) : ∃ c u, e.text = 38 :: c :: u ∧ 38 ∉ c :: u ∧
    ∀ e' s, 38 :: [c] <+: e'.text ++ s → e' = e := by
  cases e <;> refine ⟨_, _, rfl, by decide, fun e' s h => ?_⟩ <;> cases e' <;>
    first | rfl | (obtain ⟨t, ht⟩ := h; cases ht)

/-- **Replacing an entity** by a character replaces the pieces that are this entity. -/
theorem replaceAll_entity (e : Entity) (c : UInt16) {ps : List Piece} (h : Clean ps) :
    replaceAll e.text [c] (ps.flatMap Piece.text) = (ps.map (resolve e c)).flatMap Piece.text := by
  obtain ⟨d, u, hText, -, hOwn⟩ := e.text_eq
  induction ps with
  | nil => rfl
  | cons p ps ih =>
    have hRest := ih fun q hq => h q (List.mem_cons_of_mem p hq)
    rw [List.flatMap_cons, List.map_cons, List.flatMap_cons, ← hRest]
    cases p with
    | char a =>
      have ha : (38 : UInt16) ∉ [a] := by
        intro hMem
        rw [← List.mem_singleton.1 hMem] at h
        exact h _ List.mem_cons_self rfl
      rw [hText]
      exact Replace.replaceAll_append_of_not_mem ha _
    | entity e' =>
      by_cases hSame : e' = e
      · have hChar : resolve e c (.entity e') = .char c := if_pos (by rw [hSame])
        rw [hChar, hSame]
        exact Replace.replaceAll_append (by rw [hText]; exact List.cons_ne_nil _ _) _
      · obtain ⟨d', u', hText', hOne, -⟩ := e'.text_eq
        have hKeep : resolve e c (.entity e') = .entity e' :=
          if_neg fun hEq => hSame (Piece.entity.inj hEq)
        have hNot : ¬ e.text <+: 38 :: (d' :: u' ++ ps.flatMap Piece.text) := by
          intro hPrefix
          have hBegin : 38 :: [d] <+: e.text := by
            rw [hText]
            exact ⟨u, rfl⟩
          refine hSame (hOwn e' (ps.flatMap Piece.text) (hBegin.trans ?_))
          rw [hText']
          exact hPrefix
        have hSplit : Piece.text (.entity e') = 38 :: (d' :: u') := hText'
        rw [hKeep, hSplit, List.cons_append, Replace.replaceAll_cons hNot, hText,
          Replace.replaceAll_append_of_not_mem hOne]
        rfl

/-- What is left of a character when the tabs are back. -/
def tabChar (c : UInt16) : Text := if c = 9 then [9] else lineChar c

section Tabs

/-- What a tab is made of. -/
abbrev tabText : Text := latin1 "&nbsp;&nbsp;&nbsp;&nbsp;"

theorem tabText_eq : tabText = 38 :: latin1 "nbsp;&nbsp;&nbsp;&nbsp;" := by decide

theorem replaceTabs_append {u : Text} (h : 38 ∉ u) (s : Text) :
    replaceAll tabText [9] (u ++ s) = u ++ replaceAll tabText [9] s := by
  rw [tabText_eq, Replace.replaceAll_append_of_not_mem h]

/-- At an ampersand that begins something else. -/
theorem replaceTabs_ampersand {u s : Text} (h : 38 ∉ u) (hNot : ¬ tabText <+: 38 :: (u ++ s)) :
    replaceAll tabText [9] (38 :: (u ++ s)) = 38 :: (u ++ replaceAll tabText [9] s) := by
  rw [Replace.replaceAll_cons hNot, replaceTabs_append h]

/-- The entities of spaces stand alone. -/
theorem replaceTabs_run (n : ℕ) (s : Text) :
    replaceAll tabText [9] (pairRun n ++ s) = pairRun n ++ replaceAll tabText [9] s := by
  induction n using pairRun.induct with
  | case1 => rfl
  | case2 => exact replaceTabs_append (u := [32]) (by decide) s
  | case3 n ih =>
    have hNot : ¬ tabText <+: 38 :: (latin1 "nbsp; " ++ (pairRun n ++ s)) := by
      rintro ⟨t, ht⟩
      cases ht
    show replaceAll tabText [9] (38 :: (latin1 "nbsp; " ++ (pairRun n ++ s))) = _
    rw [replaceTabs_ampersand (by decide) hNot, ih]
    rfl

theorem lineChar_of_plain {c : UInt16} (h : ¬ (c = 60 ∨ c = 62 ∨ c = 38 ∨ c = 34 ∨ c = 9)) :
    lineChar c = [c] := by
  unfold lineChar escapeChar
  split_ifs <;> simp_all

theorem replaceTabs_char (c : UInt16) (s : Text) :
    replaceAll tabText [9] (lineChar c ++ s) = tabChar c ++ replaceAll tabText [9] s := by
  by_cases hRef : c = 60 ∨ c = 62 ∨ c = 38 ∨ c = 34 ∨ c = 9
  · rcases hRef with rfl | rfl | rfl | rfl | rfl
    · exact replaceTabs_ampersand (u := latin1 "lt;") (by decide) (by rintro ⟨t, ht⟩; cases ht)
    · exact replaceTabs_ampersand (u := latin1 "gt;") (by decide) (by rintro ⟨t, ht⟩; cases ht)
    · exact replaceTabs_ampersand (u := latin1 "amp;") (by decide) (by rintro ⟨t, ht⟩; cases ht)
    · exact replaceTabs_ampersand (u := latin1 "quot;") (by decide) (by rintro ⟨t, ht⟩; cases ht)
    · exact Replace.replaceAll_append (by decide) s
  · have hLine := lineChar_of_plain hRef
    simp only [not_or] at hRef
    have hTab : tabChar c = [c] := (if_neg hRef.2.2.2.2).trans hLine
    have hOther : (38 : UInt16) ∉ [c] := fun hMem => hRef.2.2.1 (List.mem_singleton.1 hMem).symm
    rw [hLine, hTab, replaceTabs_append hOther]

/-- **Four entities in a row are a tab**, also before those of spaces. -/
theorem replaceTabs_render (rs : List (ℕ × UInt16)) :
    replaceAll tabText [9] (render pairRun lineChar rs) = render pairRun tabChar rs := by
  induction rs with
  | nil => rfl
  | cons r rs ih => rw [render_cons, render_cons, replaceTabs_run, replaceTabs_char, ih]

end Tabs

/-! ## Back -/

def runPieces : ℕ → List Piece
  | 0 => []
  | 1 => [.char 32]
  | n + 2 => .entity .nbsp :: .char 32 :: runPieces n

def charPiece (c : UInt16) : Piece :=
  if c = 60 then .entity .lt
  else if c = 62 then .entity .gt
  else if c = 38 then .entity .amp
  else if c = 34 then .entity .quot
  else .char c

def pieces (rs : List (ℕ × UInt16)) : List Piece :=
  rs.flatMap fun r => runPieces r.1 ++ [charPiece r.2]

theorem text_runPieces (n : ℕ) : (runPieces n).flatMap Piece.text = pairRun n := by
  induction n using runPieces.induct with
  | case1 => rfl
  | case2 => rfl
  | case3 n ih =>
    rw [runPieces, List.flatMap_cons, List.flatMap_cons, ih]
    rfl

theorem text_charPiece (c : UInt16) : (charPiece c).text = tabChar c := by
  by_cases hRef : c = 60 ∨ c = 62 ∨ c = 38 ∨ c = 34 ∨ c = 9
  · rcases hRef with rfl | rfl | rfl | rfl | rfl <;> rfl
  · have hLine := lineChar_of_plain hRef
    simp only [not_or] at hRef
    obtain ⟨h60, h62, h38, h34, h9⟩ := hRef
    rw [charPiece, if_neg h60, if_neg h62, if_neg h38, if_neg h34, tabChar, if_neg h9, hLine]
    rfl

theorem text_pieces (rs : List (ℕ × UInt16)) :
    (pieces rs).flatMap Piece.text = render pairRun tabChar rs := by
  unfold pieces render
  rw [List.flatMap_assoc]
  congr 1
  funext r
  rw [List.flatMap_append, text_runPieces, List.flatMap_singleton, text_charPiece]

theorem clean_pieces (rs : List (ℕ × UInt16)) : Clean (pieces rs) := by
  have hRun : ∀ n, ∀ p ∈ runPieces n, p ≠ .char 38 := by
    intro n
    induction n using runPieces.induct with
    | case1 => exact fun p hp => absurd hp List.not_mem_nil
    | case2 => decide
    | case3 n ih =>
      intro p hp
      rcases List.mem_cons.1 hp with rfl | hp
      · decide
      · rcases List.mem_cons.1 hp with rfl | hp
        · decide
        · exact ih p hp
  intro p hp
  obtain ⟨r, -, hp⟩ := List.mem_flatMap.1 hp
  rcases List.mem_append.1 hp with hp | hp
  · exact hRun r.1 p hp
  · rw [List.mem_singleton.1 hp]
    unfold charPiece
    split_ifs with h60 h62 h38 <;> simp_all

/-- The pieces with all entities resolved. -/
def resolveAll (p : Piece) : Piece :=
  resolve .amp 38 (resolve .nbsp 32 (resolve .quot 34 (resolve .lt 60 (resolve .gt 62 p))))

theorem resolveAll_pieces (rs : List (ℕ × UInt16)) :
    ((pieces rs).map resolveAll).flatMap Piece.text = textOf rs := by
  have hRun : ∀ n, ((runPieces n).map resolveAll).flatMap Piece.text = List.replicate n 32 := by
    intro n
    induction n using runPieces.induct with
    | case1 => rfl
    | case2 => rfl
    | case3 n ih =>
      rw [runPieces, List.map_cons, List.map_cons, List.flatMap_cons, List.flatMap_cons, ih]
      rfl
  have hChar : ∀ c, (resolveAll (charPiece c)).text = [c] := by
    intro c
    by_cases hRef : c = 60 ∨ c = 62 ∨ c = 38 ∨ c = 34
    · rcases hRef with rfl | rfl | rfl | rfl <;> rfl
    · simp only [not_or] at hRef
      obtain ⟨h60, h62, h38, h34⟩ := hRef
      rw [charPiece, if_neg h60, if_neg h62, if_neg h38, if_neg h34]
      rfl
  unfold pieces textOf
  rw [List.map_flatMap, List.flatMap_assoc]
  congr 1
  funext r
  rw [List.map_append, List.flatMap_append, hRun, List.map_singleton, List.flatMap_singleton, hChar]

/-- **The entities** become the characters again, but for one that no text is escaped with. -/
theorem replaceEntities_render (rs : List (ℕ × UInt16)) :
    replaceEntities (render pairRun lineChar rs) =
      replaceAll (latin1 "&#160;") [32] (textOf rs) := by
  have hClean := clean_pieces rs
  have hGt := hClean.resolve .gt (c := 62) (by decide)
  have hLt := hGt.resolve .lt (c := 60) (by decide)
  have hQuot := hLt.resolve .quot (c := 34) (by decide)
  have hNbsp := hQuot.resolve .nbsp (c := 32) (by decide)
  rw [← resolveAll_pieces]
  unfold replaceEntities
  simp only
  rw [replaceTabs_render, ← text_pieces]
  congr 1
  refine (congrArg _ (congrArg _ (congrArg _ (congrArg _
    (replaceAll_entity .gt 62 hClean))))).trans ?_
  refine (congrArg _ (congrArg _ (congrArg _ (replaceAll_entity .lt 60 hGt)))).trans ?_
  refine (congrArg _ (congrArg _ (replaceAll_entity .quot 34 hLt))).trans ?_
  refine (congrArg _ (replaceAll_entity .nbsp 32 hQuot)).trans ?_
  refine (replaceAll_entity .amp 38 hNbsp).trans ?_
  rw [List.map_map, List.map_map, List.map_map, List.map_map]
  rfl

/-! ## There and back -/

section RoundTrip

variable {toLower : Text → Text}

/-- **What comes back** of a text. -/
theorem unescape_escape (hLower : toLower (latin1 "br") = latin1 "br") {text : Text}
    (h : Plain text) {fuel : ℕ} (hFuel : (escape text).length < fuel) :
    unescape toLower fuel (escape text) =
      some (replaceAll (latin1 "&#160;") [32] (textOf (keptRuns (runs 0 text)))) := by
  obtain ⟨hRuns, hText⟩ := h.runs
  have hEscape : escape text = render pairRun escapeChar (runs 0 text) := by
    conv_lhs => rw [← hText]
    exact escape_text hRuns.white
  have hSimplified := simplified_render hRuns
  have hLength := length_simplified_le (escape text)
  rw [hEscape] at hFuel hLength ⊢
  rw [hSimplified] at hLength
  have hBefore : (60 : UInt16) ∉ ([] : Text) := List.not_mem_nil
  have hLoop := tagLoop_render hLower hBefore (hLength.trans_lt hFuel)
  rw [List.nil_append, List.nil_append] at hLoop
  rw [unescape, hSimplified, hLoop, Option.map_some, replaceEntities_render]

theorem kept_le (n : ℕ) : kept n ≤ n := by
  unfold kept
  split <;> omega

theorem kept_eq_iff {n : ℕ} : kept n = n ↔ n = 1 ∨ n % 2 = 0 := by
  unfold kept
  split <;> omega

theorem length_textOf (rs : List (ℕ × UInt16)) :
    (textOf rs).length = (rs.map fun r => r.1 + 1).sum := by
  rw [textOf, List.length_flatMap]
  congr 2
  funext r
  rw [List.length_append, List.length_replicate, List.length_singleton]

/-- Runs that are not kept make the text shorter. -/
theorem length_keptRuns (rs : List (ℕ × UInt16)) :
    (textOf (keptRuns rs)).length ≤ (textOf rs).length ∧
      ((textOf (keptRuns rs)).length = (textOf rs).length → ∀ r ∈ rs, kept r.1 = r.1) := by
  rw [length_textOf, length_textOf, keptRuns, List.map_map]
  induction rs with
  | nil => exact ⟨Nat.le_refl 0, fun _ r hr => absurd hr List.not_mem_nil⟩
  | cons r rs ih =>
    have hKept := kept_le r.1
    simp only [List.map_cons, List.sum_cons, Function.comp_apply]
    refine ⟨by omega, fun hSame r' hr' => ?_⟩
    rcases List.mem_cons.1 hr' with rfl | hr'
    · omega
    · exact ih.2 (by omega) r' hr'

/-- No odd number of spaces in a row but a single one, and no text that looks like the last
of the entities. -/
def Restorable (text : Text) : Prop :=
  (∀ r ∈ runs 0 text, r.1 = 1 ∨ r.1 % 2 = 0) ∧ ¬ latin1 "&#160;" <:+: text

/-- It is the text only if nothing has become shorter on the way. -/
theorem restored_iff {text : Text} (h : Plain text) :
    replaceAll (latin1 "&#160;") [32] (textOf (keptRuns (runs 0 text))) = text ↔
      Restorable text := by
  obtain ⟨-, hText⟩ := h.runs
  have hShort : [(32 : UInt16)].length < (latin1 "&#160;").length := by decide
  have hAll : (∀ r ∈ runs 0 text, kept r.1 = r.1) → textOf (keptRuns (runs 0 text)) = text := by
    intro hKept
    conv_rhs => rw [← hText]
    congr 1
    refine (List.map_congr_left fun r hr => ?_).trans (List.map_id _)
    rw [hKept r hr]
    rfl
  obtain ⟨hLess, hEqual⟩ := length_keptRuns (runs 0 text)
  rw [hText] at hLess hEqual
  constructor
  · intro hSame
    have hReplace := Replace.length_replaceAll_le hShort (textOf (keptRuns (runs 0 text)))
    rw [hSame] at hReplace
    have hKept := hEqual (Nat.le_antisymm hLess hReplace)
    rw [hAll hKept] at hSame
    exact ⟨fun r hr => kept_eq_iff.1 (hKept r hr), (Replace.replaceAll_eq_self_iff hShort).1 hSame⟩
  · rintro ⟨hRuns, hNone⟩
    rw [hAll fun r hr => kept_eq_iff.2 (hRuns r hr)]
    exact (Replace.replaceAll_eq_self_iff hShort).2 hNone

/-- **There and back.** `unescape` ends on every text. A text without white space around
it, whose white space is spaces, tabs and line feeds, comes back from `escape` exactly if it
is restorable. -/
theorem unescape_escape_iff (hLower : toLower (latin1 "br") = latin1 "br") :
    (∀ xml, ∃ result, ∀ fuel, xml.length < fuel → unescape toLower fuel xml = some result) ∧
    ∀ text, Plain text →
      ((∀ fuel, (escape text).length < fuel →
        unescape toLower fuel (escape text) = some text) ↔ Restorable text) := by
  refine ⟨unescape_terminates toLower, fun text hText => ?_⟩
  rw [← restored_iff hText]
  constructor
  · intro h
    have hBack := h _ (Nat.lt_succ_self _)
    rw [unescape_escape hLower hText (Nat.lt_succ_self _)] at hBack
    exact Option.some.inj hBack
  · intro h fuel hFuel
    rw [unescape_escape hLower hText hFuel, h]

end RoundTrip

/-- `toLower` for letters that are in ASCII. -/
def asciiLower (s : Text) : Text := s.map fun c => if 65 ≤ c ∧ c ≤ 90 then c + 32 else c

theorem unescape_escape_iff_ascii :
    asciiLower (latin1 "br") = latin1 "br" ∧
    (∀ xml, ∃ result, ∀ fuel, xml.length < fuel → unescape asciiLower fuel xml = some result) ∧
    ∀ text, Plain text →
      ((∀ fuel, (escape text).length < fuel →
        unescape asciiLower fuel (escape text) = some text) ↔ Restorable text) :=
  have hLower : asciiLower (latin1 "br") = latin1 "br" := by decide
  ⟨hLower, unescape_escape_iff hLower⟩

/-- Three spaces come back as two, and what looks like an entity as a space. -/
theorem unescape_escape_shorter :
    Plain (latin1 "a   b") ∧
      unescape asciiLower 40 (escape (latin1 "a   b")) = some (latin1 "a  b") ∧
      Plain (latin1 "&#160;") ∧ unescape asciiLower 40 (escape (latin1 "&#160;")) = some [32] := by
  have hWhite {s : Text} (h : (s.all fun c => isSpace c = true → c = 32 ∨ c = 9 ∨ c = 10) = true) :
      ∀ c ∈ s, isSpace c = true → c = 32 ∨ c = 9 ∨ c = 10 := fun c hc =>
    of_decide_eq_true (List.all_eq_true.1 h c hc)
  refine ⟨⟨?_, ?_, hWhite (by decide)⟩, by decide, ⟨?_, ?_, hWhite (by decide)⟩, by decide⟩
  all_goals
    intro c hc
    cases hc
    decide

end Escape

end Kopete
