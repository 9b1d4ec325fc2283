import Kopete.Lib.Html
import Kopete.Lib.Template

/-!
# Now listening plugin

`substDepthFirst` makes the message for a track from a template with keywords and brackets.
It looks for the brackets from the left, puts what it makes of their content in their place,
goes on behind that, and replaces the keywords in the end, one after the other. What a
bracket of the template holds is kept if a keyword in it has been replaced.

Main results:

* `print_parse` — a template is its characters and its groups;
* `substLoop_eq`, `substDepthFirst_eq` — the loop and the keywords of one level, by recursion
  over the brackets;
* `substDepthFirst_of_clean` — the template is filled in where no keyword occurs but in it.
-/

namespace NowListeningPlugin

open Html (Text latin1)
open Template (Cell Token cellsText fill lex OnlyAt)

/-- `NLMediaPlayer`. -/
structure NLMediaPlayer where
  name : Text
  track : Text
  artist : Text
  album : Text

inductive Keyword where
  | track
  | artist
  | album
  | player
deriving DecidableEq, Repr

def spell : Keyword → Text
  | .track => latin1 "%track"
  | .artist => latin1 "%artist"
  | .album => latin1 "%album"
  | .player => latin1 "%player"

-- `i18n("Unknown track")`, and the player
variable (unknownTrack : Text) (player : NLMediaPlayer)

/-- A track has a name always; the others have one unless it is empty. -/
def available : Keyword → Bool
  | .track => true
  | .artist => !player.artist.isEmpty
  | .album => !player.album.isEmpty
  | .player => !player.name.isEmpty

def value : Keyword → Text
  | .track => if player.track.isEmpty then unknownTrack else player.track
  | .artist => player.artist
  | .album => player.album
  | .player => player.name

/-! ## The source -/

/-- The loop over `j`, inside so many brackets: what is before the matching bracket, and
behind it. -/
def matchBracket : ℕ → Text → Option (Text × Text)
  | _, [] => none
  | depth, d :: s =>
    if d = 40 then (matchBracket (depth + 1) s).map fun (inner, after) => (d :: inner, after)
    else if d = 41 then
      match depth with
      | 0 => some ([], s)
      | depth + 1 => (matchBracket depth s).map fun (inner, after) => (d :: inner, after)
    else (matchBracket depth s).map fun (inner, after) => (d :: inner, after)

theorem eq_of_matchBracket {depth : ℕ} {s inner after : Text}
    (h : matchBracket depth s = some (inner, after)) : s = inner ++ 41 :: after := by
  induction s generalizing depth inner with
  | nil => cases h
  | cons d s ih =>
    have hStep : ∀ depth', ((matchBracket depth' s).map fun (inner, after) =>
        (d :: inner, after)) = some (inner, after) → d :: s = inner ++ 41 :: after := by
      intro depth' hMap
      obtain ⟨⟨inner', after'⟩, hRest, hSame⟩ := Option.map_eq_some_iff.1 hMap
      obtain ⟨rfl, rfl⟩ := Prod.mk.inj hSame
      rw [List.cons_append, ← ih hRest]
    rw [matchBracket.eq_def] at h
    simp only at h
    split_ifs at h with hOpen hClose
    · exact hStep _ h
    · cases depth with
      | zero =>
        obtain ⟨rfl, rfl⟩ := Prod.mk.inj (Option.some.inj h)
        rw [hClose]
        rfl
      | succ depth => exact hStep _ h
    · exact hStep _ h

theorem length_of_matchBracket {depth : ℕ} {s inner after : Text}
    (h : matchBracket depth s = some (inner, after)) :
    s.length = inner.length + after.length + 1 := by
  rw [eq_of_matchBracket h, List.length_append, List.length_cons]
  omega

/-- `if (in.contains(..) && ..) { in.replace(..); done = true; }`, for a keyword: the text, and
`done`. -/
def replaceKeyword (k : Keyword) (s : Text × Bool) : Text × Bool :=
  if spell k <:+: s.1 ∧ available player k then
    (Replace.replaceAll (spell k) (value unknownTrack player k) s.1, true)
  else s

/-- The keywords, one after the other. -/
def replaceKeywords (s : Text) : Text × Bool :=
  replaceKeyword unknownTrack player .player (replaceKeyword unknownTrack player .album
    (replaceKeyword unknownTrack player .artist
      (replaceKeyword unknownTrack player .track (s, false))))

mutual

/-- The loop over `i`, which is behind what has been put in. -/
def substLoop (template : Text) (i : ℕ) : Text :=
  if hBound : i < template.length then
    if template[i] = 40 then
      match hMatch : matchBracket 0 (template.drop (i + 1)) with
      | some (inner, after) =>
        let substitution := substDepthFirst inner true
        substLoop (template.take i ++ (substitution ++ after)) (i + substitution.length)
      | none => substLoop template (i + 1)
    else substLoop template (i + 1)
  else template
termination_by (template.length - i, 0)
decreasing_by
  all_goals simp_wf
  · have hLength := length_of_matchBracket hMatch
    rw [List.length_drop] at hLength
    omega
  · have hLength := length_of_matchBracket hMatch
    rw [List.length_drop] at hLength
    omega
  · omega
  · omega

/-- `substDepthFirst`. -/
def substDepthFirst (template : Text) (inBrackets : Bool) : Text :=
  let (text, done) := replaceKeywords unknownTrack player (substLoop template 0)
  if inBrackets && !done then [] else text
termination_by (template.length, 1)

end

/-! ## What is asked for -/

/-- A template: its characters, and what is in brackets. A bracket without a match is a
character. -/
inductive Item where
  | char (c : UInt16)
  | group (items : List Item)

def parse : Text → List Item
  | [] => []
  | c :: s =>
    if c = 40 then
      match _hMatch : matchBracket 0 s with
      | some (inner, after) => .group (parse inner) :: parse after
      | none => .char c :: parse s
    else .char c :: parse s
termination_by s => s.length
decreasing_by
  all_goals simp only [List.length_cons]
  · have hLength := length_of_matchBracket _hMatch
    omega
  · have hLength := length_of_matchBracket _hMatch
    omega
  · omega
  · omega

mutual

def Item.print : Item → Text
  | .char c => [c]
  | .group items => 40 :: (printAll items ++ [41])

def printAll : List Item → Text
  | [] => []
  | item :: items => item.print ++ printAll items

end

/-- **The template** is what it has been taken apart into. -/
theorem print_parse (s : Text) : printAll (parse s) = s := by
  fun_induction parse s with
  | case1 => rfl
  | case2 s inner after hMatch ihInner ihAfter =>
    rw [printAll, Item.print, ihInner, ihAfter, eq_of_matchBracket hMatch]
    simp
  | case3 s hMatch ih =>
    rw [printAll, Item.print, ih]
    rfl
  | case4 c s hc ih =>
    rw [printAll, Item.print, ih]
    rfl

/-- The keyword that begins here. -/
def find (s : Text) : Option Keyword :=
  [Keyword.track, .artist, .album, .player].find? fun k => (spell k).isPrefixOf s

/-- The keywords that stand directly in a level. -/
def tokens (cs : List (Cell UInt16)) : List (Token UInt16 Keyword) := lex spell find cs

/-- What a keyword is replaced by: its value, if that is available. -/
def shown (k : Keyword) : Text :=
  if available player k then value unknownTrack player k else spell k

def standsIn (ts : List (Token UInt16 Keyword)) (k : Keyword) : Bool :=
  ts.any fun
    | .word j => j == k
    | .text _ => false

/-- Whether a keyword of these is replaced. -/
def replaced (ts : List (Token UInt16 Keyword)) : Bool :=
  [Keyword.track, .artist, .album, .player].any fun k => available player k && standsIn ts k

def levelText (cs : List (Cell UInt16)) : Text := fill (shown unknownTrack player) (tokens cs)

/-- What is in brackets is kept if a keyword that stands directly in it is replaced. -/
def groupText (cs : List (Cell UInt16)) : Text :=
  if replaced player (tokens cs) then levelText unknownTrack player cs else []

mutual

def Item.cell : Item → Cell UInt16
  | .char c => .direct c
  | .group items => .inner (groupText unknownTrack player (cells items))

def cells : List Item → List (Cell UInt16)
  | [] => []
  | item :: items => item.cell :: cells items

end

/-- **The template, filled in**: the keywords are replaced by their values at once, and the
groups by what is kept of them. -/
def filled (template : Text) : Text :=
  levelText unknownTrack player (cells unknownTrack player (parse template))

/-- The keywords that are replaced before this one. -/
def earlier : Keyword → List Keyword
  | .track => []
  | .artist => [.track]
  | .album => [.track, .artist]
  | .player => [.track, .artist, .album]

/-- What stands for a keyword when some have been replaced. -/
def progress (done : List Keyword) (k : Keyword) : Text :=
  if k ∈ done then shown unknownTrack player k else spell k

/-- In the text of a level, a keyword with a value occurs only where it stands directly in the
template, when its turn comes. -/
def LevelClean (cs : List (Cell UInt16)) : Prop :=
  ∀ k, available player k →
    OnlyAt (progress unknownTrack player (earlier k)) k (tokens cs)

mutual

def Item.Clean : Item → Prop
  | .char _ => True
  | .group items =>
    LevelClean unknownTrack player (cells unknownTrack player items) ∧ AllClean items

def AllClean : List Item → Prop
  | [] => True
  | item :: items => item.Clean ∧ AllClean items

end

/-- No keyword comes up, at any level, but those of the template. -/
def Clean (template : Text) : Prop :=
  LevelClean unknownTrack player (cells unknownTrack player (parse template)) ∧
    AllClean unknownTrack player (parse template)

mutual

/-- No bracket but those of groups. -/
def Item.plain : Item → Bool
  | .char c => c != 40 && c != 41
  | .group items => plainAll items

def plainAll : List Item → Bool
  | [] => true
  | item :: items => item.plain && plainAll items

end

/-! ## The keywords of a level -/

section Keywords

variable {unknownTrack} {player}

theorem spell_ne_nil (k : Keyword) : spell k ≠ [] := by cases k <;> decide

theorem spell_of_find {s : Text} {k : Keyword} (h : find s = some k) :
    spell k <+: s ∧ spell k ≠ [] := by
  have hPrefix := List.find?_some h
  exact ⟨List.isPrefixOf_iff_prefix.1 hPrefix, spell_ne_nil k⟩

theorem progress_of_not_mem {done : List Keyword} {k : Keyword} (h : k ∉ done) :
    progress unknownTrack player done k = spell k := if_neg h

theorem update_progress {done : List Keyword} {k : Keyword} (h : available player k = true) :
    Function.update (progress unknownTrack player done) k (value unknownTrack player k) =
      progress unknownTrack player (done ++ [k]) := by
  have hShown : shown unknownTrack player k = value unknownTrack player k := if_pos h
  funext j
  by_cases hj : j = k
  · subst hj
    rw [Function.update_self, progress, if_pos (by simp), hShown]
  · rw [Function.update_of_ne hj, progress, progress]
    simp [hj]

theorem progress_of_not_available {done : List Keyword} {k : Keyword} (hDone : k ∉ done)
    (h : available player k = false) :
    progress unknownTrack player (done ++ [k]) = progress unknownTrack player done := by
  have hShown : shown unknownTrack player k = spell k := if_neg (by simp [h])
  funext j
  by_cases hj : j = k
  · subst hj
    rw [progress_of_not_mem hDone, progress, if_pos (by simp), hShown]
  · rw [progress, progress]
    simp [hj]

theorem standsIn_iff {ts : List (Token UInt16 Keyword)} {k : Keyword} :
    standsIn ts k = true ↔ Token.word k ∈ ts := by
  rw [standsIn, List.any_eq_true]
  constructor
  · rintro ⟨t, hMem, hSame⟩
    cases t with
    | word j => rwa [← beq_iff_eq.1 hSame]
    | text s => cases hSame
  · exact fun hMem => ⟨_, hMem, beq_self_eq_true k⟩

/-- **One keyword**, when its turn comes. -/
theorem replaceKeyword_fill {done : List Keyword} {k : Keyword}
    {ts : List (Token UInt16 Keyword)} (hDone : k ∉ done)
    (hOnly : available player k = true → OnlyAt (progress unknownTrack player done) k ts)
    (flag : Bool) :
    replaceKeyword unknownTrack player k (fill (progress unknownTrack player done) ts, flag) =
      (fill (progress unknownTrack player (done ++ [k])) ts,
        flag || (available player k && standsIn ts k)) := by
  have hSpell : progress unknownTrack player done k = spell k := progress_of_not_mem hDone
  unfold replaceKeyword
  cases hAvailable : available player k with
  | false => simp [progress_of_not_available hDone hAvailable]
  | true =>
    have hAt := hOnly hAvailable
    have hInfix := hAt.infix_iff
    rw [hSpell] at hInfix
    by_cases hMem : Token.word k ∈ ts
    · have hReplace := Template.replaceAll_fill (by rw [hSpell]; exact spell_ne_nil k)
        (value unknownTrack player k) hAt
      rw [hSpell, update_progress hAvailable] at hReplace
      rw [if_pos ⟨hInfix.2 hMem, rfl⟩, hReplace, standsIn_iff.2 hMem, Bool.and_self, Bool.or_true]
    · have hSame : fill (progress unknownTrack player (done ++ [k])) ts =
          fill (progress unknownTrack player done) ts := by
        apply Template.fill_congr
        intro j hj
        have hNe : j ≠ k := fun hk => hMem (hk ▸ hj)
        simp [progress, hNe]
      rw [if_neg fun h => hMem (hInfix.1 h.1), hSame, Bool.eq_false_iff.2 (mt standsIn_iff.1 hMem),
        Bool.and_false, Bool.or_false]

/-- **The keywords of a level**, replaced one after the other. -/
theorem replaceKeywords_eq {cs : List (Cell UInt16)} (h : LevelClean unknownTrack player cs) :
    replaceKeywords unknownTrack player (cellsText cs) =
      (levelText unknownTrack player cs, replaced player (tokens cs)) := by
  have hStart : cellsText cs = fill (progress unknownTrack player []) (tokens cs) := by
    rw [tokens, ← Template.fill_lex spell_of_find]
    exact Template.fill_congr fun k _ => (if_neg List.not_mem_nil).symm
  have hEnd : fill (progress unknownTrack player [.track, .artist, .album, .player]) (tokens cs) =
      levelText unknownTrack player cs :=
    Template.fill_congr fun k _ => if_pos (by cases k <;> decide)
  have hTurn : ∀ k flag, replaceKeyword unknownTrack player k
      (fill (progress unknownTrack player (earlier k)) (tokens cs), flag) =
        (fill (progress unknownTrack player (earlier k ++ [k])) (tokens cs),
          flag || (available player k && standsIn (tokens cs) k)) :=
    fun k => replaceKeyword_fill (by cases k <;> decide) (h k)
  have hTrack := hTurn .track false
  have hArtist := hTurn .artist
  have hAlbum := hTurn .album
  have hPlayer := hTurn .player
  simp only [earlier, List.nil_append, List.cons_append] at hTrack hArtist hAlbum hPlayer
  rw [replaceKeywords, hStart, hTrack, hArtist, hAlbum, hPlayer, hEnd, replaced]
  simp [Bool.or_assoc]

end Keywords

/-! ## The loop over the brackets -/

section Loop

variable {unknownTrack} {player}

theorem getElem_behind (before : Text) (c : UInt16) (s : Text)
    (h : before.length < (before ++ c :: s).length) : (before ++ c :: s)[before.length] = c := by
  simp

theorem drop_behind (before : Text) (c : UInt16) (s : Text) :
    (before ++ c :: s).drop (before.length + 1) = s := by
  rw [List.append_cons]
  exact List.drop_left' (List.length_append.trans rfl)

theorem substLoop_end (before : Text) :
    substLoop unknownTrack player before before.length = before := by
  rw [substLoop, dif_neg (Nat.lt_irrefl _)]

theorem substLoop_char (before : Text) {c : UInt16} {s : Text}
    (h : c = 40 → matchBracket 0 s = none) :
    substLoop unknownTrack player (before ++ c :: s) before.length =
      substLoop unknownTrack player ((before ++ [c]) ++ s) (before ++ [c]).length := by
  have hBound : before.length < (before ++ c :: s).length := by simp
  have hNext : substLoop unknownTrack player (before ++ c :: s) (before.length + 1) =
      substLoop unknownTrack player ((before ++ [c]) ++ s) (before ++ [c]).length := by
    rw [List.append_assoc, List.singleton_append, List.length_append, List.length_singleton]
  rw [substLoop, dif_pos hBound, getElem_behind]
  split
  · next hOpen =>
    split
    · next inner after hMatch =>
      rw [drop_behind, h hOpen] at hMatch
      cases hMatch
    · exact hNext
  · exact hNext

/-- **At a bracket**: what has been made of its content is put in, and the loop goes on
behind it. -/
theorem substLoop_group (before : Text) {s inner after : Text}
    (h : matchBracket 0 s = some (inner, after)) :
    substLoop unknownTrack player (before ++ 40 :: s) before.length =
      let substitution := substDepthFirst unknownTrack player inner true
      substLoop unknownTrack player ((before ++ substitution) ++ after)
        (before ++ substitution).length := by
  have hBound : before.length < (before ++ 40 :: s).length := by simp
  rw [substLoop, dif_pos hBound, getElem_behind, if_pos rfl]
  split
  · next inner' after' hMatch =>
    rw [drop_behind, h] at hMatch
    obtain ⟨rfl, rfl⟩ := Prod.mk.inj (Option.some.inj hMatch)
    simp only [List.take_left, List.append_assoc, List.length_append]
  · next hNone =>
    rw [drop_behind, h] at hNone
    cases hNone

theorem parse_char {c : UInt16} {s : Text} (h : c = 40 → matchBracket 0 s = none) :
    parse (c :: s) = .char c :: parse s := by
  rw [parse]
  split
  · next hOpen =>
    split
    · next inner after hMatch =>
      rw [h hOpen] at hMatch
      cases hMatch
    · rfl
  · rfl

theorem parse_group {s inner after : Text} (h : matchBracket 0 s = some (inner, after)) :
    parse (40 :: s) = .group (parse inner) :: parse after := by
  rw [parse, if_pos rfl]
  split
  · next inner' after' hMatch =>
    rw [h] at hMatch
    obtain ⟨rfl, rfl⟩ := Prod.mk.inj (Option.some.inj hMatch)
    rfl
  · next hNone =>
    rw [h] at hNone
    cases hNone

/-- Behind a text that is passed over. -/
def passed (u : Text) (o : Option (Text × Text)) : Option (Text × Text) :=
  o.map fun (inner, after) => (u ++ inner, after)

theorem passed_append (u v : Text) (o : Option (Text × Text)) :
    passed u (passed v o) = passed (u ++ v) o := by
  cases o <;> simp [passed]

theorem matchBracket_char {c : UInt16} (h : c ≠ 40 ∧ c ≠ 41) (depth : ℕ) (s : Text) :
    matchBracket depth (c :: s) = passed [c] (matchBracket depth s) := by
  rw [matchBracket.eq_def]
  simp only [if_neg h.1, if_neg h.2]
  rfl

theorem matchBracket_open (depth : ℕ) (s : Text) :
    matchBracket depth (40 :: s) = passed [40] (matchBracket (depth + 1) s) := by
  rw [matchBracket.eq_def]
  rfl

theorem matchBracket_close (depth : ℕ) (s : Text) :
    matchBracket (depth + 1) (41 :: s) = passed [41] (matchBracket depth s) := by
  rw [matchBracket.eq_def]
  rfl

mutual

theorem matchBracket_print (item : Item) (h : item.plain = true) (depth : ℕ) (s : Text) :
    matchBracket depth (item.print ++ s) = passed item.print (matchBracket depth s) := by
  match item with
  | .char c =>
    have hChar : c ≠ 40 ∧ c ≠ 41 := by simpa [Item.plain] using h
    exact matchBracket_char hChar depth s
  | .group items =>
    rw [Item.plain] at h
    rw [Item.print, List.cons_append, List.append_assoc, matchBracket_open,
      matchBracket_printAll items h, List.singleton_append, matchBracket_close, passed_append,
      passed_append, List.singleton_append, List.cons_append]

theorem matchBracket_printAll (items : List Item) (h : plainAll items = true) (depth : ℕ)
    (s : Text) :
    matchBracket depth (printAll items ++ s) = passed (printAll items) (matchBracket depth s) := by
  match items with
  | [] =>
    rw [printAll, List.nil_append]
    cases matchBracket depth s <;> rfl
  | item :: items =>
    rw [plainAll, Bool.and_eq_true] at h
    rw [printAll, List.append_assoc, matchBracket_print item h.1,
      matchBracket_printAll items h.2, passed_append]

end

mutual

theorem parse_print (item : Item) (h : item.plain = true) (s : Text) :
    parse (item.print ++ s) = item :: parse s := by
  match item with
  | .char c =>
    have hChar : c ≠ 40 ∧ c ≠ 41 := by simpa [Item.plain] using h
    exact parse_char fun hOpen => absurd hOpen hChar.1
  | .group items =>
    rw [Item.plain] at h
    have hMatch : matchBracket 0 (printAll items ++ 41 :: s) = some (printAll items, s) := by
      rw [matchBracket_printAll items h, matchBracket]
      simp [passed]
    rw [Item.print, List.cons_append, List.append_assoc, List.singleton_append,
      parse_group hMatch, parse_printAll items h]

/-- **What is printed** is taken apart again as it was. -/
theorem parse_printAll (items : List Item) (h : plainAll items = true) :
    parse (printAll items) = items := by
  match items with
  | [] => rw [printAll, parse]
  | item :: items =>
    rw [plainAll, Bool.and_eq_true] at h
    rw [printAll, parse_print item h.1, parse_printAll items h.2]

end

mutual

/-- **The loop** fills in the groups. -/
theorem substLoop_eq (before s : Text) (h : AllClean unknownTrack player (parse s)) :
    substLoop unknownTrack player (before ++ s) before.length =
      before ++ cellsText (cells unknownTrack player (parse s)) := by
  match s with
  | [] =>
    rw [List.append_nil, substLoop_end, parse]
    exact (List.append_nil before).symm
  | c :: s =>
    by_cases hGroup : c = 40 ∧ ∃ inner after, matchBracket 0 s = some (inner, after)
    · obtain ⟨rfl, inner, after, hMatch⟩ := hGroup
      have hLength := length_of_matchBracket hMatch
      rw [parse_group hMatch, AllClean, Item.Clean] at h
      obtain ⟨hInner, hAfter⟩ := h
      rw [substLoop_group before hMatch, parse_group hMatch, cells, Item.cell, cellsText,
        ← List.append_assoc, substDepthFirst_eq inner hInner true, if_pos rfl]
      exact substLoop_eq _ after hAfter
    · have hChar : c = 40 → matchBracket 0 s = none := by
        intro hOpen
        by_contra hSome
        obtain ⟨⟨inner, after⟩, hMatch⟩ := Option.ne_none_iff_exists'.1 hSome
        exact hGroup ⟨hOpen, inner, after, hMatch⟩
      rw [parse_char hChar, AllClean] at h
      rw [substLoop_char before hChar, parse_char hChar, cells, Item.cell, cellsText,
        substLoop_eq (before ++ [c]) s h.2, List.append_assoc, List.singleton_append]
termination_by (s.length, 0)

/-- **One level**, with all that is in it. -/
theorem substDepthFirst_eq (template : Text) (h : Clean unknownTrack player template)
    (inBrackets : Bool) :
    substDepthFirst unknownTrack player template inBrackets =
      if inBrackets then groupText unknownTrack player (cells unknownTrack player (parse template))
      else filled unknownTrack player template := by
  have hLoop : substLoop unknownTrack player template 0 = _ := substLoop_eq [] template h.2
  rw [substDepthFirst, hLoop, List.nil_append, replaceKeywords_eq h.1]
  cases inBrackets with
  | false => rfl
  | true =>
    rw [if_pos rfl, groupText]
    cases replaced player (tokens (cells unknownTrack player (parse template))) <;> rfl
termination_by (template.length, 1)

end

end Loop

/-! ## Templates and names without other percent signs -/

/-- A percent sign only where a keyword begins. -/
def plainTokens (ts : List (Token UInt16 Keyword)) : Bool :=
  ts.all fun
    | .text s => !s.contains 37
    | .word _ => true

/-- No name has a percent sign. -/
def PlainNames : Prop := ∀ k, 37 ∉ value unknownTrack player k

section Plain

variable {unknownTrack} {player}

theorem spell_eq (k : Keyword) : spell k = 37 :: (spell k).tail ∧ 37 ∉ (spell k).tail := by
  cases k <;> decide

theorem not_prefix_of_ne {j k : Keyword} (h : j ≠ k) (rest : Text) :
    ¬ spell k <+: spell j ++ rest := by
  intro hPrefix
  have hEither := List.prefix_or_prefix_of_prefix hPrefix (List.prefix_append (spell j) rest)
  revert h hEither
  cases j <;> cases k <;> decide

theorem levelClean_of_plain (hNames : PlainNames unknownTrack player)
    {cs : List (Cell UInt16)} (h : plainTokens (tokens cs) = true) :
    LevelClean unknownTrack player cs := by
  have hText : ∀ s, Token.text s ∈ tokens cs → 37 ∉ s := by
    intro s hMem
    simpa using List.all_eq_true.1 h _ hMem
  intro k _
  have hSpell : progress unknownTrack player (earlier k) k = spell k :=
    progress_of_not_mem (by cases k <;> decide)
  refine Template.onlyAt_of_mark (hSpell.trans (spell_eq k).1) hText (fun j _ hj => ?_)
    (spell_eq k).2
  rw [hSpell]
  have hEither : progress unknownTrack player (earlier k) j = spell j ∨
      progress unknownTrack player (earlier k) j = value unknownTrack player j := by
    unfold progress shown
    split_ifs <;> simp
  rcases hEither with hSame | hSame
  · rw [hSame]
    exact Or.inr ⟨(spell_eq j).2, not_prefix_of_ne hj⟩
  · rw [hSame]
    exact Or.inl (hNames j)

end Plain

/-! ## Templates that are filled in, and one that is not -/

section Filled

variable {unknownTrack} {player}

/-- **Where no keyword comes up but those of the template**, it is filled in. -/
theorem substDepthFirst_of_clean {template : Text} (h : Clean unknownTrack player template) :
    substDepthFirst unknownTrack player template false = filled unknownTrack player template :=
  substDepthFirst_eq template h false

theorem allClean_append (items rest : List Item) :
    AllClean unknownTrack player (items ++ rest) ↔
      AllClean unknownTrack player items ∧ AllClean unknownTrack player rest := by
  induction items with
  | nil => simp [AllClean]
  | cons item items ih => rw [List.cons_append, AllClean, AllClean, ih, and_assoc]

theorem allClean_chars (s : Text) : AllClean unknownTrack player (s.map .char) := by
  induction s with
  | nil => trivial
  | cons c s ih => exact ⟨trivial, ih⟩

end Filled

/-- A player that plays a song of a singer. -/
def song : NLMediaPlayer := ⟨latin1 "Player", latin1 "Song (live)", latin1 "Singer", []⟩

/-- The default of the configuration. -/
def perTrack : Text := latin1 "%track( by %artist)( on %album)"

def perTrackItems : List Item :=
  (latin1 "%track").map .char ++ [.group ((latin1 " by %artist").map .char),
    .group ((latin1 " on %album").map .char)]

theorem parse_perTrack : parse perTrack = perTrackItems := by
  have hPrint : perTrack = printAll perTrackItems := by decide +kernel
  rw [hPrint, parse_printAll perTrackItems (by decide +kernel)]

theorem clean_perTrack : Clean (latin1 "Unknown track") song perTrack := by
  have hNames : PlainNames (latin1 "Unknown track") song := by
    intro k
    cases k <;> decide +kernel
  rw [Clean, parse_perTrack, perTrackItems, allClean_append]
  exact ⟨levelClean_of_plain hNames (by decide +kernel), allClean_chars _,
    ⟨levelClean_of_plain hNames (by decide +kernel), allClean_chars _⟩,
    ⟨levelClean_of_plain hNames (by decide +kernel), allClean_chars _⟩, trivial⟩

/-- The default template, for a song without an album. -/
theorem substDepthFirst_perTrack :
    substDepthFirst (latin1 "Unknown track") song perTrack false =
      filled (latin1 "Unknown track") song perTrack :=
  substDepthFirst_of_clean clean_perTrack

theorem parse_chars {s : Text} (h : plainAll (s.map .char) = true) : parse s = s.map .char := by
  have hPrint : printAll (s.map .char) = s := by
    induction s with
    | nil => rfl
    | cons c s ih =>
      rw [List.map_cons, plainAll, Bool.and_eq_true] at h
      rw [List.map_cons, printAll, ih h.2]
      rfl
  have hParse := parse_printAll _ h
  rwa [hPrint] at hParse

theorem substDepthFirst_chars (unknownTrack : Text) (player : NLMediaPlayer) {s : Text}
    (h : plainAll (s.map .char) = true) :
    substDepthFirst unknownTrack player s false = (replaceKeywords unknownTrack player s).1 := by
  have hCells : cellsText (cells unknownTrack player (s.map .char)) = s := by
    clear h
    induction s with
    | nil => rfl
    | cons c s ih => rw [List.map_cons, cells, Item.cell, cellsText, ih]
  have hClean : AllClean unknownTrack player (parse s) := by
    rw [parse_chars h]
    exact allClean_chars s
  have hLoop : substLoop unknownTrack player s 0 = _ := substLoop_eq [] s hClean
  rw [substDepthFirst, hLoop, List.nil_append, parse_chars h, hCells]
  rfl

/-- A song, of a singer and on an album. -/
def songOf (track artist album : Text) : NLMediaPlayer := ⟨[], track, artist, album⟩

/-- A song that is named `%artist` gets the name of its artist. -/
theorem substDepthFirst_rescans :
    substDepthFirst [] (songOf (latin1 "%artist") (latin1 "Singer") []) (latin1 "%track") false =
        latin1 "Singer" ∧
      filled [] (songOf (latin1 "%artist") (latin1 "Singer") []) (latin1 "%track") ≠
        latin1 "Singer" := by
  have hPlain : plainAll ((latin1 "%track").map .char) = true := by decide +kernel
  rw [substDepthFirst_chars _ _ hPlain, filled, parse_chars hPlain]
  decide +kernel

-- A keyword may come up and the text be right in the end: here the artist adds a percent sign
-- to the name of the song, and the album takes one away.
example :
    (replaceKeywords [] (songOf (latin1 "%artist%album") (latin1 "%artist%") (latin1 "album"))
      (latin1 "%track")).1 = latin1 "%artist%album" := by
  decide +kernel

end NowListeningPlugin
