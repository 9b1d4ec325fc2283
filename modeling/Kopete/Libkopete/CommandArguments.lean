import Kopete.Lib.Pattern
import Kopete.Libkopete.CommandHandler

/-!
# libkopete — the arguments of a command

The text behind the name of a command is taken apart into words and quoted phrases. What the
code returns are the first phrase, with its quotation marks, and all words of the whole text,
those of the phrases and their quotation marks among them: the section that is meant to be
what is left over begins before the first separator and ends behind the last one. A text
with no quotation marks is taken apart as it should; if there is nothing but white space in
it there are no arguments, and the first one is asked for all the same.

Main results:

* `parseArguments_eq` — what the code returns, for every text;
* `count_quote_le_one` — no word or phrase has two quotation marks;
* `parseArguments_iff` — the texts for which the code does what it should.
-/

namespace Kopete.CommandHandler

variable (w : CommandWorld)

/-! ## The code -/

/-- The quotation mark that is first, what is before it and what is behind it. -/
def splitAtQuote (s : CommandText) : Option (CommandText × CommandText) :=
  match s.dropWhile (· != '"') with
  | [] => none
  | _ :: t => some (s.takeWhile (· != '"'), t)

/-- `"(.*)"`, the shortest one of those that are first: what is before it, the phrase, and what
is behind it. -/
def quotedPhrase (s : CommandText) : Option (CommandText × CommandText × CommandText) :=
  (splitAtQuote s).bind fun (before, t) =>
    (splitAtQuote t).map fun (phrase, after) => (before, phrase, after)

theorem append_of_splitAtQuote {s before after : CommandText}
    (h : splitAtQuote s = some (before, after)) : before ++ '"' :: after = s := by
  unfold splitAtQuote at h
  split at h
  · cases h
  · next c t hDrop =>
    cases h
    have hc := List.head_dropWhile_not (p := (· != '"')) (l := s)
      (by rw [hDrop]; exact List.cons_ne_nil _ _)
    obtain rfl : c = '"' := by simpa only [hDrop, List.head_cons, bne_eq_false_iff_eq] using hc
    rw [← hDrop, List.takeWhile_append_dropWhile]

theorem append_of_quotedPhrase {s before phrase after : CommandText}
    (h : quotedPhrase s = some (before, phrase, after)) :
    before ++ '"' :: (phrase ++ '"' :: after) = s := by
  obtain ⟨⟨before', t⟩, hFirst, hRest⟩ := Option.bind_eq_some_iff.1 h
  obtain ⟨⟨phrase', after'⟩, hSecond, hSame⟩ := Option.map_eq_some_iff.1 hRest
  cases hSame
  rw [append_of_splitAtQuote hSecond, append_of_splitAtQuote hFirst]

def quotedArgs : Pattern Char where
  indexIn s := (quotedPhrase s).map fun (before, phrase, after) =>
    (before, '"' :: (phrase ++ ['"']), after)
  append_of_indexIn := by
    intro s before found after h
    obtain ⟨⟨before', phrase, after'⟩, hPhrase, hSame⟩ := Option.map_eq_some_iff.1 h
    cases hSame
    rw [← append_of_quotedPhrase hPhrase, List.cons_append, List.append_assoc]
    rfl
  ne_nil_of_indexIn := by
    intro s before found after h
    obtain ⟨⟨before', phrase, after'⟩, -, hSame⟩ := Option.map_eq_some_iff.1 h
    cases hSame
    exact List.cons_ne_nil _ _

/-- `CommandHandler::parseArguments`. There is one capture in the expression, and the number of it
is the end of a loop that begins with the whole match. -/
def parseArguments (args : CommandText) : List CommandText :=
  let quoted := match quotedArgs.indexIn args with
    | none => []
    | some (_, found, _) => [found]
  let otherArgs := Pattern.skipEmptyParts
    ((Pattern.run w.isSpace).split (quotedArgs.textSection args 0 (-1)))
  quoted ++ otherArgs

/-- What `Command::processCommand` asks of the number of arguments, before it calls the slot. -/
def countAccepted (minArgs : Nat) (maxArgs : Int) (args : CommandText) : Bool :=
  let mArgs := parseArguments w args
  !(mArgs.length < minArgs) && !(-1 < maxArgs && maxArgs < mArgs.length)

/-- The limits with which the two commands are registered. -/
def helpAccepted (args : CommandText) : Bool := countAccepted w 0 1 args

def execAccepted (args : CommandText) : Bool := countAccepted w 1 (-1) args

inductive HelpTopic where
  | availableCommands
  | command (name : CommandText)
deriving DecidableEq, Repr

/-- `CommandHandler::slotHelpCommand`: what there is help about; `none` if it takes the first
argument and there is none. -/
def slotHelpCommand (args : CommandText) : Option HelpTopic :=
  if args.isEmpty then some .availableCommands
  else (parseArguments w args).head?.map fun arg => .command (w.toLower arg)

/-- What is run by the shell, and whether the others get to see what comes out. -/
structure ExecProcess where
  outbound : Bool
  shell : CommandText
deriving DecidableEq, Repr

/-- `CommandHandler::slotExecCommand`, where the outer `none` is as for the help, and the inner one
is that nothing is run. -/
def slotExecCommand (shellAccess : Bool) (args : CommandText) : Option (Option ExecProcess) :=
  if args.isEmpty ∨ shellAccess = false then some none
  else (parseArguments w args).head?.map fun arg =>
    if arg = ['-', 'o'] then
      some ⟨true, (Pattern.run w.isSpace).textSection args 1 (-1)⟩
    else some ⟨false, args⟩

/-! ## Words and phrases -/

/-- The parts between white space. -/
def words (s : CommandText) : List CommandText :=
  (s.splitOnP w.isSpace).filter (!·.isEmpty)

theorem length_lt_of_quotedPhrase {s before phrase after : CommandText}
    (h : quotedPhrase s = some (before, phrase, after)) : after.length < s.length := by
  rw [← append_of_quotedPhrase h]
  simp only [List.length_append, List.length_cons]
  omega

/-- The words and the quoted phrases, in order and without the marks. A quotation mark with no
other one behind it is a letter like any other. -/
def wordsAndPhrases (s : CommandText) : List CommandText :=
  match h : quotedPhrase s with
  | none => words w s
  | some (before, phrase, after) =>
    have := length_lt_of_quotedPhrase h
    words w before ++ phrase :: wordsAndPhrases after
termination_by s.length

/-- What is asked of the two: the words and the phrases, and a first one where it is taken. -/
def ReadsArguments (shellAccess : Bool) (args : CommandText) : Prop :=
  parseArguments w args = wordsAndPhrases w args ∧
    (helpAccepted w args = true → slotHelpCommand w args ≠ none) ∧
    (execAccepted w args = true → slotExecCommand w shellAccess args ≠ none)

/-! ## Quotation marks -/

theorem splitAtQuote_eq_none {s : CommandText} (h : splitAtQuote s = none) : '"' ∉ s := by
  unfold splitAtQuote at h
  split at h
  · next hDrop =>
    intro hMem
    simpa using List.dropWhile_eq_nil_iff.1 hDrop '"' hMem
  · cases h

theorem not_mem_of_splitAtQuote {s before after : CommandText}
    (h : splitAtQuote s = some (before, after)) : '"' ∉ before := by
  unfold splitAtQuote at h
  split at h
  · cases h
  · cases h
    intro hMem
    simpa using List.mem_takeWhile_imp hMem

theorem not_mem_of_quotedPhrase {s before phrase after : CommandText}
    (h : quotedPhrase s = some (before, phrase, after)) : '"' ∉ before ∧ '"' ∉ phrase := by
  obtain ⟨⟨before', t⟩, hFirst, hRest⟩ := Option.bind_eq_some_iff.1 h
  obtain ⟨⟨phrase', after'⟩, hSecond, hSame⟩ := Option.map_eq_some_iff.1 hRest
  cases hSame
  exact ⟨not_mem_of_splitAtQuote hFirst, not_mem_of_splitAtQuote hSecond⟩

/-- There is a phrase where there are two quotation marks. -/
theorem quotedPhrase_eq_none_iff (s : CommandText) :
    quotedPhrase s = none ↔ s.count '"' ≤ 1 := by
  cases hFirst : splitAtQuote s with
  | none =>
    have hCount : s.count '"' = 0 := List.count_eq_zero.2 (splitAtQuote_eq_none hFirst)
    rw [quotedPhrase, hFirst, Option.bind_none, hCount]
    exact iff_of_true rfl (Nat.zero_le 1)
  | some o =>
    obtain ⟨before, t⟩ := o
    have hBefore : before.count '"' = 0 := List.count_eq_zero.2 (not_mem_of_splitAtQuote hFirst)
    have hCount : s.count '"' = t.count '"' + 1 := by
      rw [← append_of_splitAtQuote hFirst, List.count_append, hBefore, List.count_cons_self,
        Nat.zero_add]
    rw [quotedPhrase, hFirst, Option.bind_some, Option.map_eq_none_iff, hCount]
    cases hSecond : splitAtQuote t with
    | none =>
      rw [List.count_eq_zero.2 (splitAtQuote_eq_none hSecond)]
      exact iff_of_true rfl (Nat.le_refl 1)
    | some o =>
      obtain ⟨phrase, after⟩ := o
      refine iff_of_false (Option.some_ne_none _) ?_
      rw [← append_of_splitAtQuote hSecond, List.count_append, List.count_cons_self]
      omega

theorem sublist_of_mem_splitOnP {p : Char → Bool} {s : CommandText} :
    ∀ word ∈ s.splitOnP p, word.Sublist s := by
  induction s with
  | nil => simp
  | cons c s ih =>
    intro word hWord
    rw [List.splitOnP_cons_eq_if_modifyHead] at hWord
    split at hWord
    · rcases List.mem_cons.1 hWord with rfl | hRest
      · exact List.nil_sublist _
      · exact (ih word hRest).cons c
    · cases hSplit : s.splitOnP p with
      | nil => exact absurd hSplit (List.splitOnP_ne_nil p s)
      | cons first rest =>
        rw [hSplit] at hWord ih
        rcases List.mem_cons.1 hWord with rfl | hRest
        · exact (ih first List.mem_cons_self).cons_cons c
        · exact (ih word (List.mem_cons_of_mem _ hRest)).cons c

theorem count_le_of_mem_words {s : CommandText} {word : CommandText} (h : word ∈ words w s) :
    word.count '"' ≤ s.count '"' :=
  (sublist_of_mem_splitOnP word (List.mem_filter.1 h).1).count_le '"'

/-- **No word or phrase has two quotation marks.** -/
theorem count_quote_le_one (s : CommandText) :
    ∀ arg ∈ wordsAndPhrases w s, arg.count '"' ≤ 1 := by
  fun_induction wordsAndPhrases w s with
  | case1 s hNone =>
    intro arg hArg
    exact (count_le_of_mem_words w hArg).trans ((quotedPhrase_eq_none_iff s).1 hNone)
  | case2 s before phrase after hSome _ ih =>
    obtain ⟨hBefore, hPhrase⟩ := not_mem_of_quotedPhrase hSome
    intro arg hArg
    rcases List.mem_append.1 hArg with hWord | hRest
    · have hCount := count_le_of_mem_words w hWord
      rw [List.count_eq_zero.2 hBefore] at hCount
      exact hCount.trans (Nat.zero_le 1)
    · rcases List.mem_cons.1 hRest with rfl | hAfter
      · exact (List.count_eq_zero.2 hPhrase).le.trans (Nat.zero_le 1)
      · exact ih arg hAfter

/-! ## What the code returns -/

/-- **The first phrase with its marks, and all words of the text.** -/
theorem parseArguments_eq (args : CommandText) :
    parseArguments w args =
      ((quotedPhrase args).map fun (_, phrase, _) => '"' :: (phrase ++ ['"'])).toList ++
        words w args := by
  rw [parseArguments, Pattern.textSection_zero, Pattern.filter_split_run]
  cases hPhrase : quotedPhrase args with
  | none => simp only [quotedArgs, hPhrase]; rfl
  | some o => simp only [quotedArgs, hPhrase]; rfl

theorem words_eq_nil_iff (s : CommandText) :
    words w s = [] ↔ ∀ c ∈ s, w.isSpace c = true := by
  induction s with
  | nil => exact iff_of_true rfl fun c hc => nomatch hc
  | cons c s ih =>
    rw [List.forall_mem_cons, words, List.splitOnP_cons_eq_if_modifyHead]
    by_cases hc : w.isSpace c = true
    · rw [if_pos hc, and_iff_right hc]
      exact ih
    · rw [if_neg hc]
      refine iff_of_false ?_ fun h => hc h.1
      cases hSplit : s.splitOnP w.isSpace with
      | nil => exact absurd hSplit (List.splitOnP_ne_nil _ s)
      | cons first rest => exact List.cons_ne_nil _ _

theorem slotHelpCommand_eq_none_iff (args : CommandText) :
    slotHelpCommand w args = none ↔ args ≠ [] ∧ parseArguments w args = [] := by
  cases args with
  | nil => simp [slotHelpCommand]
  | cons c args =>
    rw [slotHelpCommand, if_neg (by simp), Option.map_eq_none_iff, List.head?_eq_none_iff]
    exact (and_iff_right (List.cons_ne_nil _ _)).symm

theorem slotExecCommand_ne_none (shellAccess : Bool) {args : CommandText}
    (h : parseArguments w args ≠ []) : slotExecCommand w shellAccess args ≠ none := by
  rw [slotExecCommand]
  split
  · exact Option.some_ne_none _
  · rwa [Ne, Option.map_eq_none_iff, List.head?_eq_none_iff]

theorem parseArguments_of_count {args : CommandText} (h : args.count '"' ≤ 1) :
    parseArguments w args = words w args := by
  rw [parseArguments_eq, (quotedPhrase_eq_none_iff args).2 h]
  rfl

/-- A phrase is returned with its marks, which no word and no phrase has both of. -/
theorem parseArguments_eq_wordsAndPhrases_iff (args : CommandText) :
    parseArguments w args = wordsAndPhrases w args ↔ args.count '"' ≤ 1 := by
  rw [← quotedPhrase_eq_none_iff]
  constructor
  · intro hRead
    cases hPhrase : quotedPhrase args with
    | none => rfl
    | some o =>
      obtain ⟨before, phrase, after⟩ := o
      have hFirst : '"' :: (phrase ++ ['"']) ∈ wordsAndPhrases w args := by
        rw [← hRead, parseArguments_eq, hPhrase]
        exact List.mem_cons_self
      have hCount := count_quote_le_one w args _ hFirst
      rw [List.count_cons_self, List.count_append, List.count_singleton_self] at hCount
      omega
  · intro hNoPhrase
    rw [parseArguments_of_count w ((quotedPhrase_eq_none_iff args).1 hNoPhrase), wordsAndPhrases]
    split
    · rfl
    · next hPhrase => rw [hNoPhrase] at hPhrase; cases hPhrase

/-- **The texts for which the code does what it should**: no phrase is quoted, and if there is
something it is not all white space. -/
theorem parseArguments_iff (shellAccess : Bool) (args : CommandText) :
    ReadsArguments w shellAccess args ↔
      args.count '"' ≤ 1 ∧ (args = [] ∨ ∃ c ∈ args, w.isSpace c = false) := by
  constructor
  · rintro ⟨hRead, hHelp, -⟩
    have hCount := (parseArguments_eq_wordsAndPhrases_iff w args).1 hRead
    refine ⟨hCount, ?_⟩
    by_contra hBlank
    obtain ⟨hNe, hAll⟩ := not_or.1 hBlank
    have hNone : parseArguments w args = [] := by
      rw [parseArguments_of_count w hCount]
      refine (words_eq_nil_iff w args).2 fun c hc => ?_
      by_contra hc'
      exact hAll ⟨c, hc, by simpa using hc'⟩
    have hAccepted : helpAccepted w args = true := by
      rw [helpAccepted, countAccepted, hNone]
      rfl
    exact hHelp hAccepted ((slotHelpCommand_eq_none_iff w args).2 ⟨hNe, hNone⟩)
  · rintro ⟨hCount, hSome⟩
    have hRead := (parseArguments_eq_wordsAndPhrases_iff w args).2 hCount
    refine ⟨hRead, fun _ hNone => ?_, fun hAccepted => ?_⟩
    · obtain ⟨hNe, hEmpty⟩ := (slotHelpCommand_eq_none_iff w args).1 hNone
      obtain ⟨c, hc, hLetter⟩ := hSome.resolve_left hNe
      rw [parseArguments_of_count w hCount] at hEmpty
      have hSpace := (words_eq_nil_iff w args).1 hEmpty c hc
      rw [hLetter] at hSpace
      cases hSpace
    · refine slotExecCommand_ne_none w shellAccess fun hNone => ?_
      rw [execAccepted, countAccepted, hNone] at hAccepted
      cases hAccepted

/-- `/help "a b" c`. -/
theorem parseArguments_quoted :
    ¬ ReadsArguments ascii true ['"', 'a', ' ', 'b', '"', ' ', 'c'] := by
  rintro ⟨hRead, -⟩
  have hFirst : ['"', 'a', ' ', 'b', '"'] ∈
      wordsAndPhrases ascii ['"', 'a', ' ', 'b', '"', ' ', 'c'] := by
    rw [← hRead, parseArguments_eq]
    exact List.mem_cons_self
  have hCount := count_quote_le_one ascii _ _ hFirst
  revert hCount
  decide

end Kopete.CommandHandler
