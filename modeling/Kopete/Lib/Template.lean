import Kopete.Lib.Replace
import Mathlib

/-!
# Templates

A template is a text with keywords. It is filled in by putting a text in the place of each
keyword; what is put in is not looked at. Where the keywords are replaced one after the
other instead, over the whole text, this comes to the same as long as no keyword occurs
anywhere else when its turn comes.

Main results:

* `fill_lex` — the keywords of a template, as they are spelled, are in the template;
* `replaceAll_fill` — replacing one keyword everywhere fills it in, where it is `OnlyAt` its
  own places;
* `onlyAt_of_mark` — it is, if the sign that keywords begin with is used for nothing else;
* `replaceLoop_fill` — the same for keywords with an argument, looked for in a loop;
* `foldlM_fill` — and for one step after the other;
* `onlyBehind_of_check` — where keywords occur can be decided.
-/

namespace Template

variable {α K : Type*}

/-- A template, cut at its keywords. -/
inductive Token (α K : Type*) where
  | text (s : List α)
  | word (k : K)

/-- What stands for a token, with something in the place of each keyword. -/
def single (f : K → List α) : Token α K → List α
  | .text s => s
  | .word k => f k

/-- The template, filled in. -/
def fill (f : K → List α) (ts : List (Token α K)) : List α := ts.flatMap (single f)

@[simp] theorem fill_nil (f : K → List α) : fill f ([] : List (Token α K)) = [] := rfl

theorem fill_cons (f : K → List α) (t : Token α K) (ts : List (Token α K)) :
    fill f (t :: ts) = single f t ++ fill f ts :=
  List.flatMap_cons

theorem fill_append (f : K → List α) (ts us : List (Token α K)) :
    fill f (ts ++ us) = fill f ts ++ fill f us :=
  List.flatMap_append

theorem fill_congr {f g : K → List α} {ts : List (Token α K)}
    (h : ∀ k, Token.word k ∈ ts → f k = g k) : fill f ts = fill g ts := by
  induction ts with
  | nil => rfl
  | cons t ts ih =>
    have hRest := ih fun k hMem => h k (List.mem_cons_of_mem _ hMem)
    rw [fill_cons, fill_cons, hRest]
    cases t with
    | text s => rfl
    | word k => rw [single, single, h k List.mem_cons_self]

/-! ## Cutting -/

/-- A place of a template, or a text that is there already. -/
inductive Cell (α : Type*) where
  | direct (c : α)
  | inner (s : List α)

/-- The text of the cells. -/
def cellsText : List (Cell α) → List α
  | [] => []
  | .direct c :: cs => c :: cellsText cs
  | .inner s :: cs => s ++ cellsText cs

/-- What stands in the template up to the next text that is there already. -/
def run : List (Cell α) → List α
  | .direct c :: cs => c :: run cs
  | _ => []

section Lex

variable (spell : K → List α) (find : List α → Option K)

/-- From the left, the keywords, found where they begin; of the last one `n` places are left
to pass over. -/
def lexFrom : ℕ → List (Cell α) → List (Token α K)
  | _, [] => []
  | n + 1, _ :: cs => lexFrom n cs
  | 0, .inner s :: cs => .text s :: lexFrom 0 cs
  | 0, .direct c :: cs =>
    match find (c :: run cs) with
    | some k => .word k :: lexFrom ((spell k).length - 1) cs
    | none => .text [c] :: lexFrom 0 cs

def lex (cs : List (Cell α)) : List (Token α K) := lexFrom spell find 0 cs

variable {spell find}

theorem cellsText_of_prefix_run {w : List α} {cs : List (Cell α)} (h : w <+: run cs) :
    cellsText cs = w ++ cellsText (cs.drop w.length) := by
  induction w generalizing cs with
  | nil => rfl
  | cons c w ih =>
    match cs with
    | [] => exact absurd (List.prefix_nil.1 h) (List.cons_ne_nil c w)
    | .inner s :: cs => exact absurd (List.prefix_nil.1 h) (List.cons_ne_nil c w)
    | .direct d :: cs =>
      obtain ⟨rfl, hRest⟩ := List.cons_prefix_cons.1 h
      rw [cellsText, ih hRest]
      rfl

theorem lexFrom_drop (n : ℕ) (cs : List (Cell α)) :
    lexFrom spell find n cs = lexFrom spell find 0 (cs.drop n) := by
  induction n generalizing cs with
  | zero => rfl
  | succ n ih =>
    cases cs with
    | nil => rfl
    | cons c cs => exact ih cs

/-- **As they are spelled**, the keywords make the template again. -/
theorem fill_lex (hFind : ∀ {s k}, find s = some k → spell k <+: s ∧ spell k ≠ [])
    (cs : List (Cell α)) : fill spell (lex spell find cs) = cellsText cs := by
  match cs with
  | [] => rfl
  | .inner s :: cs =>
    rw [lex, lexFrom, fill_cons, cellsText]
    exact congrArg (s ++ ·) (fill_lex hFind cs)
  | .direct c :: cs =>
    have hRest : ∀ n, fill spell (lexFrom spell find n cs) = cellsText (cs.drop n) := by
      intro n
      rw [lexFrom_drop]
      exact fill_lex hFind (cs.drop n)
    rw [lex, lexFrom]
    split
    · next k hSome =>
      obtain ⟨hPrefix, hSpell⟩ := hFind hSome
      obtain ⟨d, w, hWord⟩ := List.exists_cons_of_ne_nil hSpell
      rw [hWord] at hPrefix
      obtain ⟨rfl, hTail⟩ := List.cons_prefix_cons.1 hPrefix
      rw [fill_cons, single, hRest, hWord, cellsText, cellsText_of_prefix_run hTail]
      rfl
    · exact congrArg (c :: ·) (hRest 0)
termination_by cs.length
decreasing_by
  all_goals simp only [List.length_drop, List.length_cons]; omega

end Lex

/-! ## One keyword after the other -/

/-- The keyword occurs only in its own places. -/
def OnlyAt (f : K → List α) (k : K) (ts : List (Token α K)) : Prop :=
  ∀ a b, fill f ts = a ++ (f k ++ b) → ∃ us vs, ts = us ++ .word k :: vs ∧ fill f us = a

variable {f : K → List α} {k : K} {t : Token α K} {ts : List (Token α K)}

theorem OnlyAt.tail (hWord : f k ≠ []) (h : OnlyAt f k (t :: ts)) : OnlyAt f k ts := by
  intro a b hText
  have hAll : fill f (t :: ts) = (single f t ++ a) ++ (f k ++ b) := by
    rw [fill_cons, hText, List.append_assoc]
  obtain ⟨us, vs, hTokens, hBefore⟩ := h _ _ hAll
  match us with
  | [] =>
    obtain ⟨rfl, -⟩ := List.cons.inj hTokens
    have hNone := List.append_eq_nil_iff.1 hBefore.symm
    exact absurd hNone.1 hWord
  | u :: us =>
    obtain ⟨rfl, hRest⟩ := List.cons.inj hTokens
    rw [fill_cons] at hBefore
    exact ⟨us, vs, hRest, List.append_cancel_left hBefore⟩

/-- Where no occurrence begins, nothing is replaced. -/
theorem replaceAll_append_of_none [DecidableEq α] {p v s t : List α}
    (h : ∀ a b, s ++ t = a ++ (p ++ b) → s.length ≤ a.length) :
    Replace.replaceAll p v (s ++ t) = s ++ Replace.replaceAll p v t := by
  induction s with
  | nil => rfl
  | cons c s ih =>
    have hNot : ¬ p <+: c :: (s ++ t) := by
      rintro ⟨b, hb⟩
      exact absurd (h [] b hb.symm) (Nat.not_succ_le_zero _)
    rw [List.cons_append, Replace.replaceAll_cons hNot, ih]
    · rfl
    · intro a b hText
      have hLength := h (c :: a) b (by rw [List.cons_append, hText, List.cons_append])
      exact Nat.le_of_succ_le_succ hLength

/-- No occurrence begins in a token of another kind. -/
theorem OnlyAt.length_le (hToken : t ≠ .word k) (h : OnlyAt f k (t :: ts)) {a b : List α}
    (hText : single f t ++ fill f ts = a ++ (f k ++ b)) : (single f t).length ≤ a.length := by
  obtain ⟨us, vs, hTokens, hBefore⟩ := h a b (by rw [fill_cons, hText])
  match us with
  | [] => exact absurd (List.cons.inj hTokens).1 hToken
  | u :: us =>
    obtain ⟨rfl, -⟩ := List.cons.inj hTokens
    rw [fill_cons] at hBefore
    rw [← hBefore, List.length_append]
    exact Nat.le_add_right _ _

/-- **One keyword** that occurs only in its own places is filled in. -/
theorem replaceAll_fill [DecidableEq α] [DecidableEq K] (hWord : f k ≠ []) (v : List α)
    (h : OnlyAt f k ts) :
    Replace.replaceAll (f k) v (fill f ts) = fill (Function.update f k v) ts := by
  induction ts with
  | nil => rfl
  | cons t ts ih =>
    have hRest := ih (h.tail hWord)
    rw [fill_cons, fill_cons, ← hRest]
    by_cases hToken : t = .word k
    · subst hToken
      rw [single, single, Function.update_self]
      exact Replace.replaceAll_append hWord (fill f ts)
    · have hSame : single (Function.update f k v) t = single f t := by
        cases t with
        | text s => rfl
        | word j =>
          have hOther : j ≠ k := fun hj => hToken (congrArg Token.word hj)
          exact Function.update_of_ne hOther v f
      rw [hSame]
      exact replaceAll_append_of_none fun a b hText => h.length_le hToken hText

/-- The keyword is in the text if it is in the template. -/
theorem OnlyAt.infix_iff (h : OnlyAt f k ts) : f k <:+: fill f ts ↔ .word k ∈ ts := by
  constructor
  · rintro ⟨a, b, hText⟩
    obtain ⟨us, vs, rfl, -⟩ := h a b (by rw [← hText, List.append_assoc])
    exact List.mem_append_right _ List.mem_cons_self
  · intro hMem
    obtain ⟨us, vs, rfl⟩ := List.append_of_mem hMem
    rw [fill_append, fill_cons]
    exact ⟨fill f us, fill f vs, by rw [single, List.append_assoc]⟩

/-- A keyword begins with a mark. Where the mark is in no text, and else only at the beginning
of keywords that are spelled in another way, the keyword occurs only in its own places. -/
theorem onlyAt_of_mark {m : α} {w : List α} (hWord : f k = m :: w)
    (hText : ∀ s, Token.text s ∈ ts → m ∉ s)
    (hOther : ∀ j, Token.word j ∈ ts → j ≠ k → m ∉ f j ∨
      m ∉ (f j).tail ∧ ∀ rest, ¬ f k <+: f j ++ rest)
    (hSelf : m ∉ w) : OnlyAt f k ts := by
  induction ts with
  | nil =>
    intro a b h
    rw [hWord] at h
    exact absurd (congrArg List.length h) (by simp)
  | cons t ts ih =>
    have hRest := ih (fun s hs => hText s (List.mem_cons_of_mem _ hs))
      (fun j hj => hOther j (List.mem_cons_of_mem _ hj))
    intro a b h
    rw [fill_cons] at h
    rcases List.append_eq_append_iff.1 h with ⟨a', hBefore, hLater⟩ | ⟨c, hHere, hBehind⟩
    · obtain ⟨us, vs, rfl, hUs⟩ := hRest a' b hLater
      exact ⟨t :: us, vs, rfl, by rw [fill_cons, hUs, hBefore]⟩
    · cases c with
      | nil =>
        rw [List.nil_append] at hBehind
        obtain ⟨us, vs, rfl, hUs⟩ := hRest [] b hBehind.symm
        exact ⟨t :: us, vs, rfl, by rw [fill_cons, hUs, hHere, List.append_nil, List.append_nil]⟩
      | cons d c =>
        rw [hWord, List.cons_append] at hBehind
        obtain ⟨rfl, -⟩ := List.cons.inj hBehind
        -- the mark is in this token: it is the beginning of a keyword
        have hFirst : m ∉ (single f t).tail → a = [] := by
          intro hTail
          cases a with
          | nil => rfl
          | cons d a =>
            rw [hHere] at hTail
            exact absurd (List.mem_append_right a List.mem_cons_self) hTail
        have hMem : m ∈ single f t := by
          rw [hHere]
          exact List.mem_append_right a List.mem_cons_self
        cases t with
        | text s => exact absurd hMem (hText s List.mem_cons_self)
        | word j =>
          by_cases hj : j = k
          · subst hj
            have hTail : m ∉ (single f (.word j : Token α K)).tail := by
              rw [single, hWord]
              exact hSelf
            exact ⟨[], ts, rfl, (hFirst hTail).symm⟩
          · rcases hOther j List.mem_cons_self hj with hNone | ⟨hTail, hDistinct⟩
            · exact absurd hMem hNone
            · rw [hFirst hTail] at h
              exact absurd ⟨b, h.symm⟩ (hDistinct (fill f ts))

/-! ## Keywords with an argument, in a loop -/

section Loop

variable {σ : Type*} (here : List α → Option K) (spell : K → List α)

/-- The first place where a keyword is found: what is before it, the keyword, and what is
behind it. -/
def indexIn : List α → Option (List α × K × List α)
  | [] => none
  | c :: s =>
    match here (c :: s) with
    | some k => some ([], k, (c :: s).drop (spell k).length)
    | none => (indexIn s).map fun (before, k, after) => (c :: before, k, after)

variable (value : σ → K → List α × σ)

/-- `while ((pos = regExp.indexIn(text, pos)) != -1)` around a replacement of what has been
found: the search goes on at the same place, with what has been put in. `none` if it has not
ended with this fuel. -/
def replaceLoop : ℕ → σ → List α → Option (List α)
  | 0, _, _ => none
  | fuel + 1, state, s =>
    match indexIn here spell s with
    | none => some s
    | some (before, k, after) =>
      (replaceLoop fuel (value state k).2 ((value state k).1 ++ after)).map (before ++ ·)

variable {here spell}

/-- Behind `s`, keywords are found only in their own places, and in `s` there is none. -/
def OnlyBehind (here : List α → Option K) (f : K → List α) (s : List α)
    (ts : List (Token α K)) : Prop :=
  ∀ a b k, s ++ fill f ts = a ++ b → here b = some k →
    ∃ us vs, ts = us ++ .word k :: vs ∧ s ++ fill f us = a

theorem indexIn_none {s : List α} (h : ∀ a b, s = a ++ b → here b = none) :
    indexIn here spell s = none := by
  induction s with
  | nil => rfl
  | cons c s ih =>
    have hRest := ih fun a b hText => h (c :: a) b (by rw [hText, List.cons_append])
    rw [indexIn, h [] _ rfl, hRest]
    rfl

/-- The first keyword, behind a text without one. -/
theorem indexIn_some {s t : List α} {k : K} (hWord : spell k ≠ [])
    (hNone : ∀ a b, s ++ (spell k ++ t) = a ++ b → a.length < s.length → here b = none)
    (hHere : here (spell k ++ t) = some k) :
    indexIn here spell (s ++ (spell k ++ t)) = some (s, k, t) := by
  induction s with
  | nil =>
    obtain ⟨c, w, hSpell⟩ := List.exists_cons_of_ne_nil hWord
    have hDrop : (spell k ++ t).drop (spell k).length = t := List.drop_left
    rw [hSpell, List.cons_append] at hHere hDrop
    rw [hSpell, List.nil_append, List.cons_append, indexIn, hHere]
    simp only [hSpell, hDrop]
  | cons c s ih =>
    have hHead : here (c :: (s ++ (spell k ++ t))) = none :=
      hNone [] _ rfl (Nat.succ_pos _)
    have hRest := ih fun a b hText hLength =>
      hNone (c :: a) b (by rw [List.cons_append, hText, List.cons_append])
        (Nat.succ_lt_succ hLength)
    rw [List.cons_append, indexIn, hHead, hRest]
    rfl

/-- Past a token that is not of the loop. -/
theorem OnlyBehind.tail {s : List α} (h : OnlyBehind here f s (t :: ts))
    (hToken : ∀ k, t = .word k → ∀ b, here b ≠ some k) :
    OnlyBehind here f (s ++ single f t) ts := by
  intro a b k hText hHere
  have hAll : s ++ fill f (t :: ts) = a ++ b := by
    rw [fill_cons, ← List.append_assoc, hText]
  obtain ⟨us, vs, hTokens, hBefore⟩ := h a b k hAll hHere
  match us with
  | [] => exact absurd hHere (hToken k (List.cons.inj hTokens).1 b)
  | u :: us =>
    obtain ⟨rfl, hRest⟩ := List.cons.inj hTokens
    rw [fill_cons, ← List.append_assoc] at hBefore
    exact ⟨us, vs, hRest, hBefore⟩

variable {value}

/-- **The loop** fills in the keywords with an argument, where they are found only in their
own places, now and behind what is put in. -/
theorem replaceLoop_fill {turn : K → Prop} [DecidablePred turn] {Inv : σ → Prop} {g : K → List α}
    (hTurn : ∀ {b k}, here b = some k → turn k)
    (hFound : ∀ k, turn k → f k = spell k ∧ spell k ≠ [] ∧ ∀ t, here (spell k ++ t) = some k)
    (hValue : ∀ k, .word k ∈ ts → turn k → ∀ state, Inv state →
      (value state k).1 = g k ∧ Inv (value state k).2)
    {s : List α} (h : OnlyBehind here f s ts)
    (hLater : ∀ us k vs, ts = us ++ .word k :: vs → turn k → OnlyBehind here f (g k) vs)
    {fuel : ℕ} (hFuel : ts.length < fuel) {state : σ} (hState : Inv state) :
    replaceLoop here spell value fuel state (s ++ fill f ts) =
      some (s ++ fill (fun k => if turn k then g k else f k) ts) := by
  induction ts generalizing s fuel state with
  | nil =>
    have hNone : indexIn here spell s = none := by
      refine indexIn_none fun a b hText => ?_
      by_contra hSome
      obtain ⟨k, hHere⟩ := Option.ne_none_iff_exists'.1 hSome
      obtain ⟨us, vs, hTokens, -⟩ := h a b k (by rw [fill_nil, List.append_nil, hText]) hHere
      exact absurd hTokens (by simp)
    obtain ⟨n, rfl⟩ := Nat.exists_eq_add_one_of_ne_zero (Nat.ne_of_gt hFuel)
    rw [fill_nil, fill_nil, List.append_nil, replaceLoop, hNone]
  | cons t ts ih =>
    have hRestLater : ∀ us k vs, ts = us ++ .word k :: vs → turn k →
        OnlyBehind here f (g k) vs :=
      fun us k vs hTokens => hLater (t :: us) k vs (by rw [hTokens, List.cons_append])
    have hRestValue := fun k (hMem : Token.word k ∈ ts) => hValue k (List.mem_cons_of_mem _ hMem)
    rw [List.length_cons] at hFuel
    by_cases hWord : ∃ k, t = .word k ∧ turn k
    · obtain ⟨k, rfl, hk⟩ := hWord
      obtain ⟨hSpell, hNe, hHere⟩ := hFound k hk
      obtain ⟨hSame, hNext⟩ := hValue k List.mem_cons_self hk state hState
      have hFind : indexIn here spell (s ++ (spell k ++ fill f ts)) = some (s, k, fill f ts) := by
        refine indexIn_some hNe (fun a b hText hLength => ?_) (hHere _)
        by_contra hSome
        obtain ⟨j, hj⟩ := Option.ne_none_iff_exists'.1 hSome
        obtain ⟨us, -, -, hBefore⟩ := h a b j (by rw [fill_cons, single, hSpell, hText]) hj
        rw [← hBefore, List.length_append] at hLength
        omega
      obtain ⟨n, rfl⟩ := Nat.exists_eq_add_one_of_ne_zero (Nat.ne_of_gt (Nat.zero_lt_of_lt hFuel))
      have hRest := ih hRestValue (hLater [] k ts rfl hk) hRestLater (Nat.lt_of_succ_lt_succ hFuel)
        hNext
      rw [fill_cons, fill_cons, single, single, hSpell, if_pos hk, replaceLoop, hFind]
      simp only [hSame, hRest, Option.map_some]
    · have hToken : ∀ k, t = .word k → ∀ b, here b ≠ some k :=
        fun k hk b hb => hWord ⟨k, hk, hTurn hb⟩
      have hSame : single (fun k => if turn k then g k else f k) t = single f t := by
        cases t with
        | text s => rfl
        | word j => exact if_neg fun hj => hWord ⟨j, rfl, hj⟩
      have hRest := ih hRestValue (h.tail hToken) hRestLater
        (Nat.lt_trans (Nat.lt_succ_self _) hFuel) hState
      rw [fill_cons, fill_cons, hSame, ← List.append_assoc, ← List.append_assoc, hRest]

end Loop

/-! ## Many steps -/

/-- **Step by step**: `progress` says what stands for the keywords behind some of the steps. -/
theorem foldlM_fill {S : Type*} {run : S → List α → Option (List α)}
    {progress : List S → K → List α} {steps : List S}
    (h : ∀ pre step post, steps = pre ++ step :: post →
      run step (fill (progress pre) ts) = some (fill (progress (pre ++ [step])) ts)) :
    steps.foldlM (fun s step => run step s) (fill (progress []) ts) =
      some (fill (progress steps) ts) := by
  have hFrom : ∀ pre post, steps = pre ++ post →
      post.foldlM (fun s step => run step s) (fill (progress pre) ts) =
        some (fill (progress steps) ts) := by
    intro pre post hSteps
    induction post generalizing pre with
    | nil =>
      rw [List.append_nil] at hSteps
      rw [hSteps]
      rfl
    | cons step post ih =>
      rw [List.foldlM_cons, h pre step post hSteps]
      exact ih (pre ++ [step]) (by rw [hSteps, List.append_assoc, List.singleton_append])
  exact hFrom [] steps rfl

/-! ## Deciding -/

section Check

variable {here : List α → Option K}

/-- No keyword is found in `s`, in front of `t`. -/
def noneIn (here : List α → Option K) : List α → List α → Bool
  | [], _ => true
  | c :: s, t => (here (c :: (s ++ t))).isNone && noneIn here s t

/-- Keywords are found in their own places only, looked for everywhere. -/
def onlyCheck [DecidableEq K] (here : List α → Option K) (f : K → List α) : List (Token α K) → Bool
  | [] => true
  | .text s :: ts => noneIn here s (fill f ts) && onlyCheck here f ts
  | .word k :: ts =>
    (if here (f k ++ fill f ts) = some k then noneIn here (f k).tail (fill f ts)
      else noneIn here (f k) (fill f ts)) && onlyCheck here f ts

theorem onlyCheck_tail [DecidableEq K] (h : onlyCheck here f (t :: ts) = true) :
    onlyCheck here f ts = true := by
  cases t <;> exact (Bool.and_eq_true_iff.1 h).2

theorem length_le_of_noneIn {s t a b : List α} {k : K} (hNone : noneIn here s t = true)
    (hText : s ++ t = a ++ b) (hHere : here b = some k) : s.length ≤ a.length := by
  induction s generalizing a with
  | nil => exact Nat.zero_le _
  | cons c s ih =>
    rw [noneIn, Bool.and_eq_true] at hNone
    cases a with
    | nil =>
      rw [List.nil_append] at hText
      rw [← hText, List.cons_append] at hHere
      rw [hHere] at hNone
      exact absurd hNone.1 (by simp)
    | cons d a =>
      exact Nat.succ_le_succ (ih hNone.2 (List.cons.inj hText).2)

/-- Behind what has been passed over, the rest of the text begins. -/
theorem exists_of_length_le {s t a b : List α} (hText : s ++ t = a ++ b)
    (hLength : s.length ≤ a.length) : ∃ a', a = s ++ a' ∧ t = a' ++ b := by
  rcases List.append_eq_append_iff.1 hText with ⟨a', rfl, rfl⟩ | ⟨c, rfl, rfl⟩
  · exact ⟨a', rfl, rfl⟩
  · have hc : c = [] := List.length_eq_zero_iff.1 (by rw [List.length_append] at hLength; omega)
    subst hc
    exact ⟨[], by simp, by simp⟩

/-- **The check is sound.** -/
theorem onlyBehind_of_check [DecidableEq K] (hNil : here [] = none) {s : List α}
    (hNone : noneIn here s (fill f ts) = true) (h : onlyCheck here f ts = true) :
    OnlyBehind here f s ts := by
  induction ts generalizing s with
  | nil =>
    intro a b k hText hHere
    obtain ⟨a', -, hEnd⟩ := exists_of_length_le hText (length_le_of_noneIn hNone hText hHere)
    obtain ⟨-, rfl⟩ := List.append_eq_nil_iff.1 hEnd.symm
    rw [hNil] at hHere
    cases hHere
  | cons t ts ih =>
    intro a b k hText hHere
    obtain ⟨a', rfl, hRest⟩ := exists_of_length_le hText (length_le_of_noneIn hNone hText hHere)
    rw [fill_cons] at hRest
    have hTail := onlyCheck_tail h
    -- past this token, or at the beginning of it
    have hEither : (single f t).length ≤ a'.length ∨ a' = [] ∧ t = .word k := by
      cases t with
      | text u => exact Or.inl (length_le_of_noneIn (Bool.and_eq_true_iff.1 h).1 hRest hHere)
      | word j =>
        have hFirst := (Bool.and_eq_true_iff.1 h).1
        split at hFirst
        · next hWord =>
          cases a' with
          | nil =>
            rw [List.nil_append, single] at hRest
            rw [hRest, hHere] at hWord
            exact Or.inr ⟨rfl, congrArg Token.word (Option.some.inj hWord).symm⟩
          | cons c a' =>
            cases hValue : f j with
            | nil => exact Or.inl (by rw [single, hValue]; exact Nat.zero_le _)
            | cons d w =>
              rw [single, hValue] at hRest
              rw [hValue] at hFirst
              have hLength := length_le_of_noneIn hFirst (List.cons.inj hRest).2 hHere
              exact Or.inl (by rw [single, hValue]; exact Nat.succ_le_succ hLength)
        · exact Or.inl (length_le_of_noneIn hFirst hRest hHere)
    rcases hEither with hLength | ⟨rfl, rfl⟩
    · obtain ⟨a'', rfl, hLater⟩ := exists_of_length_le hRest hLength
      have hNone' : noneIn here [] (fill f ts) = true := rfl
      obtain ⟨us, vs, rfl, hBefore⟩ := ih hNone' hTail a'' b k hLater hHere
      exact ⟨t :: us, vs, rfl, by rw [fill_cons, ← hBefore, List.nil_append]⟩
    · exact ⟨[], ts, rfl, by rw [fill_nil]⟩

/-- One keyword, as it is spelled. -/
def isHere [DecidableEq α] (f : K → List α) (k : K) (s : List α) : Option K :=
  if f k <+: s then some k else none

theorem onlyAt_of_check [DecidableEq α] [DecidableEq K] (hWord : f k ≠ [])
    (h : onlyCheck (isHere f k) f ts = true) : OnlyAt f k ts := by
  have hNil : isHere f k [] = none := if_neg fun hPrefix => hWord (List.prefix_nil.1 hPrefix)
  intro a b hText
  have hHere : isHere f k (f k ++ b) = some k := if_pos (List.prefix_append _ _)
  have hOnly : OnlyBehind (isHere f k) f [] ts := onlyBehind_of_check hNil rfl h
  exact hOnly a _ k hText hHere

end Check

end Template
