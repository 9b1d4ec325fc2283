import Kopete.Lib.Emission
import Kopete.History.MessagesLeft
import Mathlib

/-!
# History — reading all pages

Page after page is read until one is not full. Each pass through the loop takes the next part
of what is left, or goes on to the next month; a full page ends one call, and the next one goes
on where it stopped.

Main results:

* `right_turn_iff` — when a pass through the loop is right;
* `exists_reads` — reading comes to an end;
* `readsRight_iff` — when every message is read once, in order and with its time.
-/

namespace History.Reading

open Emission
open Html (latin1)

variable {μ : Type}

/-- The pages come to an end, and have every message on disk once, in order and with its time. -/
def ReadsRight (L : Logs μ) (sens : Sens) (n : Nat) : Prop :=
  ∃ pages fuel₀, (∀ fuel, fuel₀ ≤ fuel → readPages L sens n fuel (start L sens) = some pages) ∧
    Right L sens (fun c k => messagesOf (L.nodes c k)) pages.flatten

/-! ## Turns -/

/-- Where reading stands: the position, and how many messages are missing from the page. -/
structure State (μ : Type) where
  position : Position μ
  lines : Nat

section Turns

variable (L : Logs μ) (sens : Sens) (n : Nat)

/-- One pass through the loop, or the next call where the page is full. -/
def turn (s : State μ) : Option (List (Shown μ) × State μ) :=
  if s.lines = 0 then some ([], ⟨s.position, n⟩)
  else
    let ch := s.position.choice L sens
    match ch.current with
    | none => (s.position.nextMonth L sens).map fun p => ([], ⟨p, s.lines⟩)
    | some (c, ns) =>
      let r := stretch sens L.merging c s.position.currentMonth ch.timeLimit s.lines ch.timestamp ns
      some (r.1, ⟨s.position.resume c r.2, s.lines - r.1.length⟩)

/-- What is read next is a message and, of several contacts, the loop goes on with the one that
is read as it should. -/
def State.Fair (s : State μ) : Prop :=
  ∀ lines, s.lines = lines + 1 → ∀ c ns, (s.position.choice L sens).current = some (c, ns) →
    ∃ m rest, ns = .msg m :: rest ∧
      (L.merging = true → GoesOn sens (s.position.choice L sens).timeLimit lines rest)

/-- No contact has a message in a month that is not gone through. -/
def Logs.Covered : Prop :=
  ∀ c ∈ L.contacts, ∀ k : Int, ¬ (0 ≤ k ∧ k ≤ L.getFirstMonth) → messagesOf (L.nodes c k) = []

variable {L sens n} {p : Position μ}

/-- What a turn does: the next page, the next month, or a stretch of messages. -/
theorem turn_cases {s s' : State μ} {out : List (Shown μ)} (h : turn L sens n s = some (out, s')) :
    (s.lines = 0 ∧ out = [] ∧ s' = ⟨s.position, n⟩) ∨
      (∃ p, s.lines ≠ 0 ∧ (s.position.choice L sens).current = none ∧
        s.position.nextMonth L sens = some p ∧ out = [] ∧ s' = ⟨p, s.lines⟩) ∨
      ∃ lines c ns, s.lines = lines + 1 ∧ (s.position.choice L sens).current = some (c, ns) ∧
        let r := stretch sens L.merging c s.position.currentMonth
          (s.position.choice L sens).timeLimit (lines + 1) (s.position.choice L sens).timestamp ns
        out = r.1 ∧ s' = ⟨s.position.resume c r.2, lines + 1 - r.1.length⟩ := by
  unfold turn at h
  split at h
  · next hFull =>
    cases h
    exact .inl ⟨hFull, rfl, rfl⟩
  · next hMissing =>
    obtain ⟨lines, hLines⟩ := Nat.exists_eq_succ_of_ne_zero hMissing
    dsimp only at h
    split at h
    · next hNone =>
      obtain ⟨p, hMonth, hEq⟩ := Option.map_eq_some_iff.mp h
      cases hEq
      exact .inr (.inl ⟨p, hMissing, hNone, hMonth, rfl, rfl⟩)
    · next c ns hCurrent =>
      cases h
      rw [hLines]
      exact .inr (.inr ⟨lines, c, ns, rfl, hCurrent, rfl, rfl⟩)

theorem turn_eq_none {s : State μ} (h : turn L sens n s = none) :
    s.lines ≠ 0 ∧ (s.position.choice L sens).current = none ∧
      s.position.nextMonth L sens = none := by
  unfold turn at h
  split at h
  · cases h
  · next hMissing =>
    dsimp only at h
    split at h
    · next hNone => exact ⟨hMissing, hNone, Option.map_eq_none_iff.mp h⟩
    · cases h

theorem State.fair_iff {s : State μ} {lines : Nat} (hLines : s.lines = lines + 1) {c : Contact}
    {ns : List (Node μ)} (hCurrent : (s.position.choice L sens).current = some (c, ns)) :
    s.Fair L sens ↔ ∃ m rest, ns = .msg m :: rest ∧
      (L.merging = true → GoesOn sens (s.position.choice L sens).timeLimit lines rest) := by
  constructor
  · exact fun h => h lines hLines c ns hCurrent
  · intro h lines' hLines' c' ns' hCurrent'
    obtain rfl : lines = lines' := by omega
    obtain ⟨rfl, rfl⟩ := Prod.mk.inj (Option.some.inj (hCurrent.symm.trans hCurrent'))
    exact h

variable (L sens) in
/-- How much is left at most: months, nodes, and a page that has begun. -/
def State.left (s : State μ) : ℕ ×ₗ ℕ ×ₗ ℕ :=
  toLex (match sens with
      | .chronological => s.position.currentMonth
      | .antiChronological => L.getFirstMonth - s.position.currentMonth,
    toLex ((L.contacts.map fun c => (s.position.cursor L sens c).length).sum,
      if s.lines = 0 then 1 else 0))

/-- Fewer months are left. -/
theorem left_nextMonth {p' : Position μ} (h : p.nextMonth L sens = some p') (lines lines' : Nat) :
    State.left L sens ⟨p', lines'⟩ < State.left L sens ⟨p, lines⟩ := by
  refine Prod.Lex.toLex_lt_toLex.mpr (.inl ?_)
  cases sens with
  | chronological =>
    obtain ⟨hSome, rfl⟩ := nextMonth_chronological.mp h
    exact Nat.sub_one_lt hSome
  | antiChronological =>
    obtain ⟨hSome, rfl⟩ := nextMonth_antiChronological.mp h
    exact Nat.sub_succ_lt_self _ _ hSome

/-- Fewer nodes are left. -/
theorem left_resume {c : Contact} (hc : c ∈ L.contacts) {stop : List (Node μ)}
    (h : stop.length < (p.cursor L sens c).length) (lines lines' : Nat) :
    State.left L sens ⟨p.resume c stop, lines'⟩ < State.left L sens ⟨p, lines⟩ := by
  refine Prod.Lex.toLex_lt_toLex.mpr (.inr ⟨rfl, Prod.Lex.toLex_lt_toLex.mpr (.inl ?_)⟩)
  refine List.sum_lt_sum _ _ (fun d hd => ?_) ⟨c, hc, by rwa [Position.cursor_resume_self]⟩
  by_cases hSame : d = c
  · rw [hSame, Position.cursor_resume_self]
    exact Nat.le_of_lt h
  · rw [Position.cursor_resume_of_ne hSame]

/-- **A turn** keeps the cursors sound, and leaves less. -/
theorem turn_step (hSome : L.contacts ≠ []) (hn : 1 ≤ n) (hOrder : L.Chronological)
    {s s' : State μ} {out : List (Shown μ)} (hs : s.position.Sound L sens)
    (h : turn L sens n s = some (out, s')) :
    s'.position.Sound L sens ∧ s'.left L sens < s.left L sens := by
  obtain ⟨p, lines⟩ := s
  rcases turn_cases h with ⟨hFull, -, rfl⟩ | ⟨p', -, -, hMonth, -, rfl⟩ |
    ⟨lines', c, ns, rfl, hCurrent, -, rfl⟩
  · refine ⟨hs, Prod.Lex.toLex_lt_toLex.mpr (.inr ⟨rfl, Prod.Lex.toLex_lt_toLex.mpr
      (.inr ⟨rfl, ?_⟩)⟩)⟩
    dsimp only at hFull
    rw [if_neg (by dsimp only; omega), if_pos hFull]
    exact Nat.zero_lt_one
  · exact ⟨sound_nextMonth hOrder hs hMonth, left_nextMonth hMonth _ _⟩
  · rcases choice_cases hSome hs with ⟨hNone, -⟩ | ⟨d, m, rest, hCurrent', hPicked⟩ |
      ⟨d, hCurrent', hStray⟩
    · rw [hNone] at hCurrent
      cases hCurrent
    · obtain ⟨rfl, rfl⟩ := Prod.mk.inj (Option.some.inj (hCurrent'.symm.trans hCurrent))
      have hTaken := hPicked.taken (lines' + 1)
      obtain ⟨hStop, hLess⟩ := hPicked.stops lines'
      exact ⟨sound_resume hs hStop (hTaken.ordered_rest hs hPicked.mem),
        left_resume hPicked.mem hLess _ _⟩
    · obtain ⟨rfl, rfl⟩ := Prod.mk.inj (Option.some.inj (hCurrent'.symm.trans hCurrent))
      rw [hStray.choice.1, hStray.choice.2, hStray.not_merging, stretch_stray]
      refine ⟨sound_resume hs (.inl rfl) .nil, left_resume (by simp [hStray.single]) ?_ _ _⟩
      exact List.length_pos_iff.mpr hStray.cursor

/-- **A turn is right** where the state is fair, and what follows is. -/
theorem right_turn_iff (hSome : L.contacts ≠ []) {s s' : State μ} {out : List (Shown μ)}
    (hs : s.position.Sound L sens) (h : turn L sens n s = some (out, s')) (rest : List (Shown μ)) :
    Right L sens (s.position.todo L sens) (out ++ rest) ↔
      s.Fair L sens ∧ Right L sens (s'.position.todo L sens) rest := by
  rcases turn_cases h with ⟨hFull, rfl, rfl⟩ | ⟨p', -, hNone, hMonth, rfl, rfl⟩ |
    ⟨lines, c, ns, hLines, hCurrent, rfl, rfl⟩
  · have hFair : s.Fair L sens := fun lines hLines => by omega
    exact (and_iff_right hFair).symm
  · have hFair : s.Fair L sens := fun lines _ c ns hCurrent => by
      rw [hNone] at hCurrent
      cases hCurrent
    rw [and_iff_right hFair]
    exact Right.congr fun c hc k =>
      .of_eq (todo_nextMonth (empty_of_choice hSome hs hNone c hc) hMonth k)
  · rw [State.fair_iff hLines hCurrent]
    rcases choice_cases hSome hs with ⟨hNone, -⟩ | ⟨d, m, ns', hCurrent', hPicked⟩ |
      ⟨d, hCurrent', hStray⟩
    · rw [hNone] at hCurrent
      cases hCurrent
    · obtain ⟨rfl, rfl⟩ := Prod.mk.inj (Option.some.inj (hCurrent'.symm.trans hCurrent))
      rw [right_append_iff hs hPicked (hPicked.taken (lines + 1)), forall_fits_iff hPicked]
      refine and_congr_left fun _ => ⟨fun hGoes => ⟨m, ns', rfl, hGoes⟩, ?_⟩
      rintro ⟨m', rest', hHead, hGoes⟩
      cases hHead
      exact hGoes
    · obtain ⟨rfl, rfl⟩ := Prod.mk.inj (Option.some.inj (hCurrent'.symm.trans hCurrent))
      rw [hStray.choice.1, hStray.choice.2, hStray.not_merging, stretch_stray]
      refine iff_of_false (not_right_of_none List.mem_cons_self rfl) ?_
      rintro ⟨⟨m, rest', hHead, -⟩, -⟩
      cases hHead

/-- At the end nothing is left. -/
theorem right_end (hSome : L.contacts ≠ []) {s : State μ} (hs : s.position.Sound L sens)
    (h : turn L sens n s = none) : Right L sens (s.position.todo L sens) [] := by
  obtain ⟨-, hNone, hMonth⟩ := turn_eq_none h
  exact right_nil fun c hc k => todo_of_end (empty_of_choice hSome hs hNone c hc) hMonth k

end Turns

/-! ## Pages -/

section Pages

variable {L : Logs μ} {sens : Sens} {n : Nat} {p : Position μ}

/-- What the calls return from a state on, with enough fuel: the page that has begun, and the
ones behind it. -/
structure PagesFrom (L : Logs μ) (sens : Sens) (n fuel₀ : Nat) (s : State μ)
    (page : List (Shown μ)) (p : Position μ) (pages : List (List (Shown μ))) : Prop where
  loop : ∀ fuel, fuel₀ ≤ fuel → readLoop L sens fuel s.lines s.position = some (page, p)
  last : page.length < s.lines → pages = []
  more : ¬ page.length < s.lines → ∀ fuel, fuel₀ ≤ fuel → readPages L sens n fuel p = some pages

section Fuel

variable {s : State μ} {fuel₀ : Nat} {page : List (Shown μ)} {p' : Position μ}
  {pages : List (List (Shown μ))}

theorem exists_fuel {fuel : Nat} (h : fuel₀ + 1 ≤ fuel) : ∃ k, fuel = k + 1 ∧ fuel₀ ≤ k :=
  ⟨fuel - 1, by omega, by omega⟩

theorem pagesFrom_end (h : turn L sens n s = none) :
    PagesFrom L sens n 1 s [] s.position [] := by
  obtain ⟨hMissing, hNone, hMonth⟩ := turn_eq_none h
  refine ⟨fun fuel hFuel => ?_, fun _ => rfl,
    fun hFull => absurd (Nat.pos_of_ne_zero hMissing) hFull⟩
  obtain ⟨k, rfl, -⟩ := exists_fuel hFuel
  rw [readLoop, if_neg hMissing]
  simp only [hNone, hMonth]

/-- The call that goes on behind a full page. -/
theorem pagesFrom_full (hSome : L.contacts ≠ []) (hFull : s.lines = 0)
    (h : PagesFrom L sens n fuel₀ ⟨s.position, n⟩ page p' pages) :
    PagesFrom L sens n (fuel₀ + 1) s [] s.position (page :: pages) := by
  refine ⟨fun fuel hFuel => ?_, fun hMissing => ?_, fun _ fuel hFuel => ?_⟩
  · obtain ⟨k, rfl, -⟩ := exists_fuel hFuel
    rw [readLoop, if_pos hFull]
  · rw [hFull] at hMissing
    exact absurd hMissing (Nat.not_lt_zero _)
  · obtain ⟨k, rfl, hk⟩ := exists_fuel hFuel
    rw [readPages, readMessages, if_neg hSome, h.loop k hk]
    by_cases hLast : page.length < n
    · simp [hLast, h.last hLast]
    · simp [hLast, h.more hLast k hk]

theorem pagesFrom_month (hMissing : s.lines ≠ 0)
    (hNone : (s.position.choice L sens).current = none)
    (hMonth : s.position.nextMonth L sens = some p)
    (h : PagesFrom L sens n fuel₀ ⟨p, s.lines⟩ page p' pages) :
    PagesFrom L sens n (fuel₀ + 1) s page p' pages := by
  refine ⟨fun fuel hFuel => ?_, h.last, fun hFull fuel hFuel => h.more hFull fuel (by omega)⟩
  obtain ⟨k, rfl, hk⟩ := exists_fuel hFuel
  rw [readLoop, if_neg hMissing]
  simp only [hNone, hMonth, h.loop k hk]

theorem pagesFrom_stretch {lines : Nat} {c : Contact} {ns stop : List (Node μ)}
    {out : List (Shown μ)} (hLines : s.lines = lines + 1)
    (hCurrent : (s.position.choice L sens).current = some (c, ns))
    (hStretch : stretch sens L.merging c s.position.currentMonth
      (s.position.choice L sens).timeLimit (lines + 1) (s.position.choice L sens).timestamp ns =
        (out, stop))
    (h : PagesFrom L sens n fuel₀ ⟨s.position.resume c stop, lines + 1 - out.length⟩ page p'
      pages) :
    PagesFrom L sens n (fuel₀ + 1) s (out ++ page) p' pages := by
  have hLoop := h.loop
  have hLast := h.last
  have hMore := h.more
  dsimp only at hLoop hLast hMore
  have hShort : out.length ≤ lines + 1 := by
    have hLength := length_stretch_le sens L.merging c s.position.currentMonth
      (s.position.choice L sens).timeLimit (lines + 1) (s.position.choice L sens).timestamp ns
    rwa [hStretch] at hLength
  refine ⟨fun fuel hFuel => ?_, fun hMissing => hLast ?_, fun hFull fuel hFuel =>
    hMore ?_ fuel (by omega)⟩
  · obtain ⟨k, rfl, hk⟩ := exists_fuel hFuel
    rw [readLoop, hLines, if_neg (Nat.succ_ne_zero lines)]
    simp only [hCurrent, hStretch, hLoop k hk, Option.map_some]
  · rw [List.length_append, hLines] at hMissing
    omega
  · rw [List.length_append, hLines] at hFull
    omega

end Fuel

/-- **The calls** return what the turns give. -/
theorem exists_pages (hSome : L.contacts ≠ []) {s : State μ} {l : List (Shown μ)}
    (h : Emits (turn L sens n) s l) :
    ∃ fuel₀ page p pages, PagesFrom L sens n fuel₀ s page p pages ∧ page ++ pages.flatten = l := by
  induction h with
  | stop hEnd => exact ⟨1, [], _, [], pagesFrom_end hEnd, rfl⟩
  | step hNext _ ih =>
    obtain ⟨fuel₀, page, p, pages, hPages, rfl⟩ := ih
    rcases turn_cases hNext with ⟨hFull, rfl, rfl⟩ | ⟨p', hMissing, hNone, hMonth, rfl, rfl⟩ |
      ⟨lines, c, ns, hLines, hCurrent, rfl, rfl⟩
    · exact ⟨_, [], _, page :: pages, pagesFrom_full hSome hFull hPages, rfl⟩
    · exact ⟨_, page, p, pages, pagesFrom_month hMissing hNone hMonth hPages, rfl⟩
    · exact ⟨_, _, p, pages, pagesFrom_stretch hLines hCurrent rfl hPages,
        List.append_assoc ..⟩

variable (L sens) in
/-- Before the first call. -/
def first : State μ := ⟨start L sens, 0⟩

/-- **Reading comes to an end.** -/
theorem exists_reads (hSome : L.contacts ≠ []) (hn : 1 ≤ n) (hOrder : L.Chronological)
    (sens : Sens) : ∃ l, Emits (turn L sens n) (first L sens) l := by
  refine exists_emits (fun s => s.position.Sound L sens) (State.left L sens) ?_
    (sound_start hOrder)
  exact fun s s' out hs h => turn_step hSome hn hOrder hs h

/-- The months that are read are those from the first one to this one. -/
theorem month_le_of_emits (hSome : L.contacts ≠ []) (hn : 1 ≤ n) (hOrder : L.Chronological)
    {s : State μ} {l : List (Shown μ)} (hs : s.position.Sound L sens)
    (h : Emits (turn L sens n) s l) : ∀ e ∈ l, e.month ≤ L.getFirstMonth := by
  induction h with
  | stop => exact fun e he => by cases he
  | step hNext _ ih =>
    intro e he
    rcases List.mem_append.mp he with hOut | hRest
    · rcases turn_cases hNext with ⟨-, rfl, -⟩ | ⟨p', -, -, -, rfl, -⟩ |
        ⟨lines, c, ns, -, -, rfl, -⟩
      · cases hOut
      · cases hOut
      · rw [(stretch_here _ _ _ _ _ _ _ _ e hOut).2]
        exact hs.month_le
    · exact ih (turn_step hSome hn hOrder hs hNext).1 e hRest

/-- Where no month is missed, everything is left in the beginning. -/
theorem perm_todo_start (hCovered : L.Covered) {c : Contact} (hc : c ∈ L.contacts) (k : Int) :
    ((start L sens).todo L sens c k).Perm (messagesOf (L.nodes c k)) := by
  by_cases hRead : 0 ≤ k ∧ k ≤ L.getFirstMonth
  · rw [todo_start c hRead]
    exact perm_siblings c k
  · rw [todo_start_of_not c hRead, hCovered c hc k hRead]

/-- What is read is of the months that are gone through. -/
theorem covered_of_right {l : List (Shown μ)} (hMonths : ∀ e ∈ l, e.month ≤ L.getFirstMonth)
    (h : Right L sens (fun c k => messagesOf (L.nodes c k)) l) : L.Covered := by
  intro c hc k hOut
  have hNone : shownOf c k l = [] := by
    rw [shownOf, List.filter_eq_nil_iff.mpr, List.map_nil]
    intro e he hHere
    obtain ⟨-, rfl⟩ := of_decide_eq_true hHere
    have hMonth := hMonths e he
    exact hOut ⟨by omega, by omega⟩
  have hComplete := h.complete c hc k
  rw [hNone] at hComplete
  simpa using hComplete.symm.eq_nil

/-- The calls return what the turns give. -/
theorem readsRight_of_emits (hSome : L.contacts ≠ []) {l : List (Shown μ)}
    (h : Emits (turn L sens n) (first L sens) l) :
    ReadsRight L sens n ↔ Right L sens (fun c k => messagesOf (L.nodes c k)) l := by
  obtain ⟨fuel₀, page, p, pages, hPages, rfl⟩ := exists_pages hSome h
  obtain ⟨rfl, rfl⟩ : [] = page ∧ start L sens = p := by
    have hLoop := hPages.loop (fuel₀ + 1) (Nat.le_succ _)
    rw [readLoop, if_pos (show (first L sens).lines = 0 from rfl)] at hLoop
    exact Prod.mk.inj (Option.some.inj hLoop)
  have hMore := hPages.more (Nat.lt_irrefl _)
  constructor
  · rintro ⟨pages', fuel₁, hPages', hRight⟩
    have hSame := hPages' (max fuel₀ fuel₁) (Nat.le_max_right ..)
    rw [hMore _ (Nat.le_max_left ..)] at hSame
    rwa [Option.some.inj hSame]
  · exact fun hRight => ⟨pages, fuel₀, hMore, hRight⟩

theorem readsRight_iff_todo (hSome : L.contacts ≠ []) (hn : 1 ≤ n) (hOrder : L.Chronological)
    {l : List (Shown μ)} (h : Emits (turn L sens n) (first L sens) l) :
    ReadsRight L sens n ↔ L.Covered ∧ Right L sens ((start L sens).todo L sens) l := by
  rw [readsRight_of_emits hSome h]
  constructor
  · intro hRight
    have hCovered := covered_of_right
      (month_le_of_emits hSome hn hOrder (sound_start hOrder) h) hRight
    exact ⟨hCovered, (Right.congr fun c hc k => perm_todo_start hCovered hc k).mpr hRight⟩
  · rintro ⟨hCovered, hRight⟩
    exact (Right.congr fun c hc k => perm_todo_start hCovered hc k).mp hRight

theorem right_todo_iff (hSome : L.contacts ≠ []) (hn : 1 ≤ n) (hOrder : L.Chronological)
    {l : List (Shown μ)} (h : Emits (turn L sens n) (first L sens) l) :
    Right L sens ((start L sens).todo L sens) l ↔
      ∀ s, Passes (turn L sens n) (first L sens) s → s.Fair L sens := by
  refine emits_iff (fun s => s.position.Sound L sens)
    (fun s => Right L sens (s.position.todo L sens)) ?_ ?_ (sound_start hOrder) h
  · intro s hs hEnd
    refine ⟨right_end hSome hs hEnd, fun lines _ c ns hCurrent => ?_⟩
    rw [(turn_eq_none hEnd).2.1] at hCurrent
    cases hCurrent
  · exact fun s s' out hs hNext =>
      ⟨(turn_step hSome hn hOrder hs hNext).1, right_turn_iff hSome hs hNext⟩

/-- **Every message is read once, in order and with its time**, where no month is missed and
every state that is gone through is fair. -/
theorem readsRight_iff (hSome : L.contacts ≠ []) (hn : 1 ≤ n) (hOrder : L.Chronological) :
    ReadsRight L sens n ↔
      L.Covered ∧ ∀ s, Passes (turn L sens n) (first L sens) s → s.Fair L sens := by
  obtain ⟨l, hReads⟩ := exists_reads hSome hn hOrder sens
  rw [readsRight_iff_todo hSome hn hOrder hReads, right_todo_iff hSome hn hOrder hReads]

end Pages

/-! ## Two contacts within half a minute -/

def contact200 : Contact := ⟨latin1 "ICQProtocol", latin1 "100", latin1 "100", latin1 "200"⟩

def contact300 : Contact := ⟨latin1 "ICQProtocol", latin1 "100", latin1 "100", latin1 "300"⟩

/-- On the first day of a month, at ten. -/
def atTen (second : Fin 60) : Msg Unit := ⟨⟨1, 10, 0, some second⟩, ()⟩

/-- Contact 200 writes at 10:00:00 and 10:00:30, and contact 300 at 10:00:15. -/
def withinMinute : Logs Unit where
  today := ⟨⟨2024, 5, by decide, by decide⟩, 20, by decide, by decide⟩
  dataLocation := latin1 "/data"
  exists_ path := path = latin1 "/data/kopete/logs/ICQProtocol/100/200.202405.xml" ||
    path = latin1 "/data/kopete/logs/ICQProtocol/100/300.202405.xml"
  entryInfoList path :=
    if path = latin1 "/data/kopete/logs/ICQProtocol/100" then
      [latin1 "200.202405.xml", latin1 "300.202405.xml"]
    else []
  childNodes path :=
    if path = latin1 "/data/kopete/logs/ICQProtocol/100/200.202405.xml" then
      [.element, .msg (atTen 0), .msg (atTen 30)]
    else if path = latin1 "/data/kopete/logs/ICQProtocol/100/300.202405.xml" then
      [.element, .msg (atTen 15)]
    else []
  contacts := [contact200, contact300]
  nodup := by decide

theorem chronological_withinMinute : withinMinute.Chronological := by
  have hNodes : ∀ c k, messagesOf (withinMinute.nodes c k) = [atTen 0, atTen 30] ∨
      messagesOf (withinMinute.nodes c k) = [atTen 15] ∨
      messagesOf (withinMinute.nodes c k) = [] := by
    intro c k
    unfold Logs.nodes withinMinute
    dsimp only
    split
    · exact .inl rfl
    · split
      · exact .inr (.inl rfl)
      · exact .inr (.inr rfl)
  constructor
  · intro c _ k m hm
    have hDay : m.time.day = 1 := by
      rcases hNodes c k with h | h | h <;> rw [h] at hm
      · simp only [List.mem_cons, List.not_mem_nil, or_false] at hm
        rcases hm with rfl | rfl <;> rfl
      · rw [List.mem_singleton.mp hm]
        rfl
      · cases hm
    rw [hDay]
    exact ⟨Nat.le_refl 1, Nat.le_trans (by decide) (YearMonth.le_daysInMonth _)⟩
  · intro c _ k
    rcases hNodes c k with h | h | h <;> rw [h] <;> decide

theorem readsRight_withinMinute :
    ReadsRight withinMinute .chronological 5 ↔
      withinMinute.Covered ∧
        ∀ s, Passes (turn withinMinute .chronological 5) (first withinMinute .chronological) s →
          s.Fair withinMinute .chronological :=
  readsRight_iff (by decide) (by decide) chronological_withinMinute

/-- The message of 10:00:30 is given the time 10:00:00 and comes before the one of 10:00:15. -/
theorem misordered_withinMinute :
    withinMinute.contacts ≠ [] ∧ withinMinute.Chronological ∧
      ¬ ReadsRight withinMinute .chronological 5 := by
  refine ⟨by decide, chronological_withinMinute, fun hRight => ?_⟩
  obtain ⟨l, hReads⟩ := exists_reads (L := withinMinute) (n := 5) (by decide) (by decide)
    chronological_withinMinute .chronological
  have hTodo := ((readsRight_iff_todo (by decide) (by decide) chronological_withinMinute hReads).mp
    hRight).2
  have hPasses : Passes (turn withinMinute .chronological 5) (first withinMinute .chronological)
      ⟨start withinMinute .chronological, 5⟩ := Passes.head rfl (passes_self _)
  have hFair := (right_todo_iff (by decide) (by decide) chronological_withinMinute hReads).mp
    hTodo _ hPasses
  have hCurrent : ((start withinMinute .chronological).choice withinMinute .chronological).current =
      some (contact200, [.msg (atTen 0), .msg (atTen 30)]) := by decide
  obtain ⟨m, rest, hHead, hGoes⟩ := hFair 4 rfl contact200 _ hCurrent
  cases hHead
  have hWithin : within .chronological (atTen 30).time.nextDateTime
      ((start withinMinute .chronological).choice withinMinute .chronological).timeLimit = true := by
    decide
  have hSeconds := (hGoes (by decide) (atTen 30) [] rfl hWithin).1.1
  exact absurd hSeconds (by decide)

end History.Reading
