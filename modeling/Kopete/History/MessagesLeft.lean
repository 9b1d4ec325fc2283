import Kopete.History.ReadMessages

/-!
# History — what is left to be read

At a position there is left what the contacts have from their cursors on, and in the months
behind. What the loop takes next is a message that no other contact's comes before, and more of
that contact's; it is right where it is the next part of what is left.

Main results:

* `choice_cases` — what is read next;
* `forall_fits_iff` — when it has its times and keeps the limit;
* `right_append_iff` — that it is right exactly then, if what follows is.
-/

namespace History

/-- `QDate::daysInMonth`. -/
def YearMonth.daysInMonth (d : YearMonth) : Nat :=
  if d.month = 2 then
    let y := if d.year < 1 then d.year + 1 else d.year
    if y % 4 = 0 ∧ y % 100 ≠ 0 ∨ y % 400 = 0 then 29 else 28
  else if d.month = 4 ∨ d.month = 6 ∨ d.month = 9 ∨ d.month = 11 then 30
  else 31

theorem YearMonth.le_daysInMonth (d : YearMonth) : 28 ≤ d.daysInMonth := by
  unfold daysInMonth
  dsimp only
  split_ifs <;> decide

namespace Reading

variable {μ : Type}

/-! ## What is asked for -/

/-- Each document has messages of its month, in chronological order. -/
structure Logs.Chronological (L : Logs μ) : Prop where
  valid : ∀ c ∈ L.contacts, ∀ k, ∀ m ∈ messagesOf (L.nodes c k),
    1 ≤ m.time.day ∧ m.time.day ≤ (L.monthOf k).daysInMonth
  ordered : ∀ c ∈ L.contacts, ∀ k,
    (messagesOf (L.nodes c k)).Pairwise fun m m' => m.time.dateTime ≤ m'.time.dateTime

/-- A message of the month `k` may come before one of the month `l`. -/
def Sens.NotAfter (sens : Sens) (k : Int) (m : Msg μ) (l : Int) (m' : Msg μ) : Prop :=
  (match sens with
    | .chronological => l < k
    | .antiChronological => k < l) ∨
  k = l ∧ sens.le m.time.dateTime m'.time.dateTime

/-- What is read of a contact's month. -/
def shownOf (c : Contact) (k : Int) (messages : List (Shown μ)) : List (Option (Msg μ)) :=
  (messages.filter fun e => e.contact = c ∧ (e.month : Int) = k).map Shown.message

/-- What is read is `todo`: everything once, in order, and with its time. -/
structure Right (L : Logs μ) (sens : Sens) (todo : Contact → Int → List (Msg μ))
    (messages : List (Shown μ)) : Prop where
  only : ∀ e ∈ messages, e.contact ∈ L.contacts
  complete : ∀ c ∈ L.contacts, ∀ k, (shownOf c k messages).Perm ((todo c k).map some)
  sorted : messages.Pairwise fun e e' => ∀ m ∈ e.message, ∀ m' ∈ e'.message,
    sens.NotAfter e.month m e'.month m'
  stamped : ∀ e ∈ messages, ∀ m ∈ e.message, e.timestamp = some m.time.dateTime

/-! ## What is left to be read -/

section Todo

variable (L : Logs μ) (sens : Sens)

namespace Position

variable (p : Position μ)

/-- The months behind the one that is read, in the direction that is read in. -/
def ahead (k : Int) : Bool :=
  match sens with
  | .chronological => 0 ≤ k ∧ k < p.currentMonth
  | .antiChronological => p.currentMonth < k ∧ k ≤ L.getFirstMonth

/-- What a contact has left in a month. -/
def todo (c : Contact) (k : Int) : List (Msg μ) :=
  if k = p.currentMonth then messagesOf (p.cursor L sens c)
  else if p.ahead L sens k then messagesOf (L.siblings sens c k)
  else []

/-- Cursors stand at messages, which are in order behind them. -/
structure Sound (p : Position μ) : Prop where
  month_le : p.currentMonth ≤ L.getFirstMonth
  atMessage : ∀ c ns, p.currentElements c = some ns → AtMessage ns
  ordered : ∀ c ∈ L.contacts, (messagesOf (p.cursor L sens c)).Pairwise fun m m' =>
    sens.le m.time.dateTime m'.time.dateTime

end Position

end Todo

section Positions

variable {L : Logs μ} {sens : Sens} {p p' : Position μ}

@[simp]
theorem Position.currentMonth_resume (c : Contact) (stop : List (Node μ)) :
    (p.resume c stop).currentMonth = p.currentMonth := rfl

@[simp]
theorem Position.cursor_resume_self (c : Contact) (stop : List (Node μ)) :
    (p.resume c stop).cursor L sens c = stop := by
  simp [cursor, resume]

theorem Position.cursor_resume_of_ne {c d : Contact} (h : d ≠ c) (stop : List (Node μ)) :
    (p.resume c stop).cursor L sens d = p.cursor L sens d := by
  simp [cursor, resume, h]

theorem messagesOf_siblings (c : Contact) (k : Int) :
    messagesOf (L.siblings sens c k) =
      match sens with
      | .chronological => messagesOf (L.nodes c k)
      | .antiChronological => (messagesOf (L.nodes c k)).reverse := by
  cases sens with
  | chronological => rfl
  | antiChronological => exact List.filterMap_reverse

theorem perm_siblings (c : Contact) (k : Int) :
    (messagesOf (L.siblings sens c k)).Perm (messagesOf (L.nodes c k)) := by
  rw [messagesOf_siblings]
  cases sens with
  | chronological => exact .refl _
  | antiChronological => exact List.reverse_perm _

theorem ordered_siblings (hOrder : L.Chronological) {c : Contact} (hc : c ∈ L.contacts) (k : Int) :
    (messagesOf (L.siblings sens c k)).Pairwise fun m m' =>
      sens.le m.time.dateTime m'.time.dateTime := by
  rw [messagesOf_siblings]
  cases sens with
  | chronological => simpa [Sens.le] using hOrder.ordered c hc k
  | antiChronological => simpa [Sens.le, List.pairwise_reverse] using hOrder.ordered c hc k

theorem nextMonth_chronological :
    p.nextMonth L .chronological = some p' ↔
      p.currentMonth ≠ 0 ∧ ⟨p.currentMonth - 1, fun _ => none⟩ = p' := by
  simp [Position.nextMonth]

theorem nextMonth_antiChronological :
    p.nextMonth L .antiChronological = some p' ↔
      p.currentMonth < L.getFirstMonth ∧ ⟨p.currentMonth + 1, fun _ => none⟩ = p' := by
  simp [Position.nextMonth]

/-- At the beginning of a month. -/
theorem sound_month (hOrder : L.Chronological) {month : Nat} (h : month ≤ L.getFirstMonth) :
    Position.Sound L sens (⟨month, fun _ => none⟩ : Position μ) :=
  ⟨h, fun _ _ hElement => (by cases hElement), fun _ hc => ordered_siblings hOrder hc _⟩

theorem sound_start (hOrder : L.Chronological) : (start L sens).Sound L sens := by
  cases sens with
  | chronological => exact sound_month hOrder (Nat.le_refl _)
  | antiChronological => exact sound_month hOrder (Nat.zero_le _)

theorem sound_nextMonth (hOrder : L.Chronological) (hp : p.Sound L sens)
    (h : p.nextMonth L sens = some p') : p'.Sound L sens := by
  have hMonth := hp.month_le
  cases sens with
  | chronological =>
    obtain ⟨hSome, rfl⟩ := nextMonth_chronological.mp h
    exact sound_month hOrder (by omega)
  | antiChronological =>
    obtain ⟨hSome, rfl⟩ := nextMonth_antiChronological.mp h
    exact sound_month hOrder hSome

theorem ahead_chronological {k : Int} :
    p.ahead L .chronological k = true ↔ 0 ≤ k ∧ k < p.currentMonth := decide_eq_true_iff

theorem ahead_antiChronological {k : Int} :
    p.ahead L .antiChronological k = true ↔ p.currentMonth < k ∧ k ≤ L.getFirstMonth :=
  decide_eq_true_iff

@[simp]
theorem todo_currentMonth (c : Contact) :
    p.todo L sens c p.currentMonth = messagesOf (p.cursor L sens c) := if_pos rfl

theorem todo_of_ahead {k : Int} (h : p.ahead L sens k = true) (c : Contact) :
    p.todo L sens c k = messagesOf (L.siblings sens c k) := by
  have hOther : k ≠ p.currentMonth := by
    cases sens with
    | chronological => exact ne_of_lt (ahead_chronological.mp h).2
    | antiChronological => exact ne_of_gt (ahead_antiChronological.mp h).1
  rw [Position.todo, if_neg hOther, if_pos h]

theorem todo_of_not_ahead {k : Int} (hOther : k ≠ p.currentMonth)
    (h : ¬ p.ahead L sens k = true) (c : Contact) : p.todo L sens c k = [] := by
  rw [Position.todo, if_neg hOther, if_neg h]

/-- The next month is the first of those behind. -/
theorem ahead_nextMonth (h : p.nextMonth L sens = some p') (k : Int) :
    p.ahead L sens k = true ↔ k = p'.currentMonth ∨ p'.ahead L sens k = true := by
  cases sens with
  | chronological =>
    obtain ⟨hSome, rfl⟩ := nextMonth_chronological.mp h
    rw [ahead_chronological, ahead_chronological]
    dsimp only
    omega
  | antiChronological =>
    obtain ⟨hSome, rfl⟩ := nextMonth_antiChronological.mp h
    rw [ahead_antiChronological, ahead_antiChronological]
    dsimp only
    omega

theorem cursor_nextMonth (h : p.nextMonth L sens = some p') (c : Contact) :
    p'.cursor L sens c = L.siblings sens c p'.currentMonth := by
  cases sens with
  | chronological =>
    obtain ⟨-, rfl⟩ := nextMonth_chronological.mp h
    rfl
  | antiChronological =>
    obtain ⟨-, rfl⟩ := nextMonth_antiChronological.mp h
    rfl

/-- Where no contact has another message in this month, the next one has what is left. -/
theorem todo_nextMonth {c : Contact} (hNone : messagesOf (p.cursor L sens c) = [])
    (h : p.nextMonth L sens = some p') (k : Int) : p.todo L sens c k = p'.todo L sens c k := by
  by_cases hAhead : p.ahead L sens k = true
  · rw [todo_of_ahead hAhead]
    rcases (ahead_nextMonth h k).mp hAhead with rfl | hBehind
    · rw [todo_currentMonth, cursor_nextMonth h]
    · rw [todo_of_ahead hBehind]
  · have hNot := mt (ahead_nextMonth h k).mpr hAhead
    rw [todo_of_not_ahead (p := p') (fun hHere => hNot (.inl hHere)) fun hBehind =>
      hNot (.inr hBehind)]
    by_cases hHere : k = p.currentMonth
    · rw [hHere, todo_currentMonth, hNone]
    · exact todo_of_not_ahead hHere hAhead c

/-- Where there is no other month, nothing is left. -/
theorem todo_of_end {c : Contact} (hNone : messagesOf (p.cursor L sens c) = [])
    (h : p.nextMonth L sens = none) (k : Int) : p.todo L sens c k = [] := by
  have hLast : ¬ p.ahead L sens k = true := by
    cases sens with
    | chronological =>
      have hEnd : p.currentMonth = 0 := by simpa [Position.nextMonth] using h
      rw [ahead_chronological]
      omega
    | antiChronological =>
      have hEnd : L.getFirstMonth ≤ p.currentMonth := by simpa [Position.nextMonth] using h
      rw [ahead_antiChronological]
      omega
  by_cases hHere : k = p.currentMonth
  · rw [hHere, todo_currentMonth, hNone]
  · exact todo_of_not_ahead hHere hLast c

/-- In the beginning all months are left, from the first one to this one. -/
theorem months_start (L : Logs μ) (sens : Sens) {k : Int} :
    k = (start L sens).currentMonth ∨ (start L sens).ahead L sens k = true ↔
      0 ≤ k ∧ k ≤ L.getFirstMonth := by
  cases sens with
  | chronological =>
    rw [ahead_chronological, show (start L .chronological).currentMonth = L.getFirstMonth from rfl]
    omega
  | antiChronological =>
    rw [ahead_antiChronological, show (start L .antiChronological).currentMonth = 0 from rfl]
    omega

theorem todo_start (c : Contact) {k : Int} (h : 0 ≤ k ∧ k ≤ L.getFirstMonth) :
    (start L sens).todo L sens c k = messagesOf (L.siblings sens c k) := by
  rcases (months_start L sens).mpr h with rfl | hAhead
  · rw [todo_currentMonth]
    cases sens <;> rfl
  · exact todo_of_ahead hAhead c

theorem todo_start_of_not (c : Contact) {k : Int} (h : ¬ (0 ≤ k ∧ k ≤ L.getFirstMonth)) :
    (start L sens).todo L sens c k = [] := by
  have hNot := mt (months_start L sens).mp h
  exact todo_of_not_ahead (fun hHere => hNot (.inl hHere)) (fun hAhead => hNot (.inr hAhead)) c

/-- What is left of another contact or in another month stays so. -/
theorem todo_resume_of_ne {c d : Contact} {k : Int} (h : d ≠ c ∨ k ≠ p.currentMonth)
    (stop : List (Node μ)) : (p.resume c stop).todo L sens d k = p.todo L sens d k := by
  rcases h with hContact | hMonth
  · rw [Position.todo, Position.todo, Position.cursor_resume_of_ne hContact]
    rfl
  · rw [Position.todo, Position.todo, Position.currentMonth_resume, if_neg hMonth, if_neg hMonth]
    rfl

theorem sound_resume {c : Contact} {stop : List (Node μ)} (hp : p.Sound L sens)
    (hStop : AtMessage stop) (hOrdered : (messagesOf stop).Pairwise fun m m' =>
      sens.le m.time.dateTime m'.time.dateTime) : (p.resume c stop).Sound L sens := by
  refine ⟨hp.month_le, fun d ns hElement => ?_, fun d hd => ?_⟩
  · by_cases hSame : d = c
    · subst hSame
      obtain rfl : stop = ns := by simpa [Position.resume] using hElement
      exact hStop
    · exact hp.atMessage d ns (by simpa [Position.resume, hSame] using hElement)
  · by_cases hSame : d = c
    · rwa [hSame, Position.cursor_resume_self]
    · rw [Position.cursor_resume_of_ne hSame]
      exact hp.ordered d hd

end Positions

/-! ## The next part -/

/-- The contact that is read has the message `m` next, which no other's comes before, and the
limit is the first time among the others. -/
structure Picked (L : Logs μ) (sens : Sens) (p : Position μ) (ch : Choice μ) (c : Contact)
    (m : Msg μ) (rest : List (Node μ)) : Prop where
  mem : c ∈ L.contacts
  cursor : nextMessage (p.cursor L sens c) = .msg m :: rest
  timestamp : ch.timestamp = if L.merging then some m.time.dateTime else none
  others : ∀ d ∈ L.contacts, d ≠ c → ∀ x ∈ (messagesOf (p.cursor L sens d)).head?,
    ∃ l ∈ ch.timeLimit, sens.le l x.time.dateTime
  limit : ∀ l ∈ ch.timeLimit, sens.le m.time.dateTime l ∧
    ∃ d ∈ L.contacts, d ≠ c ∧ ∃ x ∈ (messagesOf (p.cursor L sens d)).head?, x.time.dateTime = l

/-- Of a single contact, an element that is no message is read. -/
structure Stray (L : Logs μ) (sens : Sens) (p : Position μ) (c : Contact) : Prop where
  single : L.contacts = [c]
  cursor : p.cursor L sens c ≠ []
  empty : messagesOf (p.cursor L sens c) = []

section Parts

variable {L : Logs μ} {sens : Sens} {p : Position μ}

theorem Stray.not_merging {c : Contact} (h : Stray L sens p c) : L.merging = false := by
  simp [Logs.merging, h.single]

theorem single_of_not_merging (hSome : L.contacts ≠ []) (h : ¬ L.merging = true) :
    ∃ c, L.contacts = [c] := by
  have hPos := List.length_pos_iff.mpr hSome
  simp only [Logs.merging, gt_iff_lt, decide_eq_true_eq] at h
  exact List.length_eq_one_iff.mp (by omega)

/-- What is taken of a single contact. -/
theorem single_cases (hp : p.Sound L sens) {c : Contact} (hSingle : L.contacts = [c]) :
    p.single L sens c = [] ∧ messagesOf (p.cursor L sens c) = [] ∨
      (∃ m rest, p.single L sens c = .msg m :: rest ∧
        nextMessage (p.cursor L sens c) = .msg m :: rest) ∨
      p.single L sens c = [.element] ∧ Stray L sens p c := by
  rcases hElement : p.currentElements c with _ | ns
  · have hCursor : p.cursor L sens c = L.siblings sens c p.currentMonth := by
      simp [Position.cursor, hElement]
    simp only [Position.single, hElement, hCursor]
    rcases nextMessage_cases (L.siblings sens c p.currentMonth) with
      ⟨hNext, hEmpty⟩ | ⟨m, rest, hNext, -, -⟩
    · simp only [hNext]
      split
      · next hLast =>
        refine .inr (.inr ⟨rfl, hSingle, ?_, by rw [hCursor, hEmpty]⟩)
        rw [hCursor]
        rintro hNil
        simp [hNil] at hLast
      · exact .inl ⟨rfl, hEmpty⟩
    · exact .inr (.inl ⟨m, rest, by simp only [hNext], hNext⟩)
  · have hCursor : p.cursor L sens c = ns := by simp [Position.cursor, hElement]
    simp only [Position.single, hElement, hCursor]
    rcases hp.atMessage c ns hElement with rfl | ⟨m, rest, rfl⟩
    · exact .inl ⟨rfl, rfl⟩
    · exact .inr (.inl ⟨m, rest, rfl, rfl⟩)

/-- **What is read next**: nothing, a message, or an element that is none. -/
theorem choice_cases (hSome : L.contacts ≠ []) (hp : p.Sound L sens) :
    ((p.choice L sens).current = none ∧ ∀ c ∈ L.contacts, messagesOf (p.cursor L sens c) = []) ∨
      (∃ c m rest, (p.choice L sens).current = some (c, .msg m :: rest) ∧
        Picked L sens p (p.choice L sens) c m rest) ∨
      ∃ c, (p.choice L sens).current = some (c, [.element]) ∧ Stray L sens p c := by
  by_cases hMerging : L.merging = true
  · have hChosen := choice_spec hMerging sens p
    rcases hCurrent : (p.choice L sens).current with _ | ⟨c, ns⟩
    · exact .inl ⟨rfl, (hChosen.empty hCurrent).2.2⟩
    · obtain ⟨hMem, hNs, m, rest, rfl, hTime, hOthers, hLimit⟩ := hChosen.found c ns hCurrent
      exact .inr (.inl ⟨c, m, rest, rfl, hMem, hNs, by rw [hTime, if_pos hMerging], hOthers,
        hLimit⟩)
  · obtain ⟨c, hSingle⟩ := single_of_not_merging hSome hMerging
    have hChoice : p.choice L sens =
        ⟨none, none, if p.single L sens c = [] then none else some (c, p.single L sens c)⟩ := by
      rw [Position.choice, hSingle]
    rw [hChoice]
    rcases single_cases hp hSingle with ⟨hNil, hEmpty⟩ | ⟨m, rest, hNext, hCursor⟩ |
      ⟨hElement, hStray⟩
    · exact .inl ⟨if_pos hNil, by simpa [hSingle] using hEmpty⟩
    · refine .inr (.inl ⟨c, m, rest, by simp [hNext], by simp [hSingle], hCursor, ?_, ?_, ?_⟩)
      · rw [if_neg hMerging]
      · intro d hd hOther
        rw [hSingle] at hd
        exact absurd (List.mem_singleton.mp hd) hOther
      · intro l hl
        cases hl
    · exact .inr (.inr ⟨c, by simp [hElement], hStray⟩)

theorem empty_of_choice (hSome : L.contacts ≠ []) (hp : p.Sound L sens)
    (h : (p.choice L sens).current = none) :
    ∀ c ∈ L.contacts, messagesOf (p.cursor L sens c) = [] := by
  rcases choice_cases hSome hp with ⟨-, hEmpty⟩ | ⟨c, m, rest, hCurrent, -⟩ | ⟨c, hCurrent, -⟩
  · exact hEmpty
  · rw [h] at hCurrent
    cases hCurrent
  · rw [h] at hCurrent
    cases hCurrent

theorem Picked.keeps {ch : Choice μ} {c : Contact} {m : Msg μ} {rest : List (Node μ)}
    (h : Picked L sens p ch c m rest) {timestamp : Option Nat}
    (hTime : ∀ t ∈ timestamp, t = m.time.dateTime) :
    within sens timestamp ch.timeLimit = true := by
  rcases timestamp with _ | t
  · rfl
  · rw [hTime t rfl]
    cases hLimit : ch.timeLimit with
    | none => rfl
    | some l => exact (h.limit l hLimit).1

/-- **A stretch** of the contact that is read has the times and keeps the limit. -/
theorem forall_fits_iff {ch : Choice μ} {c : Contact} {m : Msg μ} {rest : List (Node μ)}
    (h : Picked L sens p ch c m rest) (month lines : Nat) :
    (∀ e ∈ (stretch sens L.merging c month ch.timeLimit (lines + 1) ch.timestamp
        (.msg m :: rest)).1, e.Fits sens ch.timeLimit) ↔
      (L.merging = true → GoesOn sens ch.timeLimit lines rest) := by
  have hFirst : within sens (some m.time.dateTime) ch.timeLimit = true :=
    h.keeps fun t ht => (Option.some.inj ht).symm
  by_cases hMerging : L.merging = true
  · have hTime : ch.timestamp = some m.time.dateTime := by rw [h.timestamp, if_pos hMerging]
    rw [hTime, hMerging, stretch_cons true c month hFirst, List.forall_mem_cons, goesOn_iff]
    simp only [Shown.Fits, Node.message?, Option.mem_some_iff, forall_eq', Option.some_or,
      true_and, hFirst, forall_const]
  · have hTime : ch.timestamp = none := by rw [h.timestamp, if_neg hMerging]
    have hNone : ch.timeLimit = none := by
      refine Option.eq_none_iff_forall_not_mem.mpr fun l hl => ?_
      obtain ⟨-, d, hd, hOther, -⟩ := h.limit l hl
      obtain ⟨c', hSingle⟩ := single_of_not_merging (List.ne_nil_of_mem hd) hMerging
      have hMem := h.mem
      rw [hSingle, List.mem_singleton] at hd hMem
      exact hOther (hd.trans hMem.symm)
    refine iff_of_true (fun e he x hx => ⟨?_, by rw [hNone]; rfl⟩) fun hTrue =>
      absurd hTrue hMerging
    rw [hTime, hNone, Bool.eq_false_iff.mpr hMerging] at he
    exact stretch_stamped sens c month none (lines + 1) (.inr ⟨m, rest, rfl⟩) e he x hx

/-- An element that is no message is read as one. -/
theorem stretch_stray (c : Contact) (month lines : Nat) :
    stretch sens false c month none (lines + 1) none ([.element] : List (Node μ)) =
      ([⟨c, month, none, none⟩], []) := by
  rw [stretch_cons false c month rfl, show nextMessage ([] : List (Node μ)) = [] from rfl,
    stretch_nil]
  rfl

/-- The choice where an element that is no message is read. -/
theorem Stray.choice {c : Contact} (h : Stray L sens p c) :
    (p.choice L sens).timestamp = none ∧ (p.choice L sens).timeLimit = none := by
  unfold Position.choice
  rw [h.single]
  exact ⟨rfl, rfl⟩

end Parts

/-! ## What has been read -/

section Shown

variable {c d : Contact} {k l : Int} {messages out rest : List (Shown μ)}

@[simp]
theorem shownOf_append : shownOf c k (out ++ rest) = shownOf c k out ++ shownOf c k rest := by
  simp [shownOf]

theorem shownOf_self (h : ∀ e ∈ messages, e.contact = c ∧ (e.month : Int) = k) :
    shownOf c k messages = messages.map Shown.message := by
  rw [shownOf, List.filter_eq_self.mpr fun e he => decide_eq_true (h e he)]

theorem shownOf_of_ne (h : ∀ e ∈ messages, e.contact = c ∧ (e.month : Int) = k)
    (hOther : d ≠ c ∨ l ≠ k) : shownOf d l messages = [] := by
  rw [shownOf, List.filter_eq_nil_iff.mpr, List.map_nil]
  intro e he hHere
  obtain ⟨rfl, rfl⟩ := h e he
  obtain ⟨rfl, rfl⟩ := of_decide_eq_true hHere
  rcases hOther with hOther | hOther <;> exact hOther rfl

theorem mem_shownOf {o : Option (Msg μ)} :
    o ∈ shownOf c k messages ↔
      ∃ e ∈ messages, e.contact = c ∧ (e.month : Int) = k ∧ e.message = o := by
  simp [shownOf, and_assoc]

variable {L : Logs μ} {sens : Sens} {todo todo' : Contact → Int → List (Msg μ)}

theorem Right.congr (h : ∀ c ∈ L.contacts, ∀ k, (todo c k).Perm (todo' c k)) :
    Right L sens todo messages ↔ Right L sens todo' messages := by
  constructor
  · exact fun hRight => ⟨hRight.only, fun c hc k => (hRight.complete c hc k).trans
      ((h c hc k).map some), hRight.sorted, hRight.stamped⟩
  · exact fun hRight => ⟨hRight.only, fun c hc k => (hRight.complete c hc k).trans
      ((h c hc k).symm.map some), hRight.sorted, hRight.stamped⟩

theorem right_nil (h : ∀ c ∈ L.contacts, ∀ k, todo c k = []) :
    Right L sens todo [] :=
  ⟨fun _ he => (by cases he), fun c hc k => (by rw [h c hc k]; exact .refl _), .nil,
    fun _ he => (by cases he)⟩

/-- A message that is read is one that was left. -/
theorem mem_todo_of_right (h : Right L sens todo rest) {e : Shown μ} (he : e ∈ rest) {m : Msg μ} (hm : m ∈ e.message) :
    m ∈ todo e.contact e.month := by
  have hMem := (h.complete e.contact (h.only e he) e.month).mem_iff.mp
    (mem_shownOf.mpr ⟨e, he, rfl, rfl, hm⟩)
  simpa using hMem

/-- Nothing that is no message is to be read. -/
theorem not_right_of_none {e : Shown μ} (he : e ∈ messages) (hNone : e.message = none) :
    ¬ Right L sens todo messages := by
  intro hRight
  have hMem := (hRight.complete e.contact (hRight.only e he) e.month).mem_iff.mp
    (mem_shownOf.mpr ⟨e, he, rfl, rfl, hNone⟩)
  simp at hMem

end Shown

section Append

variable {L : Logs μ} {sens : Sens} {p : Position μ} {c : Contact} {out : List (Shown μ)}
  {stop : List (Node μ)}

/-- `out` is the next part of what a contact has left in this month, and `stop` the rest. -/
structure Taken (L : Logs μ) (sens : Sens) (p : Position μ) (c : Contact) (out : List (Shown μ))
    (stop : List (Node μ)) : Prop where
  here : ∀ e ∈ out, e.contact = c ∧ (e.month : Int) = p.currentMonth
  split : (messagesOf (p.cursor L sens c)).map some =
    out.map Shown.message ++ (messagesOf stop).map some

theorem Taken.ordered (h : Taken L sens p c out stop) (hp : p.Sound L sens) (hc : c ∈ L.contacts) :
    (out.map Shown.message ++ (messagesOf stop).map some).Pairwise fun o o' =>
      ∀ y ∈ o, ∀ y' ∈ o', sens.le y.time.dateTime y'.time.dateTime = true := by
  rw [← h.split, List.pairwise_map]
  simpa using hp.ordered c hc

theorem Taken.ordered_rest (h : Taken L sens p c out stop) (hp : p.Sound L sens)
    (hc : c ∈ L.contacts) : (messagesOf stop).Pairwise fun m m' =>
      sens.le m.time.dateTime m'.time.dateTime := by
  have hOrdered := (List.pairwise_append.mp (h.ordered hp hc)).2.1
  simpa [List.pairwise_map] using hOrdered

/-- The rest is what is left behind that part. -/
theorem complete_append_iff (h : Taken L sens p c out stop) (rest : List (Shown μ)) (d : Contact)
    (k : Int) :
    (shownOf d k (out ++ rest)).Perm ((p.todo L sens d k).map some) ↔
      (shownOf d k rest).Perm (((p.resume c stop).todo L sens d k).map some) := by
  rw [shownOf_append]
  by_cases hHere : d = c ∧ k = p.currentMonth
  · obtain ⟨rfl, rfl⟩ := hHere
    have hRest : (p.resume d stop).todo L sens d p.currentMonth = messagesOf stop := by
      rw [← Position.currentMonth_resume, todo_currentMonth, Position.cursor_resume_self]
    rw [shownOf_self h.here, todo_currentMonth, h.split, hRest, List.perm_append_left_iff]
  · rw [not_and_or] at hHere
    rw [shownOf_of_ne h.here hHere, todo_resume_of_ne hHere, List.nil_append]

/-- The limit is a time that is read after that part. -/
theorem exists_limit {ch : Choice μ} {m : Msg μ} {ns : List (Node μ)} {rest : List (Shown μ)}
    (hPicked : Picked L sens p ch c m ns) (h : Taken L sens p c out stop)
    (hRight : Right L sens (p.todo L sens) (out ++ rest)) {l : Nat} (hl : l ∈ ch.timeLimit) :
    ∃ e ∈ rest, (e.month : Int) = p.currentMonth ∧ ∃ x ∈ e.message, x.time.dateTime = l := by
  obtain ⟨-, d, hd, hOther, x, hx, hTime⟩ := hPicked.limit l hl
  have hTodo : some x ∈ (p.todo L sens d p.currentMonth).map some := by
    rw [todo_currentMonth]
    exact List.mem_map_of_mem (List.mem_of_mem_head? hx)
  obtain ⟨e, he, hContact, hMonth, hMessage⟩ :=
    mem_shownOf.mp ((hRight.complete d hd _).mem_iff.mpr hTodo)
  rcases List.mem_append.mp he with hOut | hRest
  · exact absurd (hContact.symm.trans (h.here e hOut).1) hOther
  · exact ⟨e, hRest, hMonth, x, hMessage, hTime⟩

theorem fits_of_right {ch : Choice μ} {m : Msg μ} {ns : List (Node μ)} {rest : List (Shown μ)}
    (hPicked : Picked L sens p ch c m ns) (h : Taken L sens p c out stop)
    (hRight : Right L sens (p.todo L sens) (out ++ rest)) :
    ∀ e ∈ out, e.Fits sens ch.timeLimit := by
  intro e he x hx
  refine ⟨hRight.stamped e (List.mem_append_left _ he) x hx, ?_⟩
  rcases hLimit : ch.timeLimit with _ | l
  · rfl
  · obtain ⟨e', he', hMonth, x', hx', hTime⟩ := exists_limit hPicked h hRight hLimit
    have hBefore := (List.pairwise_append.mp hRight.sorted).2.2 e he e' he' x hx x' hx'
    rcases hBefore with hMonths | ⟨-, hLe⟩
    · have hSame := (h.here e he).2.trans hMonth.symm
      cases sens <;> simp only at hMonths <;> omega
    · rwa [hTime] at hLe

/-- No message behind the ones that fit comes before them. -/
theorem notAfter_of_fits {ch : Choice μ} {m : Msg μ} {ns : List (Node μ)} {rest : List (Shown μ)}
    (hp : p.Sound L sens) (hPicked : Picked L sens p ch c m ns) (h : Taken L sens p c out stop)
    (hRight : Right L sens ((p.resume c stop).todo L sens) rest) {e e' : Shown μ} (he : e ∈ out)
    (he' : e' ∈ rest) {x x' : Msg μ} (hx : x ∈ e.message) (hx' : x' ∈ e'.message)
    (hFits : e.Fits sens ch.timeLimit) : sens.NotAfter e.month x e'.month x' := by
  have hTodo := mem_todo_of_right hRight he' hx'
  obtain ⟨hContact, hMonth⟩ := h.here e he
  rw [hMonth]
  by_cases hHere : (e'.month : Int) = p.currentMonth
  · refine .inr ⟨hHere.symm, ?_⟩
    rw [hHere, ← Position.currentMonth_resume (p := p) c stop, todo_currentMonth] at hTodo
    by_cases hSame : e'.contact = c
    · rw [hSame, Position.cursor_resume_self] at hTodo
      have hOrdered := List.pairwise_append.mp (h.ordered hp hPicked.mem)
      exact hOrdered.2.2 e.message (List.mem_map_of_mem he) (some x') (List.mem_map_of_mem hTodo)
        x hx x' rfl
    · rw [Position.cursor_resume_of_ne hSame] at hTodo
      have hContacts := hRight.only e' he'
      obtain ⟨y, ys, hYs⟩ := List.exists_cons_of_ne_nil (List.ne_nil_of_mem hTodo)
      have hFirst : sens.le y.time.dateTime x'.time.dateTime = true := by
        have hOrdered := hp.ordered e'.contact hContacts
        rw [hYs] at hOrdered hTodo
        rcases List.mem_cons.mp hTodo with rfl | hBehind
        · exact sens.le_refl _
        · exact List.rel_of_pairwise_cons hOrdered hBehind
      obtain ⟨l, hl, hLimit⟩ := hPicked.others e'.contact hContacts hSame y (by rw [hYs]; rfl)
      have hWithin := (hFits x hx).2
      rw [Option.mem_def.mp hl] at hWithin
      exact Sens.le_trans hWithin (Sens.le_trans hLimit hFirst)
  · left
    have hAhead : p.ahead L sens e'.month = true := by
      by_contra hNot
      rw [todo_of_not_ahead (p := p.resume c stop) hHere hNot] at hTodo
      cases hTodo
    cases sens with
    | chronological => exact (ahead_chronological.mp hAhead).2
    | antiChronological => exact (ahead_antiChronological.mp hAhead).1

/-- **The next part** of what is left is read right where it has its times and keeps the limit. -/
theorem right_append_iff {ch : Choice μ} {m : Msg μ} {ns : List (Node μ)}
    (hp : p.Sound L sens) (hPicked : Picked L sens p ch c m ns) (h : Taken L sens p c out stop)
    (rest : List (Shown μ)) :
    Right L sens (p.todo L sens) (out ++ rest) ↔
      (∀ e ∈ out, e.Fits sens ch.timeLimit) ∧
        Right L sens ((p.resume c stop).todo L sens) rest := by
  constructor
  · intro hRight
    refine ⟨fits_of_right hPicked h hRight, fun e he => hRight.only e (List.mem_append_right _ he),
      fun d hd k => (complete_append_iff h rest d k).mp (hRight.complete d hd k),
      (List.pairwise_append.mp hRight.sorted).2.1,
      fun e he => hRight.stamped e (List.mem_append_right _ he)⟩
  · rintro ⟨hFits, hRight⟩
    refine ⟨?_, fun d hd k => (complete_append_iff h rest d k).mpr (hRight.complete d hd k), ?_, ?_⟩
    · intro e he
      rcases List.mem_append.mp he with hOut | hRest
      · rw [(h.here e hOut).1]
        exact hPicked.mem
      · exact hRight.only e hRest
    · refine List.pairwise_append.mpr ⟨?_, hRight.sorted, fun e he e' he' x hx x' hx' =>
        notAfter_of_fits hp hPicked h hRight he he' hx hx' (hFits e he)⟩
      have hOrdered := List.pairwise_map.mp (List.pairwise_append.mp (h.ordered hp hPicked.mem)).1
      refine hOrdered.imp_of_mem fun {e e'} he he' hLe x hx x' hx' => .inr ⟨?_, hLe x hx x' hx'⟩
      rw [(h.here e he).2, (h.here e' he').2]
    · intro e he x hx
      rcases List.mem_append.mp he with hOut | hRest
      · exact (hFits e hOut x hx).1
      · exact hRight.stamped e hRest x hx

/-- What the loop takes from a contact that has a message next. -/
theorem Picked.taken {ch : Choice μ} {c : Contact} {m : Msg μ} {ns : List (Node μ)}
    (h : Picked L sens p ch c m ns) (lines : Nat) :
    let r := stretch sens L.merging c p.currentMonth ch.timeLimit lines ch.timestamp (.msg m :: ns)
    Taken L sens p c r.1 r.2 := by
  obtain ⟨hSplit, -⟩ := stretch_spec sens L.merging c p.currentMonth ch.timeLimit lines
    ch.timestamp (show AtMessage (.msg m :: ns) from .inr ⟨m, ns, rfl⟩)
  refine ⟨fun e he => ?_, by rw [← hSplit, ← h.cursor, messagesOf_nextMessage]⟩
  obtain ⟨hContact, hMonth⟩ := stretch_here _ _ _ _ _ _ _ _ e he
  exact ⟨hContact, congrArg Nat.cast hMonth⟩

/-- The loop stops at a message, or at the end, and has gone on. -/
theorem Picked.stops {ch : Choice μ} {c : Contact} {m : Msg μ} {ns : List (Node μ)}
    (h : Picked L sens p ch c m ns) (lines : Nat) :
    let r := stretch sens L.merging c p.currentMonth ch.timeLimit (lines + 1) ch.timestamp
      (.msg m :: ns)
    AtMessage r.2 ∧ r.2.length < (p.cursor L sens c).length := by
  obtain ⟨-, hStop, hLength⟩ := stretch_spec sens L.merging c p.currentMonth ch.timeLimit
    (lines + 1) ch.timestamp (show AtMessage (.msg m :: ns) from .inr ⟨m, ns, rfl⟩)
  have hTime : ∀ t ∈ ch.timestamp, t = m.time.dateTime := by
    rw [h.timestamp]
    split <;> simp
  have hCursor : (Node.msg m :: ns).length ≤ (p.cursor L sens c).length := by
    rw [← h.cursor]
    exact (List.dropWhile_suffix _).length_le
  rw [stretch_cons L.merging c p.currentMonth (h.keeps hTime)] at hStop hLength ⊢
  refine ⟨hStop, ?_⟩
  dsimp only [List.length_cons] at hLength hCursor ⊢
  omega

end Append

end Reading

end History
