import Kopete.Lib.FirstGreatest
import Kopete.Libkopete.MetaContactStatus
import Mathlib

/-!
# libkopete — files and idle times of a metacontact

`sendFile` looks for the greatest contact that can accept files, from the first contact on,
and keeps this one if none of the others is greater, though it may accept no files.
`idleTime` looks for the least idle time of the contacts that are online, from `0` on, which
stands for "none yet", and is an idle time as well: while it holds `0` it takes over the time
of any contact.

Main results:

* `sendsRight_iff` — when the file goes to the right contact;
* `idleScan_eq` — the time that is found, by the contacts behind the last that is online and
  not idle;
* `scans_right_iff` — when both are right.
-/

namespace Kopete

open FirstGreatest

/-- What is asked of contacts: `onlineStatus`, `isFileCapable` and `idleTime`. -/
structure ContactAnswers (γ : Type) where
  onlineStatus : γ → OnlineStatus
  isFileCapable : γ → Bool
  idleTime : γ → Nat

namespace ContactAnswers

variable {γ : Type} (s : ContactAnswers γ)

/-- `Contact::isOnline`. -/
def isOnline (c : γ) : Bool := (s.onlineStatus c).isDefinitelyOnline

/-- `Contact::canAcceptFiles`. -/
def canAcceptFiles (c : γ) : Bool := s.isOnline c && s.isFileCapable c

/-- `MetaContact::canAcceptFiles`. -/
def anyAcceptsFiles (contacts : List γ) : Bool :=
  if !contacts.any s.isOnline then false else contacts.any s.canAcceptFiles

/-- `MetaContact::sendFile`: the contact that the file is handed to. -/
def sendFile (contacts : List γ) : Option γ :=
  match contacts with
  | [] => none
  | first :: _ =>
    if !s.anyAcceptsFiles contacts then none
    else some (contacts.foldl (fun contact curr =>
      if (s.onlineStatus curr).gt (s.onlineStatus contact) && s.canAcceptFiles curr then curr
      else contact) first)

/-- One round of the loop of `idleTime`. -/
def idleStep (time : Nat) (c : γ) : Nat :=
  if s.isOnline c && decide (s.idleTime c < time) || decide (time = 0) then s.idleTime c else time

/-- `MetaContact::idleTime`. The result is a `quint32`. -/
def idleTimeOf (contacts : List γ) : Nat := contacts.foldl s.idleStep 0 % 2 ^ 32

/-! ## What should be found -/

/-- **The file goes to the greatest** of the contacts that can accept files. -/
def SendsRight (contacts : List γ) : Prop :=
  ∃ r ∈ contacts, s.sendFile contacts = some r ∧ s.canAcceptFiles r = true ∧
    ∀ c ∈ contacts, s.canAcceptFiles c = true →
      (s.onlineStatus c).gt (s.onlineStatus r) = false

/-- **The idle time is the least** of those of the contacts that are online. -/
def IdlesRight (contacts : List γ) : Prop :=
  (∃ c ∈ contacts, s.isOnline c = true ∧ s.idleTime c = s.idleTimeOf contacts) ∧
    ∀ c ∈ contacts, s.isOnline c = true → s.idleTimeOf contacts ≤ s.idleTime c

/-- The first contact accepts files, or one that does is greater. -/
def FirstYields (contacts : List γ) : Prop :=
  ∀ first ∈ contacts.head?, s.canAcceptFiles first = true ∨
    ∃ c ∈ contacts, s.canAcceptFiles c = true ∧
      (s.onlineStatus c).gt (s.onlineStatus first) = true

/-- Online and not idle. -/
def active (c : γ) : Bool := s.isOnline c && decide (s.idleTime c = 0)

/-- The contacts behind the last active one, all of them if none is. -/
def behindActive (contacts : List γ) : List γ :=
  (contacts.reverse.takeWhile fun c => !s.active c).reverse

/-- The least of a time and the idle times of those that are online. -/
def leastFrom (time : Nat) (l : List γ) : Nat :=
  ((l.filter s.isOnline).map s.idleTime).foldl min time

/-- What the loop makes of `0` and contacts none of which is active: it starts with the first
that is idle, online or not. -/
def leastIdle : List γ → Nat
  | [] => 0
  | c :: l => if s.idleTime c = 0 then leastIdle l else s.leastFrom (s.idleTime c) l

/-- **If a contact is active**, none of those behind the last such is idle; unless the times
found there overflow to `0`. **If none is**, the first idle one is so for at least as long as
one that is online, whose time does not overflow. -/
def IdleFound (contacts : List γ) : Prop :=
  if contacts.any s.active then s.leastIdle (s.behindActive contacts) % 2 ^ 32 = 0
  else ∀ d, contacts.find? (fun c => decide (s.idleTime c ≠ 0)) = some d →
    ∃ c ∈ contacts, s.isOnline c = true ∧ s.idleTime c ≤ s.idleTime d ∧ s.idleTime c < 2 ^ 32

/-! ## Files -/

/-- Status type and weight. -/
def statusRank (c : γ) : Nat ×ₗ Nat :=
  toLex ((s.onlineStatus c).status.value, (s.onlineStatus c).weight)

variable {s}

theorem gt_eq_rank (c d : γ) :
    (s.onlineStatus c).gt (s.onlineStatus d) = decide (s.statusRank d < s.statusRank c) := by
  rw [Bool.eq_iff_iff, OnlineStatus.gt_iff, decide_eq_true_eq, statusRank, statusRank,
    Prod.Lex.toLex_lt_toLex]

/-- The loop of `sendFile`. -/
theorem sendFile_eq {first : γ} {rest : List γ}
    (h : s.anyAcceptsFiles (first :: rest) = true) :
    s.sendFile (first :: rest) =
      some (scan s.statusRank s.canAcceptFiles first (first :: rest)) := by
  simp only [sendFile, h, Bool.not_true, Bool.false_eq_true, if_false, gt_eq_rank, scan,
    Bool.and_comm]

theorem exists_of_anyAccepts {contacts : List γ} (h : s.anyAcceptsFiles contacts = true) :
    ∃ c ∈ contacts, s.canAcceptFiles c = true := by
  unfold anyAcceptsFiles at h
  split at h
  · cases h
  · simpa using h

/-- **Files.** -/
theorem sendsRight_iff {contacts : List γ} (h : s.anyAcceptsFiles contacts = true) :
    s.SendsRight contacts ↔ s.FirstYields contacts := by
  obtain ⟨a, ha, hAccepts⟩ := exists_of_anyAccepts h
  obtain ⟨first, rest, rfl⟩ := List.exists_cons_of_ne_nil (List.ne_nil_of_mem ha)
  obtain ⟨hFrom, hStart, hAll⟩ := scan_spec s.statusRank s.canAcceptFiles
    first (first :: rest)
  rw [SendsRight, sendFile_eq h]
  simp only [FirstYields, gt_eq_rank, decide_eq_true_eq, decide_eq_false_iff_not, not_lt,
    List.head?_cons, Option.mem_some_iff, forall_eq']
  generalize scan s.statusRank s.canAcceptFiles first (first :: rest) = r at *
  constructor
  · rintro ⟨r', hr', hSame, hAccepts', -⟩
    obtain rfl := Option.some.inj hSame
    rcases hFrom with rfl | ⟨-, -, hGreater⟩
    · exact .inl hAccepts'
    · exact .inr ⟨r, hr', hAccepts', hGreater⟩
  · intro hYields
    rcases hFrom with rfl | ⟨hMem, hAccepts', -⟩
    · refine ⟨r, List.mem_cons_self, rfl, ?_, hAll⟩
      rcases hYields with hFirst | ⟨c, hc, hAccepts', hGreater⟩
      · exact hFirst
      · exact absurd (hAll c hc hAccepts') (not_le.mpr hGreater)
    · exact ⟨r, hMem, rfl, hAccepts', hAll⟩

/-! ## Idle times -/

theorem leastFrom_cons (time : Nat) (c : γ) (l : List γ) :
    s.leastFrom time (c :: l) =
      s.leastFrom (if s.isOnline c then min time (s.idleTime c) else time) l := by
  unfold leastFrom
  cases hOnline : s.isOnline c <;> simp [hOnline]

theorem leastFrom_spec (time : Nat) (l : List γ) :
    (s.leastFrom time l = time ∨
        ∃ c ∈ l, s.isOnline c = true ∧ s.idleTime c = s.leastFrom time l) ∧
      s.leastFrom time l ≤ time ∧
      ∀ c ∈ l, s.isOnline c = true → s.leastFrom time l ≤ s.idleTime c := by
  induction l generalizing time with
  | nil => exact ⟨.inl rfl, Nat.le_refl _, fun c hc => by cases hc⟩
  | cons c l ih =>
    rw [leastFrom_cons]
    by_cases hOnline : s.isOnline c = true
    · rw [if_pos hOnline]
      obtain ⟨hFrom, hStart, hAll⟩ := ih (min time (s.idleTime c))
      refine ⟨?_, by omega, ?_⟩
      · rcases hFrom with hSame | ⟨d, hd, hRest⟩
        · rcases Nat.le_total time (s.idleTime c) with hLe | hLe
          · rw [Nat.min_eq_left hLe] at hSame ⊢
            exact .inl hSame
          · rw [Nat.min_eq_right hLe] at hSame ⊢
            exact .inr ⟨c, List.mem_cons_self, hOnline, hSame.symm⟩
        · exact .inr ⟨d, List.mem_cons_of_mem c hd, hRest⟩
      · intro d hd hOnline'
        rcases List.mem_cons.mp hd with rfl | hd
        · omega
        · exact hAll d hd hOnline'
    · rw [if_neg hOnline]
      obtain ⟨hFrom, hStart, hAll⟩ := ih time
      refine ⟨hFrom.imp id fun ⟨d, hd, hRest⟩ => ⟨d, List.mem_cons_of_mem c hd, hRest⟩, hStart, ?_⟩
      intro d hd hOnline'
      rcases List.mem_cons.mp hd with rfl | hd
      · exact absurd hOnline' hOnline
      · exact hAll d hd hOnline'

/-- From a time that is not `0`, with no active contact ahead, the loop finds the least. -/
theorem foldl_idleStep_pos {l : List γ} (hNone : ∀ c ∈ l, s.active c = false) {time : Nat}
    (hTime : 0 < time) : l.foldl s.idleStep time = s.leastFrom time l := by
  induction l generalizing time with
  | nil => rfl
  | cons c l ih =>
    have hStep : s.idleStep time c = if s.isOnline c then min time (s.idleTime c) else time := by
      unfold idleStep
      cases hOnline : s.isOnline c
      · simp [Nat.pos_iff_ne_zero.mp hTime]
      · simp only [Bool.true_and, Nat.pos_iff_ne_zero.mp hTime, decide_false, Bool.or_false,
          decide_eq_true_eq, if_true]
        split <;> omega
    have hPos : 0 < if s.isOnline c then min time (s.idleTime c) else time := by
      have hIdle := hNone c List.mem_cons_self
      split
      · next hOnline =>
        have : s.idleTime c ≠ 0 := by simpa [active, hOnline] using hIdle
        omega
      · exact hTime
    rw [List.foldl_cons, leastFrom_cons, hStep]
    exact ih (fun d hd => hNone d (List.mem_cons_of_mem c hd)) hPos

/-- From `0`, with no active contact ahead. -/
theorem foldl_idleStep_zero {l : List γ} (hNone : ∀ c ∈ l, s.active c = false) :
    l.foldl s.idleStep 0 = s.leastIdle l := by
  induction l with
  | nil => rfl
  | cons c l ih =>
    have hRest : ∀ d ∈ l, s.active d = false := fun d hd => hNone d (List.mem_cons_of_mem c hd)
    have hStep : s.idleStep 0 c = s.idleTime c := by simp [idleStep]
    rw [List.foldl_cons, hStep, leastIdle]
    split
    · next hZero => rw [hZero, ih hRest]
    · next hIdle => exact foldl_idleStep_pos hRest (Nat.pos_of_ne_zero hIdle)

/-- An active contact sets the time to `0`, whatever it was. -/
theorem idleStep_active {c : γ} (h : s.active c = true) (time : Nat) : s.idleStep time c = 0 := by
  obtain ⟨hOnline, hIdle⟩ : s.isOnline c = true ∧ s.idleTime c = 0 := by simpa [active] using h
  unfold idleStep
  rw [hOnline, hIdle]
  by_cases hTime : time = 0
  · simp [hTime]
  · simp [Nat.pos_of_ne_zero hTime]

theorem behindActive_spec (contacts : List γ) :
    (∀ c ∈ s.behindActive contacts, s.active c = false) ∧
      ((∀ c ∈ contacts, s.active c = false) ∧ s.behindActive contacts = contacts ∨
        ∃ pre z, s.active z = true ∧ contacts = pre ++ z :: s.behindActive contacts) := by
  have hNone : ∀ c ∈ s.behindActive contacts, s.active c = false := fun c hc => by
    simpa using List.mem_takeWhile_imp (List.mem_reverse.mp hc)
  have hSplit : contacts =
      (contacts.reverse.dropWhile fun c => !s.active c).reverse ++ s.behindActive contacts := by
    rw [behindActive, ← List.reverse_append, List.takeWhile_append_dropWhile, List.reverse_reverse]
  refine ⟨hNone, ?_⟩
  rcases hDrop : contacts.reverse.dropWhile fun c => !s.active c with _ | ⟨z, pre⟩
  · rw [hDrop] at hSplit
    left
    exact ⟨hSplit ▸ hNone, hSplit.symm⟩
  · right
    refine ⟨pre.reverse, z, ?_, ?_⟩
    · have hHead := List.head_dropWhile_not (l := contacts.reverse) (fun c => !s.active c)
        (by rw [hDrop]; exact List.cons_ne_nil z pre)
      simpa [hDrop] using hHead
    · rw [hDrop] at hSplit
      simpa using hSplit

/-- **The loop of `idleTime`** starts anew behind the last active contact. -/
theorem idleScan_eq (contacts : List γ) :
    contacts.foldl s.idleStep 0 = s.leastIdle (s.behindActive contacts) := by
  obtain ⟨hNone, ⟨-, hAll⟩ | ⟨pre, z, hActive, hSplit⟩⟩ := behindActive_spec (s := s) contacts
  · rw [hAll] at hNone ⊢
    exact foldl_idleStep_zero hNone
  · conv_lhs => rw [hSplit]
    rw [List.foldl_append, List.foldl_cons, idleStep_active hActive]
    exact foldl_idleStep_zero hNone

theorem leastIdle_split {pre l : List γ} {d : γ} (hPre : ∀ c ∈ pre, s.idleTime c = 0)
    (hd : s.idleTime d ≠ 0) : s.leastIdle (pre ++ d :: l) = s.leastFrom (s.idleTime d) l := by
  induction pre with
  | nil => exact if_neg hd
  | cons c pre ih =>
    rw [List.cons_append, leastIdle, if_pos (hPre c List.mem_cons_self)]
    exact ih fun c' hc' => hPre c' (List.mem_cons_of_mem c hc')

theorem idlesRight_active {contacts : List γ} (h : contacts.any s.active = true) :
    s.IdlesRight contacts ↔ s.leastIdle (s.behindActive contacts) % 2 ^ 32 = 0 := by
  obtain ⟨z, hz, hActive⟩ := List.any_eq_true.mp h
  obtain ⟨hOnline, hIdle⟩ : s.isOnline z = true ∧ s.idleTime z = 0 := by
    simpa [active] using hActive
  have hTime : s.idleTimeOf contacts = s.leastIdle (s.behindActive contacts) % 2 ^ 32 := by
    rw [idleTimeOf, idleScan_eq]
  rw [← hTime]
  constructor
  · rintro ⟨-, hLeast⟩
    exact Nat.le_zero.mp ((hLeast z hz hOnline).trans_eq hIdle)
  · intro hZero
    rw [IdlesRight, hZero]
    exact ⟨⟨z, hz, hOnline, hIdle⟩, fun c _ _ => Nat.zero_le _⟩

theorem leastFrom_le_of_online {pre l : List γ} {d : γ} (hPre : ∀ c ∈ pre, s.idleTime c = 0)
    (hIdle : ∀ c ∈ pre ++ d :: l, s.isOnline c = true → s.idleTime c ≠ 0) :
    ∀ c ∈ pre ++ d :: l, s.isOnline c = true → s.leastFrom (s.idleTime d) l ≤ s.idleTime c := by
  obtain ⟨-, hStart, hAll⟩ := leastFrom_spec (s := s) (s.idleTime d) l
  intro c hc hOnline
  rcases List.mem_append.mp hc with hBefore | hRest
  · exact absurd (hPre c hBefore) (hIdle c hc hOnline)
  · rcases List.mem_cons.mp hRest with rfl | hBehind
    · exact hStart
    · exact hAll c hBehind hOnline

theorem idlesRight_inactive {contacts : List γ} (hOnline : ∃ c ∈ contacts, s.isOnline c = true)
    (h : contacts.any s.active = false) :
    s.IdlesRight contacts ↔
      ∀ d, contacts.find? (fun c => decide (s.idleTime c ≠ 0)) = some d →
        ∃ c ∈ contacts, s.isOnline c = true ∧ s.idleTime c ≤ s.idleTime d ∧
          s.idleTime c < 2 ^ 32 := by
  have hNone : ∀ c ∈ contacts, s.active c = false := by simpa using h
  have hIdle : ∀ c ∈ contacts, s.isOnline c = true → s.idleTime c ≠ 0 := by
    intro c hc hOnline hZero
    have := hNone c hc
    simp [active, hOnline, hZero] at this
  obtain ⟨e, he, heOnline⟩ := hOnline
  obtain ⟨d, hFind⟩ : ∃ d, contacts.find? (fun c => decide (s.idleTime c ≠ 0)) = some d := by
    refine Option.isSome_iff_exists.mp (List.find?_isSome.mpr ⟨e, he, ?_⟩)
    exact decide_eq_true (hIdle e he heOnline)
  obtain ⟨hd, pre, l, rfl, hPre⟩ := List.find?_eq_some_iff_append.mp hFind
  have hd : s.idleTime d ≠ 0 := of_decide_eq_true hd
  have hPre : ∀ c ∈ pre, s.idleTime c = 0 := by simpa using hPre
  have hTime : s.idleTimeOf (pre ++ d :: l) = s.leastFrom (s.idleTime d) l % 2 ^ 32 := by
    rw [idleTimeOf, foldl_idleStep_zero hNone, leastIdle_split hPre hd]
  have hLeast := leastFrom_le_of_online hPre hIdle
  obtain ⟨hFrom, hStart, -⟩ := leastFrom_spec (s := s) (s.idleTime d) l
  generalize s.leastFrom (s.idleTime d) l = least at *
  rw [hFind]
  simp only [Option.some.injEq, forall_eq']
  constructor
  · rintro ⟨⟨c, hc, hOnline, hSame⟩, -⟩
    rw [hTime] at hSame
    refine ⟨c, hc, hOnline, ?_, by omega⟩
    have := Nat.mod_le least (2 ^ 32)
    omega
  · rintro ⟨c, hc, hOnline, hLe, hFits⟩
    have hBelow := hLeast c hc hOnline
    rw [IdlesRight, hTime, Nat.mod_eq_of_lt (by omega)]
    refine ⟨?_, hLeast⟩
    rcases hFrom with hSame | ⟨c', hc', hOnline', hSame⟩
    · exact ⟨c, hc, hOnline, by omega⟩
    · exact ⟨c', by simp [hc'], hOnline', hSame⟩

/-- **Idle times.** -/
theorem idlesRight_iff {contacts : List γ} (hOnline : ∃ c ∈ contacts, s.isOnline c = true) :
    s.IdlesRight contacts ↔ s.IdleFound contacts := by
  unfold IdleFound
  split
  · next hActive => exact idlesRight_active hActive
  · next hInactive => exact idlesRight_inactive hOnline (by simpa using hInactive)

/-- **Both scans** are right exactly when the first contact accepts files or leaves them to one
that does, and the idle time is found. -/
theorem scans_right_iff (s : ContactAnswers γ) (contacts : List γ)
    (h : s.anyAcceptsFiles contacts = true) :
    s.SendsRight contacts ∧ s.IdlesRight contacts ↔
      s.FirstYields contacts ∧ s.IdleFound contacts := by
  obtain ⟨c, hc, hAccepts⟩ := exists_of_anyAccepts h
  rw [sendsRight_iff h, idlesRight_iff ⟨c, hc, (Bool.and_eq_true _ _ ▸ hAccepts).1⟩]

/-- Three contacts: `0` is online and takes no files, `1` is online and takes files, and `2`
is offline; the first two are idle. -/
def someAnswers : ContactAnswers Nat where
  onlineStatus c := .ofType (if c = 2 then .offline else .online)
  isFileCapable c := c = 1
  idleTime c := if c = 2 then 10 else 20 + c

theorem scans_right_files_first :
    someAnswers.SendsRight [1, 0, 2] ∧ someAnswers.IdlesRight [1, 0, 2] ↔
      someAnswers.FirstYields [1, 0, 2] ∧ someAnswers.IdleFound [1, 0, 2] :=
  scans_right_iff someAnswers [1, 0, 2] (by decide)

/-- **The first contact takes no files**, and gets the file nevertheless. -/
theorem file_to_first : ¬ ∀ (s : ContactAnswers Nat) (contacts : List Nat),
    s.anyAcceptsFiles contacts = true → s.SendsRight contacts ∧ s.IdlesRight contacts := by
  intro h
  obtain ⟨⟨r, -, hSend, hAccepts, -⟩, -⟩ := h someAnswers [0, 1] (by decide)
  obtain rfl : 0 = r := Option.some.inj hSend
  exact absurd hAccepts (by decide)

end ContactAnswers

end Kopete
