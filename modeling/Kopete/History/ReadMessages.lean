import Kopete.History.LogFiles
import Mathlib

/-!
# History — reading the messages of all contacts

The messages of a metacontact are read page by page, from the first or from the last one.
For each contact it is remembered where to go on. Where there are several contacts, the one
with the next message is read until the runner-up among the others comes first, and then it
is looked again; where no contact has another message, the next month is gone on with.

Main results:

* `choice_spec` — of several contacts, who is read and how far;
* `stretch_spec` — what a stretch of one contact's messages takes, and where it stops;
* `goesOn_iff` — when such a stretch keeps the times and the limit.
-/

namespace History.Reading

open Html (latin1)

/-! ## Logs -/

/-- `HistoryLogger::Sens`. -/
inductive Sens where
  | chronological
  | antiChronological
deriving DecidableEq, Repr

/-- The attribute `time`: "d h:m:s", or "d h:m" as Kopete 0.7.x wrote it. -/
structure Time where
  day : Nat
  hour : Fin 24
  minute : Fin 60
  second : Option (Fin 60)
deriving DecidableEq

namespace Time

variable (t : Time)

/-- A `QDateTime` in the month, in seconds. -/
def dateTimeWith (second : Nat) : Nat :=
  ((t.day * 24 + t.hour) * 60 + t.minute) * 60 + second

/-- What `rxTime` makes of it, for which the seconds may be missing. -/
def dateTime : Nat := t.dateTimeWith (t.second.elim 0 Fin.val)

/-- What `rx` makes of it: it asks for the seconds and then leaves them out. Where they are
missing there is no match, and the time is not valid. -/
def nextDateTime : Option Nat := t.second.map fun _ => t.dateTimeWith 0

end Time

/-- A message of a log. -/
structure Msg (μ : Type) where
  time : Time
  content : μ
deriving DecidableEq

/-- A child of the root element: a message, another element, or none. -/
inductive Node (μ : Type) where
  | msg (m : Msg μ)
  | element
  | other
deriving DecidableEq

variable {μ : Type}

def Node.message? : Node μ → Option (Msg μ)
  | .msg m => some m
  | .element => none
  | .other => none

def messagesOf (ns : List (Node μ)) : List (Msg μ) := ns.filterMap Node.message?

/-- The nodes from the next message on. -/
def nextMessage (ns : List (Node μ)) : List (Node μ) := ns.dropWhile fun n => n.message?.isNone

/-- What is on disk, and the day it is read on. -/
structure Logs (μ : Type) where
  today : Date
  dataLocation : QString
  /-- Which files there are. -/
  exists_ : QString → Bool
  /-- The names of the files in a directory, sorted. -/
  entryInfoList : QString → List QString
  /-- The children of the root element of a document; none if it cannot be read. -/
  childNodes : QString → List (Node μ)
  /-- The contacts of the metacontact. -/
  contacts : List Contact
  nodup : contacts.Nodup

namespace Logs

variable (L : Logs μ)

/-- The date that a month goes by, counted back from this month, which is 0. -/
def monthOf (month : Int) : YearMonth := L.today.addMonths (-month)

/-- `getDocument`. -/
def nodes (c : Contact) (month : Int) : List (Node μ) :=
  L.childNodes (getFileName L.dataLocation L.exists_ c (L.monthOf month))

end Logs

/-! ## The first month -/

/-- `\d`. -/
def isDigit (c : UInt16) : Bool := 48 ≤ c && c ≤ 57

def toUInt (s : QString) : Nat := s.foldl (fun n c => n * 10 + (c.toNat - 48)) 0

/-- The captures of "\.(\d\d\d\d)(\d\d)", as numbers. -/
def captures : QString → Nat × Nat
  | [] => (0, 0)
  | c :: rest =>
    if c = 46 ∧ 6 ≤ rest.length ∧ (rest.take 6).all isDigit then
      (toUInt (rest.take 4), toUInt ((rest.drop 4).take 2))
    else captures rest

namespace Logs

variable (L : Logs μ)

/-- The first file whose name has the contact's id in it; none if it was made in the future. -/
def firstMonthIn (c : Contact) (files : List QString) : Option Nat :=
  match files.find? fun name => decide (sanitize c.contactId <:+: name) with
  | none => none
  | some name =>
    let result := 12 * (L.today.year - (captures name).1) + L.today.month - (captures name).2
    if result < 0 then none else some result.toNat

/-- The directory of a protocol, where Kopete 0.7.x kept the files. -/
def protocolDir (c : Contact) : QString :=
  L.dataLocation ++ latin1 "/" ++ latin1 "kopete/logs/" ++ sanitize c.pluginId

def accountDir (c : Contact) : QString :=
  L.protocolDir c ++ latin1 "/" ++ sanitize c.accountId

/-- `HistoryLogger::getFirstMonth` of a contact. -/
def getFirstMonthOf (c : Contact) : Nat :=
  match L.firstMonthIn c (L.entryInfoList (L.protocolDir c)) with
  | some result => result
  | none => (L.firstMonthIn c (L.entryInfoList (L.accountDir c))).getD 0

/-- `HistoryLogger::getFirstMonth`. -/
def getFirstMonth : Nat :=
  L.contacts.foldl (fun m c => if L.getFirstMonthOf c > m then L.getFirstMonthOf c else m) 0

end Logs

/-! ## Reading -/

namespace Sens

variable (sens : Sens)

/-- The second time is not before the first one, in this direction. -/
def le (a b : Nat) : Bool :=
  match sens with
  | .chronological => a ≤ b
  | .antiChronological => b ≤ a

def lt (a b : Nat) : Bool :=
  match sens with
  | .chronological => a < b
  | .antiChronological => b < a

end Sens

/-- Where to go on: the month, and of each contact the nodes from the next message on, in the
direction that is read in. What is remembered for the other direction is left out. -/
structure Position (μ : Type) where
  currentMonth : Nat
  currentElements : Contact → Option (List (Node μ))

/-- A message that is returned; `message` is empty for an element that is none. -/
structure Shown (μ : Type) where
  contact : Contact
  month : Nat
  message : Option (Msg μ)
  timestamp : Option Nat
deriving DecidableEq

/-- What the loop over the contacts finds. -/
structure Choice (μ : Type) where
  timestamp : Option Nat
  timeLimit : Option Nat
  current : Option (Contact × List (Node μ))

section Loops

variable (L : Logs μ) (sens : Sens)

/-- The nodes of a document in the direction that is read in. -/
def Logs.siblings (c : Contact) (month : Int) : List (Node μ) :=
  match sens with
  | .chronological => L.nodes c month
  | .antiChronological => (L.nodes c month).reverse

namespace Position

variable {L sens} (p : Position μ)

variable (L sens) in
/-- Where a contact is read on. -/
def cursor (c : Contact) : List (Node μ) :=
  (p.currentElements c).getD (L.siblings sens c p.currentMonth)

variable (L sens) in
/-- The body of the loop over the contacts. -/
def choose (ch : Choice μ) (c : Contact) : Choice μ :=
  match nextMessage (p.cursor L sens c) with
  | .msg m :: ns =>
    let dt := m.time.dateTime
    if ch.timestamp.all (sens.lt dt ·) then
      { timestamp := some dt, timeLimit := ch.timestamp, current := some (c, .msg m :: ns) }
    else if ch.timeLimit.all (sens.lt dt ·) then { ch with timeLimit := some dt }
    else ch
  | _ => ch

variable (L sens) in
/-- Of a single contact the next item is taken: if the document has no message, the element
that was looked at last. -/
def single (c : Contact) : List (Node μ) :=
  match p.currentElements c with
  | some ns => ns
  | none =>
    let ns := L.siblings sens c p.currentMonth
    match nextMessage ns with
    | [] => if let some .element := ns.getLast? then [.element] else []
    | found => found

variable (L sens) in
/-- The contact that is read next, the time of its next message, and that of the runner-up. -/
def choice : Choice μ :=
  match L.contacts with
  | [c] => ⟨none, none, if p.single L sens c = [] then none else some (c, p.single L sens c)⟩
  | contacts => contacts.foldl (p.choose L sens) ⟨none, none, none⟩

/-- The next message of a contact is remembered. -/
def resume (c : Contact) (stop : List (Node μ)) : Position μ :=
  { p with currentElements := Function.update p.currentElements c (some stop) }

variable (L sens) in
/-- `setCurrentMonth` in the direction that is read in, if there is another month. -/
def nextMonth : Option (Position μ) :=
  match sens with
  | .chronological =>
    if p.currentMonth = 0 then none else some ⟨p.currentMonth - 1, fun _ => none⟩
  | .antiChronological =>
    if p.currentMonth ≥ L.getFirstMonth then none else some ⟨p.currentMonth + 1, fun _ => none⟩

end Position

/-- One of the times is not valid, or the limit is not reached. -/
def within (timestamp timeLimit : Option Nat) : Bool :=
  timestamp.all fun a => timeLimit.all fun b => sens.le a b

/-- The time of the next message: with several contacts it is parsed at once, else later. -/
def nextTimestamp (merging : Bool) (ns : List (Node μ)) : Option Nat :=
  match merging, ns with
  | true, .msg m :: _ => m.time.nextDateTime
  | _, _ => none

/-- The loop over the messages of one contact, and where it stops. -/
def stretch (merging : Bool) (c : Contact) (month : Nat) (timeLimit : Option Nat) :
    Nat → Option Nat → List (Node μ) → List (Shown μ) × List (Node μ)
  | 0, _, ns => ([], ns)
  | _ + 1, _, [] => ([], [])
  | lines + 1, timestamp, msgElem :: rest =>
    if within sens timestamp timeLimit then
      let parsed := msgElem.message?.map fun m => m.time.dateTime
      let ns := nextMessage rest
      let (messages, stop) :=
        stretch merging c month timeLimit lines (nextTimestamp merging ns) ns
      (⟨c, month, msgElem.message?, timestamp.or parsed⟩ :: messages, stop)
    else ([], msgElem :: rest)

/-- Whether the histories of several contacts are merged. -/
def Logs.merging : Bool := L.contacts.length > 1

/-- The loop of `readMessages`, and the position behind it; `none` when the fuel runs out. -/
def readLoop : Nat → Nat → Position μ → Option (List (Shown μ) × Position μ)
  | 0, _, _ => none
  | fuel + 1, lines, p =>
    if lines = 0 then some ([], p)
    else
      let ch := p.choice L sens
      match ch.current with
      | none =>
        match p.nextMonth L sens with
        | none => some ([], p)
        | some p => readLoop fuel lines p
      | some (c, ns) =>
        let (messages, stop) :=
          stretch sens L.merging c p.currentMonth ch.timeLimit lines ch.timestamp ns
        (readLoop fuel (lines - messages.length) (p.resume c stop)).map fun r =>
          (messages ++ r.1, r.2)

/-- `HistoryLogger::readMessages` without a contact and without a filter, in the direction that
the position was set for. -/
def readMessages (fuel lines : Nat) (p : Position μ) :
    Option (List (Shown μ) × Position μ) :=
  if L.contacts = [] then some ([], p)
  else (readLoop L sens fuel lines p).map fun (messages, p) =>
    (messages, if messages.length < lines then { p with currentElements := fun _ => none } else p)

/-- `setPositionToFirst` and `setPositionToLast`. -/
def start : Position μ :=
  match sens with
  | .chronological => ⟨L.getFirstMonth, fun _ => none⟩
  | .antiChronological => ⟨0, fun _ => none⟩

/-- `readMessages`, until a call returns fewer than `n` messages. -/
def readPages (n : Nat) : Nat → Position μ → Option (List (List (Shown μ)))
  | 0, _ => none
  | fuel + 1, p =>
    (readMessages L sens fuel n p).bind fun (page, p) =>
      if page.length < n then some [page] else (readPages n fuel p).map (page :: ·)

end Loops

/-! ## Times and nodes -/

namespace Sens

variable (sens : Sens)

theorem le_refl (a : Nat) : sens.le a a = true := by
  cases sens <;> simp [le]

variable {sens}

theorem le_trans {a b c : Nat} (h : sens.le a b = true) (h' : sens.le b c = true) :
    sens.le a c = true := by
  cases sens <;> simp only [le, decide_eq_true_eq] at * <;> omega

theorem le_of_lt {a b : Nat} (h : sens.lt a b = true) : sens.le a b = true := by
  cases sens <;> simp only [lt, le, decide_eq_true_eq] at * <;> omega

theorem le_of_not_lt {a b : Nat} (h : ¬ sens.lt a b = true) : sens.le b a = true := by
  cases sens <;> simp only [lt, le, decide_eq_true_eq] at * <;> omega

end Sens

theorem Time.nextDateTime_or (t : Time) :
    t.nextDateTime.or (some t.dateTime) = some t.dateTime ↔ t.second.elim 0 Fin.val = 0 := by
  unfold nextDateTime dateTime dateTimeWith
  cases t.second with
  | none => simp
  | some second =>
    simp only [Option.map_some, Option.some_or, Option.some.injEq, Option.elim_some]
    omega

theorem nextMessage_cases (ns : List (Node μ)) :
    nextMessage ns = [] ∧ messagesOf ns = [] ∨
      ∃ m rest, nextMessage ns = .msg m :: rest ∧ messagesOf ns = m :: messagesOf rest ∧
        rest.length < ns.length := by
  induction ns with
  | nil => exact .inl ⟨rfl, rfl⟩
  | cons node ns ih =>
    cases node with
    | msg m => exact .inr ⟨m, ns, rfl, rfl, Nat.lt_succ_self _⟩
    | element | other =>
      rcases ih with hNone | ⟨m, rest, hNext, hMessages, hShort⟩
      · exact .inl hNone
      · exact .inr ⟨m, rest, hNext, hMessages, Nat.lt_succ_of_lt hShort⟩

theorem messagesOf_nextMessage (ns : List (Node μ)) :
    messagesOf (nextMessage ns) = messagesOf ns := by
  rcases nextMessage_cases ns with ⟨hNext, hMessages⟩ | ⟨m, rest, hNext, hMessages, -⟩
  · rw [hNext, hMessages]
    rfl
  · rw [hNext, hMessages]
    rfl

/-! ## Who is read -/

section Choices

variable {L : Logs μ} {sens : Sens} {p : Position μ}

/-- After the contacts `done`, the one that is read next, and the runner-up. -/
structure Chosen (L : Logs μ) (sens : Sens) (p : Position μ) (done : List Contact)
    (ch : Choice μ) : Prop where
  empty : ch.current = none → ch.timestamp = none ∧ ch.timeLimit = none ∧
    ∀ d ∈ done, messagesOf (p.cursor L sens d) = []
  found : ∀ c ns, ch.current = some (c, ns) → c ∈ done ∧ nextMessage (p.cursor L sens c) = ns ∧
    ∃ m rest, ns = .msg m :: rest ∧ ch.timestamp = some m.time.dateTime ∧
      (∀ d ∈ done, d ≠ c → ∀ x ∈ (messagesOf (p.cursor L sens d)).head?,
        ∃ l ∈ ch.timeLimit, sens.le l x.time.dateTime) ∧
      ∀ l ∈ ch.timeLimit, sens.le m.time.dateTime l ∧
        ∃ d ∈ done, d ≠ c ∧ ∃ x ∈ (messagesOf (p.cursor L sens d)).head?, x.time.dateTime = l

theorem chosen_nil (L : Logs μ) (sens : Sens) (p : Position μ) :
    Chosen L sens p [] ⟨none, none, none⟩ := by
  refine ⟨fun _ => ⟨rfl, rfl, fun d hd => by cases hd⟩, ?_⟩
  intro c ns hCurrent
  cases hCurrent

theorem Chosen.pass {done : List Contact} {ch : Choice μ} (h : Chosen L sens p done ch)
    {d : Contact} (hEmpty : messagesOf (p.cursor L sens d) = []) :
    Chosen L sens p (done ++ [d]) ch := by
  refine ⟨fun hNone => ?_, fun c ns hCurrent => ?_⟩
  · obtain ⟨hTime, hLimit, hDone⟩ := h.empty hNone
    refine ⟨hTime, hLimit, fun d' hd' => ?_⟩
    rcases List.mem_append.mp hd' with hBefore | hHere
    · exact hDone d' hBefore
    · rw [List.mem_singleton.mp hHere, hEmpty]
  · obtain ⟨hMem, hNs, m, rest, hHead, hTime, hOthers, hLimit⟩ := h.found c ns hCurrent
    refine ⟨List.mem_append_left _ hMem, hNs, m, rest, hHead, hTime, ?_, ?_⟩
    · intro d' hd' hOther x hx
      rcases List.mem_append.mp hd' with hBefore | hHere
      · exact hOthers d' hBefore hOther x hx
      · rw [List.mem_singleton.mp hHere, hEmpty] at hx
        cases hx
    · intro l hl
      obtain ⟨hLe, d', hd', hRest⟩ := hLimit l hl
      exact ⟨hLe, d', List.mem_append_left _ hd', hRest⟩

section Found

variable {done : List Contact} {ch : Choice μ} {c d : Contact} {m x : Msg μ}
  {ns rest : List (Node μ)}

theorem Chosen.first (h : Chosen L sens p done ch) (hNone : ch.current = none)
    (hNext : nextMessage (p.cursor L sens d) = .msg x :: rest) :
    Chosen L sens p (done ++ [d])
      ⟨some x.time.dateTime, ch.timestamp, some (d, .msg x :: rest)⟩ := by
  obtain ⟨hTime, -, hDone⟩ := h.empty hNone
  refine ⟨fun hCurrent => (by cases hCurrent), fun c' ns' hCurrent => ?_⟩
  obtain ⟨rfl, rfl⟩ := Prod.mk.inj (Option.some.inj hCurrent)
  refine ⟨by simp, hNext, x, rest, rfl, rfl, ?_, ?_⟩
  · intro d' hd' hOther y hy
    rcases List.mem_append.mp hd' with hBefore | hHere
    · rw [hDone d' hBefore] at hy
      cases hy
    · exact absurd (List.mem_singleton.mp hHere) hOther
  · intro l hl
    rw [hTime] at hl
    cases hl

theorem Chosen.before (h : Chosen L sens p done ch) (hNew : d ∉ done)
    (hCurrent : ch.current = some (c, ns))
    (hNext : nextMessage (p.cursor L sens d) = .msg x :: rest)
    (hBefore : ch.timestamp.all (sens.lt x.time.dateTime ·) = true) :
    Chosen L sens p (done ++ [d])
      ⟨some x.time.dateTime, ch.timestamp, some (d, .msg x :: rest)⟩ := by
  obtain ⟨hMem, hNs, m, rest', hHead, hTime, hOthers, hLimit⟩ := h.found c ns hCurrent
  have hLt : sens.lt x.time.dateTime m.time.dateTime = true := by simpa [hTime] using hBefore
  have hOld : messagesOf (p.cursor L sens c) = m :: messagesOf rest' := by
    rw [← messagesOf_nextMessage, hNs, hHead]
    rfl
  refine ⟨fun hCurrent => (by cases hCurrent), fun c' ns' hCurrent => ?_⟩
  obtain ⟨rfl, rfl⟩ := Prod.mk.inj (Option.some.inj hCurrent)
  refine ⟨by simp, hNext, x, rest, rfl, rfl, ?_, ?_⟩
  · intro d' hd' hOther y hy
    refine ⟨m.time.dateTime, hTime, ?_⟩
    rcases List.mem_append.mp hd' with hDone | hHere
    · by_cases hSame : d' = c
      · rw [hSame, hOld, List.head?_cons, Option.mem_some_iff] at hy
        rw [← hy]
        exact sens.le_refl _
      · obtain ⟨l, hl, hLe⟩ := hOthers d' hDone hSame y hy
        exact Sens.le_trans (hLimit l hl).1 hLe
    · exact absurd (List.mem_singleton.mp hHere) hOther
  · intro l hl
    obtain rfl : m.time.dateTime = l := by simpa [hTime] using hl
    refine ⟨Sens.le_of_lt hLt, c, List.mem_append_left _ hMem, ?_, m, ?_, rfl⟩
    · rintro rfl
      exact hNew hMem
    · rw [hOld]
      rfl

theorem Chosen.limit (h : Chosen L sens p done ch) (hNew : d ∉ done)
    (hCurrent : ch.current = some (c, ns))
    (hNext : nextMessage (p.cursor L sens d) = .msg x :: rest)
    (hNot : ¬ ch.timestamp.all (sens.lt x.time.dateTime ·) = true)
    (hBefore : ch.timeLimit.all (sens.lt x.time.dateTime ·) = true) :
    Chosen L sens p (done ++ [d]) { ch with timeLimit := some x.time.dateTime } := by
  obtain ⟨hMem, hNs, m, rest', hHead, hTime, hOthers, hLimit⟩ := h.found c ns hCurrent
  have hLe : sens.le m.time.dateTime x.time.dateTime = true :=
    Sens.le_of_not_lt (by simpa [hTime] using hNot)
  have hHere : messagesOf (p.cursor L sens d) = x :: messagesOf rest := by
    rw [← messagesOf_nextMessage, hNext]
    rfl
  refine ⟨fun hNone => (by rw [hCurrent] at hNone; cases hNone), fun c' ns' hCurrent' => ?_⟩
  obtain ⟨rfl, rfl⟩ := Prod.mk.inj (Option.some.inj (hCurrent.symm.trans hCurrent'))
  refine ⟨List.mem_append_left _ hMem, hNs, m, rest', hHead, hTime, ?_, ?_⟩
  · intro d' hd' hOther y hy
    refine ⟨x.time.dateTime, rfl, ?_⟩
    rcases List.mem_append.mp hd' with hDone | hLast
    · obtain ⟨l, hl, hLe'⟩ := hOthers d' hDone hOther y hy
      have hLt : sens.lt x.time.dateTime l = true := by
        rw [Option.mem_def] at hl
        simpa [hl] using hBefore
      exact Sens.le_trans (Sens.le_of_lt hLt) hLe'
    · rw [List.mem_singleton.mp hLast, hHere, List.head?_cons, Option.mem_some_iff] at hy
      rw [hy]
      exact sens.le_refl _
  · intro l hl
    obtain rfl : x.time.dateTime = l := Option.some.inj hl
    refine ⟨hLe, d, by simp, ?_, x, ?_, rfl⟩
    · rintro rfl
      exact hNew hMem
    · rw [hHere]
      rfl

theorem Chosen.behind (h : Chosen L sens p done ch) (hCurrent : ch.current = some (c, ns))
    (hNext : nextMessage (p.cursor L sens d) = .msg x :: rest)
    (hNot : ¬ ch.timeLimit.all (sens.lt x.time.dateTime ·) = true) :
    Chosen L sens p (done ++ [d]) ch := by
  obtain ⟨hMem, hNs, m, rest', hHead, hTime, hOthers, hLimit⟩ := h.found c ns hCurrent
  obtain ⟨l, hl, hLe⟩ : ∃ l, ch.timeLimit = some l ∧ sens.le l x.time.dateTime = true := by
    cases hl : ch.timeLimit with
    | none => simp [hl] at hNot
    | some l => exact ⟨l, rfl, Sens.le_of_not_lt (by simpa [hl] using hNot)⟩
  refine ⟨fun hNone => (by rw [hCurrent] at hNone; cases hNone), fun c' ns' hCurrent' => ?_⟩
  obtain ⟨rfl, rfl⟩ := Prod.mk.inj (Option.some.inj (hCurrent.symm.trans hCurrent'))
  refine ⟨List.mem_append_left _ hMem, hNs, m, rest', hHead, hTime, ?_, ?_⟩
  · intro d' hd' hOther y hy
    rcases List.mem_append.mp hd' with hDone | hLast
    · exact hOthers d' hDone hOther y hy
    · rw [List.mem_singleton.mp hLast, ← messagesOf_nextMessage, hNext] at hy
      obtain rfl : x = y := Option.some.inj hy
      exact ⟨l, hl, hLe⟩
  · intro l' hl'
    obtain ⟨hLe', d', hd', hRest⟩ := hLimit l' hl'
    exact ⟨hLe', d', List.mem_append_left _ hd', hRest⟩

end Found

/-- **One more contact** is looked at. -/
theorem chosen_choose {done : List Contact} {ch : Choice μ} (h : Chosen L sens p done ch)
    {d : Contact} (hNew : d ∉ done) : Chosen L sens p (done ++ [d]) (p.choose L sens ch d) := by
  rcases nextMessage_cases (p.cursor L sens d) with
    ⟨hNext, hEmpty⟩ | ⟨x, rest, hNext, -, -⟩
  · rw [Position.choose, hNext]
    exact h.pass hEmpty
  · rw [Position.choose, hNext]
    dsimp only
    rcases Option.eq_none_or_eq_some ch.current with hCurrent | ⟨⟨c, ns⟩, hCurrent⟩
    · obtain ⟨hTime, -⟩ := h.empty hCurrent
      rw [if_pos (by simp [hTime])]
      exact h.first hCurrent hNext
    · split
      · next hBefore => exact h.before hNew hCurrent hNext hBefore
      · next hNot =>
        split
        · next hBefore => exact h.limit hNew hCurrent hNext hNot hBefore
        · next hBehind => exact h.behind hCurrent hNext hBehind

theorem chosen_foldl (contacts : List Contact) {done : List Contact} {ch : Choice μ}
    (h : Chosen L sens p done ch) (hNodup : (done ++ contacts).Nodup) :
    Chosen L sens p (done ++ contacts) (contacts.foldl (p.choose L sens) ch) := by
  induction contacts generalizing done ch with
  | nil => rwa [List.append_nil]
  | cons d contacts ih =>
    have hNew : d ∉ done := fun hMem =>
      (List.nodup_append.mp hNodup).2.2 d hMem d List.mem_cons_self rfl
    have hNext := chosen_choose h hNew
    rw [← List.singleton_append, ← List.append_assoc] at hNodup ⊢
    exact ih hNext hNodup

/-- **Who is read**, and how far, where there are several contacts. -/
theorem choice_spec (h : L.merging = true) (sens : Sens) (p : Position μ) :
    Chosen L sens p L.contacts (p.choice L sens) := by
  have hFold := chosen_foldl L.contacts (chosen_nil L sens p) L.nodup
  unfold Position.choice
  split
  · next c hSingle => simp [Logs.merging, hSingle] at h
  · exact hFold

end Choices

/-! ## A stretch of one contact's messages -/

/-- At the end, or at a message. -/
def AtMessage (ns : List (Node μ)) : Prop := ns = [] ∨ ∃ m rest, ns = .msg m :: rest

theorem atMessage_nextMessage (ns : List (Node μ)) : AtMessage (nextMessage ns) := by
  rcases nextMessage_cases ns with ⟨hNext, -⟩ | ⟨m, rest, hNext, -, -⟩
  · exact .inl hNext
  · exact .inr ⟨m, rest, hNext⟩

section Stretches

variable (sens : Sens) (merging : Bool) (c : Contact) (month : Nat) (timeLimit : Option Nat)

theorem stretch_nil (lines : Nat) (timestamp : Option Nat) :
    stretch sens merging c month timeLimit lines timestamp ([] : List (Node μ)) = ([], []) := by
  cases lines <;> rfl

variable {sens timeLimit} in
theorem stretch_cons {timestamp : Option Nat} (h : within sens timestamp timeLimit = true)
    (lines : Nat) (msgElem : Node μ) (rest : List (Node μ)) :
    stretch sens merging c month timeLimit (lines + 1) timestamp (msgElem :: rest) =
      (⟨c, month, msgElem.message?,
          timestamp.or (msgElem.message?.map fun m => m.time.dateTime)⟩ ::
        (stretch sens merging c month timeLimit lines
          (nextTimestamp merging (nextMessage rest)) (nextMessage rest)).1,
        (stretch sens merging c month timeLimit lines
          (nextTimestamp merging (nextMessage rest)) (nextMessage rest)).2) := by
  rw [stretch, if_pos h]

variable {sens timeLimit} in
theorem stretch_limited {timestamp : Option Nat} (h : ¬ within sens timestamp timeLimit = true)
    (lines : Nat) (ns : List (Node μ)) :
    stretch sens merging c month timeLimit lines timestamp ns = ([], ns) := by
  cases lines with
  | zero => rfl
  | succ lines =>
    cases ns with
    | nil => rfl
    | cons msgElem rest => rw [stretch, if_neg h]

theorem stretch_here (lines : Nat) (timestamp : Option Nat) (ns : List (Node μ)) :
    ∀ e ∈ (stretch sens merging c month timeLimit lines timestamp ns).1,
      e.contact = c ∧ e.month = month := by
  induction lines generalizing timestamp ns with
  | zero => exact fun e he => by cases he
  | succ lines ih =>
    rcases ns with _ | ⟨msgElem, rest⟩
    · exact fun e he => by cases he
    · by_cases hWithin : within sens timestamp timeLimit = true
      · rw [stretch_cons merging c month hWithin]
        intro e he
        rcases List.mem_cons.mp he with rfl | he
        · exact ⟨rfl, rfl⟩
        · exact ih _ _ e he
      · rw [stretch_limited merging c month hWithin]
        exact fun e he => by cases he

theorem length_stretch_le (lines : Nat) (timestamp : Option Nat) (ns : List (Node μ)) :
    (stretch sens merging c month timeLimit lines timestamp ns).1.length ≤ lines := by
  induction lines generalizing timestamp ns with
  | zero => exact Nat.le_refl 0
  | succ lines ih =>
    rcases ns with _ | ⟨msgElem, rest⟩
    · exact Nat.zero_le _
    · by_cases hWithin : within sens timestamp timeLimit = true
      · rw [stretch_cons merging c month hWithin]
        exact Nat.succ_le_succ (ih _ _)
      · rw [stretch_limited merging c month hWithin]
        exact Nat.zero_le _

/-- **A stretch** takes the next messages, and stops at one. -/
theorem stretch_spec (lines : Nat) (timestamp : Option Nat) {ns : List (Node μ)}
    (h : AtMessage ns) :
    let r := stretch sens merging c month timeLimit lines timestamp ns
    (messagesOf ns).map some = r.1.map Shown.message ++ (messagesOf r.2).map some ∧
      AtMessage r.2 ∧ r.1.length + r.2.length ≤ ns.length := by
  induction lines generalizing timestamp ns with
  | zero => exact ⟨rfl, h, by simp [stretch]⟩
  | succ lines ih =>
    rcases h with rfl | ⟨m, rest, rfl⟩
    · rw [stretch_nil]
      exact ⟨rfl, .inl rfl, Nat.le_refl 0⟩
    · by_cases hWithin : within sens timestamp timeLimit = true
      · rw [stretch_cons merging c month hWithin]
        obtain ⟨hSplit, hStop, hShort⟩ :=
          ih (nextTimestamp merging (nextMessage rest)) (atMessage_nextMessage rest)
        have hRest : (nextMessage rest).length ≤ rest.length :=
          (List.dropWhile_suffix _).length_le
        refine ⟨?_, hStop, ?_⟩
        · rw [messagesOf_nextMessage] at hSplit
          simp only [List.map_cons, List.cons_append, ← hSplit]
          rfl
        · simp only [List.length_cons]
          omega
      · rw [stretch_limited merging c month hWithin]
        exact ⟨rfl, .inr ⟨m, rest, rfl⟩, by simp⟩

theorem stretch_stamped (lines : Nat) {ns : List (Node μ)} (h : AtMessage ns) :
    ∀ e ∈ (stretch sens false c month timeLimit lines none ns).1, ∀ m ∈ e.message,
      e.timestamp = some m.time.dateTime := by
  induction lines generalizing ns with
  | zero => exact fun e he => by cases he
  | succ lines ih =>
    rcases h with rfl | ⟨m, rest, rfl⟩
    · exact fun e he => by cases he
    · rw [stretch_cons false c month rfl]
      intro e he
      rcases List.mem_cons.mp he with rfl | he
      · intro m' hm'
        obtain rfl : m = m' := Option.some.inj hm'
        rfl
      · exact ih (atMessage_nextMessage rest) e he

end Stretches

/-- Going on with the messages of one contact, the loop reads none whose seconds it leaves out,
and none beyond the limit. -/
def GoesOn (sens : Sens) (timeLimit : Option Nat) : Nat → List (Node μ) → Prop
  | 0, _ => True
  | lines + 1, ns => ∀ m rest, nextMessage ns = .msg m :: rest →
    within sens m.time.nextDateTime timeLimit = true →
      (m.time.second.elim 0 Fin.val = 0 ∧
        within sens (some m.time.dateTime) timeLimit = true) ∧
      GoesOn sens timeLimit lines rest

/-- The message has its time, which does not pass the limit. -/
def Shown.Fits (sens : Sens) (timeLimit : Option Nat) (e : Shown μ) : Prop :=
  ∀ m ∈ e.message, e.timestamp = some m.time.dateTime ∧
    within sens (some m.time.dateTime) timeLimit = true

/-- **Going on with a contact** where there are several. -/
theorem goesOn_iff (sens : Sens) (c : Contact) (month : Nat) (timeLimit : Option Nat) (lines : Nat)
    (ns : List (Node μ)) :
    (∀ e ∈ (stretch sens true c month timeLimit lines (nextTimestamp true (nextMessage ns))
      (nextMessage ns)).1, e.Fits sens timeLimit) ↔ GoesOn sens timeLimit lines ns := by
  induction lines generalizing ns with
  | zero => exact ⟨fun _ => trivial, fun _ e he => by cases he⟩
  | succ lines ih =>
    rcases nextMessage_cases ns with ⟨hNext, -⟩ | ⟨m, rest, hNext, -, -⟩
    · rw [GoesOn, hNext, stretch_nil]
      exact ⟨fun _ m rest hHead => (by cases hHead), fun _ e he => by cases he⟩
    · have hTime : nextTimestamp true (.msg m :: rest) = m.time.nextDateTime := rfl
      have hSame : GoesOn sens timeLimit (lines + 1) ns ↔
          (within sens m.time.nextDateTime timeLimit = true →
            (m.time.second.elim 0 Fin.val = 0 ∧
              within sens (some m.time.dateTime) timeLimit = true) ∧
            GoesOn sens timeLimit lines rest) := by
        rw [GoesOn, hNext]
        constructor
        · exact fun h => h m rest rfl
        · intro h m' rest' hHead
          cases hHead
          exact h
      rw [hSame, hNext, hTime]
      by_cases hWithin : within sens m.time.nextDateTime timeLimit = true
      · rw [stretch_cons true c month hWithin]
        rw [List.forall_mem_cons, ih rest, forall_prop_of_true hWithin]
        simp only [Shown.Fits, Node.message?, Option.mem_some_iff, forall_eq', Option.map_some,
          Time.nextDateTime_or]
      · rw [stretch_limited true c month hWithin]
        exact ⟨fun _ h => absurd h hWithin, fun _ e he => by cases he⟩

end History.Reading
