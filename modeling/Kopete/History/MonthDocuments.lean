import Kopete.History.HistoryLogger
import Kopete.Lib.Run

/-!
# History — documents and months

A message is logged into the document that is in memory for its index, or that is read for it;
the index of a month in an earlier year leads back to another month than the one it was made
from. What a file holds, the document that waits for it and the one in memory have to go
together: each is what the file held at first with messages of the file's month.

Main results:

* `Inv.save`, `Inv.logEntry` — this stays so where what is read is the file of the month;
* `months_kept_of_meets` — no log file receives or loses anything else.
-/

namespace History

open Html (latin1)

/-! ## Runs -/

/-- A logger, the month in which a document was asked for last, and what has been logged. -/
structure Session where
  state : State
  asked : YearMonth
  logged : List Entry

inductive Op
  | append (today : Date) (msg : Message) (ct : Option Contact) (o : Outcome)
  /-- `readMessages` asks for the document of an index. -/
  | read (today : Date) (c : Contact) (month : BitVec 32) (readable : Bool)
  | timeout (o : Outcome)

/-- A new logger. -/
def Session.init (disk : QString → Option Document) (today : Date) : Session :=
  ⟨State.init disk today.toYearMonth, today.toYearMonth, []⟩

def step (dataLocation : QString) (contacts : List Contact) (t : Session) : Op → Session
  | .append today msg ct o =>
    { state := t.state.appendMessage dataLocation contacts today.toYearMonth msg ct o
      asked := if (msg.entry contacts ct).isSome then today.toYearMonth else t.asked
      logged := t.logged ++ (msg.entry contacts ct).toList }
  | .read today c month readable =>
    if c ∈ contacts then
      { t with
        state := (t.state.getDocument dataLocation today.toYearMonth c month readable).1
        asked := today.toYearMonth }
    else t
  | .timeout o =>
    if t.state.saveTimerActive then { t with state := t.state.saveToDisk o } else t

/-- The log file of a message. -/
def State.fileOf (dataLocation : QString) (s : State) (e : Entry) : QString :=
  s.fileName dataLocation e.contact e.message.date.toYearMonth

/-- The messages whose log file is `f`. -/
def State.loggedTo (dataLocation : QString) (s : State) (es : List Entry) (f : QString) :
    List Entry :=
  es.filter fun e => s.fileOf dataLocation e = f

/-! ## Documents ahead of their files -/

/-- A document is what the file `f` holds with messages of that file, and the file is what it
held at first with earlier ones. -/
def Ahead (dataLocation : QString) (s₀ s : State) (es : List Entry) (f : QString)
    (doc : Document) : Prop :=
  ∃ written unsaved,
    (written ++ unsaved).Sublist (s₀.loggedTo dataLocation es f) ∧
    s.content f = (s₀.content f).addEntries written ∧
    doc = (s.content f).addEntries unsaved

/-- What the documents in memory, the one that waits to be saved and the files have to do with
each other; `s₀` is the logger at first. -/
structure Inv (dataLocation : QString) (s₀ : State) (asked : YearMonth) (es : List Entry)
    (s : State) : Prop where
  month : s.realMonth = asked.month
  names : ∀ c d, s.fileName dataLocation c d = s₀.fileName dataLocation c d
  live : ∀ {c k p}, s.documents c k = some p → s.heap.Live p
  own : ∀ {c k c' k' p}, s.documents c k = some p → s.documents c' k' = some p → c = c' ∧ k = k'
  apart : ∀ {c c' k p p'}, s.documents c k = some p → s.documents c' k = some p' →
    ∀ d : Date, d.year ≤ asked.year → monthIndex asked d.toYearMonth = k →
      s₀.fileName dataLocation c d.toYearMonth = s₀.fileName dataLocation c' d.toYearMonth → c = c'
  cached : ∀ {c k p}, s.documents c k = some p →
    ∀ d : Date, d.year ≤ asked.year → monthIndex asked d.toYearMonth = k →
      Ahead dataLocation s₀ s es (s₀.fileName dataLocation c d.toYearMonth) (s.document p)
  waiting : ∀ {p}, s.toSaveDocument = some p →
    s.heap.Live p ∧ Ahead dataLocation s₀ s es s.toSaveFileName (s.document p) ∧
      ∃ c, ∃ d : Date, s.toSaveFileName = s₀.fileName dataLocation c d.toYearMonth ∧
        ∀ c' k, s.documents c' k = some p → c' = c ∧ k = monthIndex asked d.toYearMonth
  agree : ∀ {p c k p'}, s.toSaveDocument = some p → s.documents c k = some p' →
    ∀ d : Date, d.year ≤ asked.year → monthIndex asked d.toYearMonth = k →
      s.toSaveFileName = s₀.fileName dataLocation c d.toYearMonth → p' = p
  idle : s.toSaveDocument = none → s.toSaveFileName = []
  files : ∀ f, ∃ written, written.Sublist (s₀.loggedTo dataLocation es f) ∧
    s.content f = (s₀.content f).addEntries written

variable {dataLocation : QString} {s₀ s : State} {asked : YearMonth} {es : List Entry}

theorem fileName_ne_nil (s : State) (c : Contact) (d : YearMonth) :
    s.fileName dataLocation c d ≠ [] := getFileName_ne_nil _ _ _ _

theorem yearMonth_of_fileName {s' : State} {c c' : Contact} {d d' : YearMonth}
    (h : s.fileName dataLocation c d = s'.fileName dataLocation c' d') : d = d' :=
  yearMonth_of_getFileName h

theorem loggedTo_concat (s : State) (es : List Entry) (e : Entry) (f : QString) :
    s.loggedTo dataLocation (es ++ [e]) f =
      s.loggedTo dataLocation es f ++ if s.fileOf dataLocation e = f then [e] else [] := by
  simp only [State.loggedTo, List.filter_append, List.filter_singleton, Bool.cond_decide]

namespace Ahead

variable {f : QString} {doc : Document}

theorem congr {s' : State} (h : Ahead dataLocation s₀ s es f doc)
    (hContent : s'.content f = s.content f) : Ahead dataLocation s₀ s' es f doc := by
  obtain ⟨written, unsaved, hLogged, hFile, hDoc⟩ := h
  exact ⟨written, unsaved, hLogged, hContent.trans hFile, by rw [hContent, hDoc]⟩

/-- Another message has been logged. -/
theorem logged (h : Ahead dataLocation s₀ s es f doc) (e : Entry) :
    Ahead dataLocation s₀ s (es ++ [e]) f doc := by
  obtain ⟨written, unsaved, hLogged, hFile, hDoc⟩ := h
  refine ⟨written, unsaved, ?_, hFile, hDoc⟩
  rw [loggedTo_concat]
  exact hLogged.trans (List.sublist_append_left ..)

/-- Another message has been logged into the document. -/
theorem addEntry {e : Entry} (h : Ahead dataLocation s₀ s es (s₀.fileOf dataLocation e) doc) :
    Ahead dataLocation s₀ s (es ++ [e]) (s₀.fileOf dataLocation e) (doc.addEntry e) := by
  obtain ⟨written, unsaved, hLogged, hFile, hDoc⟩ := h
  refine ⟨written, unsaved ++ [e], ?_, hFile, ?_⟩
  · rw [loggedTo_concat, if_pos rfl, ← List.append_assoc]
    exact hLogged.append (List.Sublist.refl _)
  · rw [Document.addEntries_concat, ← hDoc]

/-- The document has been written. -/
theorem save {s' : State} (h : Ahead dataLocation s₀ s es f doc) (hContent : s'.content f = doc) :
    Ahead dataLocation s₀ s' es f doc := by
  obtain ⟨written, unsaved, hLogged, hFile, hDoc⟩ := h
  refine ⟨written ++ unsaved, [], ?_, ?_, hContent.symm⟩
  · rwa [List.append_nil]
  · rw [Document.addEntries_append, ← hFile, ← hDoc, hContent]

theorem sublist (h : Ahead dataLocation s₀ s es f doc) :
    ∃ unsaved, unsaved.Sublist (s₀.loggedTo dataLocation es f) ∧
      doc = (s.content f).addEntries unsaved := by
  obtain ⟨written, unsaved, hLogged, -, hDoc⟩ := h
  exact ⟨unsaved, (List.sublist_append_right ..).trans hLogged, hDoc⟩

end Ahead

namespace Inv

/-- A new logger. -/
theorem init (disk : QString → Option Document) (today : YearMonth) :
    Inv dataLocation (State.init disk today) today [] (State.init disk today) where
  month := rfl
  names _ _ := rfl
  live h := nomatch h
  own h := nomatch h
  apart h := nomatch h
  cached h := nomatch h
  waiting h := nomatch h
  agree h := nomatch h
  idle _ := rfl
  files _ := ⟨[], List.nil_sublist _, rfl⟩

/-- **Another month**: the documents in memory go, the one that waits stays. -/
theorem checkMonth (h : Inv dataLocation s₀ asked es s) (today : YearMonth)
    (hYear : asked.month = today.month → asked.year = today.year) :
    Inv dataLocation s₀ today es (s.checkMonth today) := by
  by_cases hMonth : s.realMonth = today.month
  · have hSame : asked = today := by
      ext
      · exact hYear (h.month ▸ hMonth)
      · exact h.month ▸ hMonth
    subst hSame
    rwa [State.checkMonth, if_neg (not_not.mpr hMonth)]
  · rw [State.checkMonth, if_pos hMonth]
    exact
      { month := rfl
        names := h.names
        live := fun h => nomatch h
        own := fun h => nomatch h
        apart := fun h => nomatch h
        cached := fun h => nomatch h
        waiting := fun hWaits => by
          obtain ⟨hLive, hAhead, c, d, hName, -⟩ := h.waiting hWaits
          exact ⟨hLive, hAhead, c, d, hName, fun _ _ h => nomatch h⟩
        agree := fun _ h => nomatch h
        idle := h.idle
        files := h.files }

/-- What a file holds is not ahead of it. -/
theorem ahead_content (h : Inv dataLocation s₀ asked es s) (f : QString) :
    Ahead dataLocation s₀ s es f (s.content f) := by
  obtain ⟨written, hLogged, hFile⟩ := h.files f
  exact ⟨written, [], by rwa [List.append_nil], hFile, rfl⟩

/-- **Reading** what the file of the month holds, while nothing waits for that file. -/
theorem insertDocument (h : Inv dataLocation s₀ asked es s) {c : Contact} {k : BitVec 32}
    {doc : Document} (hNone : s.documents c k = none)
    (hMonth : ∀ d : Date, d.year ≤ asked.year → monthIndex asked d.toYearMonth = k →
      doc = s.content (s.fileName dataLocation c d.toYearMonth) ∧
      s.toSaveFileName ≠ s.fileName dataLocation c d.toYearMonth ∧
      ∀ c' p, s.documents c' k = some p →
        s.fileName dataLocation c' d.toYearMonth ≠ s.fileName dataLocation c d.toYearMonth) :
    Inv dataLocation s₀ asked es (s.insertDocument c k doc) := by
  simp only [h.names] at hMonth
  have hCases : ∀ {c' k' p}, (s.insertDocument c k doc).documents c' k' = some p →
      c' = c ∧ k' = k ∧ p = s.heap.next ∨ s.documents c' k' = some p ∧ p ≠ s.heap.next := by
    intro c' k' p hp
    exact (State.documents_insertDocument hp).imp id fun hp => ⟨hp, (h.live hp).ne_next⟩
  have hSame : ∀ {p}, s.heap.Live p → (s.insertDocument c k doc).document p = s.document p :=
    fun hp => State.document_insertDocument_of_live hp c k doc
  constructor
  case month => exact h.month
  case names => exact h.names
  case live =>
    intro c' k' p hp
    rcases hCases hp with ⟨-, -, rfl⟩ | ⟨hp, -⟩
    · exact Heap.live_new_self doc
    · exact (h.live hp).new doc
  case own =>
    intro c₁ k₁ c₂ k₂ p hp hp'
    rcases hCases hp with ⟨rfl, rfl, rfl⟩ | ⟨hp, hNe⟩
    · rcases hCases hp' with ⟨rfl, rfl, -⟩ | ⟨-, hNe⟩
      · exact ⟨rfl, rfl⟩
      · exact absurd rfl hNe
    · rcases hCases hp' with ⟨-, -, rfl⟩ | ⟨hp', -⟩
      · exact absurd rfl hNe
      · exact h.own hp hp'
  case apart =>
    intro c₁ c₂ k' p p' hp hp' d hd hIndex hName
    rcases hCases hp with ⟨rfl, rfl, -⟩ | ⟨hOld, -⟩
    · rcases hCases hp' with ⟨hc, -, -⟩ | ⟨hOld', -⟩
      · exact hc.symm
      · exact absurd hName.symm ((hMonth d hd hIndex).2.2 c₂ p' hOld')
    · rcases hCases hp' with ⟨rfl, rfl, -⟩ | ⟨hOld', -⟩
      · exact absurd hName ((hMonth d hd hIndex).2.2 c₁ p hOld)
      · exact h.apart hOld hOld' d hd hIndex hName
  case cached =>
    intro c' k' p hp d hd hIndex
    rcases hCases hp with ⟨rfl, rfl, rfl⟩ | ⟨hp, -⟩
    · rw [State.document_insertDocument_self, (hMonth d hd hIndex).1]
      exact h.ahead_content _
    · rw [hSame (h.live hp)]
      exact h.cached hp d hd hIndex
  case waiting =>
    intro p hWaits
    obtain ⟨hLive, hAhead, c₀, d, hName, hOnly⟩ := h.waiting hWaits
    refine ⟨hLive.new doc, (hSame hLive).symm ▸ hAhead, c₀, d, hName, ?_⟩
    intro c' k' hp
    rcases hCases hp with ⟨-, -, rfl⟩ | ⟨hp, -⟩
    · exact absurd rfl hLive.ne_next
    · exact hOnly c' k' hp
  case agree =>
    intro p c' k' p' hWaits hp' d hd hIndex hName
    rcases hCases hp' with ⟨rfl, rfl, -⟩ | ⟨hp', -⟩
    · exact absurd hName (hMonth d hd hIndex).2.1
    · exact h.agree hWaits hp' d hd hIndex hName
  case idle => exact h.idle
  case files => exact h.files

/-- **Logging** into the document in memory, while nothing waits for its file. -/
theorem extend {today : Date} (h : Inv dataLocation s₀ today.toYearMonth es s) {e : Entry} {p : ℕ}
    (hp : s.documents e.contact
      (monthIndex today.toYearMonth e.message.date.toYearMonth) = some p)
    (hIdle : s.toSaveFileName ≠ s₀.fileOf dataLocation e) :
    Inv dataLocation s₀ today.toYearMonth (es ++ [e]) (s.extend p e) := by
  have hOther : ∀ {q}, s.heap.Live q → q ≠ p → (s.extend p e).document q = s.document q :=
    fun hq hNe => (State.document_extend p _ e hq).trans (if_neg hNe)
  constructor
  case month => exact h.month
  case names => exact h.names
  case live => exact fun hq => (h.live hq).modify p _
  case own => exact h.own
  case apart => exact h.apart
  case cached =>
    intro c k q hq d hd hIndex
    have hAhead := h.cached hq d hd hIndex
    by_cases hIs : q = p
    · subst hIs
      obtain ⟨rfl, rfl⟩ := h.own hp hq
      have hDate := monthIndex_injective hIndex
      rw [State.document_extend q q e (h.live hp), if_pos rfl]
      rw [hDate] at hAhead ⊢
      exact (hAhead.addEntry (e := e)).congr rfl
    · rw [hOther (h.live hq) hIs]
      exact (hAhead.logged e).congr rfl
  case waiting =>
    intro q hWaits
    obtain ⟨hLive, hAhead, c₀, d, hName, hOnly⟩ := h.waiting hWaits
    have hNe : q ≠ p := by
      rintro rfl
      obtain ⟨hContact, hIndex⟩ := hOnly _ _ hp
      refine hIdle (hName.trans ?_)
      rw [State.fileOf, hContact, monthIndex_injective hIndex]
    refine ⟨hLive.modify p _, ?_, c₀, d, hName, hOnly⟩
    rw [hOther hLive hNe]
    exact (hAhead.logged e).congr rfl
  case agree => exact h.agree
  case idle => exact h.idle
  case files =>
    intro f
    obtain ⟨written, hLogged, hFile⟩ := h.files f
    refine ⟨written, ?_, hFile⟩
    rw [loggedTo_concat]
    exact hLogged.trans (List.sublist_append_left ..)

/-- The timer has nothing to do with it. -/
theorem timer (h : Inv dataLocation s₀ asked es s) (active : Bool) :
    Inv dataLocation s₀ asked es { s with saveTimerActive := active } where
  month := h.month
  names := h.names
  live := h.live
  own := h.own
  apart := h.apart
  cached hp := h.cached hp
  waiting hWaits := h.waiting hWaits
  agree := h.agree
  idle := h.idle
  files := h.files

/-- Nothing waits any more. -/
theorem forget (h : Inv dataLocation s₀ asked es s) :
    Inv dataLocation s₀ asked es s.forget where
  month := h.month
  names := h.names
  live := h.live
  own := h.own
  apart := h.apart
  cached hp := h.cached hp
  waiting h := nomatch h
  agree h := nomatch h
  idle _ := rfl
  files := h.files

/-- The document that waits has been written. -/
theorem write (h : Inv dataLocation s₀ asked es s) {p : ℕ} (hWaits : s.toSaveDocument = some p)
    {s' : State} (hDisk : s'.disk = fun f =>
      if f = s.toSaveFileName then some (s.document p) else s.disk f)
    (hHeap : s'.heap = s.heap) (hDocuments : s'.documents = s.documents)
    (hMonth : s'.realMonth = s.realMonth) (hName' : s'.toSaveFileName = [])
    (hNone : s'.toSaveDocument = none) : Inv dataLocation s₀ asked es s' := by
  obtain ⟨hLive, hAhead, c₀, d₀, hName, hOnly⟩ := h.waiting hWaits
  have hWritten : s'.content s.toSaveFileName = s.document p := by
    simp [State.content, hDisk]
  have hElse : ∀ {f}, f ≠ s.toSaveFileName → s'.content f = s.content f := by
    intro f hf
    simp [State.content, hDisk, hf]
  have hDocument : ∀ q, s'.document q = s.document q := fun q => by
    rw [State.document, State.document, hHeap]
  constructor
  case month => rw [hMonth, h.month]
  case names =>
    intro c d
    rw [← h.names c d]
    exact State.fileName_of_written (hName.trans (h.names ..).symm) hDisk c d
  case live => rw [hDocuments, hHeap]; exact h.live
  case own => rw [hDocuments]; exact h.own
  case apart => rw [hDocuments]; exact h.apart
  case cached =>
    intro c k q hq d hd hIndex
    rw [hDocuments] at hq
    rw [hDocument]
    by_cases hIs : s₀.fileName dataLocation c d.toYearMonth = s.toSaveFileName
    · obtain rfl := h.agree hWaits hq d hd hIndex hIs.symm
      rw [hIs]
      exact hAhead.save hWritten
    · exact (h.cached hq d hd hIndex).congr (hElse hIs)
  case waiting =>
    rw [hNone]
    exact fun hSome => absurd hSome (Option.some_ne_none _).symm
  case agree =>
    rw [hNone]
    exact fun hSome => absurd hSome (Option.some_ne_none _).symm
  case idle => exact fun _ => hName'
  case files =>
    intro f
    by_cases hIs : f = s.toSaveFileName
    · obtain ⟨written, unsaved, hLogged, hFile, hDoc⟩ := hAhead.save hWritten
      subst hIs
      exact ⟨written, (List.sublist_append_left ..).trans hLogged, hFile⟩
    · rw [hElse hIs]
      exact h.files f

/-- **Saving.** -/
theorem save (h : Inv dataLocation s₀ asked es s) (o : Outcome) :
    Inv dataLocation s₀ asked es (s.saveToDisk o) := by
  cases hWaits : s.toSaveDocument with
  | none =>
    rw [State.saveToDisk]
    simp only [hWaits]
    rw [← hWaits]
    exact h.timer false
  | some p =>
    obtain ⟨-, -, c, d, hName, -⟩ := h.waiting hWaits
    have hNonempty : s.toSaveFileName ≠ [] := by
      rw [hName]
      exact fileName_ne_nil s₀ c d.toYearMonth
    rw [State.saveToDisk_cases hWaits hNonempty]
    cases hOpened : o.opened with
    | false =>
      simp only [Bool.false_eq_true, false_and, if_false]
      rw [← hWaits]
      exact h.timer false
    | true =>
      cases hCommitted : o.committed with
      | false =>
        simp only [Bool.false_eq_true, and_false, if_false, if_true]
        exact h.forget.timer false
      | true =>
        simp only [and_self, if_true]
        exact h.write hWaits rfl rfl rfl rfl rfl rfl

/-- **A document waits** for the file of its month. -/
theorem schedule (h : Inv dataLocation s₀ asked es s) {c : Contact} {d : Date} {p : ℕ}
    (hYear : d.year ≤ asked.year)
    (hp : s.documents c (monthIndex asked d.toYearMonth) = some p) :
    Inv dataLocation s₀ asked es (s.schedule p (s₀.fileName dataLocation c d.toYearMonth)) where
  month := h.month
  names := h.names
  live := h.live
  own := h.own
  apart := h.apart
  cached hq := h.cached hq
  waiting := by
    intro q hWaits
    obtain rfl := Option.some.inj hWaits
    refine ⟨h.live hp, h.cached hp d hYear rfl, c, d, rfl, fun c' k hq => ?_⟩
    obtain ⟨rfl, rfl⟩ := h.own hp hq
    exact ⟨rfl, rfl⟩
  agree := by
    intro q c' k q' hWaits hq d' hd hIndex hName
    obtain rfl := Option.some.inj hWaits
    -- the name says the month, and no two contacts share one
    have hDate := yearMonth_of_fileName hName
    rw [← hIndex, ← hDate] at hq
    obtain rfl := h.apart hp hq d hYear rfl (hDate ▸ hName)
    exact Option.some.inj (hq.symm.trans hp)
  idle h := nomatch h
  files := h.files

/-- What saving adds to a file has been logged to it. -/
theorem save_grows (h : Inv dataLocation s₀ asked es s) (o : Outcome) (f : QString) :
    ∃ unsaved, unsaved.Sublist (s₀.loggedTo dataLocation es f) ∧
      (s.saveToDisk o).content f = (s.content f).addEntries unsaved := by
  cases hWaits : s.toSaveDocument with
  | none =>
    refine ⟨[], List.nil_sublist _, ?_⟩
    rw [State.saveToDisk]
    simp only [hWaits]
    rfl
  | some p =>
    obtain ⟨-, hAhead, c, d, hName, -⟩ := h.waiting hWaits
    have hNonempty : s.toSaveFileName ≠ [] := by
      rw [hName]
      exact fileName_ne_nil s₀ c d.toYearMonth
    rw [State.saveToDisk_cases hWaits hNonempty]
    by_cases hWritten : (o.opened = true ∧ o.committed = true) ∧ f = s.toSaveFileName
    · obtain ⟨unsaved, hLogged, hDoc⟩ := hAhead.sublist
      rw [hWritten.2]
      refine ⟨unsaved, hLogged, ?_⟩
      rw [← hDoc]
      simp [State.content, hWritten.1]
    · refine ⟨[], List.nil_sublist _, ?_⟩
      simp only [State.content, Document.addEntries_nil]
      split
      · next hSaved =>
        have hNe : f ≠ s.toSaveFileName := fun hf => hWritten ⟨hSaved, hf⟩
        simp only [hNe, if_false]
      · rfl

end Inv

/-! ## What a call has to find -/

/-- Where no document is in memory for the index of a month, the file that is read for it holds
what the log file of that month holds, and no document of another contact in memory is of that
file. -/
def State.ReadsMonth (dataLocation : QString) (s : State) (today : YearMonth) (c : Contact)
    (date : YearMonth) (readable : Bool) : Prop :=
  (s.checkMonth today).documents c (monthIndex today date) = none →
    s.readDocument dataLocation c (monthOfIndex today (monthIndex today date)) readable =
      s.content (s.fileName dataLocation c date) ∧
    ∀ c' p, (s.checkMonth today).documents c' (monthIndex today date) = some p →
      s.fileName dataLocation c' date ≠ s.fileName dataLocation c date

theorem State.ReadsMonth.forget {today date : YearMonth} {c : Contact} {readable : Bool}
    (h : s.ReadsMonth dataLocation today c date readable) :
    s.forget.ReadsMonth dataLocation today c date readable := by
  unfold State.ReadsMonth
  rw [State.checkMonth_forget]
  exact h

section ReadsMonth

variable {today date : Date} {c : Contact}
  (hAlone : ∀ c' p, (s.checkMonth today.toYearMonth).documents c'
    (monthIndex today.toYearMonth date.toYearMonth) = some p →
      s.fileName dataLocation c' date.toYearMonth ≠ s.fileName dataLocation c date.toYearMonth)

include hAlone

theorem State.readsMonth_of_monthOfIndex
    (hBack : monthOfIndex today.toYearMonth
      (monthIndex today.toYearMonth date.toYearMonth) = date.toYearMonth) :
    s.ReadsMonth dataLocation today.toYearMonth c date.toYearMonth true := by
  intro _
  refine ⟨?_, hAlone⟩
  rw [State.readDocument, if_pos rfl, hBack]

/-- In the current year a file that can be read is that of the month. -/
theorem State.readsMonth_of_currentYear (hYear : date.year = today.year) :
    s.ReadsMonth dataLocation today.toYearMonth c date.toYearMonth true :=
  State.readsMonth_of_monthOfIndex hAlone (monthOfIndex_monthIndex_self hYear)

end ReadsMonth

namespace Inv

/-- The document that `getDocument` returns for the index of a month. -/
theorem getDocument {today : Date} {c : Contact} {k : BitVec 32}
    (h : Inv dataLocation s₀ asked es s) (readable : Bool)
    (hYear : asked.month = today.month → asked.year = today.year)
    (hMonth : ∀ d : Date, d.year ≤ today.year → monthIndex today.toYearMonth d.toYearMonth = k →
      s.ReadsMonth dataLocation today.toYearMonth c d.toYearMonth readable ∧
      ((s.checkMonth today.toYearMonth).documents c k = none →
        s.toSaveFileName ≠ s.fileName dataLocation c d.toYearMonth)) :
    Inv dataLocation s₀ today.toYearMonth es
        (s.getDocument dataLocation today.toYearMonth c k readable).1 ∧
      (s.getDocument dataLocation today.toYearMonth c k readable).1.documents c k =
        some (s.getDocument dataLocation today.toYearMonth c k readable).2 := by
  have hChecked := h.checkMonth today.toYearMonth hYear
  unfold State.getDocument
  simp only
  split
  · next p hSome => exact ⟨hChecked, hSome⟩
  · next hNone =>
    refine ⟨hChecked.insertDocument hNone fun d hd hIndex => ?_, if_pos ⟨rfl, rfl⟩⟩
    obtain ⟨hReads, hIdle⟩ := hMonth d hd hIndex
    subst hIndex
    obtain ⟨hSame, hAlone⟩ := hReads hNone
    simp only [State.checkMonth_fileName, State.checkMonth_toSaveFileName,
      State.checkMonth_content, State.checkMonth_readDocument]
    exact ⟨hSame, hIdle hNone, hAlone⟩

/-- The document of a message, with the message, while nothing waits for its file. -/
theorem extendFound (h : Inv dataLocation s₀ asked es s) {today : Date} {e : Entry}
    {readable : Bool} (hYear : asked.month = today.month → asked.year = today.year)
    (hReads : s.ReadsMonth dataLocation today.toYearMonth e.contact
      e.message.date.toYearMonth readable)
    (hIdle : s.toSaveFileName ≠ s₀.fileOf dataLocation e) :
    let found := s.entryDocument dataLocation today.toYearMonth e readable
    Inv dataLocation s₀ today.toYearMonth es found.1 ∧
      found.1.documents e.contact
        (monthIndex today.toYearMonth e.message.date.toYearMonth) = some found.2 ∧
      Inv dataLocation s₀ today.toYearMonth (es ++ [e]) (found.1.extend found.2 e) := by
  intro found
  obtain ⟨hFound, hp⟩ := h.getDocument (k := monthIndex today.toYearMonth
    e.message.date.toYearMonth) (c := e.contact) readable hYear
    fun d hd hIndex => by
      -- the index is that of no other month
      rw [monthIndex_injective hIndex, h.names]
      exact ⟨hReads, fun _ => hIdle⟩
  have hName := (State.getDocument_frame dataLocation s today.toYearMonth
    e.contact (monthIndex today.toYearMonth e.message.date.toYearMonth) readable).2.1
  exact ⟨hFound, hp, hFound.extend hp (hName ▸ hIdle)⟩

section LogEntry

variable {today : Date} {e : Entry} {o : Outcome} (h : Inv dataLocation s₀ asked es s)
  (hYear : asked.month = today.month → asked.year = today.year)
  (hDate : e.message.date.year ≤ today.year)
  (hReads : s.ReadsMonth dataLocation today.toYearMonth e.contact
    e.message.date.toYearMonth o.readable)

include h hYear hDate hReads

/-- **Logging** a message, where what is read for it is the file of its month. -/
theorem logEntry :
    Inv dataLocation s₀ today.toYearMonth (es ++ [e])
      (s.logEntry dataLocation today.toYearMonth e o) := by
  rw [State.logEntry_eq]
  simp only [h.names]
  split
  · next hOther =>
    obtain ⟨-, hp, hExtended⟩ := h.extendFound hYear hReads hOther.2
    refine (hExtended.save o).schedule hDate ?_
    rw [(State.saveToDisk_frame _ o).2.1]
    exact hp
  · -- what waits, if anything, is for this file, and is not looked at again
    obtain ⟨-, hp, hExtended⟩ :=
      h.forget.extendFound hYear hReads.forget (fileName_ne_nil s₀ e.contact _).symm
    rw [State.entryDocument_forget] at hp hExtended
    exact hExtended.schedule hDate hp

/-- **What the message goes into**: what its file holds, with messages that have been logged to
that file. -/
theorem logEntry_adds :
    ∃ p unsaved,
      (s.logEntry dataLocation today.toYearMonth e o).toSaveDocument = some p ∧
      (s.logEntry dataLocation today.toYearMonth e o).toSaveFileName = s.fileOf dataLocation e ∧
      unsaved.Sublist (s₀.loggedTo dataLocation es (s.fileOf dataLocation e)) ∧
      (s.logEntry dataLocation today.toYearMonth e o).document p =
        ((s.content (s.fileOf dataLocation e)).addEntries unsaved).addEntry e := by
  obtain ⟨hFound, hp, -⟩ :=
    h.forget.extendFound hYear hReads.forget (fileName_ne_nil s₀ e.contact _).symm
  rw [State.entryDocument_forget] at hFound hp
  have hLive : (s.entryDocument dataLocation today.toYearMonth e o.readable).1.heap.Live
      (s.entryDocument dataLocation today.toYearMonth e o.readable).2 := hFound.live hp
  obtain ⟨unsaved, hLogged, hDoc⟩ := (hFound.cached hp e.message.date hDate rfl).sublist
  have hFile : s₀.fileName dataLocation e.contact e.message.date.toYearMonth =
      s.fileOf dataLocation e := (h.names ..).symm
  rw [hFile] at hLogged hDoc
  obtain ⟨hHeap, -, hSave, hName, -⟩ :=
    State.logEntry_frame dataLocation s today.toYearMonth e o
  refine ⟨_, unsaved, hSave, hName, hLogged, ?_⟩
  have hDisk := (State.getDocument_frame dataLocation s today.toYearMonth
    e.contact (monthIndex today.toYearMonth e.message.date.toYearMonth) o.readable).1
  have hContent : (s.entryDocument dataLocation today.toYearMonth e o.readable).1.content
      (s.fileOf dataLocation e) = s.content (s.fileOf dataLocation e) :=
    congrArg (fun d : QString → Option Document => (d _).getD .empty) hDisk
  have hExtend := (State.document_extend _ _ e hLive).trans (if_pos rfl)
  have hSame : ∀ {t t' : State} (p : ℕ), t.heap = t'.heap → t.document p = t'.document p :=
    fun p hHeap => by rw [State.document, State.document, hHeap]
  rw [hSame _ hHeap, ← hContent]
  exact hExtend.trans (congrArg (·.addEntry e) hDoc)

omit hDate in
/-- **What the files get** when a message is logged. -/
theorem logEntry_grows (f : QString) :
    ∃ unsaved, unsaved.Sublist (s₀.loggedTo dataLocation (es ++ [e]) f) ∧
      (s.logEntry dataLocation today.toYearMonth e o).content f =
        (s.content f).addEntries unsaved := by
  have hDisk := (State.getDocument_frame dataLocation s today.toYearMonth
    e.contact (monthIndex today.toYearMonth e.message.date.toYearMonth) o.readable).1
  have hContent : ∀ p, ((s.entryDocument dataLocation today.toYearMonth e
      o.readable).1.extend p e).content f = s.content f := fun p =>
    congrArg (fun d : QString → Option Document => (d f).getD .empty) hDisk
  rw [State.logEntry_eq]
  simp only [h.names]
  split
  · next hOther =>
    obtain ⟨-, -, hExtended⟩ := h.extendFound hYear hReads hOther.2
    obtain ⟨unsaved, hLogged, hSaved⟩ := hExtended.save_grows o f
    rw [hContent] at hSaved
    exact ⟨unsaved, hLogged, hSaved⟩
  · exact ⟨[], List.nil_sublist _,
      hContent (s.entryDocument dataLocation today.toYearMonth e o.readable).2⟩

end LogEntry

end Inv

/-! ## Runs of the logger -/

variable {contacts : List Contact}

/-- No message is from a month to come. -/
def Op.Dated : Op → Prop
  | .append today msg _ _ => msg.date.NotAfter today.toYearMonth
  | _ => True

/-- No document in memory is of the same month of another year, and what a call reads is the file
of its month. A call that only reads must not find a document that waits for that file. -/
def Meets (dataLocation : QString) (contacts : List Contact) (t : Session) : Op → Prop
  | .append today msg ct o =>
    ∀ e ∈ msg.entry contacts ct,
      (t.asked.month = today.month → t.asked.year = today.year) ∧
      t.state.ReadsMonth dataLocation today.toYearMonth e.contact e.message.date.toYearMonth
        o.readable
  | .read today c month readable =>
    c ∈ contacts →
      (t.asked.month = today.month → t.asked.year = today.year) ∧
      ∀ d : Date, d.year ≤ today.year → monthIndex today.toYearMonth d.toYearMonth = month →
        t.state.ReadsMonth dataLocation today.toYearMonth c d.toYearMonth readable ∧
        ((t.state.checkMonth today.toYearMonth).documents c month = none →
          t.state.toSaveFileName ≠ t.state.fileName dataLocation c d.toYearMonth)
  | .timeout _ => True

/-- A message goes into a document that is what the log file of its month holds, with messages
logged to that file; the document waits to be saved to that file. -/
def Adds (dataLocation : QString) (contacts : List Contact) (t : Session) (op : Op) : Prop :=
  match op with
  | .append _ msg ct _ =>
    ∀ e ∈ msg.entry contacts ct, ∃ p unsaved,
      (step dataLocation contacts t op).state.toSaveDocument = some p ∧
      (step dataLocation contacts t op).state.toSaveFileName = t.state.fileOf dataLocation e ∧
      unsaved.Sublist (t.state.loggedTo dataLocation t.logged (t.state.fileOf dataLocation e)) ∧
      (step dataLocation contacts t op).state.document p =
        ((t.state.content (t.state.fileOf dataLocation e)).addEntries unsaved).addEntry e
  | _ => True

/-- No file loses anything, and what it gets has been logged to it. -/
def Grows (dataLocation : QString) (contacts : List Contact) (t : Session) (op : Op) : Prop :=
  ∀ f, ∃ unsaved,
    unsaved.Sublist (t.state.loggedTo dataLocation (step dataLocation contacts t op).logged f) ∧
    (step dataLocation contacts t op).state.content f = (t.state.content f).addEntries unsaved

/-- The invariant of a run that has begun with `s₀`. -/
def Session.Inv (dataLocation : QString) (s₀ : State) (t : Session) : Prop :=
  History.Inv dataLocation s₀ t.asked t.logged t.state

theorem loggedTo_of_names
    (h : ∀ c d, s.fileName dataLocation c d = s₀.fileName dataLocation c d) (es : List Entry)
    (f : QString) : s.loggedTo dataLocation es f = s₀.loggedTo dataLocation es f :=
  List.filter_congr fun e _ => by rw [State.fileOf, State.fileOf, h]

/-- **One step**. -/
theorem step_spec {t : Session} (h : t.Inv dataLocation s₀) {op : Op} (hDated : op.Dated)
    (hMeets : Meets dataLocation contacts t op) :
    (Adds dataLocation contacts t op ∧ Grows dataLocation contacts t op) ∧
      (step dataLocation contacts t op).Inv dataLocation s₀ := by
  have hStays : ∀ f, ∃ unsaved, unsaved.Sublist (t.state.loggedTo dataLocation t.logged f) ∧
      t.state.content f = (t.state.content f).addEntries unsaved :=
    fun f => ⟨[], List.nil_sublist _, rfl⟩
  cases op with
  | append today msg ct o =>
    cases hEntry : msg.entry contacts ct with
    | none =>
      have hSame : step dataLocation contacts t (.append today msg ct o) = t := by
        simp [step, State.appendMessage, hEntry]
      unfold Adds Grows
      rw [hSame]
      refine ⟨⟨fun e he => ?_, hStays⟩, h⟩
      cases hEntry.symm.trans he
    | some e =>
      have hStep : step dataLocation contacts t (.append today msg ct o) =
          ⟨t.state.logEntry dataLocation today.toYearMonth e o, today.toYearMonth,
            t.logged ++ [e]⟩ := by
        simp [step, State.appendMessage, hEntry]
      obtain rfl := Message.message_of_entry hEntry
      obtain ⟨hYear, hReads⟩ := hMeets e hEntry
      have hDate := hDated.year_le
      unfold Adds Grows
      rw [hStep]
      refine ⟨⟨fun e' he' => ?_, ?_⟩, h.logEntry hYear hDate hReads⟩
      · obtain rfl := Option.some.inj (hEntry.symm.trans he')
        rw [loggedTo_of_names h.names]
        exact h.logEntry_adds hYear hDate hReads
      · intro f
        rw [loggedTo_of_names h.names]
        exact h.logEntry_grows hYear hReads f
  | read today c month readable =>
    by_cases hContact : c ∈ contacts
    · have hStep : step dataLocation contacts t (.read today c month readable) =
          ⟨(t.state.getDocument dataLocation today.toYearMonth c month readable).1,
            today.toYearMonth, t.logged⟩ := if_pos hContact
      obtain ⟨hYear, hReads⟩ := hMeets hContact
      unfold Grows
      rw [hStep]
      refine ⟨⟨trivial, fun f => ⟨[], List.nil_sublist _, ?_⟩⟩, (h.getDocument readable hYear hReads).1⟩
      simp only [State.content, State.getDocument_frame, Document.addEntries_nil]
    · have hStep : step dataLocation contacts t (.read today c month readable) = t :=
        if_neg hContact
      unfold Grows
      rw [hStep]
      exact ⟨⟨trivial, hStays⟩, h⟩
  | timeout o =>
    unfold Grows step
    simp only
    split
    · refine ⟨⟨trivial, fun f => ?_⟩, h.save o⟩
      rw [loggedTo_of_names h.names]
      exact h.save_grows o f
    · exact ⟨⟨trivial, hStays⟩, h⟩

/-- **Months kept apart.** In a run where every call finds the file of its month, each message
goes into what the log file of its month holds, and no file loses anything or receives a message
of another month or contact. -/
theorem months_kept_of_meets (disk : QString → Option Document) (today : Date) {ops : List Op}
    (hDated : ∀ op ∈ ops, op.Dated)
    (hMeets : Run.StepsMeet (step dataLocation contacts) (Meets dataLocation contacts)
      (Session.init disk today) ops) :
    Run.StepsMeet (step dataLocation contacts)
        (fun t op => Adds dataLocation contacts t op ∧ Grows dataLocation contacts t op)
        (Session.init disk today) ops ∧
      ∀ t ∈ Run.states (step dataLocation contacts) (Session.init disk today) ops, ∀ f,
        ∃ written, written.Sublist (t.state.loggedTo dataLocation t.logged f) ∧
          t.state.content f = ((disk f).getD .empty).addEntries written := by
  have hInit : (Session.init disk today).Inv dataLocation (State.init disk today.toYearMonth) :=
    Inv.init disk today.toYearMonth
  have hStep : ∀ (t : Session) (op : Op), t.Inv dataLocation (State.init disk today.toYearMonth) →
      op.Dated ∧ Meets dataLocation contacts t op →
      (Adds dataLocation contacts t op ∧ Grows dataLocation contacts t op) ∧
        (step dataLocation contacts t op).Inv dataLocation (State.init disk today.toYearMonth) :=
    fun t op h hOk => step_spec h hOk.1 hOk.2
  have hBoth := hMeets.and_mem hDated
  refine ⟨Run.stepsMeet_of_inv hStep hInit hBoth, fun t ht f => ?_⟩
  have hInv := Run.inv_of_stepsMeet (fun t op h hOk => (hStep t op h hOk).2) hInit hBoth t ht
  rw [loggedTo_of_names hInv.names]
  exact hInv.files f

/-! ## A message of last year -/

def peer : Contact := ⟨latin1 "ICQProtocol", latin1 "100", latin1 "100", latin1 "200"⟩

def newYear : Date := ⟨⟨2024, 1, by decide, by decide⟩, 1, by decide, by decide⟩

def newYearsEve : Date := ⟨⟨2023, 12, by decide, by decide⟩, 31, by decide, by decide⟩

def greeting (date : Date) : Message where
  sender := some ⟨peer, latin1 "Ada"⟩
  recipients := []
  members := []
  outbound := false
  date := date
  hour := 23
  minute := 59
  second := 0
  plainText := true
  plainBody := latin1 "hi"
  escapedBody := []

def allGoesWell : Outcome := ⟨true, true, true⟩

/-- A message of the current month, and its save. -/
def timelyMessage : List Op :=
  [.append newYear (greeting newYear) none allGoesWell, .timeout allGoesWell]

/-- The messages of the current month are kept. -/
theorem timelyMessage_kept :
    Run.StepsMeet (step [] [peer]) (fun t op => Adds [] [peer] t op ∧ Grows [] [peer] t op)
      (Session.init (fun _ => none) newYear) timelyMessage := by
  have hDated : ∀ op ∈ timelyMessage, op.Dated := by
    intro op hop
    rcases List.mem_pair.mp hop with rfl | rfl
    · exact Or.inr ⟨rfl, le_refl _⟩
    · trivial
  have hMeets : Run.StepsMeet (step [] [peer]) (Meets [] [peer])
      (Session.init (fun _ => none) newYear) timelyMessage := by
    refine ⟨fun e he => ?_, trivial, trivial⟩
    obtain rfl : e = ⟨peer, ⟨peer, latin1 "Ada"⟩, greeting newYear⟩ :=
      Option.some.inj (he.symm.trans rfl)
    refine ⟨fun _ => rfl, State.readsMonth_of_currentYear (fun c p hp => ?_) rfl⟩
    have hNone : (Session.init (fun _ => none) newYear).state.documents c
      (monthIndex newYear.toYearMonth newYear.toYearMonth) = some p :=
      (State.documents_checkMonth hp).2
    cases hNone
  exact (months_kept_of_meets _ newYear hDated hMeets).1

def decemberFile : QString := logPath [] (newName peer newYearsEve.toYearMonth)

/-- The log file of December holds two messages. -/
def decemberDisk (f : QString) : Option Document :=
  if f = decemberFile then
    some (Document.empty.addEntries
      [⟨peer, ⟨peer, latin1 "Ada"⟩, greeting newYearsEve⟩,
        ⟨peer, ⟨peer, latin1 "Ada"⟩, greeting newYearsEve⟩])
  else none

/-- A message of the old year that arrives in the new one, and its save. -/
def lateMessage : List Op :=
  [.append newYear (greeting newYearsEve) none allGoesWell, .timeout allGoesWell]

/-- **A message of last year replaces the log of its month**: it goes into what is read for the
same month of the next year, and is written over the file. -/
theorem lateMessage_replaces :
    ¬ ((∀ op ∈ lateMessage, op.Dated) →
      Run.StepsMeet (step [] [peer]) (fun t op => Adds [] [peer] t op ∧ Grows [] [peer] t op)
        (Session.init decemberDisk newYear) lateMessage) := by
  intro hClaim
  have h := hClaim fun op hop => by
    rcases List.mem_pair.mp hop with rfl | rfl
    · exact Or.inl (by decide)
    · trivial
  obtain ⟨unsaved, -, hGrown⟩ := h.2.1.2 decemberFile
  have hCount := congrArg (fun doc => doc.messages.length) hGrown
  simp only [Document.messages_addEntries, List.length_append] at hCount
  have hBefore : ((step [] [peer] (Session.init decemberDisk newYear)
      (.append newYear (greeting newYearsEve) none allGoesWell)).state.content
        decemberFile).messages.length = 2 := by
    decide +kernel
  have hAfter : ((step [] [peer] (step [] [peer] (Session.init decemberDisk newYear)
      (.append newYear (greeting newYearsEve) none allGoesWell))
        (.timeout allGoesWell)).state.content decemberFile).messages.length = 1 := by
    decide +kernel
  rw [hBefore, hAfter] at hCount
  omega

end History
