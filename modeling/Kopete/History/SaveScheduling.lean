import Kopete.History.MonthDocuments

/-!
# History — saves that fail

One document waits to be saved. A save that cannot open its file leaves it waiting, but stops the
timer; one that cannot put the file in its place lets go of the document all the same; and before
a document of another contact takes its place nothing asks whether it has been written. When the
logger goes, only a document whose timer runs is saved.

Main results:

* `Scheduled.logEntry`, `Scheduled.save` — as long as saves succeed, what a file lacks waits;
* `saved_of_meets` — then every message is in its file in the end.
-/

namespace History

variable {dataLocation : QString} {contacts : List Contact}

/-! ## What is promised -/

/-- Messages of the current month are logged, and the timer fires. -/
def Op.InMonth (month : YearMonth) : Op → Prop
  | .append today msg _ _ => today.toYearMonth = month ∧ msg.date.toYearMonth = month
  | .read _ _ _ _ => False
  | .timeout _ => True

/-- A document in memory that has other messages than its file waits to be saved. -/
def Pending (dataLocation : QString) (month : YearMonth) (t : Session) : Prop :=
  ∀ c k p, t.state.documents c k = some p →
    (t.state.document p).messages ≠
      (t.state.content (t.state.fileName dataLocation c month)).messages →
    t.state.toSaveDocument = some p ∧
      t.state.toSaveFileName = t.state.fileName dataLocation c month ∧
      t.state.saveTimerActive = true

/-- When the logger goes and its last save succeeds, every file ends with the messages that have
been logged to it, each once and in order. -/
def AllWritten (dataLocation : QString) (disk : QString → Option Document) (t : Session) : Prop :=
  ∀ (o : Outcome), o.opened = true → o.committed = true → ∀ f, ∃ before,
    (before = ((disk f).getD .empty).messages ∨ before = []) ∧
    ((t.state.destroy o).content f).messages =
      before ++ (t.state.loggedTo dataLocation t.logged f).map Entry.msgElem

/-- Saves succeed where there is something to save, and a message finds no document in memory of
another contact with the same file. -/
def SavesSucceed (dataLocation : QString) (contacts : List Contact) (t : Session) : Op → Prop
  | .append _ msg ct o =>
    ∀ e ∈ msg.entry contacts ct,
      (∀ c k p, t.state.documents c k = some p → c ≠ e.contact →
        t.state.fileName dataLocation c e.message.date.toYearMonth ≠
          t.state.fileOf dataLocation e) ∧
      (t.state.toSaveFileName ≠ [] → t.state.toSaveFileName ≠ t.state.fileOf dataLocation e →
        o.opened = true ∧ o.committed = true)
  | .timeout o => t.state.saveTimerActive = true → o.opened = true ∧ o.committed = true
  | .read _ _ _ _ => True

/-! ## What waits -/

/-- Every document in memory is what has been loaded with all the messages logged to its file,
and it is what its file holds or waits; `busy` is one that is being logged into. -/
structure Scheduled (dataLocation : QString) (s₀ : State) (month : YearMonth) (busy : Option ℕ)
    (es : List Entry) (s : State) : Prop where
  realMonth : s.realMonth = month.month
  names : ∀ c d, s.fileName dataLocation c d = s₀.fileName dataLocation c d
  live : ∀ {c k p}, s.documents c k = some p → s.heap.Live p
  own : ∀ {c k c' k' p}, s.documents c k = some p → s.documents c' k' = some p → c = c'
  index : ∀ {c k p}, s.documents c k = some p → k = monthIndex month month
  apart : ∀ {c k p c' k' p'}, s.documents c k = some p → s.documents c' k' = some p' →
    s₀.fileName dataLocation c month = s₀.fileName dataLocation c' month → c = c'
  logged : ∀ e ∈ es, e.message.date.toYearMonth = month ∧
    ∃ p, s.documents e.contact (monthIndex month month) = some p
  cached : ∀ {c k p}, s.documents c k = some p → ∃ loaded,
    (loaded = s₀.content (s₀.fileName dataLocation c month) ∨ loaded = .empty) ∧
    s.document p =
      loaded.addEntries (s₀.loggedTo dataLocation es (s₀.fileName dataLocation c month))
  saved : ∀ {c k p}, s.documents c k = some p → busy ≠ some p →
    s.content (s₀.fileName dataLocation c month) = s.document p ∨ s.toSaveDocument = some p
  waiting : ∀ {p}, s.toSaveDocument = some p →
    s.saveTimerActive = true ∧ ∃ c, s.documents c (monthIndex month month) = some p ∧
      s.toSaveFileName = s₀.fileName dataLocation c month ∧
      s₀.loggedTo dataLocation es (s₀.fileName dataLocation c month) ≠ []
  idle : s.toSaveDocument = none → s.toSaveFileName = []
  others : ∀ f, s₀.loggedTo dataLocation es f = [] → s.content f = s₀.content f

variable {s₀ s : State} {month : YearMonth} {busy : Option ℕ} {es : List Entry}

namespace Scheduled

/-- A new logger. -/
theorem init (disk : QString → Option Document) (today : Date) :
    Scheduled dataLocation (State.init disk today.toYearMonth) today.toYearMonth none []
      (State.init disk today.toYearMonth) where
  realMonth := rfl
  names _ _ := rfl
  live h := nomatch h
  own h := nomatch h
  index h := nomatch h
  apart h := nomatch h
  logged _ h := nomatch h
  cached h := nomatch h
  saved h := nomatch h
  waiting h := nomatch h
  idle _ := rfl
  others _ _ := rfl

/-- A message has been logged to a file only if its contact's document is in memory. -/
theorem loggedTo_eq_nil (h : Scheduled dataLocation s₀ month busy es s) {c : Contact}
    (hNone : s.documents c (monthIndex month month) = none)
    (hAlone : ∀ c' k p, s.documents c' k = some p → c' ≠ c →
      s₀.fileName dataLocation c' month ≠ s₀.fileName dataLocation c month) :
    s₀.loggedTo dataLocation es (s₀.fileName dataLocation c month) = [] := by
  refine List.filter_eq_nil_iff.mpr fun e he hFile => ?_
  obtain ⟨hMonth, p, hp⟩ := h.logged e he
  have hName := of_decide_eq_true hFile
  rw [State.fileOf, hMonth] at hName
  by_cases hIs : e.contact = c
  · rw [hIs, hNone] at hp
    cases hp
  · exact hAlone _ _ p hp hIs hName

/-- A document is loaded. -/
theorem insertDocument (h : Scheduled dataLocation s₀ month none es s) {c : Contact}
    {doc : Document} (hNone : s.documents c (monthIndex month month) = none)
    (hAlone : ∀ c' k p, s.documents c' k = some p → c' ≠ c →
      s₀.fileName dataLocation c' month ≠ s₀.fileName dataLocation c month)
    (hDoc : doc = s.content (s₀.fileName dataLocation c month) ∨ doc = .empty) :
    Scheduled dataLocation s₀ month (some s.heap.next) es
      (s.insertDocument c (monthIndex month month) doc) := by
  have hNil := h.loggedTo_eq_nil hNone hAlone
  have hCases : ∀ {c' k p},
      (s.insertDocument c (monthIndex month month) doc).documents c' k = some p →
      c' = c ∧ k = monthIndex month month ∧ p = s.heap.next ∨
        s.documents c' k = some p ∧ c' ≠ c ∧ p ≠ s.heap.next := by
    intro c' k p hp
    refine (State.documents_insertDocument hp).imp id fun hOld => ⟨hOld, ?_, (h.live hOld).ne_next⟩
    rintro rfl
    rw [h.index hOld, hNone] at hOld
    cases hOld
  have hSame : ∀ {c' k p}, s.documents c' k = some p →
      (s.insertDocument c (monthIndex month month) doc).document p = s.document p :=
    fun hp => State.document_insertDocument_of_live (h.live hp) ..
  have hMem : ∀ {c' k p}, s.documents c' k = some p →
      (s.insertDocument c (monthIndex month month) doc).documents c' k = some p := by
    intro c' k p hp
    refine (if_neg ?_).trans hp
    rintro ⟨rfl, rfl⟩
    rw [hNone] at hp
    cases hp
  constructor
  case realMonth => exact h.realMonth
  case names => exact h.names
  case live =>
    intro c' k p hp
    rcases hCases hp with ⟨-, -, rfl⟩ | ⟨hp, -, -⟩
    · exact Heap.live_new_self doc
    · exact (h.live hp).new doc
  case own =>
    intro c₁ k₁ c₂ k₂ p hp hp'
    rcases hCases hp with ⟨rfl, -, rfl⟩ | ⟨hOld, -, hNe⟩
    · rcases hCases hp' with ⟨rfl, -, -⟩ | ⟨-, -, hNe⟩
      · rfl
      · exact absurd rfl hNe
    · rcases hCases hp' with ⟨-, -, rfl⟩ | ⟨hOld', -, -⟩
      · exact absurd rfl hNe
      · exact h.own hOld hOld'
  case index =>
    intro c' k p hp
    rcases hCases hp with ⟨-, rfl, -⟩ | ⟨hp, -, -⟩
    · rfl
    · exact h.index hp
  case apart =>
    intro c₁ k₁ p c₂ k₂ p' hp hp' hName
    rcases hCases hp with ⟨rfl, -, -⟩ | ⟨hOld, hNe, -⟩
    · rcases hCases hp' with ⟨rfl, -, -⟩ | ⟨hOld', hNe, -⟩
      · rfl
      · exact absurd hName.symm (hAlone _ _ _ hOld' hNe)
    · rcases hCases hp' with ⟨rfl, -, -⟩ | ⟨hOld', -, -⟩
      · exact absurd hName (hAlone _ _ _ hOld hNe)
      · exact h.apart hOld hOld' hName
  case logged =>
    intro e he
    obtain ⟨hMonth, p, hp⟩ := h.logged e he
    exact ⟨hMonth, p, hMem hp⟩
  case cached =>
    intro c' k p hp
    rcases hCases hp with ⟨rfl, -, rfl⟩ | ⟨hp, -, -⟩
    · rw [State.document_insertDocument_self, hNil]
      refine ⟨doc, hDoc.imp (fun hDoc => ?_) id, rfl⟩
      rw [hDoc, h.others _ hNil]
    · rw [hSame hp]
      exact h.cached hp
  case saved =>
    intro c' k p hp hBusy
    rcases hCases hp with ⟨-, -, rfl⟩ | ⟨hp, -, -⟩
    · exact absurd rfl hBusy
    · rw [hSame hp]
      exact h.saved hp (Option.some_ne_none _).symm
  case waiting =>
    intro p hWaits
    obtain ⟨hActive, c', hp, hRest⟩ := h.waiting hWaits
    exact ⟨hActive, c', hMem hp, hRest⟩
  case idle => exact h.idle
  case others => exact h.others

/-- The document of the current month, in memory. -/
theorem entryDocument {today : Date} (h : Scheduled dataLocation s₀ today.toYearMonth none es s)
    {e : Entry} (readable : Bool) (hMonth : e.message.date.toYearMonth = today.toYearMonth)
    (hAlone : ∀ c k p, s.documents c k = some p → c ≠ e.contact →
      s.fileName dataLocation c e.message.date.toYearMonth ≠ s.fileOf dataLocation e) :
    let found := s.entryDocument dataLocation today.toYearMonth e readable
    Scheduled dataLocation s₀ today.toYearMonth (some found.2) es found.1 ∧
      found.1.documents e.contact
        (monthIndex today.toYearMonth today.toYearMonth) = some found.2 := by
  have hChecked : s.checkMonth today.toYearMonth = s := if_neg (not_not.mpr h.realMonth)
  have hBack : monthOfIndex today.toYearMonth (monthIndex today.toYearMonth today.toYearMonth) =
      today.toYearMonth := monthOfIndex_monthIndex_self rfl
  simp only [State.fileOf, hMonth, h.names] at hAlone
  unfold State.entryDocument State.getDocument
  simp only [hChecked, hMonth, hBack]
  split
  · next p hp => exact ⟨{ h with saved := fun hq _ => h.saved hq (Option.some_ne_none _).symm }, hp⟩
  · next hNone =>
    refine ⟨h.insertDocument hNone hAlone ?_, if_pos ⟨rfl, rfl⟩⟩
    rw [State.readDocument, h.names]
    cases readable
    · exact Or.inr rfl
    · exact Or.inl rfl

/-- The message is put at the end of its document. -/
theorem extend {e : Entry} {p : ℕ} (h : Scheduled dataLocation s₀ month (some p) es s)
    (hMonth : e.message.date.toYearMonth = month)
    (hp : s.documents e.contact (monthIndex month month) = some p) :
    Scheduled dataLocation s₀ month (some p) (es ++ [e]) (s.extend p e) := by
  have hOther : ∀ {c k q}, s.documents c k = some q → q ≠ p →
      (s.extend p e).document q = s.document q ∧
      s₀.loggedTo dataLocation (es ++ [e]) (s₀.fileName dataLocation c month) =
        s₀.loggedTo dataLocation es (s₀.fileName dataLocation c month) := by
    intro c k q hq hNe
    refine ⟨(State.document_extend p q e (h.live hq)).trans (if_neg hNe), ?_⟩
    rw [loggedTo_concat, if_neg, List.append_nil]
    rw [State.fileOf, hMonth]
    intro hName
    obtain rfl := h.apart hp hq hName
    rw [h.index hq, hp] at hq
    exact hNe (Option.some.inj hq).symm
  have hMore : ∀ {f}, s₀.loggedTo dataLocation (es ++ [e]) f = [] →
      s₀.loggedTo dataLocation es f = [] := by
    intro f hNil
    rw [loggedTo_concat] at hNil
    exact (List.append_eq_nil_iff.mp hNil).1
  constructor
  case realMonth => exact h.realMonth
  case names => exact h.names
  case live => exact fun hq => (h.live hq).modify p _
  case own => exact h.own
  case index => exact h.index
  case apart => exact h.apart
  case logged =>
    intro e' he'
    rcases List.mem_append.mp he' with he' | he'
    · exact h.logged e' he'
    · rw [List.mem_singleton.mp he']
      exact ⟨hMonth, p, hp⟩
  case cached =>
    intro c k q hq
    obtain ⟨loaded, hLoaded, hDoc⟩ := h.cached hq
    refine ⟨loaded, hLoaded, ?_⟩
    by_cases hIs : q = p
    · subst hIs
      obtain rfl := h.own hp hq
      rw [State.document_extend q q e (h.live hq), if_pos rfl, hDoc, loggedTo_concat,
        if_pos (by rw [State.fileOf, hMonth]), Document.addEntries_concat]
    · rw [(hOther hq hIs).1, (hOther hq hIs).2]
      exact hDoc
  case saved =>
    intro c k q hq hBusy
    rw [(hOther hq fun hIs => hBusy (congrArg some hIs.symm)).1]
    exact h.saved hq hBusy
  case waiting =>
    intro q hWaits
    obtain ⟨hActive, c, hq, hName, hSome⟩ := h.waiting hWaits
    exact ⟨hActive, c, hq, hName, fun hNil => hSome (hMore hNil)⟩
  case idle => exact h.idle
  case others => exact fun f hNil => h.others f (hMore hNil)

/-- **A save that succeeds** leaves nothing waiting. -/
theorem save (h : Scheduled dataLocation s₀ month busy es s) {o : Outcome}
    (hOpened : o.opened = true) (hCommitted : o.committed = true) :
    Scheduled dataLocation s₀ month busy es (s.saveToDisk o) ∧
      (s.saveToDisk o).toSaveDocument = none := by
  cases hWaits : s.toSaveDocument with
  | none =>
    rw [State.saveToDisk]
    simp only [hWaits]
    rw [← hWaits]
    have hNothing : ∀ {p}, s.toSaveDocument ≠ some p := fun hSome =>
      absurd (hWaits.symm.trans hSome) (Option.some_ne_none _).symm
    exact ⟨{ h with waiting := fun hSome => absurd hSome hNothing }, trivial⟩
  | some p =>
    obtain ⟨-, c₀, hp, hName, hLogged⟩ := h.waiting hWaits
    have hNonempty : s.toSaveFileName ≠ [] := by
      rw [hName]
      exact fileName_ne_nil s₀ c₀ month
    rw [State.saveToDisk_cases hWaits hNonempty]
    simp only [hOpened, hCommitted, and_self, if_true]
    refine ⟨?_, trivial⟩
    have hElse : ∀ {f}, f ≠ s.toSaveFileName →
        ((if f = s.toSaveFileName then some (s.document p) else s.disk f).getD .empty) =
          s.content f := fun hf => by rw [if_neg hf]; rfl
    constructor
    case realMonth => exact h.realMonth
    case names =>
      intro c d
      rw [← h.names c d]
      exact State.fileName_of_written (hName.trans (h.names ..).symm) rfl c d
    case live => exact h.live
    case own => exact h.own
    case index => exact h.index
    case apart => exact h.apart
    case logged => exact h.logged
    case cached => exact h.cached
    case saved =>
      intro c k q hq hBusy
      refine Or.inl ?_
      by_cases hIs : s₀.fileName dataLocation c month = s.toSaveFileName
      · obtain rfl := h.apart hq hp (hIs.trans hName)
        rw [h.index hq, hp] at hq
        obtain rfl := Option.some.inj hq
        simp only [State.content, hIs, if_true]
        rfl
      · refine (hElse hIs).trans ((h.saved hq hBusy).resolve_right fun hSame => hIs ?_)
        obtain rfl := Option.some.inj (hWaits.symm.trans hSame)
        rw [h.own hq hp, hName]
    case waiting => exact fun hSome => absurd hSome (Option.some_ne_none _).symm
    case idle => exact fun _ => rfl
    case others =>
      intro f hNil
      refine (hElse fun hIs => hLogged ?_).trans (h.others f hNil)
      rw [← hName, ← hIs]
      exact hNil

/-- The document that has been logged into waits. -/
theorem schedule {p : ℕ} (h : Scheduled dataLocation s₀ month (some p) es s) {c : Contact}
    (hp : s.documents c (monthIndex month month) = some p)
    (hLogged : s₀.loggedTo dataLocation es (s₀.fileName dataLocation c month) ≠ [])
    (hIdle : ∀ q, s.toSaveDocument = some q → q = p) :
    Scheduled dataLocation s₀ month none es
      (s.schedule p (s₀.fileName dataLocation c month)) where
  realMonth := h.realMonth
  names := h.names
  live := h.live
  own := h.own
  index := h.index
  apart := h.apart
  logged := h.logged
  cached := h.cached
  saved := by
    intro c' k q hq _
    by_cases hIs : q = p
    · exact Or.inr (congrArg some hIs.symm)
    · exact Or.inl ((h.saved hq fun hBusy => hIs (Option.some.inj hBusy).symm).resolve_right
        fun hWaits => hIs (hIdle q hWaits))
  waiting hWaits := by
    obtain rfl := Option.some.inj hWaits
    exact ⟨rfl, c, hp, rfl, hLogged⟩
  idle h := nomatch h
  others := h.others

/-- **Logging** keeps it, if the save that it makes succeeds. -/
theorem logEntry {today : Date} (h : Scheduled dataLocation s₀ today.toYearMonth none es s)
    {e : Entry} {o : Outcome} (hMonth : e.message.date.toYearMonth = today.toYearMonth)
    (hAlone : ∀ c k p, s.documents c k = some p → c ≠ e.contact →
      s.fileName dataLocation c e.message.date.toYearMonth ≠ s.fileOf dataLocation e)
    (hSave : s.toSaveFileName ≠ [] → s.toSaveFileName ≠ s.fileOf dataLocation e →
      o.opened = true ∧ o.committed = true) :
    Scheduled dataLocation s₀ today.toYearMonth none (es ++ [e])
      (s.logEntry dataLocation today.toYearMonth e o) := by
  obtain ⟨hFound, hp⟩ := h.entryDocument o.readable hMonth hAlone
  have hExtended := hFound.extend hMonth hp
  have hLogged : s₀.loggedTo dataLocation (es ++ [e])
      (s₀.fileName dataLocation e.contact today.toYearMonth) ≠ [] := by
    rw [loggedTo_concat, if_pos (by rw [State.fileOf, hMonth])]
    exact List.append_ne_nil_of_right_ne_nil _ (List.cons_ne_nil _ _)
  rw [State.logEntry_eq]
  simp only [hMonth, h.names]
  split
  · next hOther =>
    obtain ⟨hOpened, hCommitted⟩ := hSave hOther.1 (by
      rw [State.fileOf, hMonth, h.names]
      exact hOther.2)
    obtain ⟨hSaved, hNone⟩ := hExtended.save hOpened hCommitted
    refine hSaved.schedule ?_ hLogged fun q hq =>
      absurd (hNone.symm.trans hq) (Option.some_ne_none q).symm
    rw [(State.saveToDisk_frame _ o).2.1]
    exact hp
  · next hSame =>
    refine hExtended.schedule hp hLogged fun q hq => ?_
    -- what waits, waits for this file
    obtain ⟨-, c, hq', hName, -⟩ := hExtended.waiting hq
    have hFrame := (State.getDocument_frame dataLocation s today.toYearMonth
      e.contact (monthIndex today.toYearMonth e.message.date.toYearMonth) o.readable).2.1
    have hIs : s.toSaveFileName = s₀.fileName dataLocation c today.toYearMonth :=
      hFrame.symm.trans hName
    have hFile : s.toSaveFileName = s₀.fileName dataLocation e.contact today.toYearMonth := by
      by_contra hNe
      exact hSame ⟨by rw [hIs]; exact fileName_ne_nil s₀ c _, hNe⟩
    obtain rfl := hExtended.apart hq' hp (hIs.symm.trans hFile)
    exact Option.some.inj (hq'.symm.trans hp)

/-- What a file lacks waits. -/
theorem pending {t : Session} (h : Scheduled dataLocation s₀ month none t.logged t.state) :
    Pending dataLocation month t := by
  intro c k p hp hNe
  rw [h.names] at hNe ⊢
  rcases h.saved hp (Option.some_ne_none p).symm with hSame | hWaits
  · exact absurd (congrArg Document.messages hSame).symm hNe
  · obtain ⟨hActive, c', hp', hName, -⟩ := h.waiting hWaits
    obtain rfl := h.own hp hp'
    exact ⟨hWaits, hName, hActive⟩

/-- Where nothing waits, the files have everything. -/
theorem content_of_idle (h : Scheduled dataLocation s₀ month none es s)
    (hNone : s.toSaveDocument = none) (f : QString) :
    ∃ loaded, (loaded = s₀.content f ∨ loaded = .empty) ∧
      s.content f = loaded.addEntries (s₀.loggedTo dataLocation es f) := by
  by_cases hNil : s₀.loggedTo dataLocation es f = []
  · exact ⟨s₀.content f, Or.inl rfl, by rw [h.others f hNil, hNil, Document.addEntries_nil]⟩
  · obtain ⟨e, he⟩ := List.exists_mem_of_ne_nil _ hNil
    obtain ⟨hMem, hFile⟩ := List.mem_filter.mp he
    obtain ⟨hMonth, p, hp⟩ := h.logged e hMem
    obtain rfl : s₀.fileName dataLocation e.contact month = f := by
      rw [← hMonth]
      exact of_decide_eq_true hFile
    obtain ⟨loaded, hLoaded, hDoc⟩ := h.cached hp
    refine ⟨loaded, hLoaded, ?_⟩
    rw [← hDoc]
    exact (h.saved hp (Option.some_ne_none p).symm).resolve_right
      fun hWaits => nomatch hNone.symm.trans hWaits

/-- The last save leaves nothing out. -/
theorem allWritten {disk : QString → Option Document} {today : YearMonth} {t : Session}
    (h : Scheduled dataLocation (State.init disk today) month none t.logged t.state) :
    AllWritten dataLocation disk t := by
  intro o hOpened hCommitted f
  obtain ⟨hDestroyed, hNone⟩ : Scheduled dataLocation (State.init disk today) month none t.logged
      (t.state.destroy o) ∧ (t.state.destroy o).toSaveDocument = none := by
    unfold State.destroy
    split
    · exact h.save hOpened hCommitted
    · next hActive =>
      refine ⟨h, Option.eq_none_iff_forall_ne_some.mpr fun p hWaits => hActive ?_⟩
      exact (h.waiting hWaits).1
  obtain ⟨loaded, hLoaded, hContent⟩ := hDestroyed.content_of_idle hNone f
  refine ⟨loaded.messages, ?_, ?_⟩
  · exact hLoaded.imp (congrArg Document.messages) (congrArg Document.messages)
  · rw [hContent, Document.messages_addEntries, loggedTo_of_names h.names]

end Scheduled

/-! ## Runs in one month -/

/-- **One step.** -/
theorem scheduled_step {today : Date} {t : Session}
    (h : Scheduled dataLocation s₀ today.toYearMonth none t.logged t.state) {op : Op}
    (hIn : op.InMonth today.toYearMonth) (hOk : SavesSucceed dataLocation contacts t op) :
    Scheduled dataLocation s₀ today.toYearMonth none (step dataLocation contacts t op).logged
      (step dataLocation contacts t op).state := by
  cases op with
  | append today' msg ct o =>
    obtain ⟨hToday, hMonth⟩ := hIn
    cases hEntry : msg.entry contacts ct with
    | none => simpa [step, State.appendMessage, hEntry] using h
    | some e =>
      obtain rfl := Message.message_of_entry hEntry
      obtain ⟨hAlone, hSave⟩ := hOk e hEntry
      have hLogged := h.logEntry hMonth hAlone hSave
      simpa [step, State.appendMessage, hEntry, hToday] using hLogged
  | read today' c k readable => exact hIn.elim
  | timeout o =>
    unfold step
    simp only
    split
    · next hActive => exact (h.save (hOk hActive).1 (hOk hActive).2).1
    · exact h

/-- **Nothing is lost while saves succeed.** Whatever a file lacks waits to be saved, and when the
logger goes every message is in its file, once and in order. -/
theorem saved_of_meets (disk : QString → Option Document) (today : Date) {ops : List Op}
    (hIn : ∀ op ∈ ops, op.InMonth today.toYearMonth)
    (hOk : Run.StepsMeet (step dataLocation contacts) (SavesSucceed dataLocation contacts)
      (Session.init disk today) ops) :
    ∀ t ∈ Run.states (step dataLocation contacts) (Session.init disk today) ops,
      Pending dataLocation today.toYearMonth t ∧ AllWritten dataLocation disk t := by
  intro t ht
  have hStep : ∀ (t : Session) (op : Op),
      Scheduled dataLocation (State.init disk today.toYearMonth) today.toYearMonth none t.logged
        t.state →
      op.InMonth today.toYearMonth ∧ SavesSucceed dataLocation contacts t op →
      Scheduled dataLocation (State.init disk today.toYearMonth) today.toYearMonth none
        (step dataLocation contacts t op).logged (step dataLocation contacts t op).state :=
    fun t op h hBoth => scheduled_step h hBoth.1 hBoth.2
  have hInv := Run.inv_of_stepsMeet hStep (Scheduled.init disk today) (hOk.and_mem hIn) t ht
  exact ⟨hInv.pending, hInv.allWritten⟩

/-- A message that is saved by the timer. -/
theorem timelyMessage_saved :
    AllWritten [] (fun _ => none)
      (timelyMessage.foldl (step [] [peer]) (Session.init (fun _ => none) newYear)) := by
  have hIn : ∀ op ∈ timelyMessage, op.InMonth newYear.toYearMonth := by
    intro op hop
    rcases List.mem_pair.mp hop with rfl | rfl
    · exact ⟨rfl, rfl⟩
    · trivial
  have hOk : Run.StepsMeet (step [] [peer]) (SavesSucceed [] [peer])
      (Session.init (fun _ => none) newYear) timelyMessage := by
    refine ⟨fun e _ => ⟨fun c k p hp => ?_, fun h => absurd rfl h⟩, fun _ => ⟨rfl, rfl⟩, trivial⟩
    cases hp
  exact (saved_of_meets _ newYear hIn hOk _ (Run.foldl_mem_states ..)).2

/-- A message, and a timer that fires while the file cannot be opened. -/
def failedSave : List Op :=
  [.append newYear (greeting newYear) none allGoesWell, .timeout ⟨true, false, false⟩]

/-- **A save that fails is not tried again**: the timer has stopped, and when the logger goes the
message is not written. -/
theorem failedSave_loses :
    ¬ ((∀ op ∈ failedSave, op.InMonth newYear.toYearMonth) →
      ∀ t ∈ Run.states (step [] [peer]) (Session.init (fun _ => none) newYear) failedSave,
        Pending [] newYear.toYearMonth t ∧ AllWritten [] (fun _ => none) t) := by
  intro hClaim
  have hIn : ∀ op ∈ failedSave, op.InMonth newYear.toYearMonth := by
    intro op hop
    rcases List.mem_pair.mp hop with rfl | rfl
    · exact ⟨rfl, rfl⟩
    · trivial
  obtain ⟨before, -, hWritten⟩ :=
    (hClaim hIn _ (Run.foldl_mem_states _ failedSave)).2 allGoesWell rfl rfl
      (logPath [] (newName peer newYear.toYearMonth))
  have hCount := congrArg List.length hWritten
  rw [List.length_append, List.length_map] at hCount
  have hFile : (((failedSave.foldl (step [] [peer])
      (Session.init (fun _ => none) newYear)).state.destroy allGoesWell).content
        (logPath [] (newName peer newYear.toYearMonth))).messages.length = 0 := by
    decide +kernel
  have hLogged : ((failedSave.foldl (step [] [peer])
      (Session.init (fun _ => none) newYear)).state.loggedTo []
        (failedSave.foldl (step [] [peer]) (Session.init (fun _ => none) newYear)).logged
        (logPath [] (newName peer newYear.toYearMonth))).length = 1 := by
    decide +kernel
  rw [hFile, hLogged] at hCount
  omega

end History
