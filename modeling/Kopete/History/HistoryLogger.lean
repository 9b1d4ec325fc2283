import Kopete.History.LogFiles
import Kopete.Lib.Dom
import Kopete.Lib.Heap

/-!
# History — writing the log

A message that is logged goes into the document of its contact and month, which stays in memory
once it has been read. The document is not written at once: one document waits to be saved, with
the name of its file, until a timer fires or a message goes into another one. When the month
changes, the documents in memory are let go of; the one that waits is not.

Main results:

* `messages_addEntries` — what logged messages add to a document;
* `saveToDisk_cases` — what saving does when a document waits.
-/

namespace History

open Html (latin1)

abbrev DomNode := Dom.Node UInt16

/-! ## Messages and documents -/

/-- `Kopete::Message::from`. -/
structure Sender where
  contact : Contact
  displayName : QString

/-- What the history reads of a `Kopete::Message`. -/
structure Message where
  sender : Option Sender
  recipients : List Contact
  /-- `manager()->members()`; none without a manager. -/
  members : List Contact
  outbound : Bool
  date : Date
  hour : Nat
  minute : Nat
  second : Nat
  /-- `format() == Qt::PlainText`. -/
  plainText : Bool
  plainBody : QString
  escapedBody : QString

def number (n : Int) : QString :=
  (if n < 0 then [45] else []) ++ (Nat.toDigits 10 n.natAbs).map fun c => UInt16.ofNat c.toNat

/-- `QString::toHtmlEscaped`. -/
def toHtmlEscaped (s : QString) : QString :=
  s.flatMap fun c =>
    if c = 60 then latin1 "&lt;"
    else if c = 62 then latin1 "&gt;"
    else if c = 38 then latin1 "&amp;"
    else if c = 34 then latin1 "&quot;"
    else [c]

def isHighSurrogate (c : UInt16) : Bool := 0xD800 ≤ c ∧ c ≤ 0xDBFF

def isLowSurrogate (c : UInt16) : Bool := 0xDC00 ≤ c ∧ c ≤ 0xDFFF

/-- `QChar::surrogateToUcs4`. -/
def surrogateToUcs4 (high low : UInt16) : Nat := high.toNat * 1024 + low.toNat - 0x35fdc00

/-- Surrogate pairs as character references. -/
def escapeSurrogates : QString → QString
  | [] => []
  | [c] => [c]
  | c :: d :: s =>
    if isHighSurrogate c ∧ isLowSurrogate d then
      latin1 "&#x" ++ (Nat.toDigits 16 (surrogateToUcs4 c d)).map (fun x => UInt16.ofNat x.toNat) ++
        latin1 ";" ++ escapeSurrogates s
    else c :: escapeSurrogates (d :: s)

namespace Message

variable (msg : Message)

/-- The text of the element. -/
def body : QString :=
  escapeSurrogates
    (if !msg.plainText then msg.escapedBody
    else (toHtmlEscaped msg.plainBody).flatMap fun c => if c = 10 then latin1 "<br />" else [c])

/-- `timestamp().toString("d h:m:s")`. -/
def time : QString :=
  number msg.date.day ++ latin1 " " ++ number msg.hour ++ latin1 ":" ++ number msg.minute ++
    latin1 ":" ++ number msg.second

/-- The contact under which a message is logged. -/
def contact (sender : Sender) (ct : Option Contact) : Option Contact :=
  match ct with
  | some c => some c
  | none =>
    match msg.members.head? with
    | some c => some c
    | none => if msg.outbound then msg.recipients.head? else some sender.contact

end Message

/-- A message that has been logged, and under which contact. -/
structure Entry where
  contact : Contact
  sender : Sender
  message : Message

/-- The element of a message. -/
def Entry.msgElem (e : Entry) : DomNode :=
  .element "msg"
    [("in", if e.message.outbound then latin1 "0" else latin1 "1"),
      ("from", e.sender.contact.contactId), ("nick", e.sender.displayName),
      ("time", e.message.time)]
    [.text e.message.body]

/-- A document of type `Kopete-History`: its document element, if it has one. -/
structure Document where
  documentElement : Option DomNode
  isElement : ∀ n ∈ documentElement, n.isElement = true

namespace Document

def empty : Document := ⟨none, fun _ h => nomatch h⟩

/-- The document element of a new log. -/
def newDocumentElement (c : Contact) (date : YearMonth) : DomNode :=
  .element "kopete-history" [("version", latin1 "0.9")]
    [.element "head" []
      [.element "date" [("year", number date.year), ("month", number date.month)] [],
        .element "contact" [("type", latin1 "myself"), ("contactId", c.myselfId)] [],
        .element "contact" [("contactId", c.contactId)] []]]

/-- The document with the element of a message at its end. -/
def addEntry (doc : Document) (e : Entry) : Document where
  documentElement := some
    ((doc.documentElement.getD
      (newDocumentElement e.contact e.message.date.toYearMonth)).appendChild e.msgElem)
  isElement := by
    intro n hn
    obtain rfl := Option.some.inj hn
    cases h : doc.documentElement with
    | none => rfl
    | some root =>
      have hRoot := doc.isElement root h
      cases root with
      | element tag attributes children => rfl
      | text s => cases hRoot

/-- With several, one after the other. -/
def addEntries (doc : Document) (es : List Entry) : Document := es.foldl addEntry doc

/-- The elements of the messages. -/
def messages (doc : Document) : List DomNode :=
  match doc.documentElement with
  | none => []
  | some root => root.children.filter fun n => n.tagName = "msg"

@[simp] theorem addEntries_nil (doc : Document) : doc.addEntries [] = doc := rfl

theorem addEntries_append (doc : Document) (es fs : List Entry) :
    doc.addEntries (es ++ fs) = (doc.addEntries es).addEntries fs := List.foldl_append ..

theorem addEntries_concat (doc : Document) (es : List Entry) (e : Entry) :
    doc.addEntries (es ++ [e]) = (doc.addEntries es).addEntry e := addEntries_append ..

theorem messages_addEntry (doc : Document) (e : Entry) :
    (doc.addEntry e).messages = doc.messages ++ [e.msgElem] := by
  cases h : doc.documentElement with
  | none => simp [messages, addEntry, h, newDocumentElement, Dom.Node.appendChild, Entry.msgElem,
      Dom.Node.children, Dom.Node.tagName]
  | some root =>
    have hRoot := doc.isElement root h
    cases root with
    | element tag attributes children =>
      simp [messages, addEntry, h, Dom.Node.appendChild, Dom.Node.children, Entry.msgElem,
        Dom.Node.tagName]
    | text s => cases hRoot

/-- **What logged messages add**: their elements, at the end and in order. -/
theorem messages_addEntries (doc : Document) (es : List Entry) :
    (doc.addEntries es).messages = doc.messages ++ es.map Entry.msgElem := by
  induction es generalizing doc with
  | nil => simp
  | cons e es ih =>
    show ((doc.addEntry e).addEntries es).messages = _
    rw [ih, messages_addEntry, List.append_assoc, List.singleton_append, List.map_cons]

end Document

/-! ## The logger -/

/-- How the files behave in a call: whether one can be read, and whether the one that is saved can
be opened and be put in its place. -/
structure Outcome where
  readable : Bool
  opened : Bool
  committed : Bool

/-- A logger, the documents it has made and the files. A document is shared by all that refer
to it, so that it is told by its identity. -/
structure State where
  disk : QString → Option Document
  heap : Heap Document
  documents : Contact → BitVec 32 → Option ℕ
  realMonth : Int
  toSaveFileName : QString
  toSaveDocument : Option ℕ
  saveTimerActive : Bool

namespace State

/-- A new logger. -/
def init (disk : QString → Option Document) (today : YearMonth) : State where
  disk := disk
  heap := Heap.empty
  documents := fun _ _ => none
  realMonth := today.month
  toSaveFileName := []
  toSaveDocument := none
  saveTimerActive := false

variable (dataLocation : QString) (s : State)

/-- `HistoryLogger::getFileName`. -/
def fileName (c : Contact) (date : YearMonth) : QString :=
  getFileName dataLocation (fun f => (s.disk f).isSome) c date

/-- What is read from a file, if it can be read; nothing where there is none. -/
def content (f : QString) : Document := (s.disk f).getD .empty

/-- A document in memory. -/
def document (p : ℕ) : Document := (s.heap.get? p).getD .empty

/-- The beginning of `getDocument`: in another month the indices are other ones. -/
def checkMonth (today : YearMonth) : State :=
  if s.realMonth ≠ today.month then
    { s with documents := fun _ _ => none, realMonth := today.month }
  else s

/-- `getDocument` for a date. -/
def readDocument (c : Contact) (date : YearMonth) (readable : Bool) : Document :=
  if readable then s.content (s.fileName dataLocation c date) else .empty

/-- The state with a new document for an index. -/
def insertDocument (c : Contact) (month : BitVec 32) (doc : Document) : State :=
  { s with
    heap := s.heap.new doc
    documents := fun c' month' =>
      if c' = c ∧ month' = month then some s.heap.next else s.documents c' month' }

/-- `getDocument` for an index. -/
def getDocument (today : YearMonth) (c : Contact) (month : BitVec 32) (readable : Bool) :
    State × ℕ :=
  let s := s.checkMonth today
  match s.documents c month with
  | some p => (s, p)
  | none =>
    let doc := s.readDocument dataLocation c (monthOfIndex today month) readable
    (s.insertDocument c month doc, s.heap.next)

/-- `HistoryLogger::saveToDisk`. -/
def saveToDisk (o : Outcome) : State :=
  let s := { s with saveTimerActive := false }
  match s.toSaveDocument with
  | none => s
  | some p =>
    if s.toSaveFileName = [] then s
    else if o.opened then
      { s with
        disk :=
          if o.committed then
            fun f => if f = s.toSaveFileName then some (s.document p) else s.disk f
          else s.disk
        toSaveFileName := []
        toSaveDocument := none }
    else s

/-- The document with the element of a message at its end. -/
def extend (p : ℕ) (e : Entry) : State := { s with heap := s.heap.modify p (·.addEntry e) }

/-- A document waits to be saved; the timer is started unless it is. -/
def schedule (p : ℕ) (filename : QString) : State :=
  { s with toSaveFileName := filename, toSaveDocument := some p, saveTimerActive := true }

/-- `HistoryLogger::appendMessage` once the contact is known. -/
def logEntry (today : YearMonth) (e : Entry) (o : Outcome) : State :=
  let date := e.message.date.toYearMonth
  let (s, p) := s.getDocument dataLocation today e.contact (monthIndex today date) o.readable
  let s := s.extend p e
  let filename := s.fileName dataLocation e.contact date
  let s :=
    if s.toSaveFileName ≠ [] ∧ s.toSaveFileName ≠ filename then s.saveToDisk o else s
  s.schedule p filename

end State

/-- What `appendMessage` logs: nothing without a sender, or for a contact that is not one of the
metacontact's. -/
def Message.entry (contacts : List Contact) (msg : Message) (ct : Option Contact) :
    Option Entry :=
  match msg.sender with
  | none => none
  | some sender =>
    match msg.contact sender ct with
    | none => none
    | some c => if c ∈ contacts then some ⟨c, sender, msg⟩ else none

theorem Message.message_of_entry {contacts : List Contact} {msg : Message} {ct : Option Contact}
    {e : Entry} (h : msg.entry contacts ct = some e) : e.message = msg := by
  unfold Message.entry at h
  split at h
  · cases h
  · split at h
    · cases h
    · split at h
      · rw [← Option.some.inj h]
      · cases h

/-- `HistoryLogger::appendMessage`. -/
def State.appendMessage (dataLocation : QString) (contacts : List Contact) (s : State)
    (today : YearMonth) (msg : Message) (ct : Option Contact) (o : Outcome) : State :=
  match msg.entry contacts ct with
  | none => s
  | some e => s.logEntry dataLocation today e o

/-- `HistoryLogger::~HistoryLogger`. -/
def State.destroy (s : State) (o : Outcome) : State :=
  if s.saveTimerActive then s.saveToDisk o else s

/-! ## What the steps change -/

namespace State

variable {dataLocation : QString} {s : State}

@[simp] theorem checkMonth_disk (s : State) (today : YearMonth) :
    (s.checkMonth today).disk = s.disk := by
  unfold checkMonth
  split <;> rfl

@[simp] theorem checkMonth_heap (s : State) (today : YearMonth) :
    (s.checkMonth today).heap = s.heap := by
  unfold checkMonth
  split <;> rfl

@[simp] theorem checkMonth_toSaveFileName (s : State) (today : YearMonth) :
    (s.checkMonth today).toSaveFileName = s.toSaveFileName := by
  unfold checkMonth
  split <;> rfl

@[simp] theorem checkMonth_toSaveDocument (s : State) (today : YearMonth) :
    (s.checkMonth today).toSaveDocument = s.toSaveDocument := by
  unfold checkMonth
  split <;> rfl

@[simp] theorem checkMonth_realMonth (s : State) (today : YearMonth) :
    (s.checkMonth today).realMonth = today.month := by
  unfold checkMonth
  split
  · rfl
  · next h => exact not_not.mp h

@[simp] theorem checkMonth_fileName (s : State) (today : YearMonth) (c : Contact)
    (d : YearMonth) :
    (s.checkMonth today).fileName dataLocation c d = s.fileName dataLocation c d := by
  rw [fileName, fileName, checkMonth_disk]

@[simp] theorem checkMonth_content (s : State) (today : YearMonth) (f : QString) :
    (s.checkMonth today).content f = s.content f := by
  rw [content, content, checkMonth_disk]

@[simp] theorem checkMonth_readDocument (s : State) (today : YearMonth) (c : Contact)
    (d : YearMonth) (readable : Bool) :
    (s.checkMonth today).readDocument dataLocation c d readable =
      s.readDocument dataLocation c d readable := by
  rw [readDocument, readDocument, checkMonth_fileName, checkMonth_content]

/-- A document that is still in memory was there before, in the same month. -/
theorem documents_checkMonth {today : YearMonth} {c : Contact} {k : BitVec 32} {p : ℕ}
    (h : (s.checkMonth today).documents c k = some p) :
    s.realMonth = today.month ∧ s.documents c k = some p := by
  unfold checkMonth at h
  split at h
  · cases h
  · next hMonth => exact ⟨not_not.mp hMonth, h⟩

theorem document_extend (p q : ℕ) (e : Entry) (hq : s.heap.Live q) :
    (s.extend p e).document q =
      if q = p then (s.document q).addEntry e else s.document q := by
  unfold document extend
  by_cases h : q = p
  · subst h
    obtain ⟨doc, hDoc⟩ := Option.isSome_iff_exists.mp hq
    simp [hDoc]
  · simp [h]

theorem document_insertDocument_of_live {p : ℕ} (hp : s.heap.Live p) (c : Contact)
    (k : BitVec 32) (doc : Document) : (s.insertDocument c k doc).document p = s.document p :=
  congrArg (·.getD .empty) (Heap.get?_new_of_live doc hp)

/-- A document in memory is the new one or was there before. -/
theorem documents_insertDocument {c c' : Contact} {k k' : BitVec 32} {doc : Document} {p : ℕ}
    (hp : (s.insertDocument c k doc).documents c' k' = some p) :
    c' = c ∧ k' = k ∧ p = s.heap.next ∨ s.documents c' k' = some p := by
  simp only [insertDocument] at hp
  split at hp
  · next hIs => exact Or.inl ⟨hIs.1, hIs.2, (Option.some.inj hp).symm⟩
  · exact Or.inr hp

@[simp] theorem document_insertDocument_self (c : Contact) (k : BitVec 32) (doc : Document) :
    (s.insertDocument c k doc).document s.heap.next = doc :=
  congrArg (·.getD .empty) (Heap.get?_new_self doc)

/-- Asking for a document leaves the files and what waits as they are. -/
theorem getDocument_frame (dataLocation : QString) (s : State) (today : YearMonth) (c : Contact) (k : BitVec 32)
    (readable : Bool) :
    (s.getDocument dataLocation today c k readable).1.disk = s.disk ∧
      (s.getDocument dataLocation today c k readable).1.toSaveFileName = s.toSaveFileName ∧
      (s.getDocument dataLocation today c k readable).1.toSaveDocument = s.toSaveDocument := by
  unfold getDocument
  simp only
  split
  · simp
  · simp [insertDocument]

/-- The document that a message is logged into. -/
def entryDocument (dataLocation : QString) (s : State) (today : YearMonth) (e : Entry)
    (readable : Bool) : State × ℕ :=
  s.getDocument dataLocation today e.contact
    (monthIndex today e.message.date.toYearMonth) readable

/-- **Logging** in one piece: the document is extended, the one that waits for another file is
saved, and the document waits. -/
theorem logEntry_eq (s : State) (today : YearMonth) (e : Entry) (o : Outcome) :
    s.logEntry dataLocation today e o =
      let found := s.entryDocument dataLocation today e o.readable
      let filename := s.fileName dataLocation e.contact e.message.date.toYearMonth
      (if s.toSaveFileName ≠ [] ∧ s.toSaveFileName ≠ filename then
        (found.1.extend found.2 e).saveToDisk o
      else found.1.extend found.2 e).schedule found.2 filename := by
  obtain ⟨hDisk, hName, -⟩ := getDocument_frame dataLocation s today e.contact
    (monthIndex today e.message.date.toYearMonth) o.readable
  have hFile : ∀ p, ((s.getDocument dataLocation today e.contact
      (monthIndex today e.message.date.toYearMonth) o.readable).1.extend p e).fileName dataLocation
        e.contact e.message.date.toYearMonth =
      s.fileName dataLocation e.contact e.message.date.toYearMonth := fun p => by
    simp only [fileName, extend, hDisk]
  simp only [logEntry, hFile, entryDocument]
  simp only [extend, hName]

/-- Nothing waits to be saved. -/
def forget (s : State) : State := { s with toSaveFileName := [], toSaveDocument := none }

theorem checkMonth_forget (s : State) (today : YearMonth) :
    s.forget.checkMonth today = (s.checkMonth today).forget := by
  have hMonth : s.forget.realMonth = s.realMonth := rfl
  unfold checkMonth
  rw [hMonth]
  split <;> rfl

theorem getDocument_forget (s : State) (today : YearMonth) (c : Contact) (k : BitVec 32)
    (readable : Bool) :
    s.forget.getDocument dataLocation today c k readable =
      ((s.getDocument dataLocation today c k readable).1.forget,
        (s.getDocument dataLocation today c k readable).2) := by
  unfold getDocument
  simp only [checkMonth_forget]
  have hSame : (s.checkMonth today).forget.documents = (s.checkMonth today).documents := rfl
  rw [hSame]
  cases (s.checkMonth today).documents c k <;> rfl

theorem entryDocument_forget (s : State) (today : YearMonth) (e : Entry) (readable : Bool) :
    s.forget.entryDocument dataLocation today e readable =
      ((s.entryDocument dataLocation today e readable).1.forget,
        (s.entryDocument dataLocation today e readable).2) := getDocument_forget ..

/-- **Saving** leaves the documents as they are. -/
theorem saveToDisk_frame (s : State) (o : Outcome) :
    (s.saveToDisk o).heap = s.heap ∧ (s.saveToDisk o).documents = s.documents ∧
      (s.saveToDisk o).realMonth = s.realMonth := by
  unfold saveToDisk
  simp only
  split
  · exact ⟨rfl, rfl, rfl⟩
  · split
    · exact ⟨rfl, rfl, rfl⟩
    · split <;> exact ⟨rfl, rfl, rfl⟩

/-- **After logging** the document waits for its file, with the message. -/
theorem logEntry_frame (dataLocation : QString) (s : State) (today : YearMonth) (e : Entry) (o : Outcome) :
    let found := s.entryDocument dataLocation today e o.readable
    (s.logEntry dataLocation today e o).heap = (found.1.extend found.2 e).heap ∧
      (s.logEntry dataLocation today e o).documents = found.1.documents ∧
      (s.logEntry dataLocation today e o).toSaveDocument = some found.2 ∧
      (s.logEntry dataLocation today e o).toSaveFileName =
        s.fileName dataLocation e.contact e.message.date.toYearMonth ∧
      (s.logEntry dataLocation today e o).saveTimerActive = true := by
  intro found
  rw [logEntry_eq]
  refine ⟨?_, ?_, rfl, rfl, rfl⟩
  · simp only [schedule]
    split
    · exact (saveToDisk_frame _ o).1
    · rfl
  · simp only [schedule]
    split
    · exact (saveToDisk_frame _ o).2.1
    · rfl

/-- **Names stay** when a file that has one of them is written. -/
theorem fileName_of_written {s' : State} {f : QString} {doc : Document} {c₀ : Contact}
    {d₀ : YearMonth} (hName : f = s.fileName dataLocation c₀ d₀)
    (hDisk : s'.disk = fun f' => if f' = f then some doc else s.disk f') (c : Contact)
    (d : YearMonth) : s'.fileName dataLocation c d = s.fileName dataLocation c d := by
  refine getFileName_stable (fun f' hBefore => ?_) (fun f' hBefore hAfter => ?_) c d
  · simp only [hDisk]
    split
    · rfl
    · exact hBefore
  · refine ⟨c₀, d₀, ?_⟩
    by_contra hNe
    have hOther : f' ≠ f := fun h => hNe (h.trans hName)
    simp only [hDisk, hOther, if_false] at hAfter
    exact Bool.false_ne_true (hBefore.symm.trans hAfter)

/-- **What saving does** when a document waits: it is written, or nothing is. -/
theorem saveToDisk_cases {p : ℕ} (hWaits : s.toSaveDocument = some p)
    (hName : s.toSaveFileName ≠ []) (o : Outcome) :
    s.saveToDisk o =
      { s with
        saveTimerActive := false
        disk :=
          if o.opened ∧ o.committed then
            fun f => if f = s.toSaveFileName then some (s.document p) else s.disk f
          else s.disk
        toSaveFileName := if o.opened then [] else s.toSaveFileName
        toSaveDocument := if o.opened then none else some p } := by
  unfold saveToDisk
  simp only [hWaits, hName, if_false]
  cases o.opened <;> cases o.committed <;> simp [document]

end State

end History
