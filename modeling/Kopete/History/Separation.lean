import Kopete.History.MonthDocuments
import Kopete.History.ReadMessages
import Kopete.Lib.QMap
import Mathlib

/-!
# History — the histories of two contacts

The names of log files are made of ids in which some characters have been replaced, and Kopete
0.7.x left the account out of them. A file of the old kind belongs to the contacts of all
accounts of the protocol that have the id. The first month is that of the first file whose name
has the id of the contact somewhere in it, the files of other contacts included. No account has an
empty id, which `registerAccount` refuses, so that paths that differ lead to different files.

Main results:

* `disk_of_only` — logging for a contact changes its own files only;
* `sameFor_of_agree` — what is read for the other one then;
* `separate_iff` — which contacts have nothing to do with each other's history.
-/

namespace History

open Html (latin1)
open Reading (Logs Node Msg messagesOf captures)

variable {μ : Type}

/-! ## Reading -/

/-- A file that `QDir::Files` lists. -/
def Visible (name : QString) : Prop := name ≠ [] ∧ name.head? ≠ some 46 ∧ 47 ∉ name

instance (name : QString) : Decidable (Visible name) := inferInstanceAs (Decidable (_ ∧ _ ∧ _))

/-- `QDir::entryInfoList`, sorted by the names. -/
structure IsListing (disk : QString → Option Document) (dir : QString) (names : List QString) :
    Prop where
  sorted : names.Pairwise (· < ·)
  mem_iff : ∀ name, name ∈ names ↔ Visible name ∧ (disk (dir ++ latin1 "/" ++ name)).isSome = true

/-- `HistoryLogger::getFileName` on a disk. -/
def fileNameOn (dataLocation : QString) (disk : QString → Option Document) (c : Contact)
    (date : YearMonth) : QString :=
  getFileName dataLocation (fun f => (disk f).isSome) c date

/-- `HistoryLogger::readMessages` of a day, for these contacts. `childNodes` are the nodes of a
document, and `shown` leaves out what is outgoing where that is hidden. -/
def readMessagesOn (childNodes : Document → List (Node μ)) (shown : Msg μ → Bool)
    (dataLocation : QString) (disk : QString → Option Document) (contacts : List Contact)
    (date : Date) : List (Contact × Msg μ) :=
  contacts.flatMap fun c =>
    let doc := (disk (fileNameOn dataLocation disk c date.toYearMonth)).getD .empty
    ((messagesOf (childNodes doc)).filter fun m => m.time.day = date.day ∧ shown m).map (c, ·)

/-- A day that `getDaysForMonth` finds, put to those found before. -/
def addDay (found : Nat × List Nat) (day : Nat) : Nat × List Nat :=
  if day ≠ found.1 ∧ day ∉ found.2 then (day, found.2 ++ [day]) else found

/-- `HistoryLogger::getDaysForMonth`; `days` is what `rxTime` finds in the text of a file. -/
def getDaysForMonth (days : Document → List Nat) (dataLocation : QString)
    (disk : QString → Option Document) (contacts : List Contact) (date : YearMonth) : List Nat :=
  (contacts.foldl (fun found c =>
    match disk (fileNameOn dataLocation disk c date) with
    | none => found
    | some doc => (days doc).foldl addDay found) (0, [])).2

/-- The files of a disk for `getFirstMonth`. -/
def logsOn (childNodes : Document → List (Node μ)) (today : Date) (dataLocation : QString)
    (disk : QString → Option Document) (entryInfoList : QString → List QString) (c : Contact) :
    Logs μ where
  today := today
  dataLocation := dataLocation
  exists_ := fun f => (disk f).isSome
  entryInfoList := entryInfoList
  childNodes := fun f => childNodes ((disk f).getD .empty)
  contacts := [c]
  nodup := List.nodup_singleton c

/-! ## What is promised -/

/-- A log file of a contact, in some month. -/
def FileOf (dataLocation : QString) (c : Contact) (f : QString) : Prop :=
  ∃ old date, f = logPath dataLocation (stem c old ++ monthSuffix date)

/-- Disks that differ in the files of a contact only. -/
def AgreeBut (dataLocation : QString) (c : Contact) (disk disk' : QString → Option Document) :
    Prop :=
  ∀ f, ¬ FileOf dataLocation c f → disk' f = disk f

/-- The same is read for a contact. -/
structure SameFor (childNodes : Document → List (Node μ)) (days : Document → List Nat)
    (dataLocation : QString) (c : Contact) (disk disk' : QString → Option Document) : Prop where
  readMessages : ∀ shown date, readMessagesOn childNodes shown dataLocation disk' [c] date =
    readMessagesOn childNodes shown dataLocation disk [c] date
  getDaysForMonth : ∀ date, getDaysForMonth days dataLocation disk' [c] date =
    getDaysForMonth days dataLocation disk [c] date
  getFirstMonth : ∀ today names names', (∀ dir, IsListing disk dir (names dir)) →
    (∀ dir, IsListing disk' dir (names' dir)) →
      (logsOn childNodes today dataLocation disk' names' c).getFirstMonthOf c =
        (logsOn childNodes today dataLocation disk names c).getFirstMonthOf c

/-- The messages that are appended are for this contact. -/
def OnlyFor (c : Contact) (contacts : List Contact) : Op → Prop
  | .append _ msg ct _ => ∀ e ∈ msg.entry contacts ct, e.contact = c
  | .read _ _ _ _ => True
  | .timeout _ => True

/-- What is read for `c` has nothing to do with the messages of `c'`. -/
structure Separate (childNodes : Document → List (Node μ)) (days : Document → List Nat)
    (dataLocation : QString) (c c' : Contact) : Prop where
  /-- Their log files differ for all months. -/
  files : ∀ disk date date',
    fileNameOn dataLocation disk c date ≠ fileNameOn dataLocation disk c' date'
  /-- The files of `c'` are not taken into account. -/
  own : ∀ disk disk', AgreeBut dataLocation c' disk disk' →
    SameFor childNodes days dataLocation c disk disk'
  /-- Nor are the messages that a logger appends for `c'`, at any time. -/
  appended : ∀ disk today contacts ops, (∀ op ∈ ops, OnlyFor c' contacts op) →
    ∀ t ∈ Run.states (step dataLocation contacts) (Session.init disk today) ops,
      SameFor childNodes days dataLocation c disk t.state.disk

/-- The contacts are of one protocol, and have one id, or the id of `c` is in the name of a log file
of `c'` that is not hidden. Characters are replaced in all of these. -/
def Clash (c c' : Contact) : Prop :=
  sanitize c.pluginId = sanitize c'.pluginId ∧
    (sanitize c.contactId = sanitize c'.contactId ∨
      sanitize c'.contactId ≠ [] ∧
        ∃ date, sanitize c.contactId <:+: sanitize c'.contactId ++ monthSuffix date ++ latin1 ".xml")

/-! ## Names of files -/

variable {dataLocation : QString} {c c' : Contact}

theorem ids_of_stem {old old' : Bool} (h : stem c old = stem c' old') :
    sanitize c.pluginId = sanitize c'.pluginId ∧ sanitize c.contactId = sanitize c'.contactId := by
  have hSlash := notMem_sanitize (c := 47) (by decide)
  exact split_separator (hSlash _) (hSlash _) (old_of_stem h).2

theorem fileOf_fileNameOn (dataLocation : QString) (disk : QString → Option Document)
    (c : Contact) (date : YearMonth) :
    FileOf dataLocation c (fileNameOn dataLocation disk c date) := by
  obtain ⟨old, hName, _⟩ := getFileName_eq dataLocation (fun f => (disk f).isSome) c date
  exact ⟨old, date, hName⟩

theorem ids_of_fileOf {old : Bool} {date : YearMonth}
    (h : FileOf dataLocation c' (logPath dataLocation (stem c old ++ monthSuffix date))) :
    sanitize c.pluginId = sanitize c'.pluginId ∧ sanitize c.contactId = sanitize c'.contactId := by
  obtain ⟨old', date', hSame⟩ := h
  exact ids_of_stem (stem_monthSuffix (logPath_injective dataLocation hSame)).1

theorem slash_notMem_fileName (c : Contact) (date : YearMonth) :
    47 ∉ sanitize c.contactId ++ monthSuffix date ++ latin1 ".xml" := by
  have hSuffix : 47 ∉ monthSuffix date := by
    have hDigits := fun width n => notMem_zeroPadded (c := 47) (by decide) width n
    simp only [monthSuffix, List.mem_cons, List.mem_append, not_or]
    refine ⟨by decide, ⟨?_, hDigits _ _⟩, hDigits _ _⟩
    split <;> decide
  simp only [List.mem_append, not_or]
  exact ⟨⟨notMem_sanitize (by decide) _, hSuffix⟩, by decide⟩

/-- Where the log files are. -/
def logDir (dataLocation : QString) : QString :=
  dataLocation ++ latin1 "/" ++ latin1 "kopete/logs/"

theorem protocolDir_append (L : Logs μ) (c : Contact) (name : QString) :
    L.protocolDir c ++ latin1 "/" ++ name =
      logDir L.dataLocation ++ (sanitize c.pluginId ++ 47 :: name) := by
  simp [Logs.protocolDir, logDir, latin1]

theorem accountDir_append (L : Logs μ) (c : Contact) (name : QString) :
    L.accountDir c ++ latin1 "/" ++ name =
      logDir L.dataLocation ++
        (sanitize c.pluginId ++ 47 :: (sanitize c.accountId ++ 47 :: name)) := by
  simp [Logs.accountDir, Logs.protocolDir, logDir, latin1]

/-- The name of a log file, without its directory. -/
def logName (c : Contact) (date : YearMonth) : QString :=
  sanitize c.contactId ++ monthSuffix date ++ latin1 ".xml"

theorem logPath_stem (dataLocation : QString) (c : Contact) (old : Bool) (date : YearMonth) :
    logPath dataLocation (stem c old ++ monthSuffix date) =
      logDir dataLocation ++ (sanitize c.pluginId ++ 47 ::
        (if old then logName c date else sanitize c.accountId ++ 47 :: logName c date)) := by
  cases old <;> simp [logPath, logDir, stem, logName]

/-- A file of `c'` in the directory of a protocol is of the old kind. -/
theorem fileOf_protocolDir {L : Logs μ} {name : QString} (hName : 47 ∉ name)
    (h : FileOf L.dataLocation c' (L.protocolDir c ++ latin1 "/" ++ name)) :
    sanitize c.pluginId = sanitize c'.pluginId ∧ ∃ date, name = logName c' date := by
  have hSlash := notMem_sanitize (c := 47) (by decide)
  obtain ⟨old, date, hSame⟩ := h
  rw [protocolDir_append, logPath_stem] at hSame
  obtain ⟨hIds, hRest⟩ := split_separator (hSlash _) (hSlash _) (List.append_cancel_left hSame)
  refine ⟨hIds, date, ?_⟩
  cases old with
  | true => exact hRest
  | false =>
    rw [hRest, if_neg Bool.false_ne_true] at hName
    exact absurd (List.mem_append_right _ List.mem_cons_self) hName

theorem fileOf_accountDir {L : Logs μ} {name : QString}
    (h : FileOf L.dataLocation c' (L.accountDir c ++ latin1 "/" ++ name)) :
    sanitize c.pluginId = sanitize c'.pluginId ∧ ∃ date, name = logName c' date := by
  have hSlash := notMem_sanitize (c := 47) (by decide)
  obtain ⟨old, date, hSame⟩ := h
  rw [accountDir_append, logPath_stem] at hSame
  obtain ⟨hIds, hRest⟩ := split_separator (hSlash _) (hSlash _) (List.append_cancel_left hSame)
  refine ⟨hIds, date, ?_⟩
  cases old with
  | true =>
    have hOld := slash_notMem_fileName c' date
    rw [if_pos rfl] at hRest
    rw [← logName, ← hRest] at hOld
    exact absurd (List.mem_append_right _ List.mem_cons_self) hOld
  | false => exact (split_separator (hSlash _) (hSlash _) hRest).2

theorem visible_logName_iff (c : Contact) (date : YearMonth) :
    Visible (logName c date) ↔ sanitize c.contactId ≠ [] := by
  have hSlash := slash_notMem_fileName c date
  have hDot := notMem_sanitize (c := 46) (by decide) c.contactId
  unfold logName
  cases hId : sanitize c.contactId with
  | nil => exact iff_of_false (fun h => h.2.1 rfl) (fun h => h rfl)
  | cons first rest =>
    rw [hId] at hSlash hDot
    refine iff_of_true ⟨List.cons_ne_nil _ _, fun hFirst => ?_, hSlash⟩ (List.cons_ne_nil _ _)
    exact hDot (Option.some.inj hFirst ▸ List.mem_cons_self)

/-! ## Other contacts' files -/

variable {childNodes : Document → List (Node μ)} {days : Document → List Nat}
  {disk disk' : QString → Option Document}

/-- The files of `c` are none of `c'`. -/
theorem disk_of_agree (hApart : ¬ Clash c c') (h : AgreeBut dataLocation c' disk disk')
    (old : Bool) (date : YearMonth) :
    disk' (logPath dataLocation (stem c old ++ monthSuffix date)) =
      disk (logPath dataLocation (stem c old ++ monthSuffix date)) := by
  refine h _ fun hFile => hApart ?_
  obtain ⟨hPlugin, hContact⟩ := ids_of_fileOf hFile
  exact ⟨hPlugin, Or.inl hContact⟩

theorem fileNameOn_of_agree (hApart : ¬ Clash c c') (h : AgreeBut dataLocation c' disk disk')
    (date : YearMonth) : fileNameOn dataLocation disk' c date = fileNameOn dataLocation disk c date := by
  have hSame := disk_of_agree hApart h
  unfold fileNameOn getFileName
  simp only [newName_eq, oldName_eq, hSame]

/-- What is in the file of `c` for a month. -/
theorem content_of_agree (hApart : ¬ Clash c c') (h : AgreeBut dataLocation c' disk disk')
    (date : YearMonth) :
    disk' (fileNameOn dataLocation disk' c date) = disk (fileNameOn dataLocation disk c date) := by
  rw [fileNameOn_of_agree hApart h]
  obtain ⟨old, hName, _⟩ := getFileName_eq dataLocation (fun f => (disk f).isSome) c date
  rw [fileNameOn, hName]
  exact disk_of_agree hApart h old date

/-- The files that `getFirstMonth` looks at are the same. -/
theorem filter_of_agree {dir : QString} {names names' : List QString}
    (h : AgreeBut dataLocation c' disk disk') (hNames : IsListing disk dir names)
    (hNames' : IsListing disk' dir names')
    (hOther : ∀ name, Visible name → sanitize c.contactId <:+: name →
      ¬ FileOf dataLocation c' (dir ++ latin1 "/" ++ name)) :
    names'.filter (fun name => decide (sanitize c.contactId <:+: name)) =
      names.filter (fun name => decide (sanitize c.contactId <:+: name)) := by
  refine (hNames'.sorted.filter _).eq_of_mem_iff (hNames.sorted.filter _) fun name => ?_
  rw [List.mem_filter, List.mem_filter, hNames.mem_iff, hNames'.mem_iff, decide_eq_true_eq]
  refine and_congr_left fun hId => and_congr_right fun hVisible => ?_
  rw [h _ (hOther name hVisible hId)]

theorem firstMonthIn_congr {L L' : Logs μ} (hToday : L'.today = L.today) {names names' : List QString}
    (h : names'.filter (fun name => decide (sanitize c.contactId <:+: name)) =
      names.filter (fun name => decide (sanitize c.contactId <:+: name))) :
    L'.firstMonthIn c names' = L.firstMonthIn c names := by
  unfold Logs.firstMonthIn
  rw [← List.head?_filter, ← List.head?_filter, h, hToday]

/-- A file of `c'` that `getFirstMonth` looks at. -/
theorem clash_of_logName {name : QString} (hVisible : Visible name)
    (hId : sanitize c.contactId <:+: name)
    (h : sanitize c.pluginId = sanitize c'.pluginId ∧ ∃ date, name = logName c' date) :
    Clash c c' := by
  obtain ⟨hPlugin, date, rfl⟩ := h
  exact ⟨hPlugin, Or.inr ⟨(visible_logName_iff c' date).1 hVisible, date, hId⟩⟩

/-- **What is read for `c`** does not depend on the files of `c'`. -/
theorem sameFor_of_agree (hApart : ¬ Clash c c') (h : AgreeBut dataLocation c' disk disk') :
    SameFor childNodes days dataLocation c disk disk' := by
  refine ⟨fun shown date => ?_, fun date => ?_, fun today names names' hNames hNames' => ?_⟩
  · simp only [readMessagesOn, List.flatMap_cons, List.flatMap_nil, content_of_agree hApart h]
  · simp only [getDaysForMonth, List.foldl_cons, List.foldl_nil, content_of_agree hApart h]
  · let L := logsOn childNodes today dataLocation disk names c
    let L' := logsOn childNodes today dataLocation disk' names' c
    have hProtocol := filter_of_agree h (hNames (L.protocolDir c)) (hNames' (L.protocolDir c))
      fun name hVisible hId hFile =>
        hApart (clash_of_logName hVisible hId (fileOf_protocolDir (L := L) hVisible.2.2 hFile))
    have hAccount := filter_of_agree h (hNames (L.accountDir c)) (hNames' (L.accountDir c))
      fun name hVisible hId hFile =>
        hApart (clash_of_logName hVisible hId (fileOf_accountDir (L := L) hFile))
    show L'.getFirstMonthOf c = L.getFirstMonthOf c
    have hOld : L'.firstMonthIn c (L'.entryInfoList (L'.protocolDir c)) =
        L.firstMonthIn c (L.entryInfoList (L.protocolDir c)) := firstMonthIn_congr rfl hProtocol
    have hNew : L'.firstMonthIn c (L'.entryInfoList (L'.accountDir c)) =
        L.firstMonthIn c (L.entryInfoList (L.accountDir c)) := firstMonthIn_congr rfl hAccount
    unfold Logs.getFirstMonthOf
    rw [hOld, hNew]

/-! ## Logging for the other one -/

/-- Only the files of `c` have been changed, and what waits to be saved is one of them. -/
structure Confined (dataLocation : QString) (c : Contact) (disk : QString → Option Document)
    (s : State) : Prop where
  waiting : s.toSaveFileName ≠ [] → FileOf dataLocation c s.toSaveFileName
  agree : AgreeBut dataLocation c disk s.disk

theorem Confined.congr {s s' : State} (h : Confined dataLocation c disk s)
    (hDisk : s'.disk = s.disk) (hName : s'.toSaveFileName = s.toSaveFileName) :
    Confined dataLocation c disk s' :=
  ⟨by rw [hName]; exact h.waiting, by rw [hDisk]; exact h.agree⟩

theorem Confined.saveToDisk {s : State} (h : Confined dataLocation c disk s) (o : Outcome) :
    Confined dataLocation c disk (s.saveToDisk o) := by
  cases hWaits : s.toSaveDocument with
  | none =>
    refine h.congr ?_ ?_
    · simp only [State.saveToDisk, hWaits]
    · simp only [State.saveToDisk, hWaits]
  | some p =>
    by_cases hName : s.toSaveFileName = []
    · refine h.congr ?_ ?_
      · simp only [State.saveToDisk, hWaits, if_pos hName]
      · simp only [State.saveToDisk, hWaits, if_pos hName]
    · rw [State.saveToDisk_cases hWaits hName]
      refine ⟨fun hStill => ?_, fun f hf => ?_⟩
      · -- it still waits, as it could not be opened
        have hSame : (if o.opened = true then [] else s.toSaveFileName) ≠ [] := hStill
        split at hSame
        · exact absurd rfl hSame
        · next hNot =>
          show FileOf dataLocation c (if o.opened = true then [] else s.toSaveFileName)
          rw [if_neg hNot]
          exact h.waiting hName
      · have hOther : f ≠ s.toSaveFileName := fun hSame => hf (hSame ▸ h.waiting hName)
        show (if o.opened ∧ o.committed then
          fun f => if f = s.toSaveFileName then some (s.document p) else s.disk f
          else s.disk) f = disk f
        split
        · show (if f = s.toSaveFileName then _ else s.disk f) = disk f
          rw [if_neg hOther]
          exact h.agree f hf
        · exact h.agree f hf

theorem Confined.logEntry {s : State} (h : Confined dataLocation c disk s) (today : YearMonth)
    {e : Entry} (he : e.contact = c) (o : Outcome) :
    Confined dataLocation c disk (s.logEntry dataLocation today e o) := by
  obtain ⟨hDisk, hName, _⟩ := State.getDocument_frame dataLocation s today e.contact
    (monthIndex today e.message.date.toYearMonth) o.readable
  have hExtended : Confined dataLocation c disk ((s.entryDocument dataLocation today e
      o.readable).1.extend (s.entryDocument dataLocation today e o.readable).2 e) :=
    h.congr hDisk hName
  rw [State.logEntry_eq]
  refine ⟨fun _ => ?_, ?_⟩
  · show FileOf dataLocation c (fileNameOn dataLocation s.disk e.contact _)
    rw [he]
    exact fileOf_fileNameOn dataLocation s.disk c _
  · show AgreeBut dataLocation c disk (State.disk (if _ then _ else _))
    split
    · exact (hExtended.saveToDisk o).agree
    · exact hExtended.agree

theorem Confined.step {t : Session} (h : Confined dataLocation c disk t.state)
    {contacts : List Contact} {op : Op} (hOnly : OnlyFor c contacts op) :
    Confined dataLocation c disk (step dataLocation contacts t op).state := by
  cases op with
  | append today msg ct o =>
    show Confined dataLocation c disk
      (t.state.appendMessage dataLocation contacts today.toYearMonth msg ct o)
    unfold State.appendMessage
    cases hEntry : msg.entry contacts ct with
    | none => exact h
    | some e => exact h.logEntry today.toYearMonth (hOnly e hEntry) o
  | read today c month readable =>
    unfold History.step
    simp only
    split
    · obtain ⟨hDisk, hName, _⟩ :=
        State.getDocument_frame dataLocation t.state today.toYearMonth c month readable
      exact h.congr hDisk hName
    · exact h
  | timeout o =>
    unfold History.step
    simp only
    split
    · exact h.saveToDisk o
    · exact h

/-- **Logging for a contact** changes its own files only. -/
theorem disk_of_only {today : Date} {contacts : List Contact} {ops : List Op}
    (hOnly : ∀ op ∈ ops, OnlyFor c contacts op) :
    ∀ t ∈ Run.states (step dataLocation contacts) (Session.init disk today) ops,
      AgreeBut dataLocation c disk t.state.disk := by
  intro t ht
  have hStep : ∀ t op, Confined dataLocation c disk t.state → OnlyFor c contacts op →
      Confined dataLocation c disk (step dataLocation contacts t op).state :=
    fun t op h hOp => h.step hOp
  have hStart : Confined dataLocation c disk (Session.init disk today).state :=
    ⟨fun h => absurd rfl h, fun _ _ => rfl⟩
  exact (Run.inv_of_stepsMeet hStep hStart (Run.stepsMeet_of_mem hOnly) t ht).agree

/-! ## Contacts that share files -/

theorem fileNameOn_of_ids (dataLocation : QString)
    (hPlugin : sanitize c.pluginId = sanitize c'.pluginId)
    (hContact : sanitize c.contactId = sanitize c'.contactId) (date : YearMonth) :
    ∃ disk, fileNameOn dataLocation disk c date = fileNameOn dataLocation disk c' date := by
  let shared := logPath dataLocation (oldName c date)
  have hSame : logPath dataLocation (oldName c' date) = shared := by
    show logPath dataLocation (oldName c' date) = logPath dataLocation (oldName c date)
    rw [oldName, oldName, hPlugin, hContact]
  have hNew : ∀ c₀, logPath dataLocation (newName c₀ date) ≠ shared := by
    intro c₀ hBoth
    have hPath := logPath_injective dataLocation hBoth
    rw [newName_eq, oldName_eq] at hPath
    exact Bool.false_ne_true (old_of_stem (stem_monthSuffix hPath).1).1
  have hName : ∀ c₀, logPath dataLocation (oldName c₀ date) = shared →
      fileNameOn dataLocation (fun f => if f = shared then some .empty else none) c₀ date =
        shared := by
    intro c₀ hOld
    unfold fileNameOn getFileName
    simp only [if_neg (hNew c₀), hOld, if_true, Option.isSome_none, Option.isSome_some,
      Bool.not_false]
  exact ⟨_, (hName c rfl).trans (hName c' hSame).symm⟩

/-- A disk that has these files. -/
def diskOf (files : List QString) (f : QString) : Option Document :=
  if files.contains f then some .empty else none

theorem diskOf_eq (files : List QString) (f : QString) :
    diskOf files f = if f ∈ files then some .empty else none := by
  simp only [diskOf, List.contains_iff_mem]

/-- The names of the files in a directory of it. -/
def listing (files : List QString) (dir : QString) : List QString :=
  ((files.filterMap fun f =>
    if dir ++ latin1 "/" <+: f then some (f.drop (dir ++ latin1 "/").length) else none).filter
      fun name => decide (Visible name)).toFinset.sort

theorem isListing_listing (files : List QString) (dir : QString) :
    IsListing (diskOf files) dir (listing files dir) := by
  refine ⟨(Finset.sortedLT_sort _).pairwise, fun name => ?_⟩
  have hThere : (diskOf files (dir ++ latin1 "/" ++ name)).isSome = true ↔
      dir ++ latin1 "/" ++ name ∈ files := by
    rw [diskOf_eq]
    split
    · next h => exact iff_of_true rfl h
    · next h => exact iff_of_false Bool.false_ne_true h
  rw [hThere, listing, Finset.mem_sort, List.mem_toFinset, List.mem_filter, List.mem_filterMap,
    decide_eq_true_eq, and_comm]
  refine and_congr_right fun _ => ⟨?_, fun hFile => ⟨_, hFile, ?_⟩⟩
  · rintro ⟨f, hFile, hName⟩
    split at hName
    · next hPrefix =>
      obtain ⟨rest, rfl⟩ := hPrefix
      rw [List.drop_left] at hName
      rw [← Option.some.inj hName]
      exact hFile
    · cases hName
  · rw [if_pos (List.prefix_append _ _), List.drop_left]

theorem find?_of_least {names : List QString} {p : QString → Bool} {name : QString}
    (hSorted : names.Pairwise (· < ·)) (hName : name ∈ names) (hp : p name = true)
    (hLeast : ∀ other ∈ names, p other = true → name ≤ other) : names.find? p = some name := by
  cases hFound : names.find? p with
  | none => exact absurd hp (List.find?_eq_none.1 hFound name hName)
  | some first =>
    obtain ⟨hFirst, before, after, rfl, hBefore⟩ := List.find?_eq_some_iff_append.1 hFound
    rcases List.mem_append.1 hName with hHere | hHere
    · have hNot := hBefore name hHere
      rw [hp] at hNot
      cases hNot
    · rcases List.mem_cons.1 hHere with rfl | hLater
      · rfl
      · have hLess := (List.pairwise_cons.1 (List.pairwise_append.1 hSorted).2.1).1 name hLater
        have hNotLess := hLeast first (List.mem_append_right _ List.mem_cons_self) hFirst
        exact absurd hLess (not_lt.2 hNotLess)

theorem captures_append {before : QString} (h : 46 ∉ before) (rest : QString) :
    captures (before ++ rest) = captures rest := by
  induction before with
  | nil => rfl
  | cons first before ih =>
    have hFirst : first ≠ 46 := fun hSame => h (hSame ▸ List.mem_cons_self)
    rw [List.cons_append, captures, if_neg fun hBoth => hFirst hBoth.1]
    exact ih fun hRest => h (List.mem_cons_of_mem _ hRest)

/-- A name that comes after another one, with the id of the contact in it. -/
def laterName (c : Contact) (name ending : QString) : QString :=
  List.replicate (name.length + 1) 0xFFFF ++ sanitize c.contactId ++ ending

theorem lt_replicate (name rest : QString) :
    name < List.replicate (name.length + 1) 0xFFFF ++ rest := by
  induction name with
  | nil => exact List.nil_lt_cons _ _
  | cons first name ih =>
    rw [List.length_cons, List.replicate_succ, List.cons_append, List.cons_lt_cons_iff]
    have hMax : first ≤ 0xFFFF := by
      rw [UInt16.le_iff_toNat_le]
      exact Nat.le_of_lt_succ first.toNat_lt
    rcases lt_or_eq_of_le hMax with hLess | rfl
    · exact Or.inl hLess
    · exact Or.inr ⟨rfl, ih⟩

theorem visible_laterName (c : Contact) {name ending : QString} (h : 47 ∉ ending) :
    Visible (laterName c name ending) := by
  have hSlash := notMem_sanitize (c := 47) (by decide) c.contactId
  refine ⟨by simp [laterName], by simp [laterName, List.replicate_succ], ?_⟩
  simp only [laterName, List.mem_append, List.mem_replicate, not_or]
  exact ⟨⟨fun hBoth => absurd hBoth.2 (by decide), hSlash⟩, h⟩

theorem captures_laterName (c : Contact) (name ending : QString) :
    captures (laterName c name ending) = captures ending := by
  refine captures_append ?_ ending
  simp only [List.mem_append, List.mem_replicate, not_or]
  exact ⟨fun hBoth => absurd hBoth.2 (by decide), notMem_sanitize (by decide) _⟩

/-- A file in the directory of a protocol. -/
def protocolFile (dataLocation : QString) (c : Contact) (name : QString) : QString :=
  logDir dataLocation ++ (sanitize c.pluginId ++ 47 :: name)

theorem protocolFile_inj {name name' : QString} :
    protocolFile dataLocation c name = protocolFile dataLocation c name' ↔ name = name' := by
  simp [protocolFile]

/-- A disk that has files in the directory of a protocol only. -/
def protocolLogs (childNodes : Document → List (Node μ)) (today : Date) (dataLocation : QString)
    (c : Contact) (names : List QString) : Logs μ :=
  logsOn childNodes today dataLocation (diskOf (names.map (protocolFile dataLocation c)))
    (listing (names.map (protocolFile dataLocation c))) c

theorem mem_protocolLogs (today : Date) (names : List QString) (name : QString) :
    name ∈ (protocolLogs childNodes today dataLocation c names).entryInfoList
        ((protocolLogs childNodes today dataLocation c names).protocolDir c) ↔
      Visible name ∧ name ∈ names := by
  let files := names.map (protocolFile dataLocation c)
  let L := protocolLogs childNodes today dataLocation c names
  have hPath : L.protocolDir c ++ latin1 "/" ++ name = protocolFile dataLocation c name :=
    protocolDir_append L c name
  show name ∈ listing files (L.protocolDir c) ↔ _
  rw [(isListing_listing files (L.protocolDir c)).mem_iff, hPath]
  refine and_congr_right fun _ => ?_
  rw [diskOf_eq]
  have hMem : protocolFile dataLocation c name ∈ files ↔ name ∈ names := by
    refine List.mem_map.trans ⟨?_, fun h => ⟨name, h, rfl⟩⟩
    rintro ⟨other, hOther, hSame⟩
    rw [← protocolFile_inj.1 hSame]
    exact hOther
  by_cases hName : name ∈ names
  · rw [if_pos (hMem.2 hName)]
    exact iff_of_true rfl hName
  · rw [if_neg fun h => hName (hMem.1 h)]
    exact iff_of_false Bool.false_ne_true hName

theorem accountDir_protocolLogs (today : Date) {names : List QString}
    (hSlash : ∀ name ∈ names, 47 ∉ name) :
    (protocolLogs childNodes today dataLocation c names).entryInfoList
      ((protocolLogs childNodes today dataLocation c names).accountDir c) = [] := by
  let files := names.map (protocolFile dataLocation c)
  let L := protocolLogs childNodes today dataLocation c names
  show listing files (L.accountDir c) = []
  refine List.eq_nil_iff_forall_not_mem.2 fun name hName => ?_
  obtain ⟨_, hThere⟩ := ((isListing_listing files (L.accountDir c)).mem_iff name).1 hName
  rw [accountDir_append, diskOf_eq] at hThere
  split at hThere
  · next hFile =>
    obtain ⟨other, hOther, hSame⟩ := List.mem_map.1 hFile
    have hInside : other = sanitize c.accountId ++ 47 :: name := protocolFile_inj.1 hSame
    rw [hInside] at hOther
    exact hSlash _ hOther (List.mem_append_right _ List.mem_cons_self)
  · cases hThere

theorem getFirstMonthOf_protocolLogs (today : Date) {names : List QString} {name : QString}
    (hName : name ∈ names) (hVisible : Visible name) (hId : sanitize c.contactId <:+: name)
    (hLeast : ∀ other ∈ names, name ≤ other) (hSlash : ∀ name ∈ names, 47 ∉ name) :
    (protocolLogs childNodes today dataLocation c names).getFirstMonthOf c =
      (12 * (today.year - (captures name).1) + today.month - (captures name).2).toNat := by
  let L := protocolLogs childNodes today dataLocation c names
  have hFound : (L.entryInfoList (L.protocolDir c)).find?
      (fun name => decide (sanitize c.contactId <:+: name)) = some name := by
    refine find?_of_least (isListing_listing _ _).sorted ?_ (decide_eq_true hId) ?_
    · exact (mem_protocolLogs today names name).2 ⟨hVisible, hName⟩
    · exact fun other hOther _ => hLeast other ((mem_protocolLogs today names other).1 hOther).2
  have hNone : L.entryInfoList (L.accountDir c) = [] := accountDir_protocolLogs today hSlash
  show L.getFirstMonthOf c = _
  rw [Logs.getFirstMonthOf, hNone, Logs.firstMonthIn, hFound]
  have hToday : L.today = today := rfl
  simp only [hToday]
  by_cases hFuture : 12 * (today.year - ((captures name).1 : Int)) + today.month -
      ((captures name).2 : Int) < 0
  · rw [if_pos hFuture, Int.toNat_of_nonpos hFuture.le]
    rfl
  · rw [if_neg hFuture]

theorem exists_other_ending (today : Date) (found : Nat) :
    ∃ ending : QString, 47 ∉ ending ∧
      (12 * (today.year - ((captures ending).1 : Int)) + today.month -
        ((captures ending).2 : Int)).toNat ≠ found := by
  have hYear := today.one_le_year
  have hMonth := today.one_le_month
  by_cases hZero : (12 * today.year + today.month).toNat = found
  · refine ⟨latin1 ".000001.xml", by decide, ?_⟩
    rw [show captures (latin1 ".000001.xml") = (0, 1) from by decide]
    show (12 * (today.year - 0) + today.month - 1).toNat ≠ found
    omega
  · refine ⟨latin1 ".000000.xml", by decide, ?_⟩
    rw [show captures (latin1 ".000000.xml") = (0, 0) from by decide]
    show (12 * (today.year - 0) + today.month - 0).toNat ≠ found
    rwa [Int.sub_zero, Int.sub_zero]

theorem agreeBut_diskOf_cons (dataLocation : QString)
    (hPlugin : sanitize c.pluginId = sanitize c'.pluginId) (date : YearMonth)
    (names : List QString) :
    AgreeBut dataLocation c' (diskOf (names.map (protocolFile dataLocation c)))
      (diskOf ((logName c' date :: names).map (protocolFile dataLocation c))) := by
  intro f hf
  have hNot : f ≠ protocolFile dataLocation c (logName c' date) := by
    rintro rfl
    refine hf ⟨true, date, ?_⟩
    rw [logPath_stem, ← hPlugin]
    rfl
  simp only [diskOf_eq, List.map_cons, List.mem_cons, hNot, false_or]

/-- Where a file of `c'` comes first, another month is found than without it. -/
theorem getFirstMonthOf_ne (childNodes : Document → List (Node μ)) (today : Date)
    (dataLocation : QString)
    (hPlugin : sanitize c.pluginId = sanitize c'.pluginId) (hVisible : sanitize c'.contactId ≠ [])
    {date : YearMonth} (hId : sanitize c.contactId <:+: logName c' date) :
    ∃ names names', AgreeBut dataLocation c' (diskOf (names.map (protocolFile dataLocation c)))
        (diskOf (names'.map (protocolFile dataLocation c))) ∧
      (protocolLogs childNodes today dataLocation c names').getFirstMonthOf c ≠
        (protocolLogs childNodes today dataLocation c names).getFirstMonthOf c := by
  let name := logName c' date
  obtain ⟨ending, hEnding, hOther⟩ := exists_other_ending today
    (12 * (today.year - ((captures name).1 : Int)) + today.month -
      ((captures name).2 : Int)).toNat
  let later := laterName c name ending
  have hLaterId : sanitize c.contactId <:+: later := ⟨_, _, rfl⟩
  have hLaterVisible : Visible later := visible_laterName c hEnding
  have hLess : name < later := by
    show name < List.replicate _ _ ++ sanitize c.contactId ++ ending
    rw [List.append_assoc]
    exact lt_replicate name _
  have hNameVisible : Visible name := (visible_logName_iff c' date).2 hVisible
  refine ⟨[later], [name, later], agreeBut_diskOf_cons dataLocation hPlugin date [later], ?_⟩
  rw [getFirstMonthOf_protocolLogs today List.mem_cons_self hNameVisible hId,
    getFirstMonthOf_protocolLogs today List.mem_cons_self hLaterVisible hLaterId,
    captures_laterName]
  · exact hOther.symm
  · simp
  · simpa using hLaterVisible.2.2
  · simpa using hLess.le
  · simpa using ⟨hNameVisible.2.2, hLaterVisible.2.2⟩

/-! ## The contacts that are separate -/

/-- **Exactly the contacts that do not clash** have nothing to do with each other's history. -/
theorem separate_iff (childNodes : Document → List (Node μ)) (days : Document → List Nat)
    (dataLocation : QString) (c c' : Contact) :
    Separate childNodes days dataLocation c c' ↔ ¬ Clash c c' := by
  constructor
  · rintro hSeparate ⟨hPlugin, hContact | ⟨hVisible, date, hId⟩⟩
    · obtain ⟨disk, hSame⟩ := fileNameOn_of_ids dataLocation hPlugin hContact
        (⟨1, 1, by decide, by decide⟩ : YearMonth)
      exact hSeparate.files disk _ _ hSame
    · let today : Date := ⟨⟨1, 1, by decide, by decide⟩, 1, by decide, by decide⟩
      obtain ⟨names, names', hAgree, hNe⟩ :=
        getFirstMonthOf_ne childNodes today dataLocation hPlugin hVisible hId
      exact hNe ((hSeparate.own _ _ hAgree).getFirstMonth today _ _ (isListing_listing _)
        (isListing_listing _))
  · intro hApart
    refine ⟨fun disk date date' hSame => hApart ?_, fun disk disk' => sameFor_of_agree hApart,
      fun disk today contacts ops hOnly t ht => sameFor_of_agree hApart (disk_of_only hOnly t ht)⟩
    obtain ⟨old, hName, _⟩ := getFileName_eq dataLocation (fun f => (disk f).isSome) c date
    have hFile := fileOf_fileNameOn dataLocation disk c' date'
    rw [← hSame, fileNameOn, hName] at hFile
    obtain ⟨hPlugin, hContact⟩ := ids_of_fileOf hFile
    exact ⟨hPlugin, Or.inl hContact⟩

def ann : Contact := ⟨latin1 "JabberProtocol", latin1 "me", latin1 "me", latin1 "ann"⟩

def joann : Contact := ⟨latin1 "JabberProtocol", latin1 "me", latin1 "me", latin1 "joann"⟩

/-- The first month of one is looked up in the files of the other. -/
theorem separate_ann : ann ≠ joann ∧
    ¬ Separate (fun _ => ([] : List (Node Unit))) (fun _ => []) [] ann joann := by
  refine ⟨by decide, fun hSeparate => ?_⟩
  let today : Date := ⟨⟨2020, 2, by decide, by decide⟩, 1, by decide, by decide⟩
  have hId : sanitize ann.contactId <:+:
      logName joann ⟨2020, 1, by decide, by decide⟩ :=
    ⟨latin1 "jo", latin1 ".202001.xml", by decide⟩
  have hPlugin : sanitize ann.pluginId = sanitize joann.pluginId := rfl
  have hVisible : sanitize joann.contactId ≠ [] := by decide
  obtain ⟨names, names', hAgree, hNe⟩ :=
    getFirstMonthOf_ne (fun _ => ([] : List (Node Unit))) today [] hPlugin hVisible hId
  exact hNe ((hSeparate.own _ _ hAgree).getFirstMonth today _ _ (isListing_listing _)
    (isListing_listing _))

end History
