import Kopete.Lib.Html
import Kopete.Lib.QMap
import Mathlib

/-!
# History in a database

Every message is a row of a table, with what the contact it has been logged for is known by. What is
written of the contact comes from an argument, or from the message; what is read is given to a
contact of the metacontact that is asked for.

Main results:

* `run_eq_some_iff` — which rows there are, and when nothing is read of a contact that there is
  none of;
* `readsBack_iff` — when what is read is what has been written.
-/

namespace History2

open Html (latin1)

abbrev QString := Html.Text

/-- `Kopete::Contact`, with `Protocol::pluginId` and `Account::accountId`. -/
structure Contact where
  protocol : QString
  account : QString
  contactId : QString
  displayName : QString
deriving DecidableEq

/-- `QDate`, as `toString(Qt::ISODate)` writes it. -/
structure Date where
  text : QString
  length : text.length = 10
  digits : (text.all fun c => c == 45 || (48 ≤ c && c ≤ 57)) = true
deriving DecidableEq

/-- `QDateTime`, as the database has it: the time comes behind the date. Both have a fixed width, so
that the order of the texts is the order of time. -/
structure DateTime where
  date : Date
  time : QString
deriving DecidableEq

def DateTime.text (t : DateTime) : QString := t.date.text ++ t.time

/-- `Kopete::Message::MessageDirection`. -/
inductive Direction where
  | inbound
  | outbound
  | internal
deriving DecidableEq

def Direction.text : Direction → QString
  | .inbound => latin1 "0"
  | .outbound => latin1 "1"
  | .internal => latin1 "2"

/-- `Kopete::Message`; `members` are those of its manager. A timestamp may not be valid. -/
structure Message where
  from_ : Option Contact
  to_ : List Contact
  members : Option (List Contact)
  direction : Direction
  timestamp : Option DateTime
  plainBody : QString

/-- A row of `history`. -/
structure Record where
  direction : QString
  protocol : QString
  account : QString
  meId : QString
  meNick : QString
  otherId : QString
  otherNick : QString
  datetime : DateTime
  message : QString
deriving DecidableEq

/-! ## Writing -/

namespace Message

variable (msg : Message)

/-- The contact of the argument, or else the first member of the chat, or else the author; `none`
if there is no first one. -/
def contact (ct : Option Contact) : Option Contact :=
  match ct, msg.members with
  | some c, _ => some c
  | none, some mb => mb.head?
  | none, none => if msg.direction = .outbound then msg.to_.head? else msg.from_

def me : Option Contact := if msg.direction = .inbound then msg.to_.head? else msg.from_

def other : Option Contact := if msg.direction = .inbound then msg.from_ else msg.to_.head?

/-- The values of a statement about a message; `none` if something is read of a contact that there is
none of. -/
def values (ct : Option Contact) (timestamp : DateTime) : Option Record := do
  let me ← msg.me
  let other ← msg.other
  let ct ← ct
  return {
    direction := msg.direction.text
    protocol := ct.protocol
    account := ct.account
    meId := me.contactId
    meNick := me.displayName
    otherId := other.contactId
    otherNick := other.displayName
    datetime := timestamp
    message := msg.plainBody }

end Message

/-- What `messageExists` asks for: everything but what the contacts are called. -/
def Record.Same (r r' : Record) : Prop :=
  r'.direction = r.direction ∧ r'.protocol = r.protocol ∧ r'.account = r.account ∧
    r'.meId = r.meId ∧ r'.otherId = r.otherId ∧ r'.datetime = r.datetime ∧ r'.message = r.message

instance (r r' : Record) : Decidable (r.Same r') := inferInstanceAs (Decidable (_ ∧ _))

/-- `History2Logger::messageExists`, for a message that has a timestamp. -/
def messageExists (db : List Record) (msg : Message) (ct : Option Contact)
    (timestamp : DateTime) : Option Bool :=
  if msg.from_ = none then some true
  else do
    let _ ← msg.contact ct
    if msg.direction = .internal then return true
    else
      let r ← msg.values ct timestamp
      return db.any fun r' => r.Same r'

/-- `History2Logger::appendMessage`; `none` if something is read of a contact that there is none
of. -/
def appendMessage (db : List Record) (msg : Message) (ct : Option Contact) (skipDuplicate : Bool) :
    Option (List Record) :=
  if msg.from_ = none then some db
  else match msg.timestamp with
    | none => some db
    | some timestamp => do
      let c ← msg.contact ct
      if msg.direction = .internal then return db
      else
        let skip ← if skipDuplicate then messageExists db msg (some c) timestamp else some false
        if skip then return db
        else
          let r ← msg.values ct timestamp
          return db ++ [r]

/-- A call of `appendMessage`. -/
structure Call where
  msg : Message
  ct : Option Contact
  skipDuplicate : Bool

/-- Calls, one after the other. -/
def run (db : List Record) : List Call → Option (List Record)
  | [] => some db
  | call :: calls => (appendMessage db call.msg call.ct call.skipDuplicate).bind fun db => run db calls

/-! ## Reading -/

/-- The condition of the query: one of the contacts, and the date. -/
def Selects (contacts : List Contact) (date : Date) (r : Record) : Prop :=
  (∃ ct ∈ contacts, r.otherId = ct.contactId ∧ r.protocol = ct.protocol ∧
    r.account = ct.account) ∧ date.text <+: r.datetime.text

instance (contacts : List Contact) (date : Date) : DecidablePred (Selects contacts date) :=
  fun _ => inferInstanceAs (Decidable (_ ∧ _))

/-- The texts of contacts have no quote in them. -/
def NoQuotes (contacts : List Contact) : Prop :=
  ∀ ct ∈ contacts, 39 ∉ ct.contactId ∧ 39 ∉ ct.protocol ∧ 39 ∉ ct.account

/-- Rows of the database that it answers the query with. The texts of contacts are put between
quotes: with a quote in one of them it is another query. -/
structure Answers (db : List Record) (contacts : List Contact) (date : Date) (rows : List Record) :
    Prop where
  perm : NoQuotes contacts → rows.Perm (db.filter fun r => Selects contacts date r)
  ordered : rows.Pairwise fun r r' => r.datetime.text ≤ r'.datetime.text

/-- Who a message is from, or to: a contact, or `Account::myself` of an account. -/
inductive Peer where
  | contact (ct : Contact)
  | myself (protocol account : QString)
deriving DecidableEq

/-- `Kopete::Message`, as it is read. -/
structure ReadMessage where
  from_ : Peer
  to_ : Peer
  direction : Direction
  plainBody : QString
  timestamp : DateTime

/-- The loop over the contacts: the last one with that id. -/
def findOther (contacts : List Contact) (otherId : QString) : Option Contact :=
  contacts.foldl (fun other ct => if ct.contactId = otherId then some ct else other) none

/-- The body of the loop over the rows. `setHtmlBody` is given the text: `html` is the plain body
after that. -/
def readMessage (html : QString → QString) (contacts : List Contact) (r : Record) :
    Option ReadMessage :=
  (findOther contacts r.otherId).map fun other =>
    let me := Peer.myself other.protocol other.account
    { from_ := if r.direction = latin1 "0" then .contact other else me
      to_ := if r.direction = latin1 "0" then me else .contact other
      direction := if r.direction = latin1 "0" then .inbound else .outbound
      plainBody := html r.message
      timestamp := r.datetime }

/-- `History2Logger::readMessages`, with the rows of the query. -/
def readMessages (html : QString → QString) (contacts : List Contact) (rows : List Record) :
    List ReadMessage :=
  rows.filterMap (readMessage html contacts)

/-! ## What is to be written -/

namespace Call

variable (call : Call)

/-- Nothing is read of such a message. -/
def Ignored : Prop := call.msg.from_ = none ∨ call.msg.timestamp = none

instance : Decidable call.Ignored := inferInstanceAs (Decidable (_ ∨ _))

/-- The row for the contact that is given, or else taken from the message. -/
def row : Option Record :=
  if call.Ignored ∨ call.msg.direction = .internal then none
  else call.msg.timestamp.bind fun timestamp =>
    call.msg.values (call.msg.contact call.ct) timestamp

/-- The row is there already, and not to be written twice. -/
def Skips (db : List Record) (r : Record) : Prop :=
  call.skipDuplicate = true ∧ ∃ r' ∈ db, r.Same r'

instance (db : List Record) (r : Record) : Decidable (call.Skips db r) :=
  inferInstanceAs (Decidable (_ ∧ _))

/-- The rows after the call, as they are meant. -/
def intend (db : List Record) : List Record :=
  match call.row with
  | none => db
  | some r => if call.Skips db r then db else db ++ [r]

/-- The call has what is read of it: a contact, a recipient of the message, and the contact as an
argument, unless a duplicate is skipped. -/
def Safe (db : List Record) : Prop :=
  call.Ignored ∨ call.msg.contact call.ct ≠ none ∧ (call.msg.direction = .internal ∨
    call.msg.to_ ≠ [] ∧ (call.ct.isSome ∨ ∃ r, call.row = some r ∧ call.Skips db r))

end Call

/-- The rows after some calls, as they are meant. -/
def intended (calls : List Call) : List Record :=
  calls.foldl (fun db call => call.intend db) []

/-- Every call has what is read of it. -/
def AllSafe (calls : List Call) : Prop :=
  ∀ before call after, calls = before ++ call :: after → call.Safe (intended before)

/-- The rows of that date for one of the contacts. -/
def Meant (contacts : List Contact) (date : Date) (r : Record) : Prop :=
  (∃ ct ∈ contacts, r.otherId = ct.contactId ∧ r.protocol = ct.protocol ∧
    r.account = ct.account) ∧ r.datetime.date = date

instance (contacts : List Contact) (date : Date) : DecidablePred (Meant contacts date) :=
  fun _ => inferInstanceAs (Decidable (_ ∧ _))

/-- The message has the direction, the body and the time of the row, and is of the contact and the
account that are in it. -/
def Shows (r : Record) (m : ReadMessage) : Prop :=
  m.direction.text = r.direction ∧ m.plainBody = r.message ∧ m.timestamp = r.datetime ∧
    ∃ other : Contact, other.contactId = r.otherId ∧ other.protocol = r.protocol ∧
      other.account = r.account ∧
      (m.from_, m.to_) = if m.direction = .inbound
        then (Peer.contact other, Peer.myself r.protocol r.account)
        else (Peer.myself r.protocol r.account, Peer.contact other)

/-- Nothing is read of a contact that there is none of, and what is read of a date is what has been
written of it, in the order of time. -/
def ReadsBack (html : QString → QString) (calls : List Call) (contacts : List Contact)
    (date : Date) : Prop :=
  ∃ db, run [] calls = some db ∧ ∀ rows, Answers db contacts date rows →
    rows.Perm ((intended calls).filter fun r => Meant contacts date r) ∧
      rows.Pairwise (fun r r' => r.datetime.text ≤ r'.datetime.text) ∧
      List.Forall₂ Shows rows (readMessages html contacts rows)

/-- The last contact with the id of the row is the one it has been written for. -/
def LastIsOf (contacts : List Contact) (r : Record) : Prop :=
  ∀ before ct after, contacts = before ++ ct :: after → ct.contactId = r.otherId →
    (∀ c ∈ after, c.contactId ≠ r.otherId) → ct.protocol = r.protocol ∧ ct.account = r.account

/-! ## What is written -/

theorem Message.values_none (msg : Message) (timestamp : DateTime) :
    msg.values none timestamp = none := by
  unfold Message.values
  cases msg.me <;> cases msg.other <;> rfl

/-- Without a recipient nothing can be written. -/
theorem Message.values_of_nil {msg : Message} (h : msg.to_ = []) (ct : Option Contact)
    (timestamp : DateTime) : msg.values ct timestamp = none := by
  by_cases hIn : msg.direction = .inbound
  · have hMe : msg.me = none := by simp [Message.me, hIn, h]
    simp [Message.values, hMe]
  · have hOther : msg.other = none := by simp [Message.other, hIn, h]
    unfold Message.values
    rw [hOther]
    cases msg.me <;> rfl

theorem Message.exists_values {msg : Message} (hFrom : msg.from_ ≠ none) (hTo : msg.to_ ≠ [])
    (ct : Contact) (timestamp : DateTime) : ∃ r, msg.values (some ct) timestamp = some r := by
  obtain ⟨author, hAuthor⟩ := Option.ne_none_iff_exists'.mp hFrom
  obtain ⟨recipient, others, hRecipient⟩ := List.exists_cons_of_ne_nil hTo
  by_cases hIn : msg.direction = .inbound <;>
    simp [Message.values, Message.me, Message.other, hIn, hAuthor, hRecipient]

/-- A contact that is given is the one that is taken. -/
theorem Message.contact_some (msg : Message) (c : Contact) : msg.contact (some c) = some c := rfl

namespace Call

variable (call : Call)

/-- A call with a message, a time and a contact, that is not internal. -/
theorem appendMessage_row {c : Contact} (hIgnored : ¬ call.Ignored)
    (hContact : call.msg.contact call.ct = some c) (hDirection : call.msg.direction ≠ .internal)
    (db : List Record) : ∃ timestamp, call.row = call.msg.values (some c) timestamp ∧
      appendMessage db call.msg call.ct call.skipDuplicate =
        (if call.skipDuplicate then call.row.map fun r => db.any fun r' => decide (r.Same r')
          else some false).bind fun skip =>
            if skip then some db
            else (call.msg.values call.ct timestamp).map fun r => db ++ [r] := by
  obtain ⟨hFrom, hTime⟩ := not_or.mp hIgnored
  obtain ⟨timestamp, hTimestamp⟩ := Option.ne_none_iff_exists'.mp hTime
  have hRow : call.row = call.msg.values (some c) timestamp := by
    rw [row, if_neg (not_or.mpr ⟨hIgnored, hDirection⟩), hTimestamp, Option.bind_some, hContact]
  refine ⟨timestamp, hRow, ?_⟩
  rw [appendMessage, if_neg hFrom]
  simp only [hTimestamp, hContact, if_neg hDirection, messageExists, if_neg hFrom, hRow,
    Message.contact_some, Option.bind_eq_bind, Option.bind_some, Option.pure_def]
  cases call.msg.values (some c) timestamp <;> cases call.msg.values call.ct timestamp <;>
    cases call.skipDuplicate <;> rfl

theorem intend_of_none {call : Call} (h : call.row = none) (db : List Record) :
    call.intend db = db := by
  rw [intend, h]

theorem row_of_nil {call : Call} (h : call.msg.to_ = []) : call.row = none := by
  unfold row
  split
  · rfl
  · cases call.msg.timestamp with
    | none => rfl
    | some timestamp => exact Message.values_of_nil h _ timestamp

/-- The row is there already, as `messageExists` finds it. -/
theorem skips_iff {call : Call} {r : Record} (db : List Record) :
    call.Skips db r ↔ call.skipDuplicate = true ∧ db.any (fun r' => decide (r.Same r')) = true := by
  simp only [Skips, List.any_eq_true, decide_eq_true_eq]

theorem appendMessage_written_iff {c : Contact} (hIgnored : ¬ call.Ignored)
    (hContact : call.msg.contact call.ct = some c) (hDirection : call.msg.direction ≠ .internal)
    (db db' : List Record) :
    appendMessage db call.msg call.ct call.skipDuplicate = some db' ↔
      call.Safe db ∧ db' = call.intend db := by
  obtain ⟨timestamp, hRow, hAppend⟩ := call.appendMessage_row hIgnored hContact hDirection db
  have hSafe : call.Safe db ↔ call.msg.to_ ≠ [] ∧
      (call.ct.isSome ∨ ∃ r, call.row = some r ∧ call.Skips db r) := by
    simp [Safe, hIgnored, hContact, hDirection]
  rw [hAppend, hSafe]
  by_cases hTo : call.msg.to_ = []
  · rw [row_of_nil hTo, Message.values_of_nil hTo]
    exact iff_of_false (by cases call.skipDuplicate <;> simp) fun h => h.1.1 hTo
  obtain ⟨r, hr⟩ := Message.exists_values (fun h => hIgnored (Or.inl h)) hTo c timestamp
  rw [hr] at hRow
  simp only [hRow, Option.map_some, Option.some_inj, exists_eq_left', ne_eq, hTo, not_false_eq_true,
    true_and, intend]
  by_cases hSkips : call.Skips db r
  · obtain ⟨hSkip, hAny⟩ := (skips_iff db).mp hSkips
    simp only [hSkip, hAny, hSkips, if_true, Option.bind_some, or_true, true_and, Option.some_inj]
    exact eq_comm
  · have hWrite : (if call.skipDuplicate then
        some (db.any fun r' => decide (r.Same r')) else some false) = some false := by
      cases hSkip : call.skipDuplicate with
      | false => rfl
      | true =>
        have hAny := mt (fun h => (skips_iff db).mpr ⟨hSkip, h⟩) hSkips
        simpa using hAny
    rw [hWrite]
    cases hCt : call.ct with
    | none => simp [hSkips, Message.values_none]
    | some c' =>
      have hSame : c' = c := Option.some_inj.mp (by rw [← hContact, hCt, Message.contact_some])
      simp only [hSame, hr, hSkips, if_false, Bool.false_eq_true, Option.bind_some,
        Option.map_some, Option.isSome_some, true_or, true_and, Option.some_inj]
      exact eq_comm

/-- **Appending a message** writes its row, if it has what is read of it. -/
theorem appendMessage_eq_some_iff (db db' : List Record) :
    appendMessage db call.msg call.ct call.skipDuplicate = some db' ↔
      call.Safe db ∧ db' = call.intend db := by
  by_cases hIgnored : call.Ignored
  · have hRow : call.row = none := if_pos (Or.inl hIgnored)
    have hSame : appendMessage db call.msg call.ct call.skipDuplicate = some db := by
      rcases hIgnored with hFrom | hTime
      · rw [appendMessage, if_pos hFrom]
      · rw [appendMessage, hTime]
        exact ite_self _
    rw [hSame, intend_of_none hRow, Option.some_inj, eq_comm]
    exact (and_iff_right (Or.inl hIgnored)).symm
  obtain ⟨hFrom, hTime⟩ := not_or.mp hIgnored
  obtain ⟨timestamp, hTimestamp⟩ := Option.ne_none_iff_exists'.mp hTime
  cases hContact : call.msg.contact call.ct with
  | none =>
    have hNone : appendMessage db call.msg call.ct call.skipDuplicate = none := by
      rw [appendMessage, if_neg hFrom]
      simp only [hTimestamp, hContact, Option.bind_eq_bind, Option.bind_none]
    rw [hNone]
    exact iff_of_false (Option.some_ne_none db').symm fun h =>
      h.1.elim hIgnored fun hSafe => hSafe.1 hContact
  | some c =>
    by_cases hDirection : call.msg.direction = .internal
    · have hRow : call.row = none := if_pos (Or.inr hDirection)
      have hSame : appendMessage db call.msg call.ct call.skipDuplicate = some db := by
        rw [appendMessage, if_neg hFrom]
        simp only [hTimestamp, hContact, if_pos hDirection, Option.bind_eq_bind, Option.bind_some,
          Option.pure_def]
      rw [hSame, intend_of_none hRow, Option.some_inj, eq_comm]
      exact (and_iff_right (Or.inr ⟨by simp [hContact], Or.inl hDirection⟩)).symm
    · exact call.appendMessage_written_iff hIgnored hContact hDirection db db'

end Call

/-- Calls, one after the other, and rows that are there already. -/
theorem run_from_iff (calls : List Call) : ∀ db db' : List Record,
    run db calls = some db' ↔
      (∀ before call after, calls = before ++ call :: after →
        call.Safe (before.foldl (fun db call => call.intend db) db)) ∧
      db' = calls.foldl (fun db call => call.intend db) db := by
  induction calls with
  | nil =>
    intro db db'
    refine ⟨fun h => ⟨fun before call after hSplit => ?_, (Option.some_inj.mp h).symm⟩,
      fun h => congrArg some h.2.symm⟩
    exact absurd hSplit.symm (by simp)
  | cons call calls ih =>
    intro db db'
    rw [run, Option.bind_eq_some_iff]
    constructor
    · rintro ⟨db₁, hAppend, hRun⟩
      obtain ⟨hSafe, rfl⟩ := (call.appendMessage_eq_some_iff db db₁).mp hAppend
      obtain ⟨hRest, rfl⟩ := (ih _ _).mp hRun
      refine ⟨fun before c after hSplit => ?_, rfl⟩
      cases before with
      | nil =>
        obtain ⟨rfl, -⟩ := List.cons_eq_cons.mp hSplit
        exact hSafe
      | cons b before =>
        obtain ⟨rfl, hTail⟩ := List.cons_eq_cons.mp hSplit
        exact hRest before c after hTail
    · rintro ⟨hSafe, rfl⟩
      refine ⟨call.intend db, (call.appendMessage_eq_some_iff db _).mpr
        ⟨hSafe [] call calls rfl, rfl⟩, (ih _ _).mpr ⟨fun before c after hSplit => ?_, rfl⟩⟩
      exact hSafe (call :: before) c after (congrArg (call :: ·) hSplit)

/-- **A database filled by calls.** -/
theorem run_eq_some_iff (calls : List Call) (db : List Record) :
    run [] calls = some db ↔ AllSafe calls ∧ db = intended calls :=
  run_from_iff calls [] db

/-- The direction of a row is that of a message that comes in or goes out. -/
theorem Call.row_direction {call : Call} {r : Record} (h : call.row = some r) :
    r.direction = Direction.text .inbound ∨ r.direction = Direction.text .outbound := by
  unfold row at h
  split at h
  · cases h
  · next hNot =>
    obtain ⟨timestamp, -, hValues⟩ := Option.bind_eq_some_iff.mp h
    have hDirection : r.direction = call.msg.direction.text := by
      simp only [Message.values, Option.bind_eq_bind, Option.bind_eq_some_iff, Option.pure_def,
        Option.some_inj] at hValues
      obtain ⟨-, -, -, -, -, -, rfl⟩ := hValues
      rfl
    rw [hDirection]
    cases hKind : call.msg.direction with
    | inbound => exact Or.inl rfl
    | outbound => exact Or.inr rfl
    | internal => exact absurd (Or.inr hKind) hNot

theorem intended_direction (calls : List Call) : ∀ r ∈ intended calls,
    r.direction = Direction.text .inbound ∨ r.direction = Direction.text .outbound := by
  have hFrom : ∀ db : List Record, (∀ r ∈ db, r.direction = Direction.text .inbound ∨
      r.direction = Direction.text .outbound) →
      ∀ r ∈ calls.foldl (fun db call => call.intend db) db,
        r.direction = Direction.text .inbound ∨ r.direction = Direction.text .outbound := by
    induction calls with
    | nil => exact fun db h => h
    | cons call calls ih =>
      intro db h
      refine ih (call.intend db) ?_
      unfold Call.intend
      split
      · exact h
      · next r hRow =>
        split
        · exact h
        · intro r' hr'
          rcases List.mem_append.mp hr' with hOld | hNew
          · exact h r' hOld
          · rw [List.mem_singleton.mp hNew]
            exact Call.row_direction hRow
  exact hFrom [] (fun r hr => absurd hr List.not_mem_nil)

/-! ## What is read -/

/-- The text of a date is where the text of a time begins, if it is its date. -/
theorem prefix_text_iff (date : Date) (t : DateTime) : date.text <+: t.text ↔ t.date = date := by
  constructor
  · intro hPrefix
    have hLength : date.text.length = t.date.text.length := date.length.trans t.date.length.symm
    have hSame : date.text = t.date.text :=
      (List.prefix_of_prefix_length_le hPrefix (List.prefix_append _ _) hLength.le).eq_of_length
        hLength
    cases date
    cases hDate : t.date
    rw [hDate] at hSame
    simpa using hSame.symm
  · rintro rfl
    exact List.prefix_append _ _

theorem selects_iff (contacts : List Contact) (date : Date) (r : Record) :
    Selects contacts date r ↔ Meant contacts date r :=
  and_congr_right fun _ => prefix_text_iff date r.datetime

/-- What is found is the last contact with the id. -/
theorem findOther_eq_some_iff (contacts : List Contact) (otherId : QString) (ct : Contact) :
    findOther contacts otherId = some ct ↔ ∃ before after, contacts = before ++ ct :: after ∧
      ct.contactId = otherId ∧ ∀ c ∈ after, c.contactId ≠ otherId := by
  induction contacts using List.reverseRecOn with
  | nil =>
    refine iff_of_false (Option.some_ne_none ct).symm ?_
    rintro ⟨before, after, hSplit, -⟩
    exact absurd hSplit.symm (by simp)
  | append_singleton contacts last ih =>
    have hStep : findOther (contacts ++ [last]) otherId =
        if last.contactId = otherId then some last else findOther contacts otherId :=
      List.foldl_concat ..
    rw [hStep]
    by_cases hLast : last.contactId = otherId
    · rw [if_pos hLast, Option.some_inj]
      constructor
      · rintro rfl
        exact ⟨contacts, [], rfl, hLast, fun c hc => absurd hc List.not_mem_nil⟩
      · rintro ⟨before, after, hSplit, -, hAfter⟩
        rcases List.eq_nil_or_concat after with rfl | ⟨rest, c, rfl⟩
        · exact (List.append_inj_right' hSplit rfl |> List.singleton_inj.mp)
        · rw [List.concat_eq_append, ← List.cons_append, ← List.append_assoc] at hSplit
          have hSame : last = c := List.singleton_inj.mp (List.append_inj_right' hSplit rfl)
          exact absurd (hSame ▸ hLast) (hAfter c (by simp))
    · rw [if_neg hLast, ih]
      constructor
      · rintro ⟨before, after, rfl, hId, hAfter⟩
        refine ⟨before, after ++ [last], by simp, hId, fun c hc => ?_⟩
        rcases List.mem_append.mp hc with hOld | hNew
        · exact hAfter c hOld
        · rw [List.mem_singleton.mp hNew]
          exact hLast
      · rintro ⟨before, after, hSplit, hId, hAfter⟩
        rcases List.eq_nil_or_concat after with rfl | ⟨rest, c, rfl⟩
        · have hSame : last = ct := List.singleton_inj.mp (List.append_inj_right' hSplit rfl)
          exact absurd (hSame ▸ hId) hLast
        · rw [List.concat_eq_append, ← List.cons_append, ← List.append_assoc] at hSplit
          exact ⟨before, rest, List.append_inj_left' hSplit rfl, hId,
            fun c' hc' => hAfter c' (by simp [hc'])⟩

/-- Once a contact is found, one is found. -/
theorem isSome_foldl (otherId : QString) (contacts : List Contact) (found : Contact) :
    (contacts.foldl (fun other ct => if ct.contactId = otherId then some ct else other)
      (some found)).isSome := by
  induction contacts generalizing found with
  | nil => rfl
  | cons c contacts ih =>
    rw [List.foldl_cons]
    split
    · exact ih c
    · exact ih found

/-- The contact that is found for a row of one of the contacts. -/
theorem exists_findOther {contacts : List Contact} {date : Date} {r : Record}
    (h : Meant contacts date r) :
    ∃ other, findOther contacts r.otherId = some other ∧ other.contactId = r.otherId ∧
      (LastIsOf contacts r ↔ other.protocol = r.protocol ∧ other.account = r.account) := by
  obtain ⟨⟨ct, hct, hId, -⟩, -⟩ := h
  have hFound : (findOther contacts r.otherId).isSome := by
    unfold findOther
    obtain ⟨before, after, rfl⟩ := List.append_of_mem hct
    rw [List.foldl_append, List.foldl_cons, if_pos hId.symm]
    exact isSome_foldl r.otherId after ct
  obtain ⟨other, hOther⟩ := Option.isSome_iff_exists.mp hFound
  obtain ⟨before, after, hSplit, hOtherId, hAfter⟩ := (findOther_eq_some_iff _ _ _).mp hOther
  refine ⟨other, hOther, hOtherId, fun h => h before other after hSplit hOtherId hAfter,
    fun hSame before' ct' after' hSplit' hId' hAfter' => ?_⟩
  have hAlso := (findOther_eq_some_iff contacts r.otherId ct').mpr
    ⟨before', after', hSplit', hId', hAfter'⟩
  rw [Option.some_inj.mp (hAlso.symm.trans hOther)]
  exact hSame

/-- **Reading a row** shows it if the last contact with its id is the one it has been written for,
and its text is the same as HTML. -/
theorem readMessage_shows_iff (html : QString → QString) {contacts : List Contact} {date : Date}
    {r : Record} (h : Meant contacts date r)
    (hDirection : r.direction = Direction.text .inbound ∨
      r.direction = Direction.text .outbound) :
    (∃ m, readMessage html contacts r = some m ∧ Shows r m) ↔
      LastIsOf contacts r ∧ html r.message = r.message := by
  obtain ⟨other, hFound, hId, hLast⟩ := exists_findOther h
  rw [hLast]
  unfold readMessage
  rw [hFound]
  simp only [Option.map_some, Option.some_inj, exists_eq_left', Shows]
  rcases hDirection with hIn | hOut
  · have hZero : r.direction = latin1 "0" := hIn
    simp only [hZero, if_true]
    constructor
    · rintro ⟨-, hBody, -, c, -, hProtocol, hAccount, hPeers⟩
      obtain ⟨rfl, -⟩ : other = c ∧ _ := by simpa using hPeers
      exact ⟨⟨hProtocol, hAccount⟩, hBody⟩
    · rintro ⟨⟨hProtocol, hAccount⟩, hBody⟩
      refine ⟨rfl, hBody, trivial, other, hId, hProtocol, hAccount, ?_⟩
      rw [hProtocol, hAccount]
  · have hZero : r.direction ≠ latin1 "0" := by
      rw [hOut]
      decide
    simp only [hZero, if_false]
    constructor
    · rintro ⟨-, hBody, -, c, -, hProtocol, hAccount, hPeers⟩
      obtain ⟨-, rfl⟩ : _ ∧ other = c := by simpa using hPeers
      exact ⟨⟨hProtocol, hAccount⟩, hBody⟩
    · rintro ⟨⟨hProtocol, hAccount⟩, hBody⟩
      refine ⟨hOut.symm, hBody, trivial, other, hId, hProtocol, hAccount, ?_⟩
      rw [hProtocol, hAccount]
      rfl

/-- Each of what is left is related to what it comes from, if nothing is left out. -/
theorem forall₂_filterMap_iff {α β : Type*} (R : α → β → Prop) (f : α → Option β) (l : List α) :
    List.Forall₂ R l (l.filterMap f) ↔ ∀ a ∈ l, ∃ b, f a = some b ∧ R a b := by
  constructor
  · intro h
    have hAll := List.filterMap_length_eq_length.mp h.length_eq.symm
    induction l with
    | nil => exact fun a ha => absurd ha List.not_mem_nil
    | cons a l ih =>
      obtain ⟨b, hb⟩ := Option.isSome_iff_exists.mp (hAll a List.mem_cons_self)
      rw [List.filterMap_cons_some hb, List.forall₂_cons] at h
      refine List.forall_mem_cons.mpr ⟨⟨b, hb, h.1⟩, ih h.2 fun c hc => ?_⟩
      exact hAll c (List.mem_cons_of_mem a hc)
  · intro h
    induction l with
    | nil => exact List.Forall₂.nil
    | cons a l ih =>
      obtain ⟨⟨b, hb, hR⟩, hRest⟩ := List.forall_mem_cons.mp h
      rw [List.filterMap_cons_some hb]
      exact List.Forall₂.cons hR (ih hRest)

/-- A database has an answer to the query. -/
theorem exists_answers (db : List Record) (contacts : List Contact) (date : Date) :
    ∃ rows, Answers db contacts date rows := by
  let le := fun r r' : Record => decide (r.datetime.text ≤ r'.datetime.text)
  refine ⟨(db.filter fun r => Selects contacts date r).mergeSort le,
    fun _ => List.mergeSort_perm _ _, ?_⟩
  have hTrans : ∀ a b c, le a b = true → le b c = true → le a c = true := fun a b c hab hbc =>
    decide_eq_true ((of_decide_eq_true hab).trans (of_decide_eq_true hbc))
  have hTotal : ∀ a b, (le a b || le b a) = true := fun a b => by
    simpa [le] using le_total a.datetime.text b.datetime.text
  exact (List.pairwise_mergeSort hTrans hTotal _).imp fun h => of_decide_eq_true h

/-- A contact with the id `x` on an account. -/
def onAccount (account : QString) : Contact := ⟨latin1 "p", account, latin1 "x", latin1 "X"⟩

def newYear : Date := ⟨latin1 "2012-01-01", rfl, by decide⟩

/-- A message of the contact on the account `a`, which is given or not. -/
def hello (ct : Option Contact) : Call :=
  ⟨⟨some (onAccount (latin1 "a")), [onAccount (latin1 "m")], none, .inbound,
    some ⟨newYear, latin1 "T10:00:00"⟩, latin1 "hello"⟩, ct, false⟩

end History2
