import Kopete.Lib.Heap
import Kopete.Libkopete.ChatSession

/-!
# GroupWise — `GroupWiseChatSession`

A session has a GUID once a conference has been created for it on the server; until then
what the user writes is queued. For each contact that is invited a placeholder is put
among the members, and is to go when that contact joins or declines.

The session is followed together with what goes to the account and to the server: the
messages sent, and the requests to create a conference that have not been answered.
-/

namespace GroupWise

/-- UTF-16. -/
abbrev QString := List UInt16

/-- The value of an element of a DN; one that has no key stays as it is. -/
def dnValue (element : QString) : QString :=
  if 61 ∈ element then (element.dropWhile (· ≠ 61)).tail else element

/-- `GroupWiseProtocol::dnToDotted`. -/
def dnToDotted (dn : QString) : QString :=
  if 61 ∈ dn then [(46 : UInt16)].intercalate ((dn.splitOn 44).map dnValue) else dn

/-- The `GroupWiseContact` that `addInvitee` makes, and whom it stands for. -/
structure Placeholder (κ : Type) where
  contactId : QString
  invited : κ

/-- A member of a session: a contact, or the pointer to a placeholder. -/
inductive Member (κ : Type)
  | contact (c : κ)
  | placeholder (p : Nat)
deriving DecidableEq

/-- `GroupWiseChatSession`, with contacts `κ` and messages `M`. -/
structure GroupWiseChatSession (κ M : Type) where
  chat : Kopete.ChatSession (Member κ)
  guid : QString
  memberCount : UInt32
  invitees : List Nat
  pendingOutgoingMessages : List M
  /-- The placeholders that have been made and not deleted. -/
  heap : Heap (Placeholder κ)
  /-- A placeholder has been deleted that was not there any more. -/
  deletedTwice : Bool
  /-- How often the signals of the account are connected. -/
  connections : Nat
  /-- The requests of the session that have not been answered. -/
  unanswered : Nat
  /-- What has been passed to `GroupWiseAccount::sendMessage`. -/
  sent : List (QString × M)

/-- What the account's own contact is. -/
inductive Status
  | disconnected
  | appearOffline
  | available
deriving DecidableEq

namespace GroupWiseChatSession

variable {κ M : Type} [DecidableEq κ]

/-- `GroupWiseChatSession::GroupWiseChatSession`. -/
def new (others : List κ) (guid : QString) : GroupWiseChatSession κ M where
  chat := .new (others.map .contact)
  guid := guid
  memberCount := UInt32.ofNat others.length
  invitees := []
  pendingOutgoingMessages := []
  heap := Heap.empty
  deletedTwice := false
  connections := 0
  unanswered := 0
  sent := []

variable (contactId : κ → QString) (status : Status) (d : GroupWiseChatSession κ M)

/-! ## Conferences and messages -/

/-- `GroupWiseChatSession::setGuid`. -/
def setGuid (guid : QString) : GroupWiseChatSession κ M :=
  if d.guid = [] then { d with guid := guid } else d

/-- `GroupWiseChatSession::setClosed`. -/
def setClosed : GroupWiseChatSession κ M := { d with guid := [] }

/-- `GroupWiseChatSession::createConference`; an account that is not connected asks nothing. -/
def createConference : GroupWiseChatSession κ M :=
  if d.guid = [] then
    { d with
      connections := d.connections + 1
      unanswered := if status = .disconnected then d.unanswered else d.unanswered + 1 }
  else d

/-- `GroupWiseChatSession::slotMessageSent`. -/
def slotMessageSent (message : M) : GroupWiseChatSession κ M :=
  match status with
  | .disconnected => d
  | .appearOffline => d -- the user is told that it could not be sent
  | .available =>
    if d.guid = [] ∨ d.memberCount = 0 then
      if d.invitees ≠ [] then d
      else
        let d := createConference status { d with guid := [] }
        { d with pendingOutgoingMessages := d.pendingOutgoingMessages ++ [message] }
    else { d with sent := d.sent ++ [(d.guid, message)] }

/-- The loop of `dequeueMessagesAndInvites`, from the `i`-th message of the queue on; `none`
when the fuel runs out. A round that queues its message again makes the queue longer. -/
def dequeueFrom : Nat → Nat → GroupWiseChatSession κ M → Option (GroupWiseChatSession κ M)
  | 0, _, _ => none
  | fuel + 1, i, d =>
    match d.pendingOutgoingMessages[i]? with
    | none => some { d with pendingOutgoingMessages := [] }
    | some message => dequeueFrom fuel (i + 1) (slotMessageSent status d message)

/-- `GroupWiseChatSession::dequeueMessagesAndInvites`. -/
def dequeueMessagesAndInvites : Option (GroupWiseChatSession κ M) :=
  dequeueFrom status (d.pendingOutgoingMessages.length + 1) 0 d

/-- `GroupWiseChatSession::receiveGuid`. -/
def receiveGuid (guid : QString) : Option (GroupWiseChatSession κ M) :=
  let d := setGuid { d with memberCount := UInt32.ofNat d.chat.contacts.length } guid
  dequeueMessagesAndInvites status
    { d with chat := d.chat.contacts.foldl Kopete.ChatSession.addContact d.chat }

/-- The signal `conferenceCreated`, for all its connections. -/
def conferenceCreated (guid : QString) :
    Nat → GroupWiseChatSession κ M → Option (GroupWiseChatSession κ M)
  | 0, d => some d
  | n + 1, d => (receiveGuid status d guid).bind (conferenceCreated guid n)

/-- `GroupWiseChatSession::slotCreationFailed`, for all connections of its signal. -/
def conferenceCreationFailed : Nat → GroupWiseChatSession κ M → GroupWiseChatSession κ M
  | 0, d => d
  | n + 1, d => conferenceCreationFailed n d.setClosed

/-! ## Members and invitees -/

/-- `delete` of a placeholder: the members lose it. -/
def deletePlaceholder (p : Nat) : GroupWiseChatSession κ M :=
  { d with
    chat := d.chat.slotContactDestroyed (.placeholder p)
    heap := d.heap.delete p
    deletedTwice := d.deletedTwice || !decide (d.heap.Live p) }

/-- `GroupWiseChatSession::addInvitee`; `label` marks the placeholder as pending. -/
def addInvitee (label : QString) (c : κ) : GroupWiseChatSession κ M :=
  { d with
    heap := d.heap.new ⟨dnToDotted (contactId c ++ 32 :: label), c⟩
    chat := d.chat.addContact (.placeholder d.heap.next)
    invitees := d.invitees ++ [d.heap.next] }

/-- The id of the contact is a prefix of the one of a placeholder. -/
def startsWith (c : κ) (p : Nat) : Bool :=
  ((d.heap.get? p).map fun i => (contactId c).isPrefixOf i.contactId).getD false

/-- Where the loop over the invitees stops, if it does not run through. -/
def matching (c : κ) : Option Nat := d.invitees.find? (d.startsWith contactId c)

/-- What the loop over the invitees leaves in its variable: what it stopped at, or else the
last one. -/
def loopVariable (c : κ) : Option Nat := (d.matching contactId c).or d.invitees.getLast?

/-- The loop over the invitees in `joined` and `inviteDeclined`, and what they delete then. -/
def removePlaceholder (c : κ) : GroupWiseChatSession κ M :=
  let pending := d.loopVariable contactId c
  let d :=
    match d.matching contactId c with
    | some p => { d with chat := d.chat.removeContact (.placeholder p) }
    | none => d
  match pending with
  | none => d -- a null pointer
  | some p => deletePlaceholder { d with invitees := QList.removeAll d.invitees p } p

/-- `GroupWiseChatSession::joined`. -/
def joined (c : κ) : GroupWiseChatSession κ M :=
  let d := removePlaceholder contactId { d with chat := d.chat.addContact (.contact c) } c
  { d with memberCount := d.memberCount + 1 }

/-- `GroupWiseChatSession::left`. -/
def left (c : κ) : GroupWiseChatSession κ M :=
  let d := { d with
    chat := d.chat.removeContact (.contact c)
    memberCount := d.memberCount - 1 }
  if d.memberCount = 0 then
    if d.invitees ≠ [] then d -- the user is told that nobody is there
    else d.setClosed
  else d

/-- `GroupWiseChatSession::inviteDeclined`. -/
def inviteDeclined (c : κ) : GroupWiseChatSession κ M := removePlaceholder contactId d c

end GroupWiseChatSession

end GroupWise
