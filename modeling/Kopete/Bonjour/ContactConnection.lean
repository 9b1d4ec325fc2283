import Kopete.Lib.XmlStream

/-!
# Bonjour — the connection to a contact

A stream of stanzas is read token by token. Each function asks the parser for the tokens it
needs, and what runs out of data returns as if the stanza had ended. Whenever data arrives
the reading starts anew at the next token.

Main results:

* `length_round` — a round of the slot uses up what it reads, so that the slot comes to an end;
* `streamTagFound_reading` — the tag of the stream is dealt with whatever comes after it.
-/

namespace Bonjour

open XmlStream

inductive BonjourConnectionState where
  | newOutgoing | newIncoming | outgoingStream | toWho | connected | disconnected | error
  deriving DecidableEq

/-- The names of tokens, the last but one of which only tell `getNextToken` what to look for. -/
inductive BonjourXmlTokenName where
  | other | none | stream | message | body | html | x | iq | query
  | startElement | endElement | startOrEndElement
  | error
  deriving DecidableEq

/-- The static table, with what `QHash` inserts for a name that is not in it. -/
def tokenTable (qualifiedName : String) : BonjourXmlTokenName :=
  if qualifiedName = "" then .none
  else if qualifiedName = "stream:stream" then .stream
  else if qualifiedName = "message" then .message
  else if qualifiedName = "body" then .body
  else if qualifiedName = "html" then .html
  else if qualifiedName = "x" then .x
  else if qualifiedName = "iq" then .iq
  else if qualifiedName = "query" then .query
  else .other

structure BonjourXmlToken where
  type : TokenType
  name : BonjourXmlTokenName
  qualifiedName : String
  attributes : List (String × Text)
  text : Text

/-- A token as `getNextToken` returns it. -/
def xmlToken (t : Token) : BonjourXmlToken :=
  ⟨t.type, tokenTable t.qualifiedName, t.qualifiedName, t.attributes, t.text⟩

def errorToken : BonjourXmlToken := ⟨.invalid, .error, "", [], []⟩

namespace BonjourXmlToken

/-- What `getNextToken` stops at when it looks for a name. -/
def is (t : BonjourXmlToken) : BonjourXmlTokenName → Bool
  | .startElement => t.type = .startElement
  | .endElement => t.type = .endElement
  | .startOrEndElement => t.type = .startElement ∨ t.type = .endElement
  | name => t.name = name

end BonjourXmlToken

def getNextToken (parser : Reader) : BonjourXmlToken × Reader :=
  match parser.coming with
  | [] => (errorToken, parser)
  | t :: ts => (xmlToken t, { parser with coming := ts })

/-- The loops of `getNextToken(name)`. -/
def seek (name : BonjourXmlTokenName) : List Token → BonjourXmlToken × List Token
  | [] => (errorToken, [])
  | t :: ts => if (xmlToken t).is name then (xmlToken t, ts) else seek name ts

def getNextTokenOf (name : BonjourXmlTokenName) (parser : Reader) : BonjourXmlToken × Reader :=
  ((seek name parser.coming).1, { parser with coming := (seek name parser.coming).2 })

theorem length_getNextToken (parser : Reader) (h : ¬ parser.atEnd) :
    (getNextToken parser).2.coming.length < parser.coming.length := by
  obtain ⟨coming, failed⟩ := parser
  cases coming with
  | nil => exact absurd rfl h
  | cons t ts => exact Nat.lt_succ_self _

theorem length_getNextToken_le (parser : Reader) :
    (getNextToken parser).2.coming.length ≤ parser.coming.length := by
  obtain ⟨coming, failed⟩ := parser
  cases coming with
  | nil => exact Nat.le_refl _
  | cons t ts => exact Nat.le_succ _

theorem length_seek_le (name : BonjourXmlTokenName) (ts : List Token) :
    (seek name ts).2.length ≤ ts.length := by
  induction ts with
  | nil => exact Nat.le_refl _
  | cons t ts ih =>
    rw [seek]
    split
    · exact Nat.le_succ _
    · exact Nat.le_trans ih (Nat.le_succ _)

theorem length_seek_lt (name : BonjourXmlTokenName) {ts : List Token} (h : ts ≠ []) :
    (seek name ts).2.length < ts.length := by
  cases ts with
  | nil => exact absurd rfl h
  | cons t ts =>
    rw [seek]
    split
    · exact Nat.lt_succ_self _
    · exact Nat.lt_succ_of_le (length_seek_le name ts)

/-! ## The connection -/

/-- A contact, as far as the account looks for it; addresses are numbers. -/
structure BonjourContact where
  contactId : Text
  username : Text
  remoteAddress : Nat

structure BonjourAccount where
  contacts : List BonjourContact
  username : Text

/-- `BonjourAccount::getContactsByAddress`. -/
def BonjourAccount.getContactsByAddress (account : BonjourAccount) (addr : Nat) :
    List BonjourContact := account.contacts.filter (·.remoteAddress = addr)

/-- `QString::toUtf8`. -/
def toUtf8 (s : Text) : ByteArray := (String.ofList s).toUTF8

/-- `parent` tells if the connection belongs to a contact, `socket` what is written to it;
`received` are the messages emitted, by the text that becomes their plain body. -/
structure BonjourContactConnection where
  connectionState : BonjourConnectionState
  parser : Reader
  «local» : Text
  remote : Text
  hostAddress : Nat
  parent : Bool
  socket : ByteArray
  received : List Text

namespace BonjourContactConnection

/-- The constructor for a socket that has been accepted. -/
def incoming (hostAddress : Nat) : BonjourContactConnection :=
  ⟨.newIncoming, ⟨[], false⟩, [], [], hostAddress, false, .empty, []⟩

def sayStream (c : BonjourContactConnection) : BonjourContactConnection :=
  { c with
    socket := c.socket ++ toUtf8 ("<?xml version='1.0' encoding='UTF-8' ?>\n".toList ++
      "<stream:stream xmlns='jabber:client' ".toList ++
      "xmlns:stream='http://etherx.jabber.org/streams'".toList ++
      (if c.connectionState ≠ .toWho then
        " from='".toList ++ c.local ++ "' to='".toList ++ c.remote ++ "'".toList else []) ++
      ">".toList) }

/-- The constructor that connects to a contact, which then becomes the parent. -/
def outgoing (hostAddress : Nat) (alocal aremote : Text) : BonjourContactConnection :=
  { sayStream ⟨.newOutgoing, ⟨[], false⟩, alocal, aremote, hostAddress, false, .empty, []⟩ with
    parent := true }

def setRemoteAndLocal (c : BonjourContactConnection) (aremote alocal : Text) :
    BonjourContactConnection :=
  { c with remote := aremote, «local» := alocal, connectionState := .connected }

variable (account : BonjourAccount)

/-- `BonjourAccount::verifyUser`. -/
def verifyUser (c : BonjourContactConnection) (user : Text) : Option BonjourContact :=
  match account.contacts.find? (·.contactId = user) with
  | none => none
  | some contact => if contact.remoteAddress ≠ c.hostAddress then none else some contact

/-- `BonjourAccount::discoveredUserName`, which may give the connection to a contact. -/
def discoveredUserName (c : BonjourContactConnection) (user : Text) : BonjourContactConnection :=
  if (verifyUser account c user).isSome then { c with parent := true } else c

/-- `BonjourAccount::usernameNotInStream`: the first contact of the address takes the
connection. -/
def usernameNotInStream (c : BonjourContactConnection) : BonjourContactConnection :=
  match account.getContactsByAddress c.hostAddress with
  | [] => c
  | contact :: _ => { c.setRemoteAndLocal contact.username account.username with parent := true }

/-- `getStreamTag`, from where the tag is found. -/
def streamTagFound (c : BonjourContactConnection) (token : BonjourXmlToken) :
    BonjourContactConnection :=
  if c.connectionState = .newOutgoing then { c with connectionState := .connected }
  else
    let c := { c with remote := value token.attributes "from", «local» := value token.attributes "to" }
    if c.local ≠ [] ∧ c.remote ≠ [] then
      (discoveredUserName account { c with connectionState := .connected } c.remote).sayStream
    else (usernameNotInStream account { c with connectionState := .toWho }).sayStream

def getStreamTag (c : BonjourContactConnection) (token : BonjourXmlToken) :
    BonjourContactConnection :=
  let found : BonjourXmlToken × Reader :=
    if token.name = .stream then (token, c.parser) else getNextTokenOf .stream c.parser
  let c := { c with parser := found.2 }
  if found.1.name ≠ .stream then c else c.streamTagFound account found.1

/-- Nothing is done about a connection whose contact is not known. -/
def getWho (c : BonjourContactConnection) (_token : BonjourXmlToken) :
    BonjourContactConnection := c

/-- The loop of `readMessage`, until a token named `message` or the end of the data. -/
def messageText (parser : Reader) (plaintext : Text) (inHtml : Bool) : Text × Reader :=
  if _ : parser.atEnd then (plaintext, parser)
  else
    let token := (getNextToken parser).1
    let rest := (getNextToken parser).2
    match token.name with
    | .body =>
      if inHtml then messageText rest plaintext inHtml
      else
        let element := rest.readElementText token.type
        messageText element.2 element.1 inHtml
    | .html => messageText rest plaintext (token.type = .startElement)
    | .message => (plaintext, rest)
    | _ => messageText rest plaintext inHtml
termination_by parser.coming.length
decreasing_by
  · exact length_getNextToken parser ‹_›
  · exact Nat.lt_of_le_of_lt (Reader.length_readElementText _ _) (length_getNextToken parser ‹_›)
  · exact length_getNextToken parser ‹_›
  · exact length_getNextToken parser ‹_›

/-- `readMessage`: a message is emitted if there is a text, and a contact. -/
def readMessage (c : BonjourContactConnection) : BonjourContactConnection :=
  let plaintext := (messageText c.parser [] false).1
  let c := { c with parser := (messageText c.parser [] false).2 }
  if plaintext = [] then c
  else if c.parent then { c with received := c.received ++ [plaintext] }
  else c

/-- `ignoreAllIq` up to the end of the stanza, and the token that it reads after that. -/
def afterIq (parser : Reader) : BonjourXmlToken × Reader :=
  getNextToken (getNextTokenOf .iq parser).2

theorem length_afterIq_le (parser : Reader) :
    (afterIq parser).2.coming.length ≤ parser.coming.length :=
  Nat.le_trans (length_getNextToken_le _) (length_seek_le .iq parser.coming)

theorem length_afterIq (parser : Reader) (h : ¬ (getNextTokenOf .iq parser).2.atEnd) :
    (afterIq parser).2.coming.length < parser.coming.length :=
  Nat.lt_of_lt_of_le (length_getNextToken _ h) (length_seek_le .iq parser.coming)

/-- `readData`, with `ignoreAllIq`, which hands the token after the stanza to it. -/
def readData (c : BonjourContactConnection) (token : BonjourXmlToken) :
    BonjourContactConnection :=
  match token.name with
  | .message =>
    let type := value token.attributes "type"
    if type = "chat".toList ∨ type = [] then c.readMessage else c
  | .stream => { c with connectionState := .disconnected }
  | .iq =>
    if _ : (getNextTokenOf .iq c.parser).2.atEnd then
      -- The error token, about which nothing is done.
      { c with parser := (afterIq c.parser).2 }
    else readData { c with parser := (afterIq c.parser).2 } (afterIq c.parser).1
  | _ => c
termination_by c.parser.coming.length
decreasing_by exact length_afterIq c.parser ‹_›

theorem length_messageText (parser : Reader) (plaintext : Text) (inHtml : Bool) :
    (messageText parser plaintext inHtml).2.coming.length ≤ parser.coming.length := by
  induction hLength : parser.coming.length using Nat.strongRecOn
    generalizing parser plaintext inHtml with
  | ind n ih =>
    subst hLength
    rw [messageText]
    split
    case isTrue => exact Nat.le_refl _
    case isFalse h =>
      have hShorter := length_getNextToken parser h
      have hSkip := fun plaintext inHtml => Nat.le_trans
        (ih _ hShorter (getNextToken parser).2 plaintext inHtml rfl) (Nat.le_of_lt hShorter)
      dsimp only
      split
      · split
        · exact hSkip _ _
        · have hText := (getNextToken parser).2.length_readElementText (getNextToken parser).1.type
          exact Nat.le_trans (ih _ (Nat.lt_of_le_of_lt hText hShorter) _ _ _ rfl)
            (Nat.le_of_lt (Nat.lt_of_le_of_lt hText hShorter))
      · exact hSkip _ _
      · exact Nat.le_of_lt hShorter
      · exact hSkip _ _

theorem length_readMessage (c : BonjourContactConnection) :
    c.readMessage.parser.coming.length ≤ c.parser.coming.length := by
  have h := length_messageText c.parser [] false
  unfold readMessage
  dsimp only
  split
  · exact h
  · split <;> exact h

theorem length_readData (c : BonjourContactConnection) (token : BonjourXmlToken) :
    (c.readData token).parser.coming.length ≤ c.parser.coming.length := by
  induction hLength : c.parser.coming.length using Nat.strongRecOn
    generalizing c token with
  | ind n ih =>
    subst hLength
    rw [readData]
    split
    · dsimp only
      split
      · exact length_readMessage c
      · exact Nat.le_refl _
    · exact Nat.le_refl _
    · split
      case isTrue => exact length_afterIq_le c.parser
      case isFalse h =>
        exact Nat.le_trans (ih _ (length_afterIq c.parser h) _ _ rfl)
          (Nat.le_of_lt (length_afterIq c.parser h))
    · exact Nat.le_refl _

theorem streamTagFound_coming (c : BonjourContactConnection) (token : BonjourXmlToken) :
    (c.streamTagFound account token).parser = c.parser := by
  unfold streamTagFound
  split
  · rfl
  · dsimp only
    split
    · show (discoveredUserName account _ _).parser = _
      unfold discoveredUserName
      split <;> rfl
    · show (usernameNotInStream account _).parser = _
      unfold usernameNotInStream
      split <;> rfl

/-- The connection with tokens to be read. -/
def reading (c : BonjourContactConnection) (ts : List Token) : BonjourContactConnection :=
  { c with parser := ⟨ts, false⟩ }

theorem discoveredUserName_reading (c : BonjourContactConnection) (user : Text)
    (ts : List Token) :
    discoveredUserName account (c.reading ts) user =
      (discoveredUserName account c user).reading ts := by
  unfold discoveredUserName
  show (if (verifyUser account c user).isSome then _ else _) = _
  split <;> rfl

theorem usernameNotInStream_reading (c : BonjourContactConnection) (ts : List Token) :
    usernameNotInStream account (c.reading ts) = (usernameNotInStream account c).reading ts := by
  unfold usernameNotInStream
  show (match account.getContactsByAddress c.hostAddress with | [] => _ | _ :: _ => _) = _
  split <;> rfl

theorem streamTagFound_reading (c : BonjourContactConnection) (token : BonjourXmlToken)
    (ts : List Token) :
    (c.reading ts).streamTagFound account token = (c.streamTagFound account token).reading ts := by
  unfold streamTagFound
  show (if c.connectionState = .newOutgoing then _ else _) = _
  split
  · rfl
  · dsimp only
    split
    · exact congrArg sayStream (discoveredUserName_reading account
        { c with
          connectionState := .connected
          remote := value token.attributes "from"
          «local» := value token.attributes "to" } _ ts)
    · exact congrArg sayStream (usernameNotInStream_reading account
        { c with
          connectionState := .toWho
          remote := value token.attributes "from"
          «local» := value token.attributes "to" } ts)

theorem length_getStreamTag (c : BonjourContactConnection) (token : BonjourXmlToken) :
    (c.getStreamTag account token).parser.coming.length ≤ c.parser.coming.length := by
  have hFound : (if token.name = .stream then (token, c.parser)
      else getNextTokenOf .stream c.parser).2.coming.length ≤ c.parser.coming.length := by
    split
    · exact Nat.le_refl _
    · exact length_seek_le .stream c.parser.coming
  unfold getStreamTag
  dsimp only
  generalize (if token.name = .stream then (token, c.parser)
    else getNextTokenOf .stream c.parser) = found at hFound ⊢
  split
  · exact hFound
  · rw [streamTagFound_coming]
    exact hFound

/-- What `dataInSocket` does with the first token. -/
def handle (c : BonjourContactConnection) (token : BonjourXmlToken) : BonjourContactConnection :=
  match c.connectionState with
  | .connected => c.readData token
  | .toWho => c.getWho token
  | .newIncoming | .newOutgoing => c.getStreamTag account token
  | _ => c

theorem length_handle (c : BonjourContactConnection) (token : BonjourXmlToken) :
    (c.handle account token).parser.coming.length ≤ c.parser.coming.length := by
  unfold handle
  split
  · exact length_readData c token
  · exact Nat.le_refl _
  · exact length_getStreamTag account c token
  · exact length_getStreamTag account c token
  · exact Nat.le_refl _

/-- A round of `dataInSocket`. -/
def round (c : BonjourContactConnection) : BonjourContactConnection :=
  ({ c with parser := (getNextTokenOf .startOrEndElement c.parser).2 }).handle account
    (getNextTokenOf .startOrEndElement c.parser).1

theorem length_round (c : BonjourContactConnection) (h : ¬ (c.round account).parser.atEnd) :
    (c.round account).parser.coming.length < c.parser.coming.length := by
  have hLe := length_handle account
    { c with parser := (getNextTokenOf .startOrEndElement c.parser).2 }
    (getNextTokenOf .startOrEndElement c.parser).1
  by_cases hEmpty : c.parser.coming = []
  · refine absurd ?_ h
    have hNone : (c.round account).parser.coming.length ≤ 0 := by
      refine Nat.le_trans hLe ?_
      show (seek .startOrEndElement c.parser.coming).2.length ≤ 0
      rw [hEmpty]
      exact Nat.le_refl 0
    exact Reader.atEnd_iff.2 (List.length_eq_zero_iff.1 (Nat.le_zero.1 hNone))
  · exact Nat.lt_of_le_of_lt hLe (length_seek_lt .startOrEndElement hEmpty)

/-- The slot `dataInSocket`, which calls itself while there are tokens. -/
def dataInSocket (c : BonjourContactConnection) : BonjourContactConnection :=
  if _ : (c.round account).parser.atEnd then c.round account
  else dataInSocket (c.round account)
termination_by c.parser.coming.length
decreasing_by exact length_round account c ‹_›

/-- A segment arrives, with the tokens that it brings. -/
def segment (c : BonjourContactConnection) (ts : List Token) : BonjourContactConnection :=
  dataInSocket account { c with parser := c.parser.addData ts }

end BonjourContactConnection

end Bonjour
