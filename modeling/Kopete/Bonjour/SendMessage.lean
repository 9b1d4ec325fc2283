import Kopete.Lib.XmlLexer
import Kopete.Libkopete.Message
import Kopete.Bonjour.Segments
import Kopete.Bonjour.TextBound

/-!
# Bonjour — a message that is sent and read

A message is written as a stanza with its plain body and its HTML form, both put into it as
they are. The other side reads the bytes with an XML reader.

Main results:

* `arrive_sent` — a body without markup, next to an HTML form that is well formed, arrives;
* `plain_of_delivered` — no other body does;
* `sent_iff` — both together.
-/

namespace Bonjour

open XmlStream Kopete

namespace BonjourContactConnection

/-- The text of `sendMessage` up to the plain body. -/
def stanzaHead (c : BonjourContactConnection) : Text :=
  "<message to='".toList ++ c.remote ++ "' from='".toList ++ c.local ++
    "' type='chat'><body>".toList

/-- Its text between the plain body and the HTML form. -/
def stanzaMiddle : Text :=
  "</body>".toList ++ ("<html xmlns='http://www.w3.org/1999/xhtml'>".toList ++ "<body>".toList)

/-- Its text behind the HTML form. -/
def stanzaTail : Text :=
  "</body>".toList ++ ("</html>".toList ++ ("<x xmlns='jabber:x:event'>".toList ++
    ("<composing /></x>".toList ++ "</message>".toList)))

def stanzaText (c : BonjourContactConnection) (message : Message) : Text :=
  c.stanzaHead ++ (message.plainBody ++ (stanzaMiddle ++ (message.escapedBody ++ stanzaTail)))

/-- `sendMessage`. -/
def sendMessage (c : BonjourContactConnection) (message : Message) : BonjourContactConnection :=
  { c with socket := c.socket ++ toUtf8 (c.stanzaText message) }

end BonjourContactConnection

/-- A connection with the XML reader that its parser is. -/
structure Endpoint where
  connection : BonjourContactConnection
  lexer : Lexer

namespace Endpoint

/-- Bytes arrive in one piece. What is not well formed, or no UTF-8, makes the parser fail. -/
def arrive (account : BonjourAccount) (e : Endpoint) (bytes : ByteArray) : Endpoint :=
  let fed : Lexer × List Token :=
    match String.fromUTF8? bytes with
    | some s => e.lexer.feed s.toList
    | none => ({ e.lexer with mode := .failed }, [])
  let parser := e.connection.parser.addData fed.2
  { connection := ({ e.connection with
      parser := { parser with failed := parser.failed || fed.1.mode = Mode.failed } }).dataInSocket
        account
    lexer := fed.1 }

/-- The connection is established: it has a contact, and its reader waits for a stanza in the
elements that are open. -/
structure Established (opened : List OpenElement) (e : Endpoint) : Prop where
  connected : e.connection.connectionState = .connected
  contact : e.connection.parent = true
  parser : e.connection.parser = ⟨[], false⟩
  opened : e.lexer.opened = opened
  mode : ∃ k, e.lexer.mode = .content k
  carriageReturn : e.lexer.carriageReturn = false

theorem Established.lexer_eq {opened : List OpenElement} {e : Endpoint}
    (he : e.Established opened) : ∃ k, e.lexer = ⟨opened, .content k, false⟩ := by
  obtain ⟨k, hMode⟩ := he.mode
  have hOpened := he.opened
  have hReturn := he.carriageReturn
  generalize e.lexer = L at *
  obtain ⟨opened', mode, cr⟩ := L
  obtain rfl : opened' = opened := hOpened
  obtain rfl : mode = .content k := hMode
  obtain rfl : cr = false := hReturn
  exact ⟨k, rfl⟩

/-- A message with the same plain body has been received, just once, and the connection is as
ready as before. -/
def Delivered (account : BonjourAccount) (sender : BonjourContactConnection) (message : Message)
    (opened : List OpenElement) (e : Endpoint) : Prop :=
  let e' := e.arrive account (toUtf8 (sender.stanzaText message))
  e'.Established opened ∧
    ∃ t, e'.connection.received = e.connection.received ++ [t] ∧
      ∀ escaped, Message.plainBody ⟨Message.setPlainBody t, escaped⟩ = message.plainBody

end Endpoint

/-- The elements that the HTML form is written in. -/
def htmlElements : List OpenElement := [⟨"body".toList, []⟩, ⟨"html".toList, []⟩]

/-- An HTML form that is well formed in its place, whatever that is in, with nothing in it
that the loop of `readMessage` would take for the end of the message or for its body. -/
def WellFormed (html : Text) : Prop :=
  ∃ ts, BonjourContactConnection.scan true ts = some true ∧
    ∀ opened, ∃ k cr, Lexer.feed ⟨htmlElements ++ opened, .content 0, false⟩ html =
      (⟨htmlElements ++ opened, .content k, cr⟩, ts)

/-- A user name that can stand in an attribute as it is. -/
def ValueSafe (name : Text) : Prop := ∀ c ∈ name, isChar c ∧ c ≠ '\'' ∧ c ≠ '<' ∧ c ≠ '&'

/-- An HTML form with nothing in it that could end a comment, a section or a processing
instruction, if the body began one. -/
structure Endless (html : Text) : Prop where
  noReturn : '\r' ∉ html
  noEnd : ∀ e ∈ Lexer.endings, ¬ e <:+: html

/-- **What can be sent**: a body without markup and carriage returns, user names without
markup and apostrophes, and an HTML form that is well formed. -/
structure Sendable (sender : BonjourContactConnection) (message : Message) : Prop where
  plain : Lexer.Plain message.plainBody
  remote : ValueSafe sender.remote
  «local» : ValueSafe sender.local
  html : WellFormed message.escapedBody

/-! ## The tokens of a stanza -/

/-- The tokens behind the HTML form, to the end of the message. -/
def closing : List Token :=
  [.endElement "body", .endElement "html", .startElement "x" [], .startElement "composing" [],
    .endElement "composing", .endElement "x"]

/-- The tokens behind the plain body, around those of the HTML form. -/
def tailTokens (ts : List Token) : List Token :=
  .startElement "html" [] :: .startElement "body" [] :: (ts ++ closing)

/-- The head opens the message and its body. -/
theorem feed_head {sender : BonjourContactConnection} (hRemote : ValueSafe sender.remote)
    (hLocal : ValueSafe sender.local) (opened : List OpenElement) (k : Nat) :
    ∃ attributes, value attributes "type" = "chat".toList ∧
      Lexer.feed ⟨opened, .content k, false⟩ sender.stanzaHead =
        (⟨⟨"body".toList, []⟩ :: ⟨"message".toList, []⟩ :: opened, .content 0, false⟩,
          [.startElement "message" attributes, .startElement "body" []]) := by
  unfold BonjourContactConnection.stanzaHead
  rw [List.append_assoc, List.append_assoc, List.append_assoc, Lexer.feed_append]
  have hTo : Lexer.feed ⟨opened, .content k, false⟩ "<message to='".toList =
      (⟨opened, .attributeValue ⟨"message".toList, []⟩ "to".toList .single [], false⟩, []) := by
    cbv
  rw [hTo]
  obtain ⟨remote, cr, hValue⟩ := Lexer.feed_value opened ⟨"message".toList, []⟩ "to".toList
    .single hRemote [] false
  dsimp only
  rw [Lexer.feed_append, hValue]
  dsimp only
  have hFrom : Lexer.feed
      ⟨opened, .attributeValue ⟨"message".toList, []⟩ "to".toList .single remote, cr⟩
      "' from='".toList = (⟨opened, .attributeValue ⟨"message".toList, [("to".toList, remote)]⟩
        "from".toList .single [], false⟩, []) := by
    cases cr <;> cbv
  rw [Lexer.feed_append, hFrom]
  obtain ⟨alocal, cr', hValue'⟩ := Lexer.feed_value opened
    ⟨"message".toList, [("to".toList, remote)]⟩ "from".toList .single hLocal [] false
  dsimp only
  rw [Lexer.feed_append, hValue']
  dsimp only
  have hType : Lexer.feed ⟨opened, .attributeValue ⟨"message".toList, [("to".toList, remote)]⟩
      "from".toList .single alocal, cr'⟩ "' type='chat'".toList =
      (⟨opened, .inTag ⟨"message".toList, [("to".toList, remote), ("from".toList, alocal),
        ("type".toList, "chat".toList)]⟩ false, false⟩, []) := by
    cases cr' <;> cbv
  have hClose : Lexer.feed ⟨opened, .inTag ⟨"message".toList, [("to".toList, remote),
      ("from".toList, alocal), ("type".toList, "chat".toList)]⟩ false, false⟩ ['>'] =
      (⟨⟨"message".toList, []⟩ :: opened, .content 0, false⟩,
        [.startElement "message" [("to", remote), ("from", alocal), ("type", "chat".toList)]]) :=
    rfl
  have hBody : Lexer.feed ⟨⟨"message".toList, []⟩ :: opened, .content 0, false⟩ "<body>".toList =
      (⟨⟨"body".toList, []⟩ :: ⟨"message".toList, []⟩ :: opened, .content 0, false⟩,
        [.startElement "body" []]) := by
    cbv
  have hEnd : "' type='chat'><body>".toList = "' type='chat'".toList ++ (['>'] ++ "<body>".toList) :=
    by decide
  rw [hEnd, Lexer.feed_append, hType, Lexer.feed_append, hClose, hBody]
  exact ⟨[("to", remote), ("from", alocal), ("type", "chat".toList)], rfl, rfl⟩

/-- The end tag of a name that nothing is special about. -/
theorem feed_endTag {name : Text} (hName : name = "body".toList ∨ name = "message".toList)
    (opened : List OpenElement) (k : Nat) (cr : Bool) :
    Lexer.feed ⟨opened, .content k, cr⟩ ("</".toList ++ (name ++ ['>'])) =
      Lexer.endElement ⟨opened, .endName name, false⟩ name := by
  have hOpen : Lexer.feed ⟨opened, .content k, cr⟩ ("</".toList ++ name) =
      (⟨opened, .endName name, false⟩, []) := by
    rcases hName with rfl | rfl <;> cases cr <;> cbv
  have hClose : Lexer.feed ⟨opened, .endName name, false⟩ ['>'] =
      Lexer.endElement ⟨opened, .endName name, false⟩ name := by
    show (_, _ ++ []) = _
    rw [List.append_nil]
    rfl
  rw [← List.append_assoc, Lexer.feed_append, hOpen, hClose]
  rfl

/-- An end tag ends the innermost element, or nothing is read any more. -/
theorem endElement_cases (opened : List OpenElement) (name : Text) :
    (Lexer.endElement ⟨opened, .endName name, false⟩ name).1.mode = .failed ∨ ∃ opened',
      Lexer.endElement ⟨opened, .endName name, false⟩ name =
        (⟨opened', .content 0, false⟩, [.endElement (String.ofList name)]) := by
  unfold Lexer.endElement
  split
  · exact .inl rfl
  · split
    · exact .inr ⟨_, rfl⟩
    · exact .inl rfl

theorem feed_html (opened : List OpenElement) :
    Lexer.feed ⟨opened, .content 0, false⟩
      ("<html xmlns='http://www.w3.org/1999/xhtml'>".toList ++ "<body>".toList) =
        (⟨htmlElements ++ opened, .content 0, false⟩,
          [.startElement "html" [], .startElement "body" []]) := by
  have hParts : "<html xmlns='http://www.w3.org/1999/xhtml'>".toList =
      "<html xmlns='http://www.w3.org/1999/xhtml'".toList ++ ['>'] := by
    decide
  have hTag : Lexer.feed ⟨opened, .content 0, false⟩
      "<html xmlns='http://www.w3.org/1999/xhtml'".toList =
        (⟨opened, .inTag ⟨"html".toList,
          [("xmlns".toList, "http://www.w3.org/1999/xhtml".toList)]⟩ false, false⟩, []) := by
    cbv
  have hBody : Lexer.feed ⟨⟨"html".toList, []⟩ :: opened, .content 0, false⟩ "<body>".toList =
      (⟨htmlElements ++ opened, .content 0, false⟩, [.startElement "body" []]) := by
    cbv
  rw [Lexer.feed_append, hParts, Lexer.feed_append, hTag]
  show (_, _ ++ (Lexer.feed ⟨⟨"html".toList, []⟩ :: opened, .content 0, false⟩
    "<body>".toList).2) = _
  rw [hBody]
  rfl

/-- The middle, behind the end of the body. -/
theorem feed_middle {opened opened' : List OpenElement} (k : Nat) (cr : Bool)
    (h : Lexer.endElement ⟨opened, .endName "body".toList, false⟩ "body".toList =
      (⟨opened', .content 0, false⟩, [.endElement "body"])) :
    Lexer.feed ⟨opened, .content k, cr⟩ BonjourContactConnection.stanzaMiddle =
      (⟨htmlElements ++ opened', .content 0, false⟩,
        [.endElement "body", .startElement "html" [], .startElement "body" []]) := by
  have hTag : "</body>".toList = "</".toList ++ ("body".toList ++ ['>']) := by
    decide
  unfold BonjourContactConnection.stanzaMiddle
  rw [hTag, Lexer.feed_append, feed_endTag (.inl rfl), h, feed_html]
  rfl

theorem feed_tail (opened : List OpenElement) (k : Nat) (cr : Bool) :
    Lexer.feed ⟨htmlElements ++ opened, .content k, cr⟩ BonjourContactConnection.stanzaTail =
      ((Lexer.endElement ⟨opened, .endName "message".toList, false⟩ "message".toList).1,
        closing ++
          (Lexer.endElement ⟨opened, .endName "message".toList, false⟩ "message".toList).2) := by
  have hBody : Lexer.feed ⟨htmlElements ++ opened, .content k, cr⟩ "</body>".toList =
      (⟨⟨"html".toList, []⟩ :: opened, .content 0, false⟩, [.endElement "body"]) := by
    cases cr <;> cbv
  have hHtml : Lexer.feed ⟨⟨"html".toList, []⟩ :: opened, .content 0, false⟩
      "</html>".toList = (⟨opened, .content 0, false⟩, [.endElement "html"]) := by
    cbv
  have hParts : "<x xmlns='jabber:x:event'>".toList =
      "<x xmlns='jabber:x:event'".toList ++ ['>'] := by
    decide
  have hTag : Lexer.feed ⟨opened, .content 0, false⟩ "<x xmlns='jabber:x:event'".toList =
      (⟨opened, .inTag ⟨"x".toList, [("xmlns".toList, "jabber:x:event".toList)]⟩ false,
        false⟩, []) := by
    cbv
  have hX : Lexer.feed ⟨opened, .content 0, false⟩ "<x xmlns='jabber:x:event'>".toList =
      (⟨⟨"x".toList, []⟩ :: opened, .content 0, false⟩, [.startElement "x" []]) := by
    rw [hParts, Lexer.feed_append, hTag]
    rfl
  have hComposing : Lexer.feed ⟨⟨"x".toList, []⟩ :: opened, .content 0, false⟩
      "<composing /></x>".toList =
        (⟨opened, .content 0, false⟩,
          [.startElement "composing" [], .endElement "composing", .endElement "x"]) := by
    cbv
  have hMessage : "</message>".toList = "</".toList ++ ("message".toList ++ ['>']) := by
    decide
  unfold BonjourContactConnection.stanzaTail
  rw [Lexer.feed_append, hBody, Lexer.feed_append, hHtml, Lexer.feed_append, hX,
    Lexer.feed_append, hComposing, hMessage, feed_endTag (.inr rfl)]
  rfl

theorem fromUtf8_toUtf8 (s : Text) : String.fromUTF8? (toUtf8 s) = some (String.ofList s) := by
  have hValid : (toUtf8 s).IsValidUTF8 := (String.ofList s).isValidUTF8
  rw [String.fromUTF8?, dif_pos hValid]
  rfl

namespace Endpoint

variable (account : BonjourAccount) {e : Endpoint} {opened : List OpenElement}

theorem arrive_lexer (e : Endpoint) (s : Text) :
    (e.arrive account (toUtf8 s)).lexer = (e.lexer.feed s).1 := by
  unfold arrive
  rw [fromUtf8_toUtf8]
  dsimp only
  rw [String.toList_ofList]

/-- What text does that arrives at an established connection and is well formed so far. -/
theorem arrive_text (he : e.Established opened) {s : Text} {L : Lexer} {ts : List Token}
    (hFeed : e.lexer.feed s = (L, ts)) (hMode : L.mode ≠ .failed) :
    e.arrive account (toUtf8 s) =
      ⟨(e.connection.reading (ts ++ [.prematureEnd])).dataInSocket account, L⟩ := by
  unfold arrive
  rw [fromUtf8_toUtf8]
  dsimp only
  rw [String.toList_ofList, hFeed, he.parser, decide_eq_false hMode]
  rfl

end Endpoint

theorem scan_tailTokens {ts : List Token} (h : BonjourContactConnection.scan true ts = some true) :
    BonjourContactConnection.scan false (tailTokens ts) = some false := by
  have hRest : BonjourContactConnection.scan true (ts ++ closing) = some false := by
    rw [BonjourContactConnection.scan_append, h]
    rfl
  exact hRest

/-- The tokens of the whole stanza. -/
theorem feed_stanzaText {sender : BonjourContactConnection} {message : Message}
    (hChars : ∀ c ∈ message.plainBody, isChar c) (h : Sendable sender message)
    (opened : List OpenElement) (k : Nat) :
    ∃ attributes ts, value attributes "type" = "chat".toList ∧
      BonjourContactConnection.scan true ts = some true ∧
      Lexer.feed ⟨opened, .content k, false⟩ (sender.stanzaText message) =
        (⟨opened, .content 0, false⟩, .startElement "message" attributes ::
          .startElement "body" [] :: (message.plainBody.map .character ++ .endElement "body" ::
            (tailTokens ts ++ [.endElement "message"]))) := by
  obtain ⟨attributes, hType, hHead⟩ := feed_head h.remote h.local opened k
  obtain ⟨k', hBody⟩ := Lexer.feed_plain
    (⟨"body".toList, []⟩ :: ⟨"message".toList, []⟩ :: opened) (by simp) hChars
    h.plain.unmarked (k := 0) h.plain.noEnd
  obtain ⟨ts, hScan, hHtml⟩ := h.html
  obtain ⟨k'', cr, hHtml⟩ := hHtml (⟨"message".toList, []⟩ :: opened)
  refine ⟨attributes, ts, hType, hScan, ?_⟩
  unfold BonjourContactConnection.stanzaText
  rw [Lexer.feed_append, hHead, Lexer.feed_append, hBody, Lexer.feed_append, feed_middle k' false rfl,
    Lexer.feed_append, hHtml, feed_tail]
  simp [tailTokens, Lexer.endElement]

/-- **A message that can be sent** arrives, once and with the same plain body, and leaves the
connection as it was. -/
theorem arrive_sent (account : BonjourAccount) {sender : BonjourContactConnection}
    {message : Message} (hSome : message.plainBody ≠ [])
    (hChars : ∀ c ∈ message.plainBody, isChar c) {opened : List OpenElement} {e : Endpoint}
    (he : e.Established opened) (h : Sendable sender message) :
    e.Delivered account sender message opened := by
  obtain ⟨k, hLexer⟩ := he.lexer_eq
  obtain ⟨attributes, ts, hType, hScan, hFeed⟩ := feed_stanzaText hChars h opened k
  rw [← hLexer] at hFeed
  have hText : BonjourContactConnection.messageText ⟨.startElement "body" [] ::
      (message.plainBody.map .character ++ .endElement "body" ::
        (tailTokens ts ++ .endElement "message" :: [.prematureEnd])), false⟩ [] false =
          (message.plainBody, ⟨[.prematureEnd], false⟩) :=
    BonjourContactConnection.messageText_chat (q := []) rfl (scan_tailTokens hScan) [] _
  have hRead : e.arrive account (toUtf8 (sender.stanzaText message)) =
      ⟨(e.connection.hear [message.plainBody]).reading [], ⟨opened, .content 0, false⟩⟩ := by
    rw [Endpoint.arrive_text account he hFeed (by simp), List.cons_append, List.cons_append,
      List.append_assoc, List.cons_append, List.append_assoc, List.singleton_append,
      BonjourContactConnection.dataInSocket_message account he.connected
        (BonjourContactConnection.tag_start _ _) rfl (.inl hType)]
    show Endpoint.mk ((e.connection.reading _).readMessage.dataInSocket account) _ = _
    rw [BonjourContactConnection.readMessage_eq hText, BonjourContactConnection.spoken, if_neg hSome]
    have hHeard : (e.connection.hear [message.plainBody]).connectionState = .connected :=
      he.connected
    rw [BonjourContactConnection.dataInSocket_prematureEnd hHeard]
  unfold Endpoint.Delivered
  rw [hRead]
  refine ⟨⟨he.connected, he.contact, rfl, rfl, ⟨0, rfl⟩, rfl⟩, message.plainBody, ?_, ?_⟩
  · show e.connection.received ++ (if e.connection.parent then _ else _) = _
    rw [if_pos he.contact]
  · intro escaped
    refine Message.plainBody_setPlainBody (fun c hc => Message.isPlain_of_mem_plainBody hc) ?_
    exact fun hMem => (h.plain.unmarked _ hMem).2.2 rfl

/-! ## What becomes of a body with markup -/

/-- A text without the characters that such an end begins with. -/
theorem not_infix_of_not_mem {e s : Text} (he : e ∈ Lexer.endings)
    (hs : '-' ∉ s ∧ ']' ∉ s ∧ '?' ∉ s) :
    ¬ e <:+: s := by
  intro h
  have hHead : '-' ∈ e ∨ ']' ∈ e ∨ '?' ∈ e :=
    (by decide : ∀ e ∈ Lexer.endings, '-' ∈ e ∨ ']' ∈ e ∨ '?' ∈ e) e he
  rcases hHead with hMem | hMem | hMem
  · exact hs.1 (h.subset hMem)
  · exact hs.2.1 (h.subset hMem)
  · exact hs.2.2 (h.subset hMem)

/-- What is not in content behind a body is not in content behind the stanza either. -/
theorem feed_notContent {html : Text} (hEndless : Endless html) {L : Lexer}
    (hReturn : L.carriageReturn = false) (hNot : ∀ k, L.mode ≠ .content k) (k : Nat) :
    (L.feed (BonjourContactConnection.stanzaMiddle ++
      (html ++ BonjourContactConnection.stanzaTail))).1.mode ≠ .content k := by
  rw [Lexer.feed_append, Lexer.feed_append]
  dsimp only
  obtain ⟨middle, hMiddle, hMiddleEnd, hMiddleNot⟩ :
      ∃ s, BonjourContactConnection.stanzaMiddle = '<' :: (s ++ ['>']) ∧ '\r' ∉ s ∧
        ('-' ∉ s ++ ['>'] ∧ ']' ∉ s ++ ['>'] ∧ '?' ∉ s ++ ['>']) :=
    ⟨(BonjourContactConnection.stanzaMiddle.drop 1).dropLast, by decide +kernel, by decide +kernel,
      by decide +kernel⟩
  obtain ⟨tail, hTail, hTailEnd, hTailNot⟩ :
      ∃ s, BonjourContactConnection.stanzaTail = '<' :: s ∧ '\r' ∉ s ∧
        ('-' ∉ s ∧ ']' ∉ s ∧ '?' ∉ s) :=
    ⟨BonjourContactConnection.stanzaTail.drop 1, by decide +kernel, by decide +kernel,
      by decide +kernel⟩
  have hFailed : ∀ {L' : Lexer}, L'.mode = .failed → ∀ s, (L'.feed s).1.mode ≠ .content k := by
    intro L' h s
    rw [(Lexer.feed_failed h s).1]
    simp
  have hFailed' : ∀ {L' : Lexer}, L'.mode = .failed →
      ∀ s t, ((L'.feed s).1.feed t).1.mode ≠ .content k :=
    fun h s t => hFailed (Lexer.feed_failed h s).1 t
  cases hMode : Lexer.ending L.mode with
  | none =>
    -- A tag has no place there.
    refine hFailed' ?_ html _
    rw [hMiddle]
    exact (Lexer.feed_failed (Lexer.step_lt hNot hMode) _).1
  | some e =>
    have he := Lexer.mem_endings hMode
    have hFirst : ¬ e <:+: Lexer.held L.mode ++ BonjourContactConnection.stanzaMiddle := by
      rw [hMiddle]
      exact Lexer.not_infix_tag he (not_infix_of_not_mem he hMiddleNot)
    have hNoReturn : '\r' ∉ BonjourContactConnection.stanzaMiddle := by
      rw [hMiddle]
      simpa using hMiddleEnd
    rcases Lexer.feed_ending hMode hReturn hNoReturn hFirst with hBad | ⟨hMode₁, hReturn₁, hHeld₁⟩
    · exact hFailed' hBad html _
    · have hNothing : Lexer.held (L.feed BonjourContactConnection.stanzaMiddle).1.mode = [] := by
        refine Lexer.held_eq_nil (s := Lexer.held L.mode ++ '<' :: middle) ?_
        rw [List.append_assoc, List.cons_append, ← hMiddle]
        exact hHeld₁
      have hSecond : ¬ e <:+: Lexer.held (L.feed BonjourContactConnection.stanzaMiddle).1.mode ++
          html := by
        rw [hNothing]
        exact hEndless.noEnd e he
      rcases Lexer.feed_ending hMode₁ hReturn₁ hEndless.noReturn hSecond with
        hBad | ⟨hMode₂, hReturn₂, -⟩
      · exact hFailed hBad _
      · have hThird : ¬ e <:+: Lexer.held ((L.feed BonjourContactConnection.stanzaMiddle).1.feed
            html).1.mode ++ BonjourContactConnection.stanzaTail := by
          rw [hTail]
          exact Lexer.not_infix_tag he (not_infix_of_not_mem he hTailNot)
        have hNoReturn' : '\r' ∉ BonjourContactConnection.stanzaTail := by
          rw [hTail]
          simpa using hTailEnd
        rcases Lexer.feed_ending hMode₂ hReturn₂ hNoReturn' hThird with hBad | ⟨hMode₃, -, -⟩
        · rw [hBad]
          simp
        · intro hContent
          rw [hContent] at hMode₃
          exact absurd hMode₃ (by simp [Lexer.ending])

/-- The rest of the stanza ends in content only if the body does; then its tokens are what
they are behind any body. -/
theorem feed_rest {html : Text} (hHtml : WellFormed html) (hEndless : Endless html) {L : Lexer}
    (hReturn : L.carriageReturn = false) {k : Nat}
    (hEnd : (L.feed (BonjourContactConnection.stanzaMiddle ++
      (html ++ BonjourContactConnection.stanzaTail))).1.mode = .content k) :
    ∃ ts, BonjourContactConnection.scan true ts = some true ∧
      (L.feed (BonjourContactConnection.stanzaMiddle ++
        (html ++ BonjourContactConnection.stanzaTail))).2 =
          .endElement "body" :: (tailTokens ts ++ [.endElement "message"]) := by
  by_cases hContent : ∃ k, L.mode = .content k
  · obtain ⟨k', hMode⟩ := hContent
    obtain ⟨opened, mode, cr⟩ := L
    obtain rfl : mode = .content k' := hMode
    obtain rfl : cr = false := hReturn
    obtain ⟨ts, hScan, hHtml⟩ := hHtml
    refine ⟨ts, hScan, ?_⟩
    rw [Lexer.feed_append, Lexer.feed_append] at hEnd ⊢
    dsimp only at hEnd ⊢
    rcases endElement_cases opened "body".toList with hFailed | ⟨opened', hBody⟩
    · have hTag : "</body>".toList = "</".toList ++ ("body".toList ++ ['>']) := by
        decide
      have hMiddle : (Lexer.feed ⟨opened, .content k', false⟩
          BonjourContactConnection.stanzaMiddle).1.mode = .failed := by
        unfold BonjourContactConnection.stanzaMiddle
        rw [hTag, Lexer.feed_append, feed_endTag (.inl rfl)]
        dsimp only
        rw [(Lexer.feed_failed hFailed _).1]
      rw [(Lexer.feed_failed (Lexer.feed_failed hMiddle html).1 _).1] at hEnd
      exact absurd hEnd (by simp)
    · obtain ⟨k₁, cr₁, hFeed⟩ := hHtml opened'
      rw [feed_middle k' false hBody] at hEnd ⊢
      dsimp only at hEnd ⊢
      rw [hFeed] at hEnd ⊢
      dsimp only at hEnd ⊢
      rw [feed_tail] at hEnd ⊢
      rcases endElement_cases opened' "message".toList with hFailed | ⟨opened'', hMessage⟩
      · rw [hFailed] at hEnd
        exact absurd hEnd (by simp)
      · rw [hMessage]
        simp [tailTokens]
  · exact absurd hEnd (feed_notContent hEndless hReturn (not_exists.1 hContent) k)

theorem not_message_of_scan {inHtml b : Bool} {ts : List Token}
    (h : BonjourContactConnection.scan inHtml ts = some b) {t : Token} (ht : t ∈ ts) :
    tokenTable t.qualifiedName ≠ .message := by
  induction ts generalizing inHtml with
  | nil => exact absurd ht List.not_mem_nil
  | cons u ts ih =>
    rw [BonjourContactConnection.scan] at h
    rcases List.mem_cons.1 ht with rfl | ht
    · intro hName
      rw [hName] at h
      exact absurd h (by simp)
    · split at h
      · exact absurd h (by simp)
      · split at h
        · exact ih h ht
        · exact absurd h (by simp)
      · exact ih h ht
      · exact ih h ht

/-- The texts in a stanza whose plain body has the tokens `q` are no longer than these. -/
theorem length_stanza_le {ts q : List Token} (h : ∀ b, BonjourContactConnection.scan b ts = some false)
    {t : Token} {r : List Token} (hName : tokenTable t.qualifiedName = .message)
    (hSuffix : t :: r <:+ q ++ .endElement "body" ::
      (ts ++ .endElement "message" :: [.prematureEnd])) :
    (BonjourContactConnection.messageText ⟨r, false⟩ [] false).1.length ≤ Lexer.letters q := by
  obtain ⟨pre, hEq⟩ := hSuffix
  rcases List.append_eq_append_iff.1 hEq with ⟨mid, hq, hRest⟩ | ⟨mid, -, hRest⟩
  · cases mid with
    | nil =>
      rw [List.nil_append] at hRest
      rw [(List.cons.inj hRest).1] at hName
      exact absurd hName (by decide)
    | cons u mid =>
      obtain ⟨rfl, rfl⟩ := List.cons.inj hRest
      refine Nat.le_trans (BonjourContactConnection.length_messageText_le h mid [] false) ?_
      rw [hq, Lexer.letters_append]
      show max 0 _ ≤ _ + (t.text.length + Lexer.letters mid)
      omega
  · -- Behind the body only the end of the message has its name.
    have hLast : r = [.prematureEnd] := by
      cases mid with
      | nil =>
        rw [← (List.cons.inj hRest).1] at hName
        exact absurd hName (by decide)
      | cons u mid =>
        rcases List.append_eq_append_iff.1 (List.cons.inj hRest).2 with
          ⟨gap, -, hEnd⟩ | ⟨gap, hts, hEnd⟩
        · match gap, hEnd with
          | [], hEnd => exact (List.cons.inj hEnd).2.symm
          | [v], hEnd =>
            rw [← (List.cons.inj (List.cons.inj hEnd).2).1] at hName
            exact absurd hName (by decide)
          | v :: w :: gap, hEnd =>
            have hLength := congrArg List.length hEnd
            simp at hLength
        · match gap, hEnd with
          | [], hEnd => exact (List.cons.inj hEnd).2
          | v :: gap, hEnd =>
            have hMem : t ∈ ts := by
              rw [hts, (List.cons.inj hEnd).1]
              simp
            exact absurd hName (not_message_of_scan (h true) hMem)
    rw [hLast, BonjourContactConnection.messageText_prematureEnd]
    exact Nat.zero_le _

theorem scan_rest {ts : List Token} (h : BonjourContactConnection.scan true ts = some true)
    (b : Bool) : BonjourContactConnection.scan b (tailTokens ts) = some false :=
  scan_tailTokens h

/-- The tokens of a stanza that ends in content, whatever its body is. -/
theorem tokens_stanzaText {sender : BonjourContactConnection} {message : Message}
    (hRemote : ValueSafe sender.remote) (hLocal : ValueSafe sender.local)
    (hHtml : WellFormed message.escapedBody) (hEndless : Endless message.escapedBody)
    (hReturn : '\r' ∉ message.plainBody) (opened : List OpenElement) (k : Nat) {k' : Nat}
    (hEnd : (Lexer.feed ⟨opened, .content k, false⟩ (sender.stanzaText message)).1.mode =
      .content k') :
    ∃ attributes ts, BonjourContactConnection.scan true ts = some true ∧
      (Lexer.feed ⟨opened, .content k, false⟩ (sender.stanzaText message)).2 =
        (.startElement "message" attributes :: .startElement "body" [] ::
          (Lexer.feed ⟨⟨"body".toList, []⟩ :: ⟨"message".toList, []⟩ :: opened, .content 0,
            false⟩ message.plainBody).2) ++
          .endElement "body" :: (tailTokens ts ++ [.endElement "message"]) := by
  obtain ⟨attributes, -, hHead⟩ := feed_head hRemote hLocal opened k
  unfold BonjourContactConnection.stanzaText at hEnd ⊢
  rw [Lexer.feed_append, hHead, Lexer.feed_append] at hEnd ⊢
  dsimp only at hEnd ⊢
  obtain ⟨ts, hScan, hRest⟩ := feed_rest hHtml hEndless
    (Lexer.feed_carriageReturn rfl hReturn) hEnd
  refine ⟨attributes, ts, hScan, ?_⟩
  rw [hRest]
  rfl

/-- **Nothing but plain text arrives** as it was sent. -/
theorem plain_of_delivered (account : BonjourAccount) {sender : BonjourContactConnection}
    {message : Message} (hRemote : ValueSafe sender.remote) (hLocal : ValueSafe sender.local)
    (hHtml : WellFormed message.escapedBody) (hEndless : Endless message.escapedBody)
    {opened : List OpenElement} {e : Endpoint} (he : e.Established opened)
    (h : e.Delivered account sender message opened) : Lexer.Plain message.plainBody := by
  obtain ⟨hAfter, t, hReceived, hSame⟩ := h
  have hReturn : '\r' ∉ message.plainBody := by
    rw [← hSame []]
    exact Message.not_mem_setPlainBody t []
  obtain ⟨k, hLexer⟩ := he.lexer_eq
  obtain ⟨k', hEnd⟩ := hAfter.mode
  rw [Endpoint.arrive_lexer] at hEnd
  by_cases hMarkup : ∃ c ∈ message.plainBody, c = '<' ∨ c = '&'
  · -- What is received has fewer characters than the body.
    exfalso
    have hFeed := Endpoint.arrive_text account he
      (Prod.eta (p := e.lexer.feed (sender.stanzaText message))).symm (by rw [hEnd]; simp)
    rw [hFeed] at hReceived
    rw [hLexer] at hEnd hReceived
    obtain ⟨attributes, ts, hScan, hTokens⟩ :=
      tokens_stanzaText hRemote hLocal hHtml hEndless hReturn opened k hEnd
    rw [hTokens] at hReceived
    have hLess := Lexer.letters_feed_lt (L := ⟨⟨"body".toList, []⟩ :: ⟨"message".toList, []⟩ ::
      opened, .content 0, false⟩) rfl hMarkup
    generalize (Lexer.feed ⟨⟨"body".toList, []⟩ :: ⟨"message".toList, []⟩ :: opened, .content 0,
      false⟩ message.plainBody).2 = q at hReceived hLess
    have hBound : ∀ t r, t :: r <:+ (.startElement "message" attributes ::
          .startElement "body" [] :: q) ++ .endElement "body" ::
            (tailTokens ts ++ .endElement "message" :: [.prematureEnd]) →
        tokenTable t.qualifiedName = .message →
        (BonjourContactConnection.messageText ⟨r, false⟩ [] false).1.length ≤
          Lexer.letters (.startElement "message" attributes :: .startElement "body" [] :: q) :=
      fun t r hr hName => length_stanza_le (scan_rest hScan) hName hr
    obtain ⟨texts, hTexts, hAll⟩ :=
      BonjourContactConnection.received_dataInSocket account he.connected hBound
    have hSplit : ((.startElement "message" attributes :: .startElement "body" [] :: q) ++
        .endElement "body" :: (tailTokens ts ++ [.endElement "message"])) ++ [.prematureEnd] =
      (.startElement "message" attributes :: .startElement "body" [] :: q) ++
        .endElement "body" :: (tailTokens ts ++ .endElement "message" :: [.prematureEnd]) := by
      simp
    dsimp only at hReceived
    rw [hSplit, hAll] at hReceived
    have hText : t.length ≤ Lexer.letters (.startElement "message" attributes ::
        .startElement "body" [] :: q) :=
      hTexts t (by rw [List.append_cancel_left hReceived]; exact List.mem_singleton_self t)
    rw [Lexer.letters_startElement, Lexer.letters_startElement] at hText
    have hLong := Message.length_setPlainBody_le t []
    rw [hSame []] at hLong
    omega
  · have hUnmarked : ∀ c ∈ message.plainBody, c ≠ '<' ∧ c ≠ '&' ∧ c ≠ '\r' := fun c hc =>
      ⟨fun h => hMarkup ⟨c, hc, .inl h⟩, fun h => hMarkup ⟨c, hc, .inr h⟩,
        fun h => hReturn (h ▸ hc)⟩
    refine ⟨hUnmarked, fun hSection => ?_⟩
    have hFailed : (Lexer.feed ⟨⟨"body".toList, []⟩ :: ⟨"message".toList, []⟩ :: opened,
        .content 0, false⟩ message.plainBody).1.mode = .failed :=
      Lexer.feed_sectionEnd (List.cons_ne_nil _ _) hUnmarked hSection
    obtain ⟨attributes, -, hHead⟩ := feed_head hRemote hLocal opened k
    rw [hLexer] at hEnd
    unfold BonjourContactConnection.stanzaText at hEnd
    rw [Lexer.feed_append, hHead, Lexer.feed_append] at hEnd
    dsimp only at hEnd
    rw [(Lexer.feed_failed hFailed _).1] at hEnd
    exact absurd hEnd (by simp)

/-- **When a message arrives**: where nothing in the user names and in the HTML form is in the
way, if and only if its plain body has no markup. -/
theorem sent_iff (account : BonjourAccount) (sender : BonjourContactConnection)
    (message : Message) (hSome : message.plainBody ≠ [])
    (hChars : ∀ c ∈ message.plainBody, isChar c) (opened : List OpenElement) (e : Endpoint)
    (he : e.Established opened) :
    (Sendable sender message → e.Delivered account sender message opened) ∧
      (ValueSafe sender.remote → ValueSafe sender.local → WellFormed message.escapedBody →
        Endless message.escapedBody →
          (e.Delivered account sender message opened ↔ Lexer.Plain message.plainBody)) := by
  refine ⟨arrive_sent account hSome hChars he, fun hRemote hLocal hHtml hEndless => ?_⟩
  constructor
  · exact plain_of_delivered account hRemote hLocal hHtml hEndless he
  · exact fun hPlain => arrive_sent account hSome hChars he ⟨hPlain, hRemote, hLocal, hHtml⟩

/-- Text without markup is a well-formed HTML form. -/
theorem wellFormed_plain {html : Text} (hChars : ∀ c ∈ html, isChar c)
    (hPlain : Lexer.Plain html) : WellFormed html := by
  have hScan : ∀ s : Text, BonjourContactConnection.scan true (s.map .character) = some true := by
    intro s
    induction s with
    | nil => rfl
    | cons c s ih => exact ih
  refine ⟨html.map .character, hScan html, fun opened => ?_⟩
  obtain ⟨k, hFeed⟩ := Lexer.feed_plain (htmlElements ++ opened) (List.cons_ne_nil _ _) hChars
    hPlain.unmarked (k := 0) hPlain.noEnd
  exact ⟨k, false, hFeed⟩

/-- Two contacts and the connection between them. -/
def marysConnection : BonjourContactConnection :=
  ⟨.connected, ⟨[], false⟩, "mary".toList, "tom".toList, 1, true, .empty, []⟩

def tomsEndpoint : Endpoint :=
  ⟨⟨.connected, ⟨[], false⟩, "tom".toList, "mary".toList, 2, true, .empty, []⟩,
    ⟨[⟨"stream:stream".toList, ["stream".toList]⟩], .content 0, false⟩⟩

theorem tomsEndpoint_established :
    tomsEndpoint.Established [⟨"stream:stream".toList, ["stream".toList]⟩] :=
  ⟨rfl, rfl, rfl, rfl, ⟨0, rfl⟩, rfl⟩

theorem marysConnection_safe :
    ValueSafe marysConnection.remote ∧ ValueSafe marysConnection.local := by
  exact ⟨Lexer.forall_of_all (by decide), Lexer.forall_of_all (by decide)⟩

def account : BonjourAccount := ⟨[], "tom".toList⟩

theorem delivered_hi :
    tomsEndpoint.Delivered account marysConnection ⟨"hi".toList, "hi".toList⟩
      [⟨"stream:stream".toList, ["stream".toList]⟩] :=
  (sent_iff account marysConnection ⟨"hi".toList, "hi".toList⟩ (by decide)
    (Lexer.forall_of_all (by decide)) _ tomsEndpoint tomsEndpoint_established).1
      ⟨⟨Lexer.forall_of_all (by decide), by decide⟩, marysConnection_safe.1,
        marysConnection_safe.2, wellFormed_plain (Lexer.forall_of_all (by decide))
          ⟨Lexer.forall_of_all (by decide), by decide⟩⟩

/-- A message that tells of a reference, whose HTML form is what the text editor makes of it. -/
def referenceMessage : Message := ⟨"&amp;".toList, "&amp;amp;".toList⟩

theorem wellFormed_reference : WellFormed referenceMessage.escapedBody := by
  refine ⟨"&amp;".toList.map .character, by decide, fun opened => ?_⟩
  have hAmp : Lexer.feed ⟨htmlElements ++ opened, .content 0, false⟩ "&amp;".toList =
      (⟨htmlElements ++ opened, .content 0, false⟩, [.character '&']) := by
    cbv
  obtain ⟨k, hRest⟩ := Lexer.feed_plain (htmlElements ++ opened) (List.cons_ne_nil _ _)
    (s := "amp;".toList) (Lexer.forall_of_all (by decide))
    (Lexer.forall_of_all (by decide)) (k := 0) (by decide)
  have hSplit : referenceMessage.escapedBody = "&amp;".toList ++ "amp;".toList := by
    decide
  refine ⟨k, false, ?_⟩
  rw [hSplit, Lexer.feed_append, hAmp]
  dsimp only
  rw [hRest]
  rfl

theorem endless_reference : Endless referenceMessage.escapedBody :=
  ⟨by decide, by decide +kernel⟩

theorem not_plain_reference : ¬ Lexer.Plain referenceMessage.plainBody := by
  intro hPlain
  have hMem : '&' ∈ referenceMessage.plainBody := by decide
  exact (hPlain.unmarked _ hMem).2.1 rfl

/-- It arrives as what the reference stands for. -/
theorem reference_lost :
    ¬ ∀ (account : BonjourAccount) (sender : BonjourContactConnection) (message : Message),
      message.plainBody ≠ [] → (∀ c ∈ message.plainBody, isChar c) →
      ∀ opened e, Endpoint.Established opened e → e.Delivered account sender message opened := by
  intro h
  have hDelivered := h account marysConnection referenceMessage (by decide) (Lexer.forall_of_all (by decide)) _
    tomsEndpoint tomsEndpoint_established
  exact not_plain_reference (plain_of_delivered account marysConnection_safe.1
    marysConnection_safe.2 wellFormed_reference endless_reference tomsEndpoint_established
    hDelivered)

end Bonjour
