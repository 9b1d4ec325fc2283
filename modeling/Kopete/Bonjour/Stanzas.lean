import Kopete.Bonjour.ContactConnection

/-!
# Bonjour — stanzas, whole and cut

What the connection makes of the tokens of a stanza that it reads from the beginning, of the
first tokens of one, and of a segment that begins inside one.

Main results:

* `dataInSocket_whole` — a stanza read from its beginning to its end;
* `dataInSocket_cut` — one of which only the first tokens are there;
* `dataInSocket_rest` — where the reading begins inside a stanza nothing is received.
-/

namespace Bonjour

open XmlStream

namespace BonjourContactConnection

/-- The connection where messages have been received, if it has a contact. -/
def hear (c : BonjourContactConnection) (texts : List Text) : BonjourContactConnection :=
  { c with received := c.received ++ if c.parent then texts else [] }

@[simp] theorem hear_nil (c : BonjourContactConnection) : c.hear [] = c := by
  simp [hear]

theorem hear_hear (c : BonjourContactConnection) (xs ys : List Text) :
    (c.hear xs).hear ys = c.hear (xs ++ ys) := by
  unfold hear
  cases c.parent <;> simp

variable (account : BonjourAccount) {c : BonjourContactConnection} {ts : List Token}

/-! ## Rounds -/

theorem handle_error (c : BonjourContactConnection) (h : c.parser.coming = []) :
    c.handle account errorToken = c := by
  obtain ⟨state, ⟨coming, failed⟩, alocal, remote, host, parent, socket, received⟩ := c
  obtain rfl : coming = [] := h
  cases state with
  | connected => show readData _ _ = _; rw [readData]; rfl
  | _ => rfl

theorem dataInSocket_atEnd (c : BonjourContactConnection) (h : c.parser.coming = []) :
    c.dataInSocket account = c := by
  have hRound : c.round account = c := by
    have hSeek : seek .startOrEndElement c.parser.coming = (errorToken, []) := by
      rw [h]
      rfl
    unfold round getNextTokenOf
    rw [hSeek]
    obtain ⟨state, ⟨coming, failed⟩, alocal, remote, host, parent, socket, received⟩ := c
    obtain rfl : coming = [] := h
    exact handle_error account _ rfl
  rw [dataInSocket, hRound, dif_pos (Reader.atEnd_iff.2 h)]

/-- The slot does one round after the other, to the end. -/
theorem dataInSocket_round (c : BonjourContactConnection) :
    c.dataInSocket account = (c.round account).dataInSocket account := by
  rw [dataInSocket]
  split
  case isTrue h => rw [dataInSocket_atEnd account _ (Reader.atEnd_iff.1 h)]
  case isFalse => rfl

theorem dataInSocket_tag {t : Token} (h : (xmlToken t).is .startOrEndElement) :
    (c.reading (t :: ts)).dataInSocket account =
      ((c.reading ts).handle account (xmlToken t)).dataInSocket account := by
  rw [dataInSocket_round]
  unfold round getNextTokenOf
  show (BonjourContactConnection.handle account { c.reading (t :: ts) with
    parser := ⟨(seek _ (t :: ts)).2, false⟩ } (seek _ (t :: ts)).1).dataInSocket account = _
  rw [seek, if_pos h]
  rfl

theorem dataInSocket_skip {t : Token} (h : ¬ (xmlToken t).is .startOrEndElement) :
    (c.reading (t :: ts)).dataInSocket account = (c.reading ts).dataInSocket account := by
  rw [dataInSocket_round, dataInSocket_round account (c.reading ts)]
  unfold round getNextTokenOf
  show (BonjourContactConnection.handle account { c.reading (t :: ts) with
    parser := ⟨(seek _ (t :: ts)).2, false⟩ } (seek _ (t :: ts)).1).dataInSocket account = _
  rw [seek, if_neg h]
  rfl

/-! ## What a connected connection makes of a token -/

/-- The names of tokens that no stanza begins with, nor the end of the stream. -/
def Silent (name : BonjourXmlTokenName) : Prop := name ≠ .message ∧ name ≠ .iq ∧ name ≠ .stream

theorem readData_silent {token : BonjourXmlToken} (h : Silent token.name) :
    c.readData token = c := by
  obtain ⟨hMessage, hIq, hStream⟩ := h
  rw [readData]
  split
  · exact absurd ‹_› hMessage
  · exact absurd ‹_› hStream
  · exact absurd ‹_› hIq
  · rfl

theorem handle_connected (hc : c.connectionState = .connected) (token : BonjourXmlToken) :
    c.handle account token = c.readData token := by
  rw [handle, hc]

theorem dataInSocket_silent (hc : c.connectionState = .connected) {t : Token}
    (h : Silent (tokenTable t.qualifiedName)) :
    (c.reading (t :: ts)).dataInSocket account = (c.reading ts).dataInSocket account := by
  by_cases hTag : (xmlToken t).is .startOrEndElement
  · rw [dataInSocket_tag account hTag, handle_connected account (c := c.reading ts) hc,
      readData_silent (show Silent (xmlToken t).name from h)]
  · exact dataInSocket_skip account hTag

theorem dataInSocket_silents (hc : c.connectionState = .connected) {q : List Token}
    (h : ∀ t ∈ q, Silent (tokenTable t.qualifiedName)) :
    (c.reading (q ++ ts)).dataInSocket account = (c.reading ts).dataInSocket account := by
  induction q with
  | nil => rfl
  | cons t q ih =>
    rw [List.cons_append, dataInSocket_silent account hc (h t List.mem_cons_self)]
    exact ih fun u hu => h u (List.mem_cons_of_mem _ hu)

/-- Nothing but tokens that nothing is done about. -/
theorem dataInSocket_onlySilents (hc : c.connectionState = .connected) {q : List Token}
    (h : ∀ t ∈ q, Silent (tokenTable t.qualifiedName)) :
    (c.reading q).dataInSocket account = c.reading [] := by
  rw [← List.append_nil q, dataInSocket_silents account hc h]
  exact dataInSocket_atEnd account _ rfl

theorem silent_none : Silent .none := by
  unfold Silent
  decide

theorem silent_body : Silent .body := by
  unfold Silent
  decide

/-- What is no tag has no name. -/
theorem silent_of_noTag {t : Token} (h : ¬ (xmlToken t).is .startOrEndElement) :
    Silent (xmlToken t).name := by
  cases t with
  | startElement | endElement => exact absurd rfl h
  | _ => exact silent_none

/-- A token named `iq` has everything skipped up to the next one, and that is all. -/
theorem dataInSocket_iq (hc : c.connectionState = .connected) {t : Token}
    (hTag : (xmlToken t).is .startOrEndElement) (hName : tokenTable t.qualifiedName = .iq) :
    (c.reading (t :: ts)).dataInSocket account =
      (c.reading (seek .iq ts).2).dataInSocket account := by
  rw [dataInSocket_tag account hTag, handle_connected account (c := c.reading ts) hc, readData]
  have hIq : (xmlToken t).name = .iq := hName
  rw [hIq]
  show (if _ : (seek .iq ts).2.isEmpty then _ else _ : BonjourContactConnection).dataInSocket _ = _
  have hAfter : afterIq (c.reading ts).parser = getNextToken ⟨(seek .iq ts).2, false⟩ := rfl
  rw [hAfter]
  split
  case isTrue h =>
    rw [List.isEmpty_iff.1 h]
    rfl
  case isFalse h =>
    cases hRest : (seek .iq ts).2 with
    | nil => exact absurd (List.isEmpty_iff.2 hRest) h
    | cons u us =>
      show ((c.reading us).readData (xmlToken u)).dataInSocket account = _
      by_cases hTag' : (xmlToken u).is .startOrEndElement
      · rw [dataInSocket_tag account hTag', handle_connected account (c := c.reading us) hc]
      · rw [dataInSocket_skip account hTag', readData_silent (silent_of_noTag hTag')]

theorem dataInSocket_message (hc : c.connectionState = .connected) {t : Token}
    (hTag : (xmlToken t).is .startOrEndElement) (hName : tokenTable t.qualifiedName = .message)
    (hChat : value t.attributes "type" = "chat".toList ∨ value t.attributes "type" = []) :
    (c.reading (t :: ts)).dataInSocket account = (c.reading ts).readMessage.dataInSocket account := by
  rw [dataInSocket_tag account hTag, handle_connected account (c := c.reading ts) hc, readData]
  have hMessage : (xmlToken t).name = .message := hName
  rw [hMessage]
  exact congrArg _ (if_pos hChat)

/-- The message that a text makes, if it is not empty. -/
def spoken (plaintext : Text) : List Text := if plaintext = [] then [] else [plaintext]

/-- What the loop of `readMessage` finds decides what is received. -/
theorem readMessage_eq {plaintext : Text} {rest : List Token}
    (h : messageText ⟨ts, false⟩ [] false = (plaintext, ⟨rest, false⟩)) :
    (c.reading ts).readMessage = (c.hear (spoken plaintext)).reading rest := by
  have hParser : (c.reading ts).parser = ⟨ts, false⟩ := rfl
  unfold readMessage spoken
  rw [hParser, h]
  dsimp only
  obtain ⟨state, parser, alocal, remote, host, parent, socket, received⟩ := c
  split
  · simp [hear, reading]
  · cases parent <;> simp [hear, reading]

/-! ## The loop of `readMessage` -/

theorem messageText_nil (failed : Bool) (plaintext : Text) (inHtml : Bool) :
    messageText ⟨[], failed⟩ plaintext inHtml = (plaintext, ⟨[], failed⟩) := by
  rw [messageText]
  rfl

theorem messageText_cons (t : Token) (plaintext : Text) (inHtml : Bool) :
    messageText ⟨t :: ts, false⟩ plaintext inHtml =
      match tokenTable t.qualifiedName with
      | .body =>
        if inHtml then messageText ⟨ts, false⟩ plaintext inHtml
        else messageText (Reader.readElementText t.type ⟨ts, false⟩).2
          (Reader.readElementText t.type ⟨ts, false⟩).1 inHtml
      | .html => messageText ⟨ts, false⟩ plaintext (t.type = .startElement)
      | .message => (plaintext, ⟨ts, false⟩)
      | _ => messageText ⟨ts, false⟩ plaintext inHtml := by
  rw [messageText, dif_neg (by exact fun h => Bool.noConfusion h)]
  rfl

/-- The loop goes over the tokens and finds nothing: no end of the message, and no body that
is not in the `html` element. The result tells if it is in that element afterwards. -/
def scan : Bool → List Token → Option Bool
  | inHtml, [] => some inHtml
  | inHtml, t :: ts =>
    match tokenTable t.qualifiedName with
    | .message => none
    | .body => if inHtml then scan inHtml ts else none
    | .html => scan (t.type = .startElement) ts
    | _ => scan inHtml ts

theorem scan_append (inHtml : Bool) (q r : List Token) :
    scan inHtml (q ++ r) = (scan inHtml q).bind fun b => scan b r := by
  induction q generalizing inHtml with
  | nil => rfl
  | cons t q ih =>
    rw [List.cons_append, scan, scan]
    split
    · rfl
    · split
      · exact ih _
      · rfl
    · exact ih _
    · exact ih _

/-- So it does over the first of them. -/
theorem scan_take {inHtml b : Bool} {q : List Token} (h : scan inHtml q = some b) (n : Nat) :
    ∃ b', scan inHtml (q.take n) = some b' := by
  rw [← List.take_append_drop n q, scan_append] at h
  cases hTake : scan inHtml (q.take n) with
  | none =>
    rw [hTake] at h
    exact absurd h (by simp)
  | some b' => exact ⟨b', rfl⟩

theorem messageText_scan {inHtml b : Bool} {q : List Token} (h : scan inHtml q = some b)
    (plaintext : Text) :
    messageText ⟨q ++ ts, false⟩ plaintext inHtml = messageText ⟨ts, false⟩ plaintext b := by
  induction q generalizing inHtml with
  | nil =>
    rw [scan] at h
    rw [Option.some.inj h]
    rfl
  | cons t q ih =>
    rw [scan] at h
    rw [List.cons_append, messageText_cons]
    cases hName : tokenTable t.qualifiedName with
    | message =>
      rw [hName] at h
      exact absurd h (by simp)
    | body =>
      rw [hName] at h
      cases inHtml with
      | true => exact ih h
      | false => exact absurd h (by simp)
    | _ =>
      rw [hName] at h
      exact ih h

end BonjourContactConnection

/-! ## Stanzas -/

/-- A chat message: the text of its body, and what stands before and after the body. -/
structure ChatMessage where
  attributes : List (String × Text)
  before : List (Dom.Node Char)
  bodyAttributes : List (String × Text)
  body : Text
  after : List (Dom.Node Char)
  chat : value attributes "type" = "chat".toList ∨ value attributes "type" = []

/-- What comes after the tag of the stream, white space a character at a time. -/
inductive Stanza where
  | space (ch : Char)
  | message (m : ChatMessage)
  | iq (attributes : List (String × Text)) (content : List (Dom.Node Char))

namespace Stanza

/-- The tokens between the tags of the stanza. -/
def inner : Stanza → List Token
  | .space _ => []
  | .message m =>
    tokensOfAll m.before ++ .startElement "body" m.bodyAttributes ::
      (m.body.map .character ++ .endElement "body" :: tokensOfAll m.after)
  | .iq _ content => tokensOfAll content

def tokens : Stanza → List Token
  | .space ch => [.character ch]
  | .message m => .startElement "message" m.attributes ::
      (inner (.message m) ++ [.endElement "message"])
  | .iq attributes content => .startElement "iq" attributes ::
      (inner (.iq attributes content) ++ [.endElement "iq"])

/-- The messages of a stanza, of which there is at most one. -/
def said : Stanza → List Text
  | .message m => BonjourContactConnection.spoken m.body
  | .space _ | .iq _ _ => []

/-- What the first `n` tokens have of the messages. -/
def partly (n : Nat) : Stanza → List Text
  | .message m =>
    BonjourContactConnection.spoken (m.body.take (n - ((tokensOfAll m.before).length + 2)))
  | .space _ | .iq _ _ => []

/-- The first `n` tokens have all of the text. -/
def Heard (n : Nat) : Stanza → Prop
  | .message m => m.body = [] ∨ (tokensOfAll m.before).length + 2 + m.body.length ≤ n
  | .space _ | .iq _ _ => True

/-- The end of a stanza is the next tag of its name, and a body of a message is only found
within `html` besides its own. -/
def Delimited : Stanza → Prop
  | .space _ => True
  | .message m =>
    BonjourContactConnection.scan false (tokensOfAll m.before) = some false ∧
      BonjourContactConnection.scan false (tokensOfAll m.after) = some false
  | .iq _ content => ∀ t ∈ tokensOfAll content, tokenTable t.qualifiedName ≠ .iq

/-- No tag inside the stanza is one that begins or ends a stanza, and a body besides that of a
message is only found within `html`. -/
def Quiet : Stanza → Prop
  | .space _ => True
  | .message m =>
    BonjourContactConnection.scan false (tokensOfAll m.before) = some false ∧
      BonjourContactConnection.scan false (tokensOfAll m.after) = some false ∧
      ∀ t ∈ tokensOfAll m.before ++ tokensOfAll m.after,
        BonjourContactConnection.Silent (tokenTable t.qualifiedName)
  | .iq _ content =>
    BonjourContactConnection.scan false (tokensOfAll content) = some false ∧
      ∀ t ∈ tokensOfAll content, BonjourContactConnection.Silent (tokenTable t.qualifiedName)

theorem Quiet.delimited {s : Stanza} (h : s.Quiet) : s.Delimited := by
  cases s with
  | space => trivial
  | message m => exact ⟨h.1, h.2.1⟩
  | iq attributes content => exact fun t ht => (h.2 t ht).2.1

end Stanza

namespace BonjourContactConnection

variable (account : BonjourAccount) {c : BonjourContactConnection} {ts : List Token}

theorem silent_characters (s : Text) :
    ∀ t ∈ s.map Token.character, Silent (tokenTable t.qualifiedName) := by
  intro t ht
  obtain ⟨ch, -, rfl⟩ := List.mem_map.1 ht
  exact silent_none

theorem tag_start (name : String) (attributes : List (String × Text)) :
    (xmlToken (.startElement name attributes)).is .startOrEndElement := rfl

theorem tag_end (name : String) : (xmlToken (.endElement name)).is .startOrEndElement := rfl

theorem seek_skip {name : BonjourXmlTokenName} {q : List Token}
    (h : ∀ t ∈ q, ¬ (xmlToken t).is name) : seek name (q ++ ts) = seek name ts := by
  induction q with
  | nil => rfl
  | cons t q ih =>
    rw [List.cons_append, seek, if_neg (h t List.mem_cons_self)]
    exact ih fun u hu => h u (List.mem_cons_of_mem _ hu)

theorem is_iq {t : Token} : (xmlToken t).is .iq ↔ tokenTable t.qualifiedName = .iq :=
  decide_eq_true_iff

theorem messageText_prematureEnd (plaintext : Text) (inHtml : Bool) :
    messageText ⟨[.prematureEnd], false⟩ plaintext inHtml = (plaintext, ⟨[], false⟩) := by
  rw [messageText_cons]
  exact messageText_nil false plaintext inHtml

theorem messageText_end (plaintext : Text) (inHtml : Bool) :
    messageText ⟨.endElement "message" :: ts, false⟩ plaintext inHtml =
      (plaintext, ⟨ts, false⟩) := by
  rw [messageText_cons]
  rfl

/-- The body of the message. -/
theorem messageText_body (attributes : List (String × Text)) (plaintext : Text) :
    messageText ⟨.startElement "body" attributes :: ts, false⟩ plaintext false =
      messageText (Reader.elementText ts).2 (Reader.elementText ts).1 false := by
  rw [messageText_cons]
  have hText : Reader.readElementText .startElement ⟨ts, false⟩ = Reader.elementText ts := by
    rw [Reader.readElementText, if_pos rfl, Bool.or_false]
  show messageText (Reader.readElementText .startElement ⟨ts, false⟩).2
    (Reader.readElementText .startElement ⟨ts, false⟩).1 false = _
  rw [hText]

/-- The text of a chat message is that of its body. -/
theorem messageText_chat {q r : List Token} (hq : scan false q = some false)
    (hr : scan false r = some false) (attributes : List (String × Text)) (body : Text) :
    messageText ⟨q ++ .startElement "body" attributes :: (body.map .character ++
      .endElement "body" :: (r ++ .endElement "message" :: ts)), false⟩ [] false =
        (body, ⟨ts, false⟩) := by
  rw [messageText_scan hq, messageText_body, Reader.elementText_characters]
  show messageText ⟨r ++ .endElement "message" :: ts, false⟩ (body ++ []) false = _
  rw [messageText_scan hr, List.append_nil]
  exact messageText_end body false

/-- **A whole stanza** that is read from its beginning. -/
theorem dataInSocket_whole (hc : c.connectionState = .connected) {s : Stanza} (h : s.Delimited) :
    (c.reading (s.tokens ++ ts)).dataInSocket account =
      ((c.hear s.said).reading ts).dataInSocket account := by
  cases s with
  | space ch =>
    rw [Stanza.said, hear_nil]
    exact dataInSocket_silent account hc silent_none
  | message m =>
    obtain ⟨hBefore, hAfter⟩ := h
    show (c.reading (.startElement "message" m.attributes ::
      ((Stanza.message m).inner ++ [.endElement "message"]) ++ ts)).dataInSocket account = _
    rw [List.cons_append, dataInSocket_message account hc (tag_start _ _) rfl m.chat]
    have hText : messageText ⟨(Stanza.message m).inner ++ [.endElement "message"] ++ ts, false⟩
        [] false = (m.body, ⟨ts, false⟩) := by
      rw [Stanza.inner, List.append_assoc, List.append_assoc, List.cons_append, List.append_assoc,
        List.cons_append]
      exact messageText_chat hBefore hAfter m.bodyAttributes m.body
    rw [readMessage_eq hText]
    rfl
  | iq attributes content =>
    show (c.reading (.startElement "iq" attributes ::
      (tokensOfAll content ++ [.endElement "iq"]) ++ ts)).dataInSocket account = _
    rw [List.cons_append, dataInSocket_iq account hc (tag_start _ _) rfl, List.append_assoc,
      seek_skip fun t ht => mt is_iq.1 (h t ht), Stanza.said, hear_nil]
    rfl

/-- The text of a message of which the first `k` tokens after the tag are there. -/
theorem messageText_cut {m : ChatMessage} (h : (Stanza.message m).Delimited) (k : Nat) :
    messageText ⟨(Stanza.message m).inner.take k ++ [.prematureEnd], false⟩ [] false =
      (m.body.take (k - ((tokensOfAll m.before).length + 1)), ⟨[], false⟩) := by
  obtain ⟨hBefore, hAfter⟩ := h
  rw [Stanza.inner]
  by_cases hk : k ≤ (tokensOfAll m.before).length
  · -- The body has not begun.
    obtain ⟨b, hb⟩ := scan_take hBefore k
    rw [List.take_append_of_le_length hk, messageText_scan hb, messageText_prematureEnd,
      Nat.sub_eq_zero_of_le (by omega), List.take_zero]
  · obtain ⟨j, rfl⟩ : ∃ j, k = (tokensOfAll m.before).length + (j + 1) :=
      ⟨k - (tokensOfAll m.before).length - 1, by omega⟩
    rw [List.take_length_add_append, List.take_succ_cons, List.append_assoc,
      messageText_scan hBefore, List.cons_append, messageText_body]
    have hj : (tokensOfAll m.before).length + (j + 1) - ((tokensOfAll m.before).length + 1) = j := by
      omega
    rw [hj]
    by_cases hBody : j ≤ m.body.length
    · rw [List.take_append_of_le_length (by rw [List.length_map]; exact hBody), ← List.map_take,
        Reader.elementText_characters]
      show messageText ⟨[], false⟩ (m.body.take j ++ []) false = _
      rw [List.append_nil, messageText_nil]
    · obtain ⟨i, rfl⟩ : ∃ i, j = (m.body.map Token.character).length + (i + 1) :=
        ⟨j - m.body.length - 1, by rw [List.length_map]; omega⟩
      obtain ⟨b, hb⟩ := scan_take hAfter i
      rw [List.take_length_add_append, List.take_succ_cons, List.append_assoc, List.cons_append,
        Reader.elementText_characters]
      show messageText ⟨(tokensOfAll m.after).take i ++ [.prematureEnd], false⟩
        (m.body ++ []) false = _
      rw [messageText_scan hb, messageText_prematureEnd, List.append_nil,
        List.take_of_length_le (by rw [List.length_map]; omega)]

/-- **A stanza that is cut**: only its first tokens are there. -/
theorem dataInSocket_cut (hc : c.connectionState = .connected) {s : Stanza} (h : s.Delimited)
    {n : Nat} (hSome : n ≠ 0) (hCut : n < s.tokens.length) :
    (c.reading (s.tokens.take n ++ [.prematureEnd])).dataInSocket account =
      (c.hear (s.partly n)).reading [] := by
  cases s with
  | space ch => exact absurd (Nat.lt_one_iff.1 hCut) hSome
  | message m =>
    obtain ⟨k, rfl⟩ := Nat.exists_eq_succ_of_ne_zero hSome
    have hLe : k ≤ (Stanza.message m).inner.length := by
      have hLength : (Stanza.message m).tokens.length = (Stanza.message m).inner.length + 1 + 1 := by
        simp [Stanza.tokens]
      omega
    show (c.reading (.startElement "message" m.attributes ::
      (((Stanza.message m).inner ++ [Token.endElement "message"]).take k ++
        [.prematureEnd]))).dataInSocket account = _
    rw [dataInSocket_message account hc (tag_start _ _) rfl m.chat,
      List.take_append_of_le_length hLe, readMessage_eq (messageText_cut h k), Stanza.partly,
      Nat.succ_sub_succ]
    exact dataInSocket_atEnd account _ rfl
  | iq attributes content =>
    obtain ⟨k, rfl⟩ := Nat.exists_eq_succ_of_ne_zero hSome
    show (c.reading (.startElement "iq" attributes ::
      ((tokensOfAll content ++ [Token.endElement "iq"]).take k ++ [.prematureEnd]))).dataInSocket
        account = _
    have hLe : k ≤ (tokensOfAll content).length := by
      have hLength : (Stanza.iq attributes content).tokens.length =
        (tokensOfAll content).length + 1 + 1 := by
        simp [Stanza.tokens, Stanza.inner]
      omega
    rw [dataInSocket_iq account hc (tag_start _ _) rfl, List.take_append_of_le_length hLe,
      seek_skip fun t ht => mt is_iq.1 (h t (List.mem_of_mem_take ht)), Stanza.partly, hear_nil]
    exact dataInSocket_atEnd account _ rfl

/-! ## Reading that begins inside a stanza -/

/-- Nothing is received from the tokens. -/
def Mute (ts : List Token) : Prop :=
  ∀ c : BonjourContactConnection, c.connectionState = .connected →
    (c.reading ts).dataInSocket account = c.reading []

variable {account}

theorem mute_silents {q : List Token} (h : ∀ t ∈ q, Silent (tokenTable t.qualifiedName)) :
    Mute account (q ++ [.prematureEnd]) := by
  intro c hc
  refine dataInSocket_onlySilents account hc fun t ht => ?_
  rcases List.mem_append.1 ht with ht | ht
  · exact h t ht
  · rw [List.mem_singleton.1 ht]
    exact silent_none

/-- The rest of a stanza is as mute as its end tag. -/
theorem mute_rest {q r : List Token} {e : Token}
    (hSilent : ∀ t ∈ q, Silent (tokenTable t.qualifiedName))
    (hEnd : ∀ i, Mute account (e :: (r.take i ++ [.prematureEnd]))) (k : Nat) :
    Mute account ((q ++ e :: r).take k ++ [.prematureEnd]) := by
  by_cases hk : k ≤ q.length
  · rw [List.take_append_of_le_length hk]
    exact mute_silents fun t ht => hSilent t (List.mem_of_mem_take ht)
  · obtain ⟨i, rfl⟩ : ∃ i, k = q.length + (i + 1) := ⟨k - q.length - 1, by omega⟩
    intro c hc
    rw [List.take_length_add_append, List.take_succ_cons, List.append_assoc,
      dataInSocket_silents account hc hSilent]
    exact hEnd i c hc

theorem endMessage_scan {q : List Token} {b : Bool} (hc : c.connectionState = .connected)
    (h : scan false q = some b) :
    (c.reading (.endElement "message" :: (q ++ [.prematureEnd]))).dataInSocket account =
      c.reading [] := by
  rw [dataInSocket_message account hc (tag_end _) rfl (.inr rfl),
    readMessage_eq ((messageText_scan h []).trans (messageText_prematureEnd [] b))]
  show ((c.hear []).reading []).dataInSocket account = _
  rw [hear_nil]
  exact dataInSocket_atEnd account _ rfl

/-- An end tag of a message that is taken for the beginning of one: the reading goes on
behind what it scans. -/
theorem endMessage_skip {q : List Token} (hc : c.connectionState = .connected)
    (h : scan false q = some false) :
    (c.reading (.endElement "message" :: (q ++ ts))).dataInSocket account =
      (c.reading (.endElement "message" :: ts)).dataInSocket account := by
  rw [dataInSocket_message account hc (tag_end _) rfl (.inr rfl),
    dataInSocket_message account hc (tag_end _) rfl (.inr rfl)]
  have hText : messageText (c.reading (q ++ ts)).parser [] false =
      messageText (c.reading ts).parser [] false := messageText_scan h []
  unfold readMessage
  rw [hText]
  rfl

/-- The next message is its end. -/
theorem endMessage_message (hc : c.connectionState = .connected)
    (attributes : List (String × Text)) :
    (c.reading (.endElement "message" :: .startElement "message" attributes :: ts)).dataInSocket
        account = (c.reading ts).dataInSocket account := by
  have hText : messageText ⟨.startElement "message" attributes :: ts, false⟩ [] false =
      ([], ⟨ts, false⟩) := messageText_cons _ _ _
  rw [dataInSocket_message account hc (tag_end _) rfl (.inr rfl), readMessage_eq hText]
  show ((c.hear []).reading ts).dataInSocket account = _
  rw [hear_nil]

end BonjourContactConnection

namespace Stanza

open BonjourContactConnection

theorem Quiet.silent_inner {s : Stanza} (h : s.Quiet) :
    ∀ t ∈ s.inner, Silent (tokenTable t.qualifiedName) := by
  intro t ht
  cases s with
  | space ch => exact absurd ht List.not_mem_nil
  | message m =>
    rcases List.mem_append.1 ht with ht | ht
    · exact h.2.2 t (List.mem_append_left _ ht)
    · rcases List.mem_cons.1 ht with rfl | ht
      · exact silent_body
      · rcases List.mem_append.1 ht with ht | ht
        · exact silent_characters m.body t ht
        · rcases List.mem_cons.1 ht with rfl | ht
          · exact silent_body
          · exact h.2.2 t (List.mem_append_right _ ht)
  | iq attributes content => exact h.2 t ht

end Stanza

namespace BonjourContactConnection

variable {account : BonjourAccount}

/-- Behind an end tag of a message that is read as a beginning no message is received. -/
theorem mute_endMessage {ss : List Stanza} (h : ∀ s ∈ ss, s.Quiet) (k : Nat) :
    Mute account
      (.endElement "message" :: ((ss.flatMap Stanza.tokens).take k ++ [.prematureEnd])) := by
  induction ss generalizing k with
  | nil =>
    intro c hc
    rw [List.flatMap_nil, List.take_nil]
    exact endMessage_scan hc rfl
  | cons s ss ih =>
    have hRest := ih fun s' hs' => h s' (List.mem_cons_of_mem _ hs')
    have hQuiet := h s List.mem_cons_self
    -- What is scanned is skipped, as far as it is there.
    have hSkip : scan false s.tokens = some false → Mute account (.endElement "message" ::
        (((s :: ss).flatMap Stanza.tokens).take k ++ [.prematureEnd])) := by
      intro hScan c hc
      rw [List.flatMap_cons]
      by_cases hk : k ≤ s.tokens.length
      · obtain ⟨b, hb⟩ := scan_take hScan k
        rw [List.take_append_of_le_length hk]
        exact endMessage_scan hc hb
      · obtain ⟨i, rfl⟩ : ∃ i, k = s.tokens.length + i := ⟨k - s.tokens.length, by omega⟩
        rw [List.take_length_add_append, List.append_assoc, endMessage_skip hc hScan]
        exact hRest i c hc
    cases s with
    | space ch => exact hSkip rfl
    | iq attributes content =>
      refine hSkip ?_
      show scan false (.startElement "iq" attributes ::
        (tokensOfAll content ++ [.endElement "iq"])) = _
      have hInner : scan false (tokensOfAll content ++ [Token.endElement "iq"]) = some false := by
        rw [scan_append, hQuiet.1]
        rfl
      exact hInner
    | message m =>
      intro c hc
      cases k with
      | zero =>
        rw [List.take_zero]
        exact endMessage_scan hc rfl
      | succ j =>
        rw [List.flatMap_cons]
        show (c.reading (.endElement "message" :: .startElement "message" m.attributes ::
          (((Stanza.message m).inner ++ [Token.endElement "message"] ++
            ss.flatMap Stanza.tokens).take j ++ [.prematureEnd]))).dataInSocket account = _
        rw [endMessage_message hc, List.append_assoc]
        exact mute_rest hQuiet.silent_inner hRest j c hc

/-- No more so behind an end tag of an iq stanza. -/
theorem mute_endIq {ss : List Stanza} (h : ∀ s ∈ ss, s.Quiet) (k : Nat) :
    Mute account (.endElement "iq" :: ((ss.flatMap Stanza.tokens).take k ++ [.prematureEnd])) := by
  induction ss generalizing k with
  | nil =>
    intro c hc
    rw [List.flatMap_nil, List.take_nil, dataInSocket_iq account hc (tag_end _) rfl]
    exact dataInSocket_atEnd account _ rfl
  | cons s ss ih =>
    have hRest := ih fun s' hs' => h s' (List.mem_cons_of_mem _ hs')
    have hQuiet := h s List.mem_cons_self
    have hSkip : (∀ t ∈ s.tokens, ¬ (xmlToken t).is .iq) → Mute account (.endElement "iq" ::
        (((s :: ss).flatMap Stanza.tokens).take k ++ [.prematureEnd])) := by
      intro hNone c hc
      rw [List.flatMap_cons]
      by_cases hk : k ≤ s.tokens.length
      · rw [List.take_append_of_le_length hk, dataInSocket_iq account hc (tag_end _) rfl,
          seek_skip fun t ht => hNone t (List.mem_of_mem_take ht)]
        exact dataInSocket_atEnd account _ rfl
      · obtain ⟨i, rfl⟩ : ∃ i, k = s.tokens.length + i := ⟨k - s.tokens.length, by omega⟩
        rw [List.take_length_add_append, List.append_assoc,
          dataInSocket_iq account hc (tag_end _) rfl, seek_skip hNone,
          ← dataInSocket_iq account hc (tag_end "iq") rfl]
        exact hRest i c hc
    cases s with
    | space ch =>
      refine hSkip fun t ht => ?_
      rw [List.mem_singleton.1 ht]
      exact Bool.false_ne_true
    | message m =>
      refine hSkip fun t ht => ?_
      rcases List.mem_cons.1 ht with rfl | ht
      · exact Bool.false_ne_true
      · rcases List.mem_append.1 ht with ht | ht
        · exact mt is_iq.1 (hQuiet.silent_inner t ht).2.1
        · rw [List.mem_singleton.1 ht]
          exact Bool.false_ne_true
    | iq attributes content =>
      intro c hc
      cases k with
      | zero =>
        rw [List.take_zero, dataInSocket_iq account hc (tag_end _) rfl]
        exact dataInSocket_atEnd account _ rfl
      | succ j =>
        rw [List.flatMap_cons]
        show (c.reading (.endElement "iq" :: .startElement "iq" attributes ::
          ((tokensOfAll content ++ [Token.endElement "iq"] ++
            ss.flatMap Stanza.tokens).take j ++ [.prematureEnd]))).dataInSocket account = _
        rw [dataInSocket_iq account hc (tag_end _) rfl, List.append_assoc]
        exact mute_rest hQuiet.silent_inner hRest j c hc

/-- **A segment that begins inside a stanza**: nothing is received from it, neither the
stanza nor those behind it. -/
theorem mute_inside (account : BonjourAccount) {s : Stanza} (hs : s.Quiet) {ss : List Stanza} (h : ∀ s ∈ ss, s.Quiet)
    {n : Nat} (hBegun : n ≠ 0) (hInside : n < s.tokens.length) (k : Nat) :
    Mute account ((s.tokens.drop n ++ ss.flatMap Stanza.tokens).take k ++ [.prematureEnd]) := by
  obtain ⟨j, rfl⟩ := Nat.exists_eq_succ_of_ne_zero hBegun
  have hDrop : ∀ e : Token, j < (s.inner ++ [e]).length →
      (s.inner ++ [e]).drop j ++ ss.flatMap Stanza.tokens =
        s.inner.drop j ++ e :: ss.flatMap Stanza.tokens := by
    intro e hj
    rw [List.length_append] at hj
    rw [List.drop_append_of_le_length (Nat.lt_succ_iff.1 hj), List.append_assoc]
    rfl
  have hSilent : ∀ t ∈ s.inner.drop j, Silent (tokenTable t.qualifiedName) := fun t ht =>
    hs.silent_inner t (List.mem_of_mem_drop ht)
  cases s with
  | space ch => exact absurd hInside (Nat.not_lt.2 (Nat.succ_le_succ (Nat.zero_le j)))
  | message m =>
    show Mute account ((((Stanza.message m).inner ++ [Token.endElement "message"]).drop j ++
      ss.flatMap Stanza.tokens).take k ++ [.prematureEnd])
    rw [hDrop _ (Nat.lt_of_succ_lt_succ hInside)]
    exact mute_rest hSilent (mute_endMessage h) k
  | iq attributes content =>
    show Mute account ((((Stanza.iq attributes content).inner ++ [Token.endElement "iq"]).drop j ++
      ss.flatMap Stanza.tokens).take k ++ [.prematureEnd])
    rw [hDrop _ (Nat.lt_of_succ_lt_succ hInside)]
    exact mute_rest hSilent (mute_endIq h) k

end BonjourContactConnection

end Bonjour
