import Kopete.Lib.XmlLexer
import Kopete.Bonjour.Stanzas

/-!
# Bonjour — how long a received text can be

A text is received only where the loop of `readMessage` runs, from behind a tag named
`message`. It has no more characters than there are in front of a tag that ends a body and
with it all bodies.

Main results:

* `received_dataInSocket` — what bounds the texts behind all these tags bounds what is received;
* `length_messageText` — what bounds them.
-/

namespace Bonjour

open XmlStream

/-! ## The text of a body -/

/-- The text up to a tag that is to come, with what is left. -/
theorem elementText_bound (q : List Token) (name : String) (ts : List Token) :
    (Reader.elementText (q ++ .endElement name :: ts)).1.length ≤ Lexer.letters q ∧
      ((Reader.elementText (q ++ .endElement name :: ts)).2 = ⟨[], true⟩ ∨
        (Reader.elementText (q ++ .endElement name :: ts)).2 = ⟨ts, false⟩ ∨
        ∃ q', q'.length < q.length ∧ Lexer.letters q' ≤ Lexer.letters q ∧
          (Reader.elementText (q ++ .endElement name :: ts)).2 =
            ⟨q' ++ .endElement name :: ts, false⟩) := by
  induction q with
  | nil => exact ⟨Nat.le_refl _, .inr (.inl rfl)⟩
  | cons t q ih =>
    have hLetters : Lexer.letters (t :: q) = t.text.length + Lexer.letters q := rfl
    have hOn : ∀ {r : Reader}, (r = ⟨[], true⟩ ∨ r = ⟨ts, false⟩ ∨
        ∃ q', q'.length < q.length ∧ Lexer.letters q' ≤ Lexer.letters q ∧
          r = ⟨q' ++ .endElement name :: ts, false⟩) →
        (r = ⟨[], true⟩ ∨ r = ⟨ts, false⟩ ∨
        ∃ q', q'.length < (t :: q).length ∧ Lexer.letters q' ≤ Lexer.letters (t :: q) ∧
          r = ⟨q' ++ .endElement name :: ts, false⟩) := by
      rintro r (h | h | ⟨q', hShorter, hLess, h⟩)
      · exact .inl h
      · exact .inr (.inl h)
      · exact .inr (.inr ⟨q', Nat.lt_succ_of_lt hShorter, by omega, h⟩)
    have hHere : ∃ q', q'.length < (t :: q).length ∧
        Lexer.letters q' ≤ Lexer.letters (t :: q) ∧
        (⟨q ++ .endElement name :: ts, false⟩ : Reader) = ⟨q' ++ .endElement name :: ts, false⟩ :=
      ⟨q, Nat.lt_succ_self _, by omega, rfl⟩
    cases t with
    | character c =>
      refine ⟨?_, hOn ih.2⟩
      show (Reader.elementText (q ++ .endElement name :: ts)).1.length + 1 ≤ _
      rw [hLetters, Nat.add_comm]
      exact Nat.add_le_add_left ih.1 1
    | comment =>
      refine ⟨?_, hOn ih.2⟩
      rw [hLetters]
      exact Nat.le_trans ih.1 (Nat.le_add_left _ _)
    | endElement | prematureEnd => exact ⟨Nat.zero_le _, .inr (.inr hHere)⟩
    | startElement | startDocument => exact ⟨Nat.zero_le _, .inl rfl⟩

namespace BonjourContactConnection

/-- A body tag in the loop: what its text is and what is left, where it is no start tag. -/
theorem readElementText_of_end {t : Token} (h : t.type ≠ .startElement) (ts : List Token) :
    Reader.readElementText t.type ⟨ts, false⟩ = ([], ⟨ts, false⟩) := by
  unfold Reader.readElementText
  rw [if_neg h]

theorem readElementText_of_start {t : Token} (h : t.type = .startElement) (ts : List Token) :
    Reader.readElementText t.type ⟨ts, false⟩ = Reader.elementText ts := by
  unfold Reader.readElementText
  rw [if_pos h, Bool.or_false]

/-- **What bounds the text** of a message: the characters in front of an end tag of a body,
behind which the loop comes to the end of the message. -/
theorem length_messageText_le {ts us : List Token} (h : ∀ b, scan b ts = some false)
    (q : List Token) (plaintext : Text) (inHtml : Bool) :
    (messageText ⟨q ++ .endElement "body" :: (ts ++ .endElement "message" :: us), false⟩
      plaintext inHtml).1.length ≤ max plaintext.length (Lexer.letters q) := by
  have hRest : ∀ p b, (messageText ⟨ts ++ .endElement "message" :: us, false⟩ p b).1 = p := by
    intro p b
    rw [messageText_scan (h b), messageText_end]
  induction hLength : q.length using Nat.strongRecOn generalizing q plaintext inHtml with
  | ind n ih =>
    subst hLength
    cases q with
    | nil =>
      rw [List.nil_append, messageText_cons]
      show (if inHtml then _ else _ : Text × Reader).1.length ≤ _
      split
      · rw [hRest]
        exact Nat.le_max_left _ _
      · rw [readElementText_of_end (by simp [Token.type]), hRest]
        exact Nat.zero_le _
    | cons t q =>
      have hLetters : Lexer.letters (t :: q) = t.text.length + Lexer.letters q := rfl
      have hSkip : ∀ b, (messageText ⟨q ++ .endElement "body" ::
          (ts ++ .endElement "message" :: us), false⟩ plaintext b).1.length ≤
            max plaintext.length (Lexer.letters (t :: q)) := by
        intro b
        refine Nat.le_trans (ih _ (Nat.lt_succ_self _) q plaintext b rfl) ?_
        omega
      rw [List.cons_append, messageText_cons]
      split
      · split
        · exact hSkip _
        · by_cases hStart : t.type = .startElement
          · rw [readElementText_of_start hStart]
            obtain ⟨hText, hLeft⟩ := elementText_bound q "body"
              (ts ++ .endElement "message" :: us)
            rcases hLeft with hLeft | hLeft | ⟨q', hShorter, hLess, hLeft⟩
            · rw [hLeft, messageText_nil]
              exact Nat.le_trans hText (by omega)
            · rw [hLeft, hRest]
              omega
            · rw [hLeft]
              refine Nat.le_trans (ih _ (Nat.lt_succ_of_lt hShorter) q' _ _ rfl) ?_
              omega
          · rw [readElementText_of_end hStart]
            refine Nat.le_trans (ih _ (Nat.lt_succ_self _) q [] _ rfl) ?_
            rw [List.length_nil]
            omega
      · exact hSkip _
      · exact Nat.le_max_left _ _
      · exact hSkip _

/-! ## What is received -/

theorem elementText_rest (ts : List Token) :
    (Reader.elementText ts).2 = ⟨[], true⟩ ∨
      ∃ r, r <:+ ts ∧ (Reader.elementText ts).2 = ⟨r, false⟩ := by
  induction ts with
  | nil => exact .inr ⟨[], List.suffix_rfl, rfl⟩
  | cons t ts ih =>
    cases t with
    | character | comment =>
      exact ih.imp_right fun ⟨r, hr, h⟩ => ⟨r, hr.trans (List.suffix_cons _ _), h⟩
    | endElement | prematureEnd => exact .inr ⟨ts, List.suffix_cons _ _, rfl⟩
    | startElement | startDocument => exact .inl rfl

/-- What the loop leaves is the end of the tokens, or nothing where the reader fails. -/
theorem messageText_rest (ts : List Token) (plaintext : Text) (inHtml : Bool) :
    (messageText ⟨ts, false⟩ plaintext inHtml).2 = ⟨[], true⟩ ∨
      ∃ r, r <:+ ts ∧ (messageText ⟨ts, false⟩ plaintext inHtml).2 = ⟨r, false⟩ := by
  induction hLength : ts.length using Nat.strongRecOn generalizing ts plaintext inHtml with
  | ind n ih =>
    subst hLength
    cases ts with
    | nil => exact .inr ⟨[], List.suffix_rfl, by rw [messageText_nil]⟩
    | cons t ts =>
      have hOn : ∀ {us : List Token}, us <:+ ts → ∀ p b,
          (messageText ⟨us, false⟩ p b).2 = ⟨[], true⟩ ∨
            ∃ r, r <:+ t :: ts ∧ (messageText ⟨us, false⟩ p b).2 = ⟨r, false⟩ := by
        intro us hus p b
        refine (ih _ (Nat.lt_succ_of_le hus.length_le) us p b rfl).imp_right ?_
        exact fun ⟨r, hr, h⟩ => ⟨r, hr.trans (hus.trans (List.suffix_cons _ _)), h⟩
      rw [messageText_cons]
      split
      · split
        · exact hOn List.suffix_rfl _ _
        · by_cases hStart : t.type = .startElement
          · rw [readElementText_of_start hStart]
            rcases elementText_rest ts with hFailed | ⟨r, hr, hLeft⟩
            · rw [hFailed, messageText_nil]
              exact .inl rfl
            · rw [hLeft]
              exact hOn hr _ _
          · rw [readElementText_of_end hStart]
            exact hOn List.suffix_rfl _ _
      · exact hOn List.suffix_rfl _ _
      · exact .inr ⟨ts, List.suffix_cons _ _, rfl⟩
      · exact hOn List.suffix_rfl _ _

variable (account : BonjourAccount)

theorem round_disconnected {c : BonjourContactConnection}
    (hc : c.connectionState = .disconnected) :
    (c.round account).connectionState = .disconnected ∧
      (c.round account).received = c.received := by
  obtain ⟨state, parser, alocal, remote, host, parent, socket, received⟩ := c
  obtain rfl : state = .disconnected := hc
  exact ⟨rfl, rfl⟩

/-- A connection that has been closed receives nothing. -/
theorem received_disconnected {c : BonjourContactConnection}
    (hc : c.connectionState = .disconnected) : (c.dataInSocket account).received = c.received := by
  obtain ⟨hState, hReceived⟩ := round_disconnected account hc
  induction hLength : c.parser.coming.length using Nat.strongRecOn generalizing c with
  | ind n ih =>
    subst hLength
    rw [dataInSocket]
    split
    case isTrue => exact hReceived
    case isFalse hMore =>
      obtain ⟨hState', hReceived'⟩ := round_disconnected account hState
      rw [ih _ (length_round account c hMore) hState hState' hReceived' rfl, hReceived]

theorem suffix_seek (name : BonjourXmlTokenName) (ts : List Token) : (seek name ts).2 <:+ ts := by
  induction ts with
  | nil => exact List.suffix_rfl
  | cons t ts ih =>
    rw [seek]
    split
    · exact List.suffix_cons _ _
    · exact ih.trans (List.suffix_cons _ _)

theorem readMessage_parts (c : BonjourContactConnection) (ts : List Token) :
    (c.reading ts).readMessage.parser = (messageText ⟨ts, false⟩ [] false).2 ∧
      (c.reading ts).readMessage.received =
        c.received ++ if c.parent then spoken (messageText ⟨ts, false⟩ [] false).1 else [] := by
  have hParser : (c.reading ts).parser = ⟨ts, false⟩ := rfl
  unfold readMessage spoken
  rw [hParser]
  generalize messageText ⟨ts, false⟩ [] false = read
  by_cases hEmpty : read.1 = []
  · simp [hEmpty, reading]
  · cases hParent : c.parent <;> simp [hEmpty, hParent, reading]

/-- A message is read, and then what its loop has left. -/
theorem received_readMessage {n : Nat} {ts : List Token} {c : BonjourContactConnection}
    (hc : c.connectionState = .connected)
    (hText : (messageText ⟨ts, false⟩ [] false).1.length ≤ n)
    (hOn : ∀ {us : List Token} {c' : BonjourContactConnection}, us <:+ ts →
      c'.connectionState = .connected →
      ∃ texts : List Text, (∀ text ∈ texts, text.length ≤ n) ∧
        ((c'.reading us).dataInSocket account).received = c'.received ++ texts) :
    ∃ texts : List Text, (∀ text ∈ texts, text.length ≤ n) ∧
      ((c.reading ts).readMessage.dataInSocket account).received = c.received ++ texts := by
  have hSpoken : ∀ text ∈ (if c.parent then spoken (messageText ⟨ts, false⟩ [] false).1 else []),
      text.length ≤ n := by
    intro text hMem
    split at hMem
    · unfold spoken at hMem
      split at hMem
      · exact absurd hMem List.not_mem_nil
      · rw [List.mem_singleton.1 hMem]
        exact hText
    · exact absurd hMem List.not_mem_nil
  rcases messageText_rest ts [] false with hFailed | ⟨r, hr, hLeft⟩
  · obtain ⟨hParser, hRead⟩ := readMessage_parts c ts
    have hEnd : (c.reading ts).readMessage.parser.coming = [] := by
      rw [hParser, hFailed]
    rw [dataInSocket_atEnd account _ hEnd]
    exact ⟨_, hSpoken, hRead⟩
  · rw [readMessage_eq (Prod.ext rfl hLeft)]
    obtain ⟨texts, hTexts, hReceived⟩ := @hOn r (c.hear _) hr hc
    rw [hReceived]
    refine ⟨_, fun text hMem => ?_, List.append_assoc _ _ _⟩
    exact (List.mem_append.1 hMem).elim (hSpoken text) (hTexts text)

/-- **What is received** is found behind the tags named `message`. -/
theorem received_dataInSocket {n : Nat} {ts : List Token} {c : BonjourContactConnection}
    (hc : c.connectionState = .connected)
    (h : ∀ t r, t :: r <:+ ts → tokenTable t.qualifiedName = .message →
      (messageText ⟨r, false⟩ [] false).1.length ≤ n) :
    ∃ texts : List Text, (∀ text ∈ texts, text.length ≤ n) ∧
      ((c.reading ts).dataInSocket account).received = c.received ++ texts := by
  induction hLength : ts.length using Nat.strongRecOn generalizing ts c with
  | ind k ih =>
    subst hLength
    have hNone : ∃ texts : List Text, (∀ text ∈ texts, text.length ≤ n) ∧
        c.received = c.received ++ texts :=
      ⟨[], fun _ h => absurd h List.not_mem_nil, (List.append_nil _).symm⟩
    cases ts with
    | nil =>
      rw [dataInSocket_atEnd account _ rfl]
      exact hNone
    | cons t ts =>
      have hOn : ∀ {us : List Token} {c' : BonjourContactConnection}, us <:+ ts →
          c'.connectionState = .connected →
          ∃ texts : List Text, (∀ text ∈ texts, text.length ≤ n) ∧
            ((c'.reading us).dataInSocket account).received = c'.received ++ texts :=
        fun hus hc' => ih _ (Nat.lt_succ_of_le hus.length_le) hc'
          (fun t r hr => h t r (hr.trans (hus.trans (List.suffix_cons _ _)))) rfl
      by_cases hSilent : Silent (tokenTable t.qualifiedName)
      · rw [dataInSocket_silent account hc hSilent]
        exact hOn List.suffix_rfl hc
      · have hTag : (xmlToken t).is .startOrEndElement :=
          Decidable.not_not.1 fun hTag => hSilent (silent_of_noTag hTag)
        by_cases hIq : tokenTable t.qualifiedName = .iq
        · rw [dataInSocket_iq account hc hTag hIq]
          exact hOn (suffix_seek .iq ts) hc
        · by_cases hMessage : tokenTable t.qualifiedName = .message
          · by_cases hChat : value t.attributes "type" = "chat".toList ∨
                value t.attributes "type" = []
            · rw [dataInSocket_message account hc hTag hMessage hChat]
              exact received_readMessage account hc (h t ts List.suffix_rfl hMessage)
                (fun hus hc' => hOn hus hc')
            · rw [dataInSocket_tag account hTag, handle_connected account (c := c.reading ts) hc,
                readData]
              have hName : (xmlToken t).name = .message := hMessage
              rw [hName]
              show ∃ texts, _ ∧ (dataInSocket account (if value t.attributes "type" =
                "chat".toList ∨ value t.attributes "type" = [] then _ else _)).received = _
              rw [if_neg hChat]
              exact hOn List.suffix_rfl hc
          · have hStream : (xmlToken t).name = .stream := by
              by_contra hStream
              exact hSilent ⟨hMessage, hIq, hStream⟩
            rw [dataInSocket_tag account hTag, handle_connected account (c := c.reading ts) hc,
              readData, hStream]
            rw [received_disconnected account rfl]
            exact hNone

end BonjourContactConnection

end Bonjour
