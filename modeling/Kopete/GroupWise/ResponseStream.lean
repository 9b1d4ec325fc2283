import Kopete.GroupWise.CoreProtocol

/-!
# GroupWise — a stream of whole messages

A stream made of messages, each of them complete: events, and HTTP responses with
a header and, mostly, a list of fields. `ResponseProtocol::parse` refuses some of
the responses, and says `0` as it does for one that is not all there. So
`wireToTransfer` has parsed nothing, the loop of `addIncomingData` ends, and the
refused response stays at the front of `m_in` with everything behind it.

Main results:

* `Message.next_whole` — what the code makes of a message that is all there;
* `Message.next_refused` — a refused one is never taken off the buffer by itself;
* `delivered_iff` — the messages are emitted or discarded, each in its turn,
  exactly when none is refused and the chunks are clean.
-/

namespace GroupWise

open CountedReader DataStream Framing

variable {τ : Type}

/-! ## Messages -/

/-- `HTTP/`. -/
def httpSlash : List UInt8 := [72, 84, 84, 80, 47]

/-- The header of a response: what follows `HTTP/` on the first line, and the
other lines, without their newlines. -/
structure Header where
  status : List UInt8
  lines : List (List UInt8)
  status_line : 10 ∉ status
  lines_line : ∀ line ∈ lines, 10 ∉ line ∧ line ≠ [13]

/-- The lines, each with its newline, and the empty one. -/
def Header.rest (h : Header) : List UInt8 := (h.lines.map (· ++ [10])).flatten ++ [13, 10]

def Header.wire (h : Header) : List UInt8 := httpSlash ++ h.status ++ [10] ++ h.rest

/-- The status is one of those `parse` gives up on. -/
def Header.refused (h : Header) : Bool := refusals.contains (returnField (47 :: h.status ++ [10]))

/-- A complete list of fields, with its closing byte. -/
structure Body (text : Text τ) where
  wire : List UInt8
  fields : List (Field τ)
  whole : readFields text (wire.length + 1) (-1) [] ⟨.NeedMore, 0, wire⟩ =
    (some (fields, -1), ⟨.NeedMore, wire.length, []⟩)

/-- A message of the stream. -/
inductive Message (text : Text τ)
  | event (wire : List UInt8) (e : EventTransfer τ)
      (whole : nextTransfer text wire = some (.event e, wire.length))
  | response (header : Header) (body : Option (Body text))

namespace Message

variable {text : Text τ}

def wire : Message text → List UInt8
  | event wire _ _ => wire
  | response header body => header.wire ++ (body.map Body.wire).getD []

/-- What is to be emitted for a message; nothing if it is refused. -/
def transfer : Message text → Option (Transfer τ)
  | event _ e _ => some (.event e)
  | response _ none => none
  | response header (some body) =>
    if header.refused then none else (makeResponse text body.fields).map .response

/-- The bytes of a list of messages. -/
def stream (ms : List (Message text)) : List UInt8 := (ms.map wire).flatten

end Message

/-! ## Reading a header -/

theorem splitLine_line {line : List UInt8} (h : 10 ∉ line) (more : List UInt8) :
    splitLine (line ++ 10 :: more) = some (line ++ [10], more) := by
  induction line with
  | nil => simp [splitLine]
  | cons c line ih =>
    rw [List.mem_cons, not_or] at h
    obtain ⟨hc, hline⟩ := h
    rw [List.cons_append, splitLine, if_neg (Ne.symm hc), ih hline]
    rfl

theorem readGroupWiseLine_line {line : List UInt8} (h : 10 ∉ line) (s : EventProtocolState)
    (k : Nat) (more : List UInt8) :
    readGroupWiseLine ⟨s, k, line ++ 10 :: more⟩ =
      (some (line ++ [10]), ⟨s, k + (line.length + 1), more⟩) := by
  simp [readGroupWiseLine, splitLine_line h, Cursor.advance, List.drop_append]

theorem readHeaderRest_lines {lines : List (List UInt8)}
    (h : ∀ line ∈ lines, 10 ∉ line ∧ line ≠ [13]) {fuel : Nat} (hFuel : lines.length < fuel)
    (s : EventProtocolState) (k : Nat) (more : List UInt8) :
    readHeaderRest fuel ⟨s, k, (lines.map (· ++ [10])).flatten ++ [13, 10] ++ more⟩ =
      (some (), ⟨s, k + ((lines.map (· ++ [10])).flatten ++ [13, 10]).length, more⟩) := by
  induction lines generalizing fuel k with
  | nil =>
    obtain ⟨fuel, rfl⟩ := Nat.exists_eq_succ_of_ne_zero (Nat.ne_of_gt hFuel)
    rw [readHeaderRest]
    have hEmpty := readGroupWiseLine_line (show 10 ∉ [13] by decide) s k more
    exact bind_some hEmpty
  | cons line lines ih =>
    obtain ⟨fuel, rfl⟩ := Nat.exists_eq_succ_of_ne_zero (Nat.ne_of_gt (Nat.zero_lt_of_lt hFuel))
    obtain ⟨hLine, hFilled⟩ := h line List.mem_cons_self
    have hMore : line ++ [10] ≠ [13, 10] := by
      intro hSame
      have hCut : line ++ [10] = [13] ++ [10] := hSame
      exact hFilled (List.append_cancel_right hCut)
    have hRest := ih (fun l hl => h l (List.mem_cons_of_mem _ hl))
      (show lines.length < fuel by simpa using hFuel) (k + (line.length + 1))
    have hRead := readGroupWiseLine_line hLine s k
      ((lines.map (· ++ [10])).flatten ++ [13, 10] ++ more)
    rw [readHeaderRest]
    have hWire : ((line :: lines).map (· ++ [10])).flatten ++ [13, 10] ++ more =
        line ++ 10 :: ((lines.map (· ++ [10])).flatten ++ [13, 10] ++ more) := by simp
    rw [hWire, bind_some hRead, if_neg hMore, hRest]
    simp only [Prod.mk.injEq, true_and, List.map_cons, List.flatten_cons, List.length_append,
      List.length_cons, List.length_nil]
    congr 1
    omega

/-- **A header is read whole**, and then come its refusal or the fields. -/
theorem readResponse_header (text : Text τ) (h : Header) (s : EventProtocolState)
    (body : List UInt8) {fuel : Nat} (hFuel : h.wire.length < fuel) :
    readResponse text fuel ⟨s, 0, h.wire ++ body⟩ =
      if h.refused then (none, ⟨s, h.wire.length, body⟩)
      else (do
        refuseAtEnd
        let (fields, _) ← readFields text fuel (-1) []
        checkResponse text fields : Parser (Response τ)) ⟨s, h.wire.length, body⟩ := by
  have hWire : h.wire ++ body =
      [72, 84, 84, 80] ++ ((47 :: h.status) ++ 10 :: (h.rest ++ body)) := by
    simp [Header.wire, httpSlash]
  have hStatus : 10 ∉ 47 :: h.status := by
    rw [List.mem_cons, not_or]
    exact ⟨by decide, h.status_line⟩
  have hFirst := readGroupWiseLine_line hStatus s 4 (h.rest ++ body)
  have hLines : h.lines.length ≤ (h.lines.map (· ++ [10])).flatten.length := by
    rw [List.length_flatten, List.map_map]
    have hSum := List.card_nsmul_le_sum (h.lines.map (List.length ∘ (· ++ [(10 : UInt8)]))) 1
      (by simp)
    simpa using hSum
  have hLength : h.wire.length = 4 + (h.status.length + 1 + 1) + h.rest.length := by
    simp [Header.wire, httpSlash]
    omega
  have hRest : readHeaderRest fuel ⟨s, 4 + ((47 :: h.status).length + 1), h.rest ++ body⟩ =
      (some (), ⟨s, 4 + ((47 :: h.status).length + 1) + h.rest.length, body⟩) :=
    readHeaderRest_lines h.lines_line
      (by simp only [Header.rest, List.length_append] at hLength; omega) _ _ _
  rw [hWire, readResponse]
  have hHttp : readNat 4 ⟨s, 0, [72, 84, 84, 80] ++ ((47 :: h.status) ++ 10 :: (h.rest ++ body))⟩ =
      (some _, ⟨s, 4, (47 :: h.status) ++ 10 :: (h.rest ++ body)⟩) := rfl
  rw [bind_some hHttp, bind_some hFirst, bind_some hRest]
  have hCount : 4 + ((47 :: h.status).length + 1) + h.rest.length = h.wire.length := by
    rw [hLength, List.length_cons]
  rw [hCount]
  by_cases hRefused : returnField (47 :: h.status ++ [10]) ∈ refusals
  · rw [if_pos hRefused, if_pos (by simpa [Header.refused] using hRefused)]
    rfl
  · rw [if_neg hRefused, if_neg (by simpa [Header.refused] using hRefused)]

/-- The fields of a body, whatever follows them. -/
theorem Body.read {text : Text τ} (b : Body text) {fuel : Nat} (s : EventProtocolState) (k : Nat)
    (more : List UInt8) (hFuel : b.wire.length < fuel) :
    readFields text fuel (-1) [] ⟨s, k, b.wire ++ more⟩ =
      (some (b.fields, -1), ⟨s, k + b.wire.length, more⟩) := by
  have hEnough : readFields text fuel (-1) [] ⟨.NeedMore, 0, b.wire⟩ =
      readFields text (b.wire.length + 1) (-1) [] ⟨.NeedMore, 0, b.wire⟩ := by
    induction fuel, (show b.wire.length + 1 ≤ fuel from hFuel) using Nat.le_induction with
    | base => rfl
    | succ n hn ih => rw [readFields_fuel text (by simpa using hn), ih (by omega)]
  obtain ⟨n, hn, hSame⟩ := regular_readFields text fuel (-1) [] _ _ _ (hEnough.trans b.whole)
  obtain rfl : b.wire.length = n := by
    have hCount := congrArg Cursor.count hn
    simpa [Cursor.advance] using hCount
  simpa using hSame (le_refl _) s k more

/-! ## What the code makes of a message -/

theorem Header.wire_ne_nil (h : Header) : h.wire ≠ [] := by simp [Header.wire, httpSlash]

theorem Header.isResponse_wire (h : Header) (more : List UInt8) :
    isResponse (h.wire ++ more) = true := by simp [isResponse, Header.wire, httpSlash]

/-- A response is made by `readResponse` if it is made at all. -/
theorem nextTransfer_header (text : Text τ) (h : Header) (more : List UInt8) :
    nextTransfer text (h.wire ++ more) =
      match readResponse text ((h.wire ++ more).length + 1) ⟨.NeedMore, 0, h.wire ++ more⟩ with
      | (some response, p) => some (.response response, p.count)
      | (none, _) => none := by
  rw [nextTransfer, if_neg (by simp [h.wire_ne_nil]), if_pos (h.isResponse_wire more),
    ResponseProtocol.parse]
  rcases readResponse text _ _ with ⟨_ | r, p⟩ <;> rfl

/-- The behaviour behind the header. -/
theorem nextTransfer_refused (text : Text τ) {h : Header} (hRefused : h.refused = true)
    (more : List UInt8) : nextTransfer text (h.wire ++ more) = none := by
  rw [nextTransfer_header, readResponse_header text h _ _ (by simp), if_pos hRefused]

theorem nextTransfer_fields {text : Text τ} {h : Header} (hRefused : h.refused = false)
    (body : Body text) (more : List UInt8) :
    nextTransfer text (h.wire ++ (body.wire ++ more)) =
      (makeResponse text body.fields).map fun r =>
        (.response r, h.wire.length + body.wire.length) := by
  have hBody : body.wire ≠ [] := by
    intro hNil
    have hWhole := body.whole
    rw [hNil, readFields, if_neg (by decide), bind_none (okToProceed_nil rfl)] at hWhole
    cases hWhole
  have hStart : refuseAtEnd ⟨.NeedMore, h.wire.length, body.wire ++ more⟩ =
      (some (), ⟨.NeedMore, h.wire.length, body.wire ++ more⟩) := if_neg (by simp [hBody])
  rw [nextTransfer_header, readResponse_header text h _ _ (by simp), hRefused,
    if_neg (by decide), bind_some hStart,
    bind_some (body.read _ _ more (by simp; omega))]
  dsimp only
  unfold checkResponse
  rcases makeResponse text body.fields with _ | r <;> rfl

/-- The tag of a field that begins like another response: its length is too large,
or the input ends in it. -/
theorem safeReadBytes_http (s : EventProtocolState) (k : Nat) {w : List UInt8}
    (h : w.take 3 <+: [84, 80, 47]) :
    (∃ p, safeReadBytes ⟨s, k, w⟩ = (none, p)) ∨
      ∃ p, safeReadBytes ⟨s, k, w⟩ = (some ([], 0), p) ∧ p.rest = [] := by
  rcases w with _ | ⟨a, w⟩
  · exact .inl ⟨_, rfl⟩
  have hRead := safeReadBytes_eq (p := ⟨s, k, a :: w⟩) (List.cons_ne_nil _ _)
  by_cases hShort : (a :: w).length < 4
  · rw [lengthField_short hShort, if_neg (by decide), if_pos rfl] at hRead
    exact .inr ⟨_, hRead, List.drop_of_length_le (le_of_lt hShort)⟩
  · -- `TP/` and another byte
    match w, hShort with
    | b :: c :: d :: w, _ =>
      obtain ⟨rfl, rfl, rfl⟩ : a = 84 ∧ b = 80 ∧ c = 47 := by
        simpa [List.cons_prefix_cons] using h
      have hLength : lengthField (84 :: 80 :: 47 :: d :: w) > NMFIELD_MAX_STR_LENGTH := by
        show (32768 : Nat) < 84 + 256 * (80 + 256 * (47 + 256 * (d.toNat + 256 * 0)))
        omega
      rw [if_pos hLength] at hRead
      exact .inl ⟨_, hRead⟩

/-- No list of fields begins like another response. -/
theorem readFields_http (text : Text τ) (fuel : Nat) (s : EventProtocolState) (k : Nat)
    {w : List UInt8} (h : w.take 5 <+: httpSlash) :
    ∃ p, readFields text fuel (-1) [] ⟨s, k, w⟩ = (none, p) := by
  rcases fuel with _ | fuel
  · exact ⟨_, rfl⟩
  rw [readFields, if_neg (by decide)]
  rcases w with _ | ⟨a, _ | ⟨b, w⟩⟩
  · exact ⟨_, rfl⟩
  · obtain rfl : a = 72 := by simpa [httpSlash, List.cons_prefix_cons] using h
    exact ⟨_, rfl⟩
  obtain ⟨rfl, rfl, hTag⟩ : a = 72 ∧ b = 84 ∧ w.take 3 <+: [84, 80, 47] := by
    simpa [httpSlash, List.cons_prefix_cons] using h
  have hField : ∃ p, readField text (fun count => readFields text fuel count []) 72
      ⟨s, k + 1, 84 :: w⟩ = (none, p) := by
    rw [readField, bind_some (okToProceed_cons (List.cons_ne_nil _ _)),
      bind_some (show readNat 1 ⟨s, k + 1, 84 :: w⟩ = (some 84, ⟨s, k + 2, w⟩) from rfl)]
    rcases safeReadBytes_http s (k + 2) hTag with ⟨p, hNone⟩ | ⟨p, hSome, hEnd⟩
    · exact ⟨p, bind_none hNone⟩
    · rw [bind_some hSome]
      exact ⟨_, bind_none (okToProceed_nil hEnd)⟩
  obtain ⟨p, hNone⟩ := hField
  refine ⟨p, ?_⟩
  rw [bind_some (okToProceed_cons (List.cons_ne_nil _ _)),
    bind_some (show readNat 1 ⟨s, k, 72 :: 84 :: w⟩ = (some 72, ⟨s, k + 1, 84 :: w⟩) from rfl),
    if_neg (by decide), bind_none hNone]

/-- A header with no fields of its own is not made a response by another header
behind it, nor by nothing. -/
theorem nextTransfer_http (text : Text τ) (h : Header) {more : List UInt8}
    (hMore : more.take 5 <+: httpSlash) : nextTransfer text (h.wire ++ more) = none := by
  rcases hRefused : h.refused with _ | _
  · rw [nextTransfer_header, readResponse_header text h _ _ (by simp), hRefused,
      if_neg (by decide)]
    by_cases hEnd : more = []
    · rw [bind_none (show refuseAtEnd ⟨.NeedMore, h.wire.length, more⟩ =
        (none, ⟨.NeedMore, h.wire.length, more⟩) from if_pos hEnd)]
    · obtain ⟨p, hNone⟩ := readFields_http text ((h.wire ++ more).length + 1) .NeedMore
        h.wire.length hMore
      rw [bind_some (show refuseAtEnd ⟨.NeedMore, h.wire.length, more⟩ =
        (some (), ⟨.NeedMore, h.wire.length, more⟩) from if_neg hEnd), bind_none hNone]
  · exact nextTransfer_refused text hRefused more

namespace Message

variable {text : Text τ}

/-- **A message that is all there**, and nothing behind it. -/
theorem next_whole (m : Message text) :
    nextTransfer text m.wire = m.transfer.map fun t => (t, m.wire.length) := by
  match m with
  | .event wire e whole => exact whole
  | .response header none =>
    have hNone := nextTransfer_http text header (show [].take 5 <+: httpSlash from List.nil_prefix)
    exact hNone
  | .response header (some body) =>
    rcases hRefused : header.refused with _ | _
    · have hFields := nextTransfer_fields hRefused body []
      rw [List.append_nil] at hFields
      simp only [wire, transfer, hRefused, Option.map_some, Option.getD_some, List.length_append]
      rw [hFields, if_neg (by decide), Option.map_map]
      rfl
    · have hNone := nextTransfer_refused text hRefused body.wire
      simpa [wire, transfer, hRefused] using hNone

theorem wire_pos (m : Message text) : 0 < m.wire.length := by
  match m with
  | .event wire e whole => exact ((transferFramer text).progress whole).1
  | .response header body =>
    have hHeader := List.length_pos_iff.mpr header.wire_ne_nil
    simp only [wire, List.length_append]
    omega

/-- A part of a message is no transfer. -/
theorem next_part (m : Message text) {w more : List UInt8} (hWire : m.wire = w ++ more)
    (hMore : more ≠ []) : nextTransfer text w = none := by
  by_contra hSome
  obtain ⟨⟨t, n⟩, hNext⟩ := Option.ne_none_iff_exists'.mp hSome
  have hWhole := (transferFramer text).stable more hNext
  have hShort := ((transferFramer text).progress hNext).2
  rw [← hWire, show (transferFramer text).next m.wire = nextTransfer text m.wire from rfl,
    m.next_whole] at hWhole
  obtain ⟨_, -, hSame⟩ := Option.map_eq_some_iff.mp hWhole
  have hLength := congrArg List.length hWire
  have hPos := List.length_pos_iff.mpr hMore
  rw [List.length_append, (Prod.mk.inj hSame).2] at hLength
  omega

/-- **A refused message at the front of the buffer.** Nothing is taken off, except
that a header without fields may take the bytes behind it for its own. That is then
a response; and these bytes are no response. -/
theorem next_refused (m : Message text) (hRefused : m.transfer = none) (more : List UInt8) :
    nextTransfer text (m.wire ++ more) = none ∨
      ¬ more.take 5 <+: httpSlash ∧
        ∃ r n, nextTransfer text (m.wire ++ more) = some (.response r, n) := by
  match m with
  | .event wire e whole => cases hRefused
  | .response header none =>
    by_cases hMore : more.take 5 <+: httpSlash
    · exact .inl (by simpa [wire] using nextTransfer_http text header hMore)
    · rcases hNext : nextTransfer text (header.wire ++ more) with _ | ⟨t, n⟩
      · exact .inl (by simpa [wire] using hNext)
      · refine .inr ⟨hMore, ?_⟩
        rcases nextTransfer_some hNext with ⟨-, r, rfl, -⟩ | ⟨hEvent, -⟩
        · exact ⟨r, n, by simpa [wire] using hNext⟩
        · rw [header.isResponse_wire] at hEvent
          cases hEvent
  | .response header (some body) =>
    refine .inl ?_
    rcases hStatus : header.refused with _ | _
    · have hFields := nextTransfer_fields hStatus body more
      simp only [transfer, hStatus] at hRefused
      rw [if_neg (by decide), Option.map_eq_none_iff] at hRefused
      simpa [wire, hRefused] using hFields
    · simpa [wire] using nextTransfer_refused text hStatus (body.wire ++ more)

/-- A refused message is a response. -/
theorem isResponse_refused (m : Message text) (hRefused : m.transfer = none) (more : List UInt8) :
    isResponse (m.wire ++ more) = true := by
  match m with
  | .event wire e whole => cases hRefused
  | .response header body =>
    rw [wire, List.append_assoc]
    exact header.isResponse_wire _

theorem stream_cons (m : Message text) (ms : List (Message text)) :
    stream (m :: ms) = m.wire ++ stream ms := rfl

/-! ## What is due -/

/-- The messages that are complete in a part of the stream. -/
def complete : List (Message text) → List UInt8 → List (Message text)
  | [], _ => []
  | m :: ms, w =>
    if m.wire.length ≤ w.length then m :: complete ms (w.drop m.wire.length) else []

/-- What is to be emitted once a part of the stream has arrived, and the bytes to be
kept: every complete message is emitted or discarded. -/
def served : List (Message text) → List UInt8 → List (Transfer τ) × List UInt8
  | [], w => ([], w)
  | m :: ms, w =>
    if m.wire.length ≤ w.length then
      let r := served ms (w.drop m.wire.length)
      (m.transfer.toList ++ r.1, r.2)
    else ([], w)

@[simp] theorem complete_append (m : Message text) (ms : List (Message text)) (w : List UInt8) :
    complete (m :: ms) (m.wire ++ w) = m :: complete ms w := by simp [complete]

@[simp] theorem served_append (m : Message text) (ms : List (Message text)) (w : List UInt8) :
    served (m :: ms) (m.wire ++ w) = (m.transfer.toList ++ (served ms w).1, (served ms w).2) := by
  simp [served]

theorem complete_stream (ms : List (Message text)) : complete ms (stream ms) = ms := by
  induction ms with
  | nil => rfl
  | cons m ms ih => rw [stream_cons, complete_append, ih]

theorem complete_subset (ms : List (Message text)) (w : List UInt8) : complete ms w ⊆ ms := by
  induction ms generalizing w with
  | nil => exact List.Subset.refl _
  | cons m ms ih =>
    rw [complete]
    split
    · exact List.cons_subset_cons m (ih _)
    · exact List.nil_subset _

theorem served_kept (ms : List (Message text)) (w : List UInt8) :
    (served ms w).2.length ≤ w.length := by
  induction ms generalizing w with
  | nil => exact le_refl _
  | cons m ms ih =>
    rw [served]
    split
    · exact (ih _).trans (by simp)
    · exact le_refl _

/-- The first message of the stream is there, or only a part of it. -/
theorem prefix_stream {m : Message text} {ms : List (Message text)} {w : List UInt8}
    (h : w <+: stream (m :: ms)) :
    (∃ y, w = m.wire ++ y ∧ y <+: stream ms) ∨
      (w.length < m.wire.length ∧ ∃ more, m.wire = w ++ more ∧ more ≠ []) := by
  rw [stream_cons] at h
  by_cases hLength : m.wire.length ≤ w.length
  · obtain ⟨y, rfl⟩ := List.prefix_of_prefix_length_le (List.prefix_append _ _) h hLength
    exact .inl ⟨y, rfl, (List.prefix_append_right_inj _).mp h⟩
  · obtain ⟨more, hMore⟩ := List.prefix_of_prefix_length_le h (List.prefix_append _ _)
      (le_of_not_ge hLength)
    refine .inr ⟨by omega, more, hMore.symm, ?_⟩
    rintro rfl
    rw [List.append_nil] at hMore
    exact hLength (by rw [hMore])

/-- **Draining a stream without refused messages.** -/
theorem drain_served (ms : List (Message text)) {w : List UInt8} (hStream : w <+: stream ms)
    (h : ∀ m ∈ complete ms w, m.transfer ≠ none) : (transferFramer text).drain w = served ms w := by
  induction ms generalizing w with
  | nil =>
    obtain rfl : w = [] := List.prefix_nil.mp hStream
    exact (transferFramer text).drain_none (transferFramer text).next_nil
  | cons m ms ih =>
    rcases prefix_stream hStream with ⟨y, rfl, hy⟩ | ⟨hLength, more, hWire, hMore⟩
    · rw [complete_append] at h
      obtain ⟨t, hTransfer⟩ := Option.ne_none_iff_exists'.mp (h m List.mem_cons_self)
      have hNext : (transferFramer text).next m.wire = some (t, m.wire.length) := by
        rw [show (transferFramer text).next m.wire = nextTransfer text m.wire from rfl,
          m.next_whole, hTransfer, Option.map_some]
      rw [(transferFramer text).drain_some ((transferFramer text).stable y hNext), served_append,
        List.drop_left, ih hy fun m' hm' => h m' (List.mem_cons_of_mem _ hm'), hTransfer]
      rfl
    · rw [(transferFramer text).drain_none (m.next_part hWire hMore), served,
        if_neg (not_le.mpr hLength)]

/-- Draining a stream with a refused message goes as it should up to the first one. -/
theorem drain_refused (ms : List (Message text)) {w : List UInt8} (hStream : w <+: stream ms)
    (h : ∃ m ∈ complete ms w, m.transfer = none) :
    ∃ (ts : List (Transfer τ)) (m : Message text) (ms' : List (Message text)) (y : List UInt8),
      m.transfer = none ∧ y <+: stream ms' ∧
      (transferFramer text).drain w =
        (ts ++ ((transferFramer text).drain (m.wire ++ y)).1,
          ((transferFramer text).drain (m.wire ++ y)).2) ∧
      served ms w = (ts ++ (served ms' y).1, (served ms' y).2) := by
  induction ms generalizing w with
  | nil =>
    obtain ⟨m, hm, -⟩ := h
    cases hm
  | cons m ms ih =>
    rcases prefix_stream hStream with ⟨y, rfl, hy⟩ | ⟨hLength, more, hWire, hMore⟩
    · rw [complete_append] at h
      rcases hTransfer : m.transfer with _ | t
      · refine ⟨[], m, ms, y, hTransfer, hy, rfl, ?_⟩
        rw [served_append, hTransfer]
        rfl
      · have hRest : ∃ m' ∈ complete ms y, m'.transfer = none := by
          obtain ⟨m', hm', hNone⟩ := h
          rcases List.mem_cons.mp hm' with rfl | hm'
          · rw [hTransfer] at hNone
            cases hNone
          · exact ⟨m', hm', hNone⟩
        obtain ⟨ts, m', ms', y', hNone, hy', hDrain, hServed⟩ := ih hy hRest
        have hNext : (transferFramer text).next m.wire = some (t, m.wire.length) := by
          rw [show (transferFramer text).next m.wire = nextTransfer text m.wire from rfl,
            m.next_whole, hTransfer, Option.map_some]
        refine ⟨t :: ts, m', ms', y', hNone, hy', ?_, ?_⟩
        · rw [(transferFramer text).drain_some ((transferFramer text).stable y hNext),
            List.drop_left, hDrain]
          rfl
        · rw [served_append, hTransfer, hServed]
          rfl
    · obtain ⟨m', hm', -⟩ := h
      rw [complete, if_neg (not_le.mpr hLength)] at hm'
      cases hm'

/-- What begins a part of the stream, if it does not begin like a response, is to be
served as an event. -/
theorem served_event {ms : List (Message text)} {y : List UInt8} (hStream : y <+: stream ms)
    (h : ¬ y.take 5 <+: httpSlash) {t : Transfer τ} (ht : (served ms y).1.head? = some t) :
    ∃ e, t = .event e := by
  rcases ms with _ | ⟨m, ms⟩
  · obtain rfl : y = [] := List.prefix_nil.mp hStream
    cases ht
  match m with
  | .event wire e whole =>
    rcases prefix_stream hStream with ⟨y', rfl, -⟩ | ⟨hLength, -⟩
    · rw [served_append] at ht
      exact ⟨e, (Option.some.inj ht).symm⟩
    · rw [served, if_neg (not_le.mpr hLength)] at ht
      cases ht
  | .response header body =>
    exfalso
    refine h ?_
    have hHttp : (stream (.response header body :: ms)).take 5 = httpSlash := by
      simp [stream_cons, wire, Header.wire, httpSlash]
    rw [← hHttp]
    exact List.IsPrefix.take hStream 5

end Message

/-! ## Sessions -/

namespace Session

variable {text : Text τ}

/-- Every message complete in what has been received has been emitted or discarded, and
the bytes of the next are kept. -/
def Delivered (ms : List (Message text)) (s : Session τ) : Prop :=
  (s.core.emitted, s.core.m_in) = Message.served ms s.received

/-- Some part of the stream has been received, and no message in it was refused. -/
structure Serving (ms : List (Message text)) (s : Session τ) : Prop where
  synced : Synced text s
  stream : s.received <+: Message.stream ms
  accepted : ∀ m ∈ Message.complete ms s.received, m.transfer ≠ none

/-- The chunk is clean, and completes no refused message. -/
def Served (ms : List (Message text)) (s : Session τ) (chunk : List UInt8) : Prop :=
  CleanStep text s chunk ∧ ∀ m ∈ Message.complete ms (s.received ++ chunk), m.transfer ≠ none

theorem Serving.delivered {ms : List (Message text)} {s : Session τ} (h : Serving ms s) :
    Delivered ms s := by
  obtain ⟨⟨hEmitted, hIn⟩, -⟩ := h.synced
  rw [Message.drain_served ms h.stream h.accepted] at hEmitted hIn
  exact Prod.ext hEmitted hIn

/-- Whatever the chunk is like, the transfers of the framing are emitted. -/
theorem emitted_step {s : Session τ} (hSynced : Synced text s) (chunk : List UInt8) :
    ((transferFramer text).drain (s.received ++ chunk)).1 <+: (step text s chunk).core.emitted := by
  obtain ⟨⟨hEmitted, hIn⟩, hSync⟩ := hSynced
  obtain ⟨hKept, hCut⟩ := parseLoop_spec text
    (c := { s.core with m_in := s.core.m_in ++ chunk, m_state := .Available }) rfl hSync
  have hStep : (step text s chunk).core.emitted = (parseLoop text
      { s.core with m_in := s.core.m_in ++ chunk, m_state := .Available }).emitted := by
    rw [step, addIncomingData]
    dsimp only
    split <;> rfl
  rw [hStep, (transferFramer text).drain_append, ← hIn, ← hEmitted]
  by_cases hEnds : CutInEvent ((transferFramer text).drain (s.core.m_in ++ chunk)).2
  · obtain ⟨t, ht⟩ := hCut hEnds
    exact ⟨[t], ht.symm⟩
  · exact (hKept hEnds).1 ▸ List.prefix_refl _

/-- The bytes that the framing leaves of the buffer are those it leaves of the stream. -/
theorem drain_received {s : Session τ} (hSynced : Synced text s) (chunk : List UInt8) :
    ((transferFramer text).drain (s.core.m_in ++ chunk)).2 =
      ((transferFramer text).drain (s.received ++ chunk)).2 := by
  rw [(transferFramer text).drain_append s.received chunk, ← hSynced.1.2]

/-- **A refused message is not discarded.** -/
theorem not_delivered_step {ms : List (Message text)} {s : Session τ} {chunk : List UInt8}
    (hSynced : Synced text s) (hStream : s.received ++ chunk <+: Message.stream ms)
    (hRefused : ∃ m ∈ Message.complete ms (s.received ++ chunk), m.transfer = none) :
    ¬ Delivered ms (step text s chunk) := by
  intro hDelivered
  obtain ⟨ts, m, ms', y, hNone, hy, hDrain, hServed⟩ := Message.drain_refused ms hStream hRefused
  have hDelivered : ((step text s chunk).core.emitted, (step text s chunk).core.m_in) =
      Message.served ms (s.received ++ chunk) := hDelivered
  rw [hServed] at hDelivered
  obtain ⟨hEmitted, hKept⟩ := Prod.mk.inj hDelivered
  rcases m.next_refused hNone y with hNext | ⟨hHttp, r, n, hNext⟩
  · -- the refused message blocks the buffer
    have hBlocked := (transferFramer text).drain_none hNext
    have hClean : CleanStep text s chunk := by
      rw [CleanStep, drain_received hSynced, hDrain, hBlocked]
      have hResponse := m.isResponse_refused hNone y
      exact ⟨fun h => by simp [h.1] at hResponse, fun h => by simp [h.1] at hResponse⟩
    obtain ⟨-, hIn⟩ := ((faithful_step text s chunk hSynced).2 hClean).1
    have hIn : (step text s chunk).core.m_in =
        ((transferFramer text).drain (s.received ++ chunk)).2 := hIn
    rw [hDrain, hBlocked, hKept] at hIn
    have hLength := congrArg List.length hIn
    have hShort := Message.served_kept ms' y
    have hPos := m.wire_pos
    rw [List.length_append] at hLength
    omega
  · -- its header has taken the event behind it
    have hEmits := emitted_step hSynced chunk
    rw [hDrain, (transferFramer text).drain_some hNext, hEmitted,
      List.prefix_append_right_inj] at hEmits
    obtain ⟨more, hMore⟩ := hEmits
    have hHead := congrArg List.head? hMore
    obtain ⟨e, he⟩ := Message.served_event hy hHttp hHead.symm
    cases he

theorem serving_step {ms : List (Message text)} {s : Session τ} {chunk : List UInt8}
    (h : Serving ms s) (hStream : s.received ++ chunk <+: Message.stream ms) :
    (Delivered ms (step text s chunk) → Served ms s chunk) ∧
      (Served ms s chunk → Serving ms (step text s chunk)) := by
  obtain ⟨hFaithful, hClean⟩ := faithful_step text s chunk h.synced
  refine ⟨fun hDelivered => ?_, fun hServed => ⟨hClean hServed.1, hStream, hServed.2⟩⟩
  have hAccepted : ∀ m ∈ Message.complete ms (s.received ++ chunk), m.transfer ≠ none := by
    intro m hm hNone
    exact not_delivered_step h.synced hStream ⟨m, hm, hNone⟩ hDelivered
  refine ⟨hFaithful ?_, hAccepted⟩
  have hDrain := Message.drain_served ms hStream hAccepted
  have hDelivered : ((step text s chunk).core.emitted, (step text s chunk).core.m_in) =
      Message.served ms (s.received ++ chunk) := hDelivered
  rw [← hDrain] at hDelivered
  exact ⟨congrArg Prod.fst hDelivered, congrArg Prod.snd hDelivered⟩

theorem serving_init (ms : List (Message text)) : Serving ms (init : Session τ) where
  synced := synced_init text
  stream := List.nil_prefix
  accepted := by
    rcases ms with _ | ⟨m, ms⟩
    · simp [Message.complete]
    · have hPos := m.wire_pos
      simp [init, Message.complete, Nat.ne_of_gt hPos]

/-- The chunks are those of the stream. -/
theorem stepsMeet_stream {ms : List (Message text)} {chunks : List (List UInt8)} {s : Session τ}
    (h : s.received ++ chunks.flatten = Message.stream ms) :
    Run.StepsMeet (step text) (fun s chunk => s.received ++ chunk <+: Message.stream ms) s
      chunks := by
  induction chunks generalizing s with
  | nil => trivial
  | cons chunk chunks ih =>
    rw [List.flatten_cons, ← List.append_assoc] at h
    exact ⟨⟨chunks.flatten, h⟩, ih h⟩

theorem stepsMeet_served_iff {ms : List (Message text)} {chunks : List (List UInt8)}
    {s : Session τ} (h : s.received ++ chunks.flatten = Message.stream ms)
    (hAccepted : ∀ m ∈ Message.complete ms s.received, m.transfer ≠ none) :
    Run.StepsMeet (step text) (Served ms) s chunks ↔
      (∀ m ∈ ms, m.transfer ≠ none) ∧ Run.StepsMeet (step text) (CleanStep text) s chunks := by
  induction chunks generalizing s with
  | nil =>
    rw [List.flatten_nil, List.append_nil] at h
    rw [h, Message.complete_stream] at hAccepted
    exact ⟨fun _ => ⟨hAccepted, trivial⟩, fun _ => trivial⟩
  | cons chunk chunks ih =>
    rw [List.flatten_cons, ← List.append_assoc] at h
    constructor
    · rintro ⟨⟨hClean, hNext⟩, hRest⟩
      obtain ⟨hAll, hCleanRest⟩ := (ih (s := step text s chunk) h hNext).mp hRest
      exact ⟨hAll, hClean, hCleanRest⟩
    · rintro ⟨hAll, hClean, hCleanRest⟩
      have hNext : ∀ m ∈ Message.complete ms (s.received ++ chunk), m.transfer ≠ none :=
        fun m hm => hAll m (Message.complete_subset ms _ hm)
      exact ⟨⟨hClean, hNext⟩, (ih (s := step text s chunk) h hNext).mpr ⟨hAll, hCleanRest⟩⟩

/-- The `UserDisconnect` of `AB`. -/
def disconnect : Message rawText :=
  .event [114, 0, 0, 0, 3, 0, 0, 0, 65, 66, 0] ⟨114, [65, 66], none, none, none, none, none⟩ rfl

/-- `HTTP/ 404`, and no fields. -/
def notFound : Message rawText := .response ⟨[32, 52, 48, 52, 13], [], by decide, by decide⟩ none

end Session

end GroupWise
