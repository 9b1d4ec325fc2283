import Kopete.Oscar.StreamCuts

/-!
# Oscar — transfers on the wire and back

`toWire` of the two outgoing transfers, and what `CoreProtocol` makes of its
bytes at the other end. `FlapTransfer` and `SnacTransfer` write their headers by
hand at fixed offsets; `FlapProtocol` and `SnacProtocol` read them with a
`QDataStream` and take the payload from a pointer behind them.

Main results:

* `nextTransfer_toWire` — an encoding comes back as its transfer and takes all
  of its bytes, whatever is behind it;
* `feed_toWire` — so do any number of them, however they are grouped into chunks.
-/

namespace Oscar

open DataStream

/-- An outgoing `FlapTransfer`. -/
structure FlapTransfer where
  m_flapChannel : Nat
  m_flapSequence : Nat
  m_buffer : List UInt8
deriving DecidableEq, Repr

/-- An outgoing `SnacTransfer`. -/
structure SnacTransfer extends FlapTransfer where
  m_snacService : Nat
  m_snacSubtype : Nat
  m_snacFlags : Nat
  m_snacReqId : Nat
deriving DecidableEq, Repr

/-- The six bytes both write first. -/
def flapHeader (channel sequence length : Nat) : List UInt8 :=
  [0x2A, UInt8.ofNat channel, UInt8.ofNat (sequence / 2 ^ 8), UInt8.ofNat sequence,
    UInt8.ofNat (length / 2 ^ 8), UInt8.ofNat length]

/-- The ten bytes of the SNAC. -/
def snacHeader (service subtype flags reqId : Nat) : List UInt8 :=
  [UInt8.ofNat (service / 2 ^ 8), UInt8.ofNat service,
    UInt8.ofNat (subtype / 2 ^ 8), UInt8.ofNat subtype,
    UInt8.ofNat (flags / 2 ^ 8), UInt8.ofNat flags,
    UInt8.ofNat (reqId / 2 ^ 24), UInt8.ofNat (reqId / 2 ^ 16),
    UInt8.ofNat (reqId / 2 ^ 8), UInt8.ofNat reqId]

/-- `FlapTransfer::toWire`. The length is a `WORD`. -/
def FlapTransfer.toWire (t : FlapTransfer) : List UInt8 :=
  let m_flapLength := t.m_buffer.length % 2 ^ 16
  flapHeader t.m_flapChannel t.m_flapSequence m_flapLength ++ t.m_buffer

/-- `SnacTransfer::toWire`. -/
def SnacTransfer.toWire (t : SnacTransfer) : List UInt8 :=
  let m_flapLength := (t.m_buffer.length + 10) % 2 ^ 16
  flapHeader t.m_flapChannel t.m_flapSequence m_flapLength ++
    (snacHeader t.m_snacService t.m_snacSubtype t.m_snacFlags t.m_snacReqId ++ t.m_buffer)

/-- What `outgoingTransfer` is given. -/
inductive OutTransfer
  | flap (t : FlapTransfer)
  | snac (t : SnacTransfer)

namespace OutTransfer

def toWire : OutTransfer → List UInt8
  | .flap t => t.toWire
  | .snac t => t.toWire

/-- All fields have their types, the channel is the one of the kind, bit 15 of
the flags is clear, and the length of the frame is a `WORD`. -/
def Encodable : OutTransfer → Prop
  | .flap t => t.m_flapChannel < 2 ^ 8 ∧ t.m_flapChannel ≠ 2 ∧ t.m_flapSequence < 2 ^ 16 ∧
      t.m_buffer.length ≤ 65535
  | .snac t => t.m_flapChannel = 2 ∧ t.m_flapSequence < 2 ^ 16 ∧ t.m_buffer.length ≤ 65525 ∧
      t.m_snacService < 2 ^ 16 ∧ t.m_snacSubtype < 2 ^ 16 ∧ t.m_snacFlags < 0x8000 ∧
      t.m_snacReqId < 2 ^ 32

/-- The same transfer, received: its fields, and its payload byte for byte. -/
def received : OutTransfer → Transfer
  | .flap t =>
    ⟨⟨t.m_flapChannel, t.m_flapSequence, t.m_buffer.length⟩, none, t.m_buffer.length,
      t.m_buffer.map some⟩
  | .snac t =>
    ⟨⟨t.m_flapChannel, t.m_flapSequence, t.m_buffer.length + 10⟩,
      some ⟨t.m_snacService, t.m_snacSubtype, t.m_snacFlags, t.m_snacReqId⟩, t.m_buffer.length,
      t.m_buffer.map some⟩

end OutTransfer

/-! ## Header fields -/

theorem beNat_word {n : Nat} (h : n < 2 ^ 16) :
    beNat [UInt8.ofNat (n / 2 ^ 8), UInt8.ofNat n] = n := by
  have hWord := beNat_beBytes (n := 2) (v := n) (by omega)
  simpa [beBytes] using hWord

theorem beNat_dword {n : Nat} (h : n < 2 ^ 32) :
    beNat [UInt8.ofNat (n / 2 ^ 24), UInt8.ofNat (n / 2 ^ 16), UInt8.ofNat (n / 2 ^ 8),
      UInt8.ofNat n] = n := by
  have hDWord := beNat_beBytes (n := 4) (v := n) (by omega)
  simpa [beBytes] using hDWord

theorem flap_flapHeader {channel sequence length : Nat} (hChannel : channel < 2 ^ 8)
    (hSequence : sequence < 2 ^ 16) (hLength : length < 2 ^ 16) (r : List UInt8) :
    flap (flapHeader channel sequence length ++ r) = ⟨channel, sequence, length⟩ := by
  have hByte : beNat [UInt8.ofNat channel] = channel := by
    simpa [beNat] using hChannel
  have hOne : intAt beNat 1 (flapHeader channel sequence length ++ r) 1 = channel := by
    simpa [intAt, flapHeader] using hByte
  have hTwo : intAt beNat 2 (flapHeader channel sequence length ++ r) 2 = sequence := by
    simpa [intAt, flapHeader] using beNat_word hSequence
  have hFour : intAt beNat 2 (flapHeader channel sequence length ++ r) 4 = length := by
    simpa [intAt, flapHeader] using beNat_word hLength
  rw [flap_eq, hOne, hTwo, hFour]

theorem snac_snacHeader (channel sequence length : Nat) {service subtype flags reqId : Nat}
    (hService : service < 2 ^ 16) (hSubtype : subtype < 2 ^ 16) (hFlags : flags < 2 ^ 16)
    (hReqId : reqId < 2 ^ 32) (r : List UInt8) :
    snac (flapHeader channel sequence length ++ (snacHeader service subtype flags reqId ++ r)) =
      ⟨service, subtype, flags, reqId⟩ := by
  set w := flapHeader channel sequence length ++ (snacHeader service subtype flags reqId ++ r)
    with hw
  have hSix : intAt beNat 2 w 6 = service := by
    simpa [hw, intAt, flapHeader, snacHeader] using beNat_word hService
  have hEight : intAt beNat 2 w 8 = subtype := by
    simpa [hw, intAt, flapHeader, snacHeader] using beNat_word hSubtype
  have hTen : intAt beNat 2 w 10 = flags := by
    simpa [hw, intAt, flapHeader, snacHeader] using beNat_word hFlags
  have hTwelve : intAt beNat 4 w 12 = reqId := by
    simpa [hw, intAt, flapHeader, snacHeader] using beNat_dword hReqId
  rw [snac_eq, hSix, hEight, hTen, hTwelve]

/-- The payload is the window behind the headers. -/
theorem rawData_payload (u v r : List UInt8) :
    rawData (u ++ (v ++ r)) u.length v.length = v.map some := by
  apply List.ext_getElem
  · simp [rawData]
  · intro i hi hi'
    simp only [List.length_map] at hi'
    simp [rawData, List.getElem?_append_right, List.getElem?_append_left hi']

/-! ## One transfer -/

theorem nextTransfer_flap {t : FlapTransfer} (h : (OutTransfer.flap t).Encodable)
    (r : List UInt8) :
    nextTransfer (t.toWire ++ r) = some ((OutTransfer.flap t).received, t.toWire.length) := by
  obtain ⟨hChannel, hNot, hSequence, hLength⟩ := h
  have hMod : t.m_buffer.length % 2 ^ 16 = t.m_buffer.length := Nat.mod_eq_of_lt (by omega)
  have hWire : t.toWire ++ r =
      flapHeader t.m_flapChannel t.m_flapSequence t.m_buffer.length ++ (t.m_buffer ++ r) := by
    rw [FlapTransfer.toWire, hMod, List.append_assoc]
  have hFlap := flap_flapHeader hChannel hSequence (Nat.lt_succ_of_le hLength) (t.m_buffer ++ r)
  have hData := rawData_payload
    (flapHeader t.m_flapChannel t.m_flapSequence t.m_buffer.length) t.m_buffer r
  have hSize : t.toWire.length = t.m_buffer.length + 6 := by
    rw [FlapTransfer.toWire, List.length_append, Nat.add_comm]
    rfl
  have hParse : (FlapProtocol.parse (t.toWire ++ r)).1 = (OutTransfer.flap t).received := by
    rw [hWire]
    show (⟨flap _, none, (flap _).length, rawData _ 6 (flap _).length⟩ : Transfer) = _
    rw [hFlap]
    exact congrArg _ hData
  rw [nextTransfer, packetTransfer, hParse, hWire, hFlap, if_neg hNot, hSize]
  refine if_pos ⟨?_, rfl, ?_⟩
  · simp [flapHeader]
  · rw [bytesNeeded, if_neg hNot]
    simp [flapHeader]
    omega

theorem nextTransfer_snac {t : SnacTransfer} (h : (OutTransfer.snac t).Encodable)
    (r : List UInt8) :
    nextTransfer (t.toWire ++ r) = some ((OutTransfer.snac t).received, t.toWire.length) := by
  obtain ⟨hChannel, hSequence, hLength, hService, hSubtype, hFlags, hReqId⟩ := h
  have hMod : (t.m_buffer.length + 10) % 2 ^ 16 = t.m_buffer.length + 10 :=
    Nat.mod_eq_of_lt (by omega)
  set header := snacHeader t.m_snacService t.m_snacSubtype t.m_snacFlags t.m_snacReqId
    with hHeader
  have hWire : t.toWire ++ r =
      flapHeader t.m_flapChannel t.m_flapSequence (t.m_buffer.length + 10) ++
        (header ++ (t.m_buffer ++ r)) := by
    rw [SnacTransfer.toWire, hMod, List.append_assoc, List.append_assoc]
  have hFlap := flap_flapHeader (show t.m_flapChannel < 2 ^ 8 by omega) hSequence
    (show t.m_buffer.length + 10 < 2 ^ 16 by omega) (header ++ (t.m_buffer ++ r))
  have hSnac := snac_snacHeader t.m_flapChannel t.m_flapSequence (t.m_buffer.length + 10)
    hService hSubtype (show t.m_snacFlags < 2 ^ 16 by omega) hReqId (t.m_buffer ++ r)
  rw [← hHeader] at hSnac
  have hData := rawData_payload
    (flapHeader t.m_flapChannel t.m_flapSequence (t.m_buffer.length + 10) ++ header) t.m_buffer r
  rw [List.append_assoc] at hData
  have hSize : t.toWire.length = t.m_buffer.length + 10 + 6 := by
    simp [SnacTransfer.toWire, flapHeader, snacHeader]
  have hParse : snacTransfer (t.toWire ++ r) = (OutTransfer.snac t).received := by
    have hOffset : ¬ t.m_snacFlags ≥ 0x8000 := by omega
    have hLeft : ((t.m_buffer.length + 10 : Nat) : Int) - (10 : Nat) = t.m_buffer.length := by
      omega
    simp only [snacTransfer, hWire, hFlap, hSnac, if_neg hOffset, hLeft]
    exact congrArg _ hData
  rw [nextTransfer, packetTransfer, hParse, hWire, hFlap, if_pos hChannel, hSize]
  refine if_pos ⟨?_, rfl, ?_⟩
  · simp [flapHeader]
  · rw [bytesNeeded, if_pos hChannel]
    simp [flapHeader, hHeader, snacHeader]

/-- **One transfer.** Whatever is behind its encoding. -/
theorem nextTransfer_toWire {t : OutTransfer} (h : t.Encodable) (r : List UInt8) :
    nextTransfer (t.toWire ++ r) = some (t.received, t.toWire.length) := by
  cases t with
  | flap t => exact nextTransfer_flap h r
  | snac t => exact nextTransfer_snac h r

/-! ## The stream -/

theorem parseLoop_toWire {ts : List OutTransfer} (h : ∀ t ∈ ts, t.Encodable)
    {c : CoreProtocol} (hIn : c.m_in = ts.flatMap OutTransfer.toWire) :
    ∃ st, parseLoop c =
      { c with m_in := [], m_state := st, emitted := c.emitted ++ ts.map OutTransfer.received } := by
  induction ts generalizing c with
  | nil =>
    replace hIn : c.m_in = [] := hIn
    refine ⟨c.m_state, ?_⟩
    rw [parseLoop, dif_pos (by rw [hIn]; rfl), List.map_nil, List.append_nil, ← hIn]
  | cons t ts ih =>
    have hNext := nextTransfer_toWire (h t List.mem_cons_self) (ts.flatMap OutTransfer.toWire)
    rw [List.flatMap_cons] at hIn
    rw [← hIn] at hNext
    obtain ⟨st, hRest⟩ := ih (fun t ht => h t (List.mem_cons_of_mem _ ht))
      (c := { c with
        m_in := c.m_in.drop t.toWire.length
        m_state := .Available
        emitted := c.emitted ++ [t.received] }) (by rw [hIn, List.drop_left])
    refine ⟨st, ?_⟩
    rw [parseLoop_some hNext, hRest, List.map_cons, List.append_assoc]
    rfl

theorem addIncomingData_toWire {ts : List OutTransfer} (h : ∀ t ∈ ts, t.Encodable)
    {c : CoreProtocol} (hSync : InSync c) (hIn : c.m_in = []) :
    ∃ st, addIncomingData c (ts.flatMap OutTransfer.toWire) =
      { c with m_state := st, emitted := c.emitted ++ ts.map OutTransfer.received } := by
  obtain ⟨st, hLoop⟩ := parseLoop_toWire h
    (c := { c with
      m_in := c.m_in ++ ts.flatMap OutTransfer.toWire
      m_state := .Available }) (by rw [hIn, List.nil_append])
  refine ⟨st, ?_⟩
  rw [addIncomingData, hLoop]
  simp [hSync.1, hSync.2, hIn]

/--
**Round trip.** Encodings that arrive whole, one or any number of them in a
chunk, come out as the transfers they encode, in order, and nothing is left over.
-/
theorem feed_toWire (chunks : List (List OutTransfer))
    (h : ∀ ts ∈ chunks, ∀ t ∈ ts, t.Encodable) :
    (feed (chunks.map (List.flatMap OutTransfer.toWire))).emitted =
        chunks.flatten.map OutTransfer.received ∧
      (feed (chunks.map (List.flatMap OutTransfer.toWire))).m_in = [] := by
  have hFold {c : CoreProtocol} (hSync : InSync c) (hIn : c.m_in = []) :
      ∃ st, (chunks.map (List.flatMap OutTransfer.toWire)).foldl addIncomingData c =
        { c with m_state := st, emitted := c.emitted ++ chunks.flatten.map OutTransfer.received } := by
    induction chunks generalizing c with
    | nil => exact ⟨c.m_state, by simp⟩
    | cons ts chunks ih =>
      obtain ⟨st, hFirst⟩ := addIncomingData_toWire (h ts List.mem_cons_self) hSync hIn
      obtain ⟨st', hRest⟩ := ih (fun ts hts => h ts (List.mem_cons_of_mem _ hts))
        (c := { c with m_state := st, emitted := c.emitted ++ ts.map OutTransfer.received }) hSync hIn
      refine ⟨st', ?_⟩
      rw [List.map_cons, List.foldl_cons, hFirst, hRest]
      simp
  obtain ⟨st, hFeed⟩ := hFold (c := CoreProtocol.init) ⟨rfl, rfl⟩ rfl
  rw [feed, hFeed]
  exact ⟨rfl, rfl⟩

/-- A SNAC without payload and a FLAP frame of one byte, in one chunk. -/
theorem feed_toWire_two :
    (feed ([[.snac ⟨⟨2, 1, []⟩, 1, 2, 0, 3⟩, .flap ⟨4, 2, [7]⟩]].map
        (List.flatMap OutTransfer.toWire))).emitted =
      [⟨⟨2, 1, 10⟩, some ⟨1, 2, 0, 3⟩, 0, []⟩, ⟨⟨4, 2, 1⟩, none, 1, [some 7]⟩] :=
  (feed_toWire [[.snac ⟨⟨2, 1, []⟩, 1, 2, 0, 3⟩, .flap ⟨4, 2, [7]⟩]]
    (by simp [OutTransfer.Encodable])).1

end Oscar
