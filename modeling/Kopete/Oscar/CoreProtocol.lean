import Kopete.Lib.DataStream
import Kopete.Lib.Framing
import Mathlib

/-!
# Oscar — reassembling the server's stream

The receiving half of liboscar's `CoreProtocol`: every chunk read from the
socket is appended to `m_in`, and `wireToTransfer` is run on `m_in` until it
takes no more bytes. A transfer is a FLAP frame (6 byte header) on some
channel; on channel 2 the frame carries a SNAC (10 byte header, or 18 bytes
when bit 15 of its flags is set).

The payload handed on is a window of raw memory: the parsers build a `Buffer`
from a pointer into the packet and a length, without looking at where the
packet ends. `rawData` keeps this visible: a byte read from behind the end of
the array is `none`.
-/

namespace Oscar

open DataStream

/-- FLAP header. -/
structure FLAP where
  channel : Nat
  sequence : Nat
  length : Nat
deriving DecidableEq, Repr

/-- SNAC header. -/
structure SNAC where
  family : Nat
  subtype : Nat
  flags : Nat
  id : Nat
deriving DecidableEq, Repr

/-- `n` bytes of memory from offset `off` of an array; `none` is a byte that
does not belong to the array. A negative length is an empty window. -/
def rawData (packet : List UInt8) (off : Nat) (n : Int) : List (Option UInt8) :=
  (List.range n.toNat).map fun i => packet[off + i]?

/-- A received transfer: a `FlapTransfer` has no SNAC header. `bufferLength`
and `data` are the length and the bytes of the `Buffer` it carries. -/
structure Transfer where
  flap : FLAP
  snac : Option SNAC
  bufferLength : Int
  data : List (Option UInt8)
deriving DecidableEq, Repr

/-- The FLAP header at the front of a packet, and the stream behind it. -/
def readFlap (packet : List UInt8) : FLAP × List UInt8 :=
  let (_, din) := readU8 packet -- the start byte
  let (channel, din) := readU8 din
  let (sequence, din) := readU16BE din
  let (length, din) := readU16BE din
  (⟨channel, sequence, length⟩, din)

/-- The SNAC header at the front of a stream. -/
def readSnac (din : List UInt8) : SNAC × List UInt8 :=
  let (family, din) := readU16BE din
  let (subtype, din) := readU16BE din
  let (flags, din) := readU16BE din
  let (id, din) := readU32BE din
  (⟨family, subtype, flags, id⟩, din)

/-- `FlapProtocol::parse`: the transfer and the number of bytes it takes.
There is no test of the packet's size. -/
def FlapProtocol.parse (packet : List UInt8) : Transfer × Nat :=
  let f := (readFlap packet).1
  (⟨f, none, f.length, rawData packet 6 f.length⟩, f.length + 6)

/-- `SnacProtocol::parse`: `none` when the packet is shorter than the frame.
The SNAC header is read whatever the length of the frame is. -/
def SnacProtocol.parse (packet : List UInt8) : Option (Transfer × Nat) :=
  let (f, din) := readFlap packet
  if f.length + 6 > packet.length then
    none
  else
    let s := (readSnac din).1
    let snacOffset : Nat := if s.flags ≥ 0x8000 then 18 else 10
    let length : Int := f.length - snacOffset
    some (⟨f, some s, length, rawData packet (6 + snacOffset) length⟩, f.length + 6)

/-- `CoreProtocol::State`. -/
inductive State where
  | NeedMore | Available | NoData | OutOfSync
deriving DecidableEq, Repr

/-- `InputProtocolBase::EventProtocolState`. -/
inductive EventProtocolState where
  | Success | NeedMore | OutOfSync | ProtocolError
deriving DecidableEq, Repr

/-- The receiving state of `CoreProtocol`. `emitted` lists the transfers that
were handed on by `incomingData()`, in order; `snacState` and `flapState` are
the `state()` of the two sub-parsers. -/
structure CoreProtocol where
  m_in : List UInt8
  m_state : State
  snacState : EventProtocolState
  flapState : EventProtocolState
  emitted : List Transfer
deriving Repr

/-- A new `CoreProtocol`. The sub-parsers start in `NeedMore`, and neither
`FlapProtocol::parse` nor `SnacProtocol::parse` ever assigns its state. -/
def CoreProtocol.init : CoreProtocol :=
  ⟨[], .NoData, .NeedMore, .NeedMore, []⟩

/-- `CoreProtocol::wireToTransfer`: the new `m_state`, the transfer that is
emitted, and the number of bytes parsed. -/
def wireToTransfer (st : State) (wire : List UInt8) : State × Option Transfer × Nat :=
  if wire.length < 6 then
    (.NeedMore, none, 0)
  else
    let (flapStart, din) := readU8 wire
    if flapStart = 0x2A then
      let (flapChannel, din) := readU8 din
      let (_, din) := readU16BE din
      let (flapLength, _) := readU16BE din
      if wire.length < flapLength then
        (.NeedMore, none, 0)
      else if flapChannel = 2 then
        match SnacProtocol.parse wire with
        | some (t, bytesParsed) => (.Available, some t, bytesParsed)
        | none => (.NeedMore, none, 0)
      else
        let (t, bytesParsed) := FlapProtocol.parse wire
        (.Available, some t, bytesParsed)
    else
      (st, none, 0) -- unknown wire format

/-- The loop of `addIncomingData`: as long as `m_in` holds data and something
can be parsed out of it. `m_in.remove( 0, parsedBytes )` removes at most what
is there. -/
def parseLoop (c : CoreProtocol) : CoreProtocol :=
  if _h : c.m_in.length = 0 then
    c
  else
    match wireToTransfer c.m_state c.m_in with
    | (st, t, 0) => { c with m_state := st, emitted := c.emitted ++ t.toList }
    | (st, t, n + 1) =>
      parseLoop { c with
        m_in := c.m_in.drop (n + 1), m_state := st, emitted := c.emitted ++ t.toList }
termination_by c.m_in.length
decreasing_by
  simp only [List.length_drop]
  omega

/-- `CoreProtocol::addIncomingData`. -/
def addIncomingData (c : CoreProtocol) (incomingBytes : List UInt8) : CoreProtocol :=
  let c := parseLoop { c with m_in := c.m_in ++ incomingBytes, m_state := .Available }
  if c.snacState = .OutOfSync ∨ c.flapState = .OutOfSync then
    { c with m_in := [] }
  else
    c

/-- Feed chunks one by one to a new `CoreProtocol`. -/
def feed (chunks : List (List UInt8)) : CoreProtocol :=
  chunks.foldl addIncomingData CoreProtocol.init

/-! ## The payload of a SNAC -/

/-- The size of the SNAC header, as `SnacProtocol::parse` takes it from the flags. -/
def snacHeaderSize (packet : List UInt8) : Nat :=
  if (readSnac (readFlap packet).2).1.flags ≥ 0x8000 then 18 else 10

/-- The payload has a length and is a range of the packet's bytes, behind the two headers. -/
def PayloadInside (packet : List UInt8) (t : Transfer) : Prop :=
  0 ≤ t.bufferLength ∧ 6 + snacHeaderSize packet + t.bufferLength ≤ packet.length ∧
    t.data = ((packet.drop (6 + snacHeaderSize packet)).take t.bufferLength.toNat).map some

/-- A window inside the array is a range of its bytes. -/
theorem rawData_inside {packet : List UInt8} {off n : Nat} (h : off + n ≤ packet.length) :
    rawData packet off n = ((packet.drop off).take n).map some := by
  unfold rawData
  refine List.ext_getElem (by simp; omega) fun i hi hi' => ?_
  simp only [List.length_map, List.length_range, Int.toNat_natCast] at hi
  rw [List.getElem_map, List.getElem_range, List.getElem_map, List.getElem_take,
    List.getElem_drop, List.getElem?_eq_getElem (by omega)]

/-- What `SnacProtocol::parse` hands on. -/
theorem parse_spec {packet : List UInt8} {t : Transfer} {bytes : Nat}
    (h : SnacProtocol.parse packet = some (t, bytes)) :
    (readFlap packet).1.length + 6 ≤ packet.length ∧
      t.bufferLength = (readFlap packet).1.length - snacHeaderSize packet ∧
      t.data = rawData packet (6 + snacHeaderSize packet) t.bufferLength := by
  unfold SnacProtocol.parse at h
  dsimp only at h
  split at h
  case isTrue => exact absurd h (by simp)
  case isFalse hSize =>
    obtain ⟨rfl, -⟩ := Prod.mk.inj (Option.some.inj h)
    exact ⟨Nat.le_of_not_lt hSize, rfl, rfl⟩

/-- **The payload of a SNAC** is inside the packet exactly if the frame has room for the SNAC
header. -/
theorem payload_inside_iff (packet : List UInt8) (t : Transfer) (bytes : Nat)
    (h : SnacProtocol.parse packet = some (t, bytes)) :
    PayloadInside packet t ↔ snacHeaderSize packet ≤ (readFlap packet).1.length := by
  obtain ⟨hSize, hLength, hData⟩ := parse_spec h
  unfold PayloadInside
  rw [hData, hLength]
  constructor
  · rintro ⟨hPos, -⟩
    omega
  · intro hRoom
    rw [← Int.natCast_sub hRoom, Int.toNat_natCast]
    exact ⟨Int.natCast_nonneg _, by omega, rawData_inside (by omega)⟩

/-- A SNAC with four bytes of payload. -/
theorem payload_inside_four :
    PayloadInside [0x2A, 2, 0, 1, 0, 14, 0, 1, 0, 2, 0, 0, 0, 0, 0, 0, 1, 2, 3, 4]
      ⟨⟨2, 1, 14⟩, some ⟨1, 2, 0, 0⟩, 4, [some 1, some 2, some 3, some 4]⟩ :=
  (payload_inside_iff _ _ 20 (by decide)).2 (by decide)

/-- A frame that ends before its SNAC header does. -/
theorem payload_short :
    ¬ ∀ (packet : List UInt8) (t : Transfer) (bytes : Nat),
      SnacProtocol.parse packet = some (t, bytes) → PayloadInside packet t := by
  intro h
  have hInside := h [0x2A, 2, 0, 1, 0, 0] ⟨⟨2, 1, 0⟩, some ⟨0, 0, 0, 0⟩, -10, []⟩ 6 (by decide)
  exact absurd hInside.1 (by decide)

end Oscar
