import Kopete.Oscar.OftChecksum
import Kopete.Oscar.OftProgress
import Kopete.Oscar.OftProtocol

/-!
# Oscar — a file transfer and the segments of its stream

`socketRead` takes what `readAll` returns for one header or, while a file is
received, for bytes of that file. So it works on whole packets, as the model of
`OftMetaTransfer` has them, as long as TCP delivers whole packets.

`Aligned` says that it does: each header is read in one piece, and bytes of a
file are read apart from headers. Then the pieces of a file do not matter beyond
its checksum. A header of which only the first byte has arrived is no header for
`OftProtocol::parse`, and `readOft` dereferences the null it returns.

Main results:

* `run_aligned` — whole headers and any pieces of files give what whole packets
  give;
* `exists_null` — any header can be cut so that `readOft` dereferences null;
* `segments_agree_iff` — the segments do not matter exactly for streams without
  headers.
-/

namespace Oscar

namespace OftMetaTransfer

open EndAround DataStream

/-! ## Reads -/

/-- The signals of the socket: bytes have arrived, or there is room to write. -/
inductive SocketEvent
  | readyRead (raw : List UInt8)
  | bytesWritten (room : Nat)
deriving DecidableEq, Repr

namespace Raw

/-- `readOft` of the bytes `readAll` returns; `none` is a null dereference. -/
def readOft (codecs : TextCodecs) (memory : Nat → UInt8) (raw : List UInt8)
    (t : OftMetaTransfer) : Option (OftMetaTransfer × List Packet) :=
  match OftProtocol.parse codecs memory raw with
  | none => none
  | some (transfer, _) => some (OftMetaTransfer.readOft transfer.m_data t)

/-- `socketRead`. -/
def socketRead (codecs : TextCodecs) (memory : Nat → UInt8) (raw : List UInt8)
    (t : OftMetaTransfer) : Option (OftMetaTransfer × List Packet) :=
  if t.m_state = .Receiving then some (saveData raw t) else readOft codecs memory raw t

def step (codecs : TextCodecs) (memory : Nat → UInt8) (t : OftMetaTransfer) :
    SocketEvent → Option (OftMetaTransfer × List Packet)
  | .readyRead raw => socketRead codecs memory raw t
  | .bytesWritten room => some (write room t)

/-- The state after some events, and everything sent. -/
def run (codecs : TextCodecs) (memory : Nat → UInt8) :
    OftMetaTransfer → List SocketEvent → Option (OftMetaTransfer × List Packet)
  | t, [] => some (t, [])
  | t, e :: events =>
    (step codecs memory t e).bind fun (u, sent) =>
      (run codecs memory u events).map fun (v, sent') => (v, sent ++ sent')

variable {codecs : TextCodecs} {memory : Nat → UInt8}

theorem run_cons {t : OftMetaTransfer} {r : OftMetaTransfer × List Packet} {e : SocketEvent}
    (hStep : step codecs memory t e = some r) (events : List SocketEvent) :
    run codecs memory t (e :: events) =
      (run codecs memory r.1 events).map fun q => (q.1, r.2 ++ q.2) := by
  rw [run, hStep]
  rfl

theorem run_singleton {t : OftMetaTransfer} {r : OftMetaTransfer × List Packet} {e : SocketEvent}
    (hStep : step codecs memory t e = some r) : run codecs memory t [e] = some r := by
  rw [run_cons hStep, run, Option.map_some, List.append_nil]

theorem run_append {t : OftMetaTransfer} {r : OftMetaTransfer × List Packet}
    {events : List SocketEvent} (hRun : run codecs memory t events = some r)
    (events' : List SocketEvent) :
    run codecs memory t (events ++ events') =
      (run codecs memory r.1 events').map fun q => (q.1, r.2 ++ q.2) := by
  induction events generalizing t r with
  | nil =>
    rw [← Option.some.inj hRun]
    simp
  | cons e events ih =>
    rw [run, Option.bind_eq_some_iff] at hRun
    obtain ⟨r₁, hStep, hRest⟩ := hRun
    rw [Option.map_eq_some_iff] at hRest
    obtain ⟨r₂, hTail, rfl⟩ := hRest
    rw [List.cons_append, run_cons hStep, ih hTail, Option.map_map]
    congr 1
    funext q
    simp

end Raw

/-! ## Streams -/

/-- The packets a peer sends, in their order, and the calls of `write` between
them. -/
inductive Part
  | header (h : List UInt8)
  | file (data : List UInt8)
  | write (room : Nat)
deriving DecidableEq, Repr

/-- A part as one event. -/
def Part.event : Part → SocketEvent
  | .header h => .readyRead h
  | .file data => .readyRead data
  | .write room => .bytesWritten room

/-- The wire format of the code. -/
def oftWire (codecs : TextCodecs) (memory : Nat → UInt8) : Wire where
  toWire := OftTransfer.toWire codecs
  parse raw := ((OftProtocol.parse codecs memory raw).map fun p => p.1.m_data).getD initOft

/-- A part as one packet. -/
def whole (w : Wire) (t : OftMetaTransfer) : Part → OftMetaTransfer × List Packet
  | .header h => socketRead w (.bytes h) t
  | .file data => socketRead w (.bytes data) t
  | .write room => write room t

/-- **What whole packets give.** The state after all parts, and everything sent. -/
def runWhole (w : Wire) : OftMetaTransfer → List Part → OftMetaTransfer × List Packet
  | t, [] => (t, [])
  | t, p :: parts =>
    let (u, sent) := whole w t p
    let (v, sent') := runWhole w u parts
    (v, sent ++ sent')

/-- A peer that sends headers, and bytes of a file while one is received: all
that are left of it, or some of them if the stream ends there. -/
def Conforms (w : Wire) : OftMetaTransfer → List Part → Prop
  | _, [] => True
  | t, .header h :: parts => t.m_state ≠ .Receiving ∧ OftProtocol.IsHeader h ∧
      Conforms w (whole w t (.header h)).1 parts
  | t, .file data :: parts => t.m_state = .Receiving ∧ data ≠ [] ∧
      (t.m_oft.bytesSent + data.length = t.m_oft.fileSize ∨
        t.m_oft.bytesSent + data.length < t.m_oft.fileSize ∧ parts = []) ∧
      Conforms w (whole w t (.file data)).1 parts
  | t, .write room :: parts => t.m_state ≠ .Receiving ∧
      Conforms w (whole w t (.write room)).1 parts

/-- The bytes of an event, or the call of `write`. -/
def SocketEvent.stream : SocketEvent → List (UInt8 ⊕ Nat)
  | .readyRead raw => raw.map .inl
  | .bytesWritten room => [.inr room]

/-- The bytes that arrive, with the calls of `write` in between. -/
def stream (events : List SocketEvent) : List (UInt8 ⊕ Nat) := events.flatMap SocketEvent.stream

/-- Some segmentation of what the peer sends. -/
structure Segments (parts : List Part) (events : List SocketEvent) : Prop where
  nonempty : ∀ raw, .readyRead raw ∈ events → raw ≠ []
  stream : stream events = stream (parts.map Part.event)

/-- A segmentation with each header in one read and files in reads of their own. -/
inductive Aligned : List Part → List SocketEvent → Prop
  | nil : Aligned [] []
  | header {parts : List Part} {events : List SocketEvent} (h : List UInt8)
      (rest : Aligned parts events) : Aligned (.header h :: parts) (.readyRead h :: events)
  | file {parts : List Part} {events : List SocketEvent} (raws : List (List UInt8))
      (nonempty : ∀ raw ∈ raws, raw ≠ []) (rest : Aligned parts events) :
      Aligned (.file raws.flatten :: parts) (raws.map .readyRead ++ events)
  | write {parts : List Part} {events : List SocketEvent} (room : Nat)
      (rest : Aligned parts events) :
      Aligned (.write room :: parts) (.bytesWritten room :: events)

/-- Among some segmentations all give what whole packets give, and none a null
dereference. -/
def Agrees (codecs : TextCodecs) (memory : Nat → UInt8)
    (among : List Part → List SocketEvent → Prop) (t : OftMetaTransfer) (parts : List Part) : Prop :=
  ∀ memory' events, among parts events →
    Raw.run codecs memory' t events = some (runWhole (oftWire codecs memory) t parts)

/-- The checksum of the bytes of a file does not depend on how they are cut. -/
def SettledPart (t : OftMetaTransfer) : Part → Prop
  | .file data =>
    UnambiguousFrom (t.m_oft.sentChecksum / 2 ^ 16 % 2 ^ 16) t.m_oft.bytesSent data
  | _ => True

/-- The same for all files of a stream. -/
def Settled (w : Wire) (t : OftMetaTransfer) (parts : List Part) : Prop :=
  Run.StepsMeet (fun t p => (whole w t p).1) SettledPart t parts

/-! ## Whole packets -/

variable {codecs : TextCodecs} {memory : Nat → UInt8}

/-- A header read in one piece, whatever is in memory. -/
theorem step_header (memory' : Nat → UInt8) {t : OftMetaTransfer} {h : List UInt8}
    (hState : t.m_state ≠ .Receiving) (hHeader : OftProtocol.IsHeader h) :
    Raw.step codecs memory' t (.readyRead h) =
      some (whole (oftWire codecs memory) t (.header h)) := by
  have hSome : OftProtocol.parse codecs memory h ≠ none := fun hNone =>
    (OftProtocol.parse_eq_none_iff codecs memory h).mp hNone hHeader.magic
  obtain ⟨⟨transfer, bytes⟩, hParse⟩ := Option.ne_none_iff_exists'.mp hSome
  have hData : (oftWire codecs memory).parse h = transfer.m_data := by
    show ((OftProtocol.parse codecs memory h).map _).getD _ = _
    rw [hParse]
    rfl
  rw [Raw.step, Raw.socketRead, if_neg hState, Raw.readOft,
    OftProtocol.parse_of_isHeader codecs memory' memory hHeader, hParse, whole, socketRead,
    if_neg hState, Packet.data, hData]

theorem step_file (memory' : Nat → UInt8) {t : OftMetaTransfer} {data : List UInt8}
    (hState : t.m_state = .Receiving) :
    Raw.step codecs memory' t (.readyRead data) =
      some (whole (oftWire codecs memory) t (.file data)) := by
  rw [Raw.step, Raw.socketRead, if_pos hState, whole, socketRead, if_pos hState, Packet.raw]

theorem runWhole_cons (w : Wire) (t : OftMetaTransfer) (p : Part) (parts : List Part) :
    runWhole w t (p :: parts) =
      ((runWhole w (whole w t p).1 parts).1,
        (whole w t p).2 ++ (runWhole w (whole w t p).1 parts).2) := rfl

/-! ## Pieces of a file -/

/-- More bytes of the file, with a checksum for them. -/
def saved (checksum : Nat) (data : List UInt8) (t : OftMetaTransfer) : OftMetaTransfer :=
  { t.setContent (t.content t.m_file ++ data) with
    m_oft := { t.m_oft with
      sentChecksum := checksum
      bytesSent := (t.m_oft.bytesSent + data.length) % 2 ^ 32 } }

/-- `done`, if it was the last of them. -/
def finish (t : OftMetaTransfer) : OftMetaTransfer × List Packet :=
  if t.m_oft.bytesSent ≥ t.m_oft.fileSize then done t else (t, [])

theorem saveData_eq (raw : List UInt8) (t : OftMetaTransfer) :
    saveData raw t = finish
      (saved (chunkChecksum raw t.m_oft.sentChecksum (t.m_oft.bytesSent % 2 == 1)) raw t) := rfl

theorem saved_saved {t : OftMetaTransfer} {raw : List UInt8} (c c' : Nat) (data : List UInt8) :
    saved c' data (saved c raw t) = saved c' (raw ++ data) t := by
  have hContent : (saved c raw t).content (saved c raw t).m_file = t.content t.m_file ++ raw :=
    content_setContent t (t.content t.m_file ++ raw)
  have hLength : ((t.m_oft.bytesSent + raw.length) % 2 ^ 32 + data.length) % 2 ^ 32 =
      (t.m_oft.bytesSent + (raw ++ data).length) % 2 ^ 32 := by
    rw [List.length_append]
    omega
  unfold saved at hContent ⊢
  simp only [hContent, hLength, List.append_assoc]
  simp [setContent]

/-- **Pieces of a file.** They are saved like the whole, but for the checksum. -/
theorem run_pieces (codecs : TextCodecs) (memory' : Nat → UInt8) {t : OftMetaTransfer} {raws : List (List UInt8)}
    (hState : t.m_state = .Receiving) (hSize : t.m_oft.fileSize < 2 ^ 32)
    (hRaws : ∀ raw ∈ raws, raw ≠ []) (hSome : raws ≠ [])
    (hLeft : t.m_oft.bytesSent + raws.flatten.length ≤ t.m_oft.fileSize) :
    Raw.run codecs memory' t (raws.map .readyRead) = some (finish
      (saved (checksumFrom t.m_oft.sentChecksum t.m_oft.bytesSent raws) raws.flatten t)) := by
  induction raws generalizing t with
  | nil => exact absurd rfl hSome
  | cons raw raws ih =>
    set c := chunkChecksum raw t.m_oft.sentChecksum (t.m_oft.bytesSent % 2 == 1) with hc
    have hStep : Raw.step codecs memory' t (.readyRead raw) = some (finish (saved c raw t)) := by
      rw [Raw.step, Raw.socketRead, if_pos hState, saveData_eq]
    rw [List.flatten_cons, List.length_append] at hLeft
    by_cases hLast : raws = []
    · subst hLast
      rw [List.map_singleton, Raw.run_singleton hStep, List.flatten_singleton, checksumFrom,
        checksumFrom]
    · have hMore : 0 < raws.flatten.length := by
        obtain ⟨r, rest, rfl⟩ := List.exists_cons_of_ne_nil hLast
        have hne := List.length_pos_iff.mpr (hRaws r (by simp))
        rw [List.flatten_cons, List.length_append]
        omega
      have hSent : (saved c raw t).m_oft.bytesSent = t.m_oft.bytesSent + raw.length :=
        Nat.mod_eq_of_lt (by omega)
      have hFinish : finish (saved c raw t) = (saved c raw t, []) := by
        rw [finish, if_neg]
        rw [hSent]
        show ¬ _ ≥ t.m_oft.fileSize
        omega
      have hRest := ih (t := saved c raw t) hState hSize
        (fun r hr => hRaws r (List.mem_cons_of_mem _ hr)) hLast (by
          rw [hSent]
          show _ ≤ t.m_oft.fileSize
          omega)
      rw [hFinish] at hStep
      rw [List.map_cons, Raw.run_cons hStep, hRest, saved_saved, hSent, List.flatten_cons,
        checksumFrom]
      rfl

/-! ## The announced size -/

theorem fileSize_readOft {oft : OFT} {t : OftMetaTransfer} (hOft : oft.fileSize < 2 ^ 32)
    (h : t.m_oft.fileSize < 2 ^ 32) : (readOft oft t).1.m_oft.fileSize < 2 ^ 32 := by
  unfold readOft
  split
  · by_cases hState : t.m_state = .SetupReceive
    · rcases handleReceiveSetup_cases oft hState with
        ⟨-, -, hResult⟩ | ⟨-, -, hResult⟩ | ⟨-, hResult⟩ | ⟨-, hResult⟩ <;> rw [hResult]
      · exact hOft
      · exact (done_spec _).2.1.trans_lt hOft
      · exact hOft
      · exact hOft
    · rw [handleReceiveSetup, if_pos hState]
      exact h
  · unfold handleSendSetup
    split <;> exact h
  · unfold handleSendDone
    dsimp only
    split
    · exact Nat.mod_lt _ (by decide)
    · exact h
  · unfold handleSendResumeRequest
    split
    · exact h
    · split <;> exact h
  · unfold handleReceiveResumeSetup
    split
    · exact h
    · split <;> exact h
  · unfold handleSendResumeSetup
    split <;> exact h
  · exact h

theorem fileSize_finish (t : OftMetaTransfer) :
    (finish t).1.m_oft.fileSize = t.m_oft.fileSize := by
  unfold finish
  split
  · exact (done_spec t).2.1
  · rfl

theorem fileSize_socketRead {t : OftMetaTransfer} (raw : List UInt8)
    (h : t.m_oft.fileSize < 2 ^ 32) :
    (socketRead (oftWire codecs memory) (.bytes raw) t).1.m_oft.fileSize < 2 ^ 32 := by
  rw [socketRead]
  split
  · rw [Packet.raw, saveData_eq, fileSize_finish]
    exact h
  · refine fileSize_readOft ?_ h
    show (((OftProtocol.parse codecs memory raw).map fun p => p.1.m_data).getD initOft).fileSize < _
    cases hParse : OftProtocol.parse codecs memory raw with
    | none => decide
    | some p => exact OftProtocol.parse_fileSize_lt hParse

theorem fileSize_whole {t : OftMetaTransfer} (p : Part) (h : t.m_oft.fileSize < 2 ^ 32) :
    (whole (oftWire codecs memory) t p).1.m_oft.fileSize < 2 ^ 32 := by
  cases p with
  | header raw => exact fileSize_socketRead raw h
  | file data => exact fileSize_socketRead data h
  | write room =>
    show (write room t).1.m_oft.fileSize < 2 ^ 32
    unfold write
    dsimp only
    split
    · exact h
    · split <;> exact h

/-! ## Whole headers and pieces of files -/

/-- A first piece takes its bytes from the upper digit of the checksum. -/
theorem checksumFrom_digit (checksum p : Nat) {raws : List (List UInt8)} (hSome : raws ≠ []) :
    checksumFrom checksum p raws = checksumFrom (checksum / 2 ^ 16 % 2 ^ 16 * 2 ^ 16) p raws := by
  obtain ⟨raw, rest, rfl⟩ := List.exists_cons_of_ne_nil hSome
  have hDigit := digit_of_mul (Nat.mod_lt (checksum / 2 ^ 16) (show 0 < 2 ^ 16 by decide))
  rw [checksumFrom, checksumFrom, chunkChecksum_eq rfl, chunkChecksum_eq hDigit]

theorem whole_file {t : OftMetaTransfer} (w : Wire) (data : List UInt8)
    (hState : t.m_state = .Receiving) : whole w t (.file data) = finish
      (saved (checksumFrom t.m_oft.sentChecksum t.m_oft.bytesSent [data]) data t) := by
  rw [whole, socketRead, if_pos hState, Packet.raw, saveData_eq, checksumFrom, checksumFrom]

/-- A part that arrives in one piece. -/
theorem step_part (memory' : Nat → UInt8) {t : OftMetaTransfer} {p : Part} {parts : List Part}
    (hConforms : Conforms (oftWire codecs memory) t (p :: parts)) :
    Raw.step codecs memory' t p.event = some (whole (oftWire codecs memory) t p) := by
  cases p with
  | header h => exact step_header memory' hConforms.1 hConforms.2.1
  | file data => exact step_file memory' hConforms.1
  | write room => rfl

theorem Conforms.tail {w : Wire} {t : OftMetaTransfer} {p : Part} {parts : List Part}
    (hConforms : Conforms w t (p :: parts)) : Conforms w (whole w t p).1 parts := by
  cases p with
  | header h => exact hConforms.2.2
  | file data => exact hConforms.2.2.2
  | write room => exact hConforms.2

/-- **Whole headers.** Where the checksum of no file shows how it was cut, whole
headers and any pieces of files give what whole packets give. -/
theorem run_aligned (memory' : Nat → UInt8) {t : OftMetaTransfer} {parts : List Part}
    {events : List SocketEvent} (hSize : t.m_oft.fileSize < 2 ^ 32)
    (hConforms : Conforms (oftWire codecs memory) t parts)
    (hSettled : Settled (oftWire codecs memory) t parts) (hAligned : Aligned parts events) :
    Raw.run codecs memory' t events = some (runWhole (oftWire codecs memory) t parts) := by
  induction hAligned generalizing t with
  | nil => rfl
  | header h _ ih =>
    rw [Raw.run_cons (e := .readyRead h) (step_part memory' hConforms),
      ih (fileSize_whole _ hSize) hConforms.tail hSettled.2]
    rfl
  | file raws hRaws _ ih =>
    obtain ⟨hState, hData, hLeft, hRest⟩ := hConforms
    have hSome : raws ≠ [] := by
      rintro rfl
      exact hData rfl
    have hPieces := run_pieces codecs memory' hState hSize hRaws hSome (by omega)
    have hSame : checksumFrom t.m_oft.sentChecksum t.m_oft.bytesSent raws =
        checksumFrom t.m_oft.sentChecksum t.m_oft.bytesSent [raws.flatten] := by
      rw [checksumFrom_digit _ _ hSome, checksumFrom_digit _ _ (List.cons_ne_nil _ _)]
      exact checksumFrom_unique (Nat.mod_lt _ (by decide)) hSettled.1 (by simp)
    rw [hSame, ← whole_file (oftWire codecs memory) _ hState] at hPieces
    rw [Raw.run_append hPieces, ih (fileSize_whole _ hSize) hRest hSettled.2]
    rfl
  | write room _ ih =>
    rw [Raw.run_cons (e := .bytesWritten room) (step_part memory' hConforms),
      ih (fileSize_whole _ hSize) hConforms.tail hSettled.2]
    rfl

/-! ## Segmentations -/

theorem stream_cons (e : SocketEvent) (events : List SocketEvent) :
    stream (e :: events) = e.stream ++ stream events := rfl

theorem stream_append (events events' : List SocketEvent) :
    stream (events ++ events') = stream events ++ stream events' := List.flatMap_append

theorem stream_reads (raws : List (List UInt8)) :
    stream (raws.map .readyRead) = raws.flatten.map .inl := by
  induction raws with
  | nil => rfl
  | cons raw raws ih =>
    rw [List.map_cons, stream_cons, ih, List.flatten_cons, List.map_append]
    rfl

/-- What a conforming peer sends is not empty. -/
theorem Conforms.event_ne_nil {w : Wire} {t : OftMetaTransfer} {p : Part} {parts : List Part}
    (hConforms : Conforms w t (p :: parts)) {raw : List UInt8} (hEvent : p.event = .readyRead raw) :
    raw ≠ [] := by
  cases p with
  | header h =>
    obtain rfl : h = raw := SocketEvent.readyRead.inj hEvent
    have hLeast := hConforms.2.1.least
    rintro rfl
    exact absurd hLeast (by decide)
  | file data =>
    obtain rfl : data = raw := SocketEvent.readyRead.inj hEvent
    exact hConforms.2.1
  | write room => cases hEvent

/-- A part in one piece, and some segmentation of the others. -/
theorem Segments.cons {w : Wire} {t : OftMetaTransfer} {p : Part} {parts : List Part}
    {events : List SocketEvent} (hConforms : Conforms w t (p :: parts))
    (hRest : Segments parts events) : Segments (p :: parts) (p.event :: events) where
  nonempty raw hRaw := by
    rcases List.mem_cons.mp hRaw with hHead | hTail
    · exact hConforms.event_ne_nil hHead.symm
    · exact hRest.nonempty raw hTail
  stream := by rw [List.map_cons, stream_cons, stream_cons, hRest.stream]

theorem Aligned.segments {w : Wire} {t : OftMetaTransfer} {parts : List Part}
    {events : List SocketEvent} (hAligned : Aligned parts events)
    (hConforms : Conforms w t parts) : Segments parts events := by
  induction hAligned generalizing t with
  | nil => exact ⟨fun _ h => absurd h (List.not_mem_nil), rfl⟩
  | header h _ ih => exact (ih hConforms.tail).cons hConforms
  | @file parts events raws hRaws _ ih =>
    have hRest := ih hConforms.tail
    refine ⟨fun raw hRaw => ?_, ?_⟩
    · rcases List.mem_append.mp hRaw with hPiece | hTail
      · obtain ⟨raw', hMem, hSame⟩ := List.mem_map.mp hPiece
        rw [← SocketEvent.readyRead.inj hSame]
        exact hRaws raw' hMem
      · exact hRest.nonempty raw hTail
    · rw [stream_append, stream_reads, hRest.stream]
      rfl
  | write room _ ih => exact (ih hConforms.tail).cons hConforms

/-- A part in one piece, before an aligned segmentation. -/
theorem Aligned.cons {w : Wire} {t : OftMetaTransfer} {p : Part} {parts : List Part}
    {events : List SocketEvent} (hConforms : Conforms w t (p :: parts))
    (hRest : Aligned parts events) : Aligned (p :: parts) (p.event :: events) := by
  cases p with
  | header h => exact .header h hRest
  | file data =>
    have hOne := Aligned.file [data] (by simpa using hConforms.2.1) hRest
    rwa [List.flatten_singleton, List.map_singleton, List.singleton_append] at hOne
  | write room => exact .write room hRest

/-- Whole packets are a segmentation. -/
theorem aligned_events {w : Wire} {t : OftMetaTransfer} {parts : List Part}
    (hConforms : Conforms w t parts) : Aligned parts (parts.map Part.event) := by
  induction parts generalizing t with
  | nil => exact .nil
  | cons p parts ih => exact (ih hConforms.tail).cons hConforms

/-- **A null dereference.** Any header can be cut behind its first byte. -/
theorem exists_null {t : OftMetaTransfer} {parts : List Part} {h : List UInt8}
    (hConforms : Conforms (oftWire codecs memory) t parts) (hMem : .header h ∈ parts) :
    ∃ events, Segments parts events ∧ ∀ memory', Raw.run codecs memory' t events = none := by
  induction parts generalizing t with
  | nil => exact absurd hMem (List.not_mem_nil)
  | cons p parts ih =>
    by_cases hRest : .header h ∈ parts
    · obtain ⟨events, hSegments, hNull⟩ := ih hConforms.tail hRest
      refine ⟨p.event :: events, hSegments.cons hConforms, fun memory' => ?_⟩
      rw [Raw.run_cons (step_part memory' hConforms), hNull memory', Option.map_none]
    · obtain rfl : .header h = p := (List.mem_cons.mp hMem).resolve_right hRest
      obtain ⟨hState, hHeader, hTail⟩ := hConforms
      obtain ⟨b, rest, rfl⟩ : ∃ b rest, h = b :: rest :=
        List.exists_cons_of_ne_nil (by rintro rfl; exact absurd hHeader.least (by decide))
      have hSome : rest ≠ [] := by
        rintro rfl
        exact absurd hHeader.least (by simp)
      have hWhole := (aligned_events hTail).segments hTail
      refine ⟨.readyRead [b] :: .readyRead rest :: parts.map Part.event, ⟨?_, ?_⟩, fun memory' => ?_⟩
      · intro raw hRaw
        rcases List.mem_cons.mp hRaw with hFirst | hRaw
        · rw [SocketEvent.readyRead.inj hFirst]
          exact List.cons_ne_nil b []
        · rcases List.mem_cons.mp hRaw with hSecond | hRaw
          · rw [SocketEvent.readyRead.inj hSecond]
            exact hSome
          · exact hWhole.nonempty raw hRaw
      · rfl
      · have hNull : Raw.step codecs memory' t (.readyRead [b]) = none := by
          have hNoMagic : ¬ OftProtocol.magic <+: [b] := fun hPrefix =>
            absurd hPrefix.length_le (by simp [OftProtocol.magic])
          rw [Raw.step, Raw.socketRead, if_neg hState, Raw.readOft,
            (OftProtocol.parse_eq_none_iff codecs memory' [b]).mpr hNoMagic]
        rw [Raw.run, hNull, Option.bind_none]

/-! ## Pieces that show -/

/-- Two ways of cutting disagree, so one of them is not that of the whole file. -/
theorem exists_pieces_ne {checksum p : Nat} {data : List UInt8} (hData : data ≠ [])
    (h : ¬ UnambiguousFrom (checksum / 2 ^ 16 % 2 ^ 16) p data) :
    ∃ raws : List (List UInt8), (∀ raw ∈ raws, raw ≠ []) ∧ raws ≠ [] ∧ raws.flatten = data ∧
      checksumFrom checksum p raws ≠ checksumFrom checksum p [data] := by
  have hDigit : checksum / 2 ^ 16 % 2 ^ 16 < 2 ^ 16 := Nat.mod_lt _ (by decide)
  obtain ⟨chunks, chunks', hFlatten, hFlatten', hne⟩ := exists_disagree hDigit h
  obtain ⟨cut, hCut, hShows⟩ : ∃ cut : List (List UInt8), cut.flatten = data ∧
      checksumFrom (checksum / 2 ^ 16 % 2 ^ 16 * 2 ^ 16) p cut ≠
        checksumFrom (checksum / 2 ^ 16 % 2 ^ 16 * 2 ^ 16) p [data] := by
    by_cases hFirst : checksumFrom (checksum / 2 ^ 16 % 2 ^ 16 * 2 ^ 16) p chunks =
        checksumFrom (checksum / 2 ^ 16 % 2 ^ 16 * 2 ^ 16) p [data]
    · exact ⟨chunks', hFlatten', fun hSecond => hne (hFirst.trans hSecond.symm)⟩
    · exact ⟨chunks, hFlatten, hFirst⟩
  have hPieces : (cut.filter (· ≠ [])).flatten = data := List.flatten_filter_ne_nil.trans hCut
  have hSome : cut.filter (· ≠ []) ≠ [] := by
    intro hNil
    rw [hNil] at hPieces
    exact hData hPieces.symm
  refine ⟨cut.filter (· ≠ []), fun raw hRaw => by simpa using (List.mem_filter.mp hRaw).2, hSome,
    hPieces, ?_⟩
  rwa [checksumFrom_digit _ _ hSome, checksumFrom_digit _ _ (List.cons_ne_nil data []),
    checksumFrom_filter hDigit]

/-- `done` sends the checksum. -/
theorem done_sent (t : OftMetaTransfer) :
    (done t).1.m_oft.sentChecksum = t.m_oft.sentChecksum ∧
      (done t).2 = [.oft (done t).1.m_oft] := by
  unfold done sendOft
  dsimp only
  split <;> split <;> simp

theorem finish_sentChecksum (t : OftMetaTransfer) :
    (finish t).1.m_oft.sentChecksum = t.m_oft.sentChecksum := by
  unfold finish
  split
  · exact (done_sent t).1
  · rfl

/-- All of the file: it is done. -/
theorem finish_all {t : OftMetaTransfer} {data : List UInt8} (c : Nat)
    (hSize : t.m_oft.fileSize < 2 ^ 32)
    (hAll : t.m_oft.bytesSent + data.length = t.m_oft.fileSize) :
    finish (saved c data t) = done (saved c data t) := by
  have hSent : (saved c data t).m_oft.bytesSent = t.m_oft.fileSize := by
    show (t.m_oft.bytesSent + data.length) % 2 ^ 32 = _
    rw [hAll, Nat.mod_eq_of_lt hSize]
  rw [finish, if_pos]
  rw [hSent]
  exact Nat.le_refl _

theorem Conforms.not_receiving {t : OftMetaTransfer} {data : List UInt8} {parts : List Part}
    {w : Wire} (hSize : t.m_oft.fileSize < 2 ^ 32)
    (hConforms : Conforms w t (.file data :: parts)) :
    (whole w t (.file data)).1.m_state ≠ .Receiving ∨ parts = [] := by
  obtain ⟨hState, -, hAll | ⟨-, hEnd⟩, -⟩ := hConforms
  · refine .inl ?_
    rw [whole_file w data hState, finish_all _ hSize hAll]
    rcases (done_spec (saved _ data t)).2.2 with hDone | hDone <;> rw [hDone] <;> decide
  · exact .inr hEnd

/-- **Pieces that show.** A file whose checksum shows how it was cut can be cut so
that what is sent, or what is left in the state, is another. -/
theorem exists_aligned_ne {t : OftMetaTransfer} {parts : List Part}
    (hSize : t.m_oft.fileSize < 2 ^ 32) (hConforms : Conforms (oftWire codecs memory) t parts)
    (h : ¬ Settled (oftWire codecs memory) t parts) :
    ∃ events, Aligned parts events ∧
      Raw.run codecs memory t events ≠ some (runWhole (oftWire codecs memory) t parts) := by
  induction parts generalizing t with
  | nil => exact absurd trivial h
  | cons p parts ih =>
    by_cases hPart : SettledPart t p
    · obtain ⟨events, hAligned, hne⟩ :=
        ih (fileSize_whole p hSize) hConforms.tail fun hRest => h ⟨hPart, hRest⟩
      refine ⟨p.event :: events, hAligned.cons hConforms, fun hSame => hne ?_⟩
      rw [Raw.run_cons (step_part memory hConforms), Option.map_eq_some_iff] at hSame
      obtain ⟨q, hRun, hEq⟩ := hSame
      rw [runWhole_cons, Prod.mk.injEq] at hEq
      rw [hRun]
      exact congrArg some (Prod.ext hEq.1 (List.append_cancel_left hEq.2))
    · cases p with
      | header raw => exact absurd trivial hPart
      | write room => exact absurd trivial hPart
      | file data =>
        have hWhole := aligned_events hConforms.tail
        obtain ⟨hState, hData, hLeft, -⟩ := hConforms
        obtain ⟨raws, hRaws, hSome, rfl, hne⟩ := exists_pieces_ne hData hPart
        have hPieces := run_pieces codecs memory hState hSize hRaws hSome (by omega)
        refine ⟨_, .file raws hRaws hWhole, fun hSame => hne ?_⟩
        rw [Raw.run_append hPieces, Option.map_eq_some_iff] at hSame
        obtain ⟨q, hRun, hEq⟩ := hSame
        rw [runWhole_cons, Prod.mk.injEq, whole_file _ _ hState] at hEq
        rcases hLeft with hAll | ⟨-, rfl⟩
        · -- the checksum is in the `done` that was sent
          rw [finish_all _ hSize hAll, finish_all _ hSize hAll, (done_sent _).2, (done_sent _).2,
            List.singleton_append, List.singleton_append, List.cons.injEq, Packet.oft.injEq] at hEq
          have hSum := congrArg OFT.sentChecksum hEq.2.1
          rwa [(done_sent _).1, (done_sent _).1] at hSum
        · -- the checksum is in the state
          obtain rfl := (Option.some.inj hRun).symm
          have hSum := congrArg (fun u => u.m_oft.sentChecksum) hEq.1
          rwa [runWhole, finish_sentChecksum, finish_sentChecksum] at hSum

/-! ## Streams without headers -/

/-- The reads that hold the bytes in front of a stream of something else. -/
theorem reads_of_stream {data : List UInt8} {rest : List (UInt8 ⊕ Nat)} {events : List SocketEvent}
    (hNonempty : ∀ raw, .readyRead raw ∈ events → raw ≠ []) (hRest : ∀ b r, rest ≠ .inl b :: r)
    (hStream : stream events = data.map .inl ++ rest) :
    ∃ (raws : List (List UInt8)) (events' : List SocketEvent),
      events = raws.map .readyRead ++ events' ∧ raws.flatten = data ∧ stream events' = rest := by
  induction events generalizing data with
  | nil =>
    obtain ⟨hData, hNil⟩ := List.append_eq_nil_iff.mp hStream.symm
    exact ⟨[], [], rfl, (List.map_eq_nil_iff.mp hData).symm, hNil.symm⟩
  | cons e events ih =>
    cases e with
    | bytesWritten room =>
      cases data with
      | nil => exact ⟨[], _, rfl, rfl, hStream⟩
      | cons b data => cases (List.cons.inj hStream).1
    | readyRead raw =>
      obtain ⟨b, raw', rfl⟩ := List.exists_cons_of_ne_nil (hNonempty raw (by simp))
      have hTail (raw : List UInt8) (hRaw : .readyRead raw ∈ events) : raw ≠ [] :=
        hNonempty raw (List.mem_cons_of_mem _ hRaw)
      rcases List.append_eq_append_iff.mp hStream with ⟨more, hData, hMore⟩ | ⟨more, hRaw, hOver⟩
      · -- some bytes of the file, or all of them
        obtain ⟨first, last, rfl, hFirst, hLast⟩ := List.map_eq_append_iff.mp hData
        have hSame : first = b :: raw' := List.map_injective_iff.mpr Sum.inl_injective hFirst
        rw [← hLast] at hMore
        obtain ⟨raws, events', rfl, rfl, hEvents⟩ := ih hTail hMore
        exact ⟨(b :: raw') :: raws, events', rfl, by rw [hSame, List.flatten_cons], hEvents⟩
      · -- the file ends inside of the read
        cases more with
        | nil =>
          rw [List.append_nil] at hRaw
          have hSame : b :: raw' = data := List.map_injective_iff.mpr Sum.inl_injective hRaw
          have hNothing : stream events = ([] : List UInt8).map .inl ++ rest := hOver.symm
          obtain ⟨raws, events', rfl, hNil, hEvents⟩ := ih hTail hNothing
          exact ⟨(b :: raw') :: raws, events', rfl,
            by rw [List.flatten_cons, hNil, List.append_nil, hSame], hEvents⟩
        | cons x more =>
          have hByte : x ∈ SocketEvent.stream (.readyRead (b :: raw')) := by
            rw [hRaw]
            simp
          obtain ⟨c, -, rfl⟩ := List.mem_map.mp hByte
          exact absurd hOver (hRest c _)

/-- Without headers every segmentation is aligned. -/
theorem aligned_of_segments {t : OftMetaTransfer} {parts : List Part} {events : List SocketEvent}
    (hSize : t.m_oft.fileSize < 2 ^ 32) (hConforms : Conforms (oftWire codecs memory) t parts)
    (hNone : ∀ h, .header h ∉ parts) (hSegments : Segments parts events) :
    Aligned parts events := by
  induction parts generalizing t events with
  | nil =>
    cases events with
    | nil => exact .nil
    | cons e events =>
      cases e with
      | bytesWritten room => cases hSegments.stream
      | readyRead raw =>
        obtain ⟨b, raw', rfl⟩ :=
          List.exists_cons_of_ne_nil (hSegments.nonempty raw (by simp))
        cases hSegments.stream
  | cons p parts ih =>
    have hTail (h : List UInt8) : .header h ∉ parts := fun hMem =>
      hNone h (List.mem_cons_of_mem _ hMem)
    cases p with
    | header h => exact absurd (List.mem_cons_self ..) (hNone h)
    | write room =>
      have hStream := hSegments.stream
      cases events with
      | nil => cases hStream
      | cons e events =>
        cases e with
        | readyRead raw =>
          obtain ⟨b, raw', rfl⟩ :=
            List.exists_cons_of_ne_nil (hSegments.nonempty raw (by simp))
          cases (List.cons.inj hStream).1
        | bytesWritten room' =>
          obtain ⟨hRoom, hRest⟩ := List.cons.inj hStream
          obtain rfl : room' = room := Sum.inr_injective hRoom
          exact .write room' (ih (fileSize_whole _ hSize) hConforms.tail hTail
            ⟨fun raw hRaw => hSegments.nonempty raw (List.mem_cons_of_mem _ hRaw), hRest⟩)
    | file data =>
      have hNext : ∀ b r, stream (parts.map Part.event) ≠ .inl b :: r := by
        intro b r hBytes
        rcases hConforms.not_receiving hSize with hState | rfl
        · cases parts with
          | nil => cases hBytes
          | cons p parts =>
            cases p with
            | header h => exact hTail h (List.mem_cons_self ..)
            | file data' => exact hState hConforms.tail.1
            | write room => cases (List.cons.inj hBytes).1
        · cases hBytes
      obtain ⟨raws, events', rfl, rfl, hRest⟩ :=
        reads_of_stream hSegments.nonempty hNext hSegments.stream
      refine .file raws (fun raw hRaw => hSegments.nonempty raw ?_)
        (ih (fileSize_whole _ hSize) hConforms.tail hTail ⟨fun raw hRaw => ?_, hRest⟩)
      · exact List.mem_append_left _ (List.mem_map_of_mem hRaw)
      · exact hSegments.nonempty raw (List.mem_append_right _ hRaw)

/--
**When the segments do not matter.** For every stream of a conforming peer: whole
headers and any pieces of files give what whole packets give if and only if no
checksum shows how a file was cut; and all segmentations do if and only if there
is moreover no header in the stream.
-/
theorem segments_agree_iff (codecs : TextCodecs) (memory : Nat → UInt8) {t : OftMetaTransfer}
    {parts : List Part} (hSize : t.m_oft.fileSize < 2 ^ 32)
    (hConforms : Conforms (oftWire codecs memory) t parts) :
    (Agrees codecs memory Aligned t parts ↔ Settled (oftWire codecs memory) t parts) ∧
      (Agrees codecs memory Segments t parts ↔
        Settled (oftWire codecs memory) t parts ∧ ∀ h, .header h ∉ parts) := by
  have hSettled (hAll : Agrees codecs memory Aligned t parts) :
      Settled (oftWire codecs memory) t parts := by
    by_contra hNot
    obtain ⟨events, hAligned, hne⟩ := exists_aligned_ne hSize hConforms hNot
    exact hne (hAll memory events hAligned)
  refine ⟨⟨hSettled, fun h memory' _ hAligned => run_aligned memory' hSize hConforms h hAligned⟩,
    fun hAll => ⟨hSettled fun memory' events hAligned =>
      hAll memory' events (hAligned.segments hConforms), fun h hMem => ?_⟩,
    fun ⟨h, hNone⟩ memory' events hSegments => ?_⟩
  · obtain ⟨events, hSegments, hNull⟩ := exists_null hConforms hMem
    have hSome := hAll memory events hSegments
    rw [hNull memory] at hSome
    cases hSome
  · exact run_aligned memory' hSize hConforms h
      (aligned_of_segments hSize hConforms hNone hSegments)

/-- One byte for each character, whatever codec is asked for. -/
def latin1 : TextCodecs where
  toUnicode _ name := String.ofList (name.map fun b => Char.ofNat b.toNat)
  fromAscii name := String.ofList (name.map fun b => Char.ofNat b.toNat)
  canEncode _ s := s.toList.all fun c => c.toNat < 256
  fromUnicode _ s := s.toList.map fun c => UInt8.ofNat c.toNat

/-- A prompt for a file of two bytes. -/
def promptHeader : List UInt8 :=
  OftTransfer.toWire latin1
    { initOft with type := 0x101, cookie := List.replicate 8 0, fileSize := 2, fileName := "a" }

theorem isHeader_promptHeader : OftProtocol.IsHeader promptHeader :=
  OftTransfer.isHeader_toWire latin1 rfl (by decide)

/-- The prompt and its file. -/
theorem segments_agree_prompt :
    (Agrees latin1 (fun _ => 0) Aligned (receiver [] ["a"] "" (fun _ => none) fun _ => 0)
        [.header promptHeader, .file [1, 2]] ↔
      Settled (oftWire latin1 fun _ => 0) (receiver [] ["a"] "" (fun _ => none) fun _ => 0)
        [.header promptHeader, .file [1, 2]]) ∧
      (Agrees latin1 (fun _ => 0) Segments (receiver [] ["a"] "" (fun _ => none) fun _ => 0)
          [.header promptHeader, .file [1, 2]] ↔
        Settled (oftWire latin1 fun _ => 0) (receiver [] ["a"] "" (fun _ => none) fun _ => 0)
            [.header promptHeader, .file [1, 2]] ∧
          ∀ h, Part.header h ∉ [.header promptHeader, .file [1, 2]]) := by
  refine segments_agree_iff latin1 (fun _ => 0) (by decide)
    ⟨by decide, isHeader_promptHeader, ?_, by decide, .inl ?_, trivial⟩
  · decide +kernel
  · decide +kernel

/-- The first byte of the prompt arrives alone. -/
theorem prompt_cut :
    Conforms (oftWire latin1 fun _ => 0) (receiver [] ["a"] "" (fun _ => none) fun _ => 0)
        [.header promptHeader] ∧
      ¬ Agrees latin1 (fun _ => 0) Segments (receiver [] ["a"] "" (fun _ => none) fun _ => 0)
        [.header promptHeader] := by
  refine ⟨⟨by decide, isHeader_promptHeader, trivial⟩, fun h => ?_⟩
  have hNull : Raw.run latin1 (fun _ => 0) (receiver [] ["a"] "" (fun _ => none) fun _ => 0)
      [.readyRead (promptHeader.take 1), .readyRead (promptHeader.drop 1)] = none := rfl
  have hSome := h (fun _ => 0) [.readyRead (promptHeader.take 1), .readyRead (promptHeader.drop 1)]
    ⟨?_, ?_⟩
  · rw [hNull] at hSome
    cases hSome
  · intro raw hRaw
    rcases List.mem_cons.mp hRaw with hFirst | hRaw
    · rw [SocketEvent.readyRead.inj hFirst]
      decide
    · rw [SocketEvent.readyRead.inj (List.mem_singleton.mp hRaw)]
      decide
  · rw [stream_cons, stream_cons, List.map_singleton, stream_cons]
    show (promptHeader.take 1).map Sum.inl ++ ((promptHeader.drop 1).map Sum.inl ++ []) =
      promptHeader.map Sum.inl ++ []
    rw [List.append_nil, List.append_nil, ← List.map_append, List.take_append_drop]

end OftMetaTransfer

end Oscar
