import Kopete.Oscar.OftMetaTransfer
import Kopete.Lib.Run

/-!
# Oscar — one file between two parties

A sender and a receiver joined by two channels that lose and reorder nothing.
Headers arrive whole; the bytes of the file arrive in reads of any size, whatever
the writes were. A run is any interleaving of writes and deliveries, and an
event that is not enabled changes nothing.

The two parties go through phases that differ in the message under way. The
invariant says for each what both know: from the agreement on, the receiver holds
the first `k` bytes of the file and the channel the next ones.

Main results:

* `fileChecksum_prefix` — the checksum the sender compares is that of a prefix;
* `phase_step` — each event leads from phase to phase;
* `file_received` — when a `done` is on its way, the receiver has the file.
-/

namespace Oscar

/-! ## Channel -/

/-- A header, or one byte of a file. -/
inductive Item
  | header (data : OFT)
  | byte (b : UInt8)
deriving DecidableEq, Repr

/-- A packet in the channel. -/
def Packet.items : Packet → List Item
  | .oft data => [.header data]
  | .bytes raw => raw.map .byte

/-- The bytes at the front, at most `size` of them, and the rest. -/
def takeBytes : Nat → List Item → List UInt8 × List Item
  | size + 1, .byte b :: rest => (b :: (takeBytes size rest).1, (takeBytes size rest).2)
  | _, rest => ([], rest)

/-- What the next read finds: a header, or up to `size + 1` bytes. -/
def nextPacket (size : Nat) : List Item → Option (Packet × List Item)
  | [] => none
  | .header data :: rest => some (.oft data, rest)
  | .byte b :: rest =>
    some (.bytes (b :: (takeBytes size rest).1), (takeBytes size rest).2)

theorem takeBytes_bytes (size : Nat) (raw : List UInt8) :
    takeBytes size (raw.map .byte) = (raw.take size, (raw.drop size).map .byte) := by
  induction size generalizing raw with
  | zero => cases raw <;> rfl
  | succ size ih =>
    cases raw with
    | nil => rfl
    | cons b raw => simp [takeBytes, ih]

/-- A read takes a first part of the bytes under way. -/
theorem nextPacket_bytes (size : Nat) {raw : List UInt8} (h : raw ≠ []) :
    nextPacket size (raw.map .byte) =
      some (.bytes (raw.take (size + 1)), (raw.drop (size + 1)).map .byte) := by
  cases raw with
  | nil => exact absurd rfl h
  | cons b raw => simp [nextPacket, takeBytes_bytes]

/-! ## System -/

/-- Two parties and what is under way between them. -/
structure Link where
  sender : OftMetaTransfer
  receiver : OftMetaTransfer
  toReceiver : List Item
  toSender : List Packet

/-- The sender's socket asks for data, or a packet arrives. -/
inductive LinkEvent
  | write (room : Nat)
  | toSender
  | toReceiver (size : Nat)
deriving DecidableEq, Repr

namespace Link

open OftMetaTransfer

def step (w : Wire) (l : Link) : LinkEvent → Link
  | .write room =>
    let (sender, out) := OftMetaTransfer.write room l.sender
    { l with sender := sender, toReceiver := l.toReceiver ++ out.flatMap Packet.items }
  | .toSender =>
    match l.toSender with
    | [] => l
    | packet :: rest =>
      let (sender, out) := socketRead w packet l.sender
      { l with
        sender := sender
        toSender := rest
        toReceiver := l.toReceiver ++ out.flatMap Packet.items }
  | .toReceiver size =>
    match nextPacket size l.toReceiver with
    | none => l
    | some (packet, rest) =>
      let (receiver, out) := socketRead w packet l.receiver
      { l with receiver := receiver, toReceiver := rest, toSender := l.toSender ++ out }

/-- The sender has started, and nothing has been read. -/
def begin (sender receiver : OftMetaTransfer) : Link where
  sender := (OftMetaTransfer.start sender).1
  receiver := receiver
  toReceiver := (OftMetaTransfer.start sender).2.flatMap Packet.items
  toSender := []

end Link

/-! ## The checksum of a prefix -/

namespace OftMetaTransfer

theorem toInt_of_lt {n : Nat} (h : n < 2 ^ 31) : toInt n = n := by
  have hmod : n % 2 ^ 32 = n := Nat.mod_eq_of_lt (by omega)
  rw [toInt, hmod, if_pos h]

theorem fileChecksumLoop_nil (bytes : Int) (totalRead checksum : Nat) :
    fileChecksumLoop bytes totalRead checksum [] = checksum := by
  rw [fileChecksumLoop, if_pos (by simp)]

/-- A block that reaches the bound is the last. -/
theorem fileChecksumLoop_stop {bytes : Int} {totalRead checksum : Nat} (rest : List UInt8)
    (hRest : (rest.take BUFFER_SIZE).length ≠ 0) (hBytes : bytes ≠ -1)
    (hStop : toInt (totalRead + (rest.take BUFFER_SIZE).length) ≥ bytes) :
    fileChecksumLoop bytes totalRead checksum rest =
      chunkChecksum ((rest.take BUFFER_SIZE).take (bytes - toInt totalRead).toNat) checksum
        (totalRead % 2 == 1) := by
  rw [fileChecksumLoop, if_neg hRest]
  exact if_pos ⟨hBytes, hStop⟩

theorem fileChecksumLoop_more {bytes : Int} {totalRead checksum : Nat} (rest : List UInt8)
    (hRest : (rest.take BUFFER_SIZE).length ≠ 0)
    (hMore : bytes ≠ -1 → toInt (totalRead + (rest.take BUFFER_SIZE).length) < bytes) :
    fileChecksumLoop bytes totalRead checksum rest =
      fileChecksumLoop bytes (totalRead + (rest.take BUFFER_SIZE).length)
        (chunkChecksum (rest.take BUFFER_SIZE) checksum (totalRead % 2 == 1))
        (rest.drop BUFFER_SIZE) := by
  rw [fileChecksumLoop, if_neg hRest]
  exact if_neg fun h => absurd (hMore h.1) (not_lt.mpr h.2)

/-- Within an `int`, stopping after `n` bytes reads the first `n`. -/
theorem fileChecksumLoop_prefix {n totalRead checksum : Nat} {rest : List UInt8}
    (hMore : totalRead < n) (hLeft : n ≤ totalRead + rest.length)
    (hInt : totalRead + rest.length < 2 ^ 31 ∨ n + BUFFER_SIZE ≤ 2 ^ 31) :
    fileChecksumLoop n totalRead checksum rest =
      fileChecksumLoop (-1) totalRead checksum (rest.take (n - totalRead)) := by
  induction hn : rest.length using Nat.strong_induction_on generalizing totalRead checksum rest with
  | h m ih =>
    have hSize : BUFFER_SIZE = 32768 := rfl
    have hBlock : (rest.take BUFFER_SIZE).length = min BUFFER_SIZE rest.length :=
      List.length_take
    have hTaken : ((rest.take (n - totalRead)).take BUFFER_SIZE).length =
        min BUFFER_SIZE (n - totalRead) := by
      rw [List.length_take, List.length_take]
      omega
    have hRead := toInt_of_lt (n := totalRead) (by omega)
    have hNext := toInt_of_lt (n := totalRead + (rest.take BUFFER_SIZE).length) (by omega)
    rw [fileChecksumLoop_more (rest.take (n - totalRead)) (by omega) (by simp)]
    by_cases hStop : n ≤ totalRead + (rest.take BUFFER_SIZE).length
    · -- the last block
      have hShort : (rest.take (n - totalRead)).take BUFFER_SIZE = rest.take (n - totalRead) :=
        List.take_of_length_le (by rw [List.length_take]; omega)
      have hEnd : (rest.take (n - totalRead)).drop BUFFER_SIZE = [] :=
        List.drop_of_length_le (by rw [List.length_take]; omega)
      have hCut : ((n : Int) - totalRead).toNat = n - totalRead := by omega
      rw [fileChecksumLoop_stop rest (by omega) (by omega) (by omega), hRead, hCut, hShort, hEnd,
        fileChecksumLoop_nil, List.take_take, show min (n - totalRead) BUFFER_SIZE = n - totalRead
          by omega]
    · have hFull : (rest.take (n - totalRead)).take BUFFER_SIZE = rest.take BUFFER_SIZE := by
        rw [List.take_take, show min BUFFER_SIZE (n - totalRead) = BUFFER_SIZE by omega]
      have hDrop : (rest.drop BUFFER_SIZE).length = rest.length - BUFFER_SIZE := List.length_drop
      rw [fileChecksumLoop_more rest (by omega) (by omega), hFull, List.drop_take,
        ih _ (by omega) (by omega) (by omega) (by omega) rfl,
        show n - (totalRead + (rest.take BUFFER_SIZE).length) = n - totalRead - BUFFER_SIZE by
          omega]

/-- **The checksum compared for a resume** is that of the first `n` bytes. -/
theorem fileChecksum_prefix {n : Nat} {F : List UInt8} (hn : 0 < n) (hLeft : n ≤ F.length)
    (hInt : F.length < 2 ^ 31 ∨ n + BUFFER_SIZE ≤ 2 ^ 31) :
    fileChecksum F (toInt n) = fileChecksum (F.take n) (-1) := by
  have hSize : BUFFER_SIZE = 32768 := rfl
  rw [toInt_of_lt (by omega), fileChecksum, fileChecksumLoop_prefix hn (by omega) (by omega)]
  rfl

end OftMetaTransfer

/-! ## Phases -/

namespace Link

open OftMetaTransfer

/-- The sender has the file `F` and no other to send. -/
structure Holds (F : List UInt8) (s : OftMetaTransfer) : Prop where
  file : s.content s.m_file = F
  size : s.m_oft.fileSize = F.length
  last : s.m_oft.filesLeft = 1

/-- The sender waits for an answer to its prompt, ready to start at `k`. -/
structure Offers (F : List UInt8) (k : Nat) (s : OftMetaTransfer) : Prop extends Holds F s where
  state : s.m_state = .SetupSend
  idle : s.writing = false
  sent : s.m_oft.bytesSent = k

/-- The receiver has asked to resume the file `P`, called `name`. -/
structure Asks (F P : List UInt8) (name : String) (r : OftMetaTransfer) : Prop where
  target : r.m_file = name
  state : r.m_state = .SetupReceive
  file : r.content r.m_file = P
  size : r.m_oft.fileSize = F.length
  last : r.m_oft.filesLeft = 1
  sent : r.m_oft.bytesSent = P.length
  shorter : P.length < F.length

/-- The receiver has the first `k` bytes in the file `name` and takes more. -/
structure Receives (F : List UInt8) (name : String) (k : Nat) (r : OftMetaTransfer) : Prop where
  target : r.m_file = name
  state : r.m_state = .Receiving
  file : r.content r.m_file = F.take k
  size : r.m_oft.fileSize = F.length
  last : r.m_oft.filesLeft = 1
  sent : r.m_oft.bytesSent = k
  shorter : k < F.length

/-- A prompt for `F`. -/
structure Prompts (F : List UInt8) (d : OFT) : Prop where
  type : d.type = 0x101
  size : d.fileSize = F.length
  last : d.filesLeft = 1
  sent : d.bytesSent = 0
  checksum : d.checksum = fileChecksum F (-1)

/-- What both know while a message is under way; `P` is what the target file,
called `name`, holds before the transfer. -/
inductive Phase (F P : List UInt8) (name : String) (l : Link) : Prop
  | prompted (d : OFT) (hPrompt : Prompts F d) (hToReceiver : l.toReceiver = [.header d])
      (hToSender : l.toSender = []) (hSender : Offers F 0 l.sender)
      (hState : l.receiver.m_state = .SetupReceive)
      (hTarget : (takePrompt d l.receiver).m_file = name) (hFile : l.receiver.content name = P)
  | asked (d : OFT) (hType : d.type = 0x205) (hSent : d.bytesSent = P.length)
      (hChecksum : d.sentChecksum = fileChecksum P (-1)) (hToReceiver : l.toReceiver = [])
      (hToSender : l.toSender = [.oft d]) (hSender : Offers F 0 l.sender)
      (hReceiver : Asks F P name l.receiver) (hPartial : 0 < P.length)
  | agreed (d : OFT) (k : Nat) (hType : d.type = 0x106) (hSent : d.bytesSent = k)
      (hToReceiver : l.toReceiver = [.header d]) (hToSender : l.toSender = [])
      (hSender : Offers F k l.sender) (hReceiver : Asks F P name l.receiver)
      (hPrefix : k = 0 ∨ (k = P.length ∧ P = F.take k))
  | acked (d : OFT) (k : Nat) (hType : d.type = 0x202 ∨ d.type = 0x207)
      (hToReceiver : l.toReceiver = []) (hToSender : l.toSender = [.oft d])
      (hSender : Offers F k l.sender) (hReceiver : Receives F name k l.receiver)
  | streaming (j k : Nat) (hSent : l.sender.m_oft.bytesSent = j) (hWindow : k ≤ j)
      (hWithin : j ≤ F.length) (hToReceiver : l.toReceiver = ((F.take j).drop k).map .byte)
      (hToSender : l.toSender = []) (hSender : Holds F l.sender)
      (hState : l.sender.m_state = .Sending)
      (hMore : l.sender.writing = true → j < F.length) (hReceiver : Receives F name k l.receiver)
  | finished (hToReceiver : l.toReceiver = [])
      (hToSender : ∀ packet ∈ l.toSender, ∃ d, packet = .oft d ∧ d.type = 0x204)
      (hSender : Holds F l.sender) (hState : l.sender.m_state ≠ .Receiving)
      (hIdle : l.sender.writing = false) (hTarget : l.receiver.m_file = name)
      (hFile : l.receiver.content l.receiver.m_file = F)

/-- The condition on the sizes and on the checksums the parties compare. -/
structure Distinct (F P : List UInt8) : Prop where
  nonempty : 0 < F.length
  size : F.length < 2 ^ 32
  -- the resume position, up to the end of its block, is an `int`
  position : P.length < F.length → F.length < 2 ^ 31 ∨ P.length + BUFFER_SIZE ≤ 2 ^ 31
  checksum : P.length ≤ F.length →
    fileChecksum P (-1) = fileChecksum (F.take P.length) (-1) → P = F.take P.length

variable {F P : List UInt8} {name : String}

/-! ## Steps -/

/-- `done` after the last file. -/
theorem done_last {r : OftMetaTransfer} (hLast : r.m_oft.filesLeft = 1) :
    (∃ d, (done r).2 = [.oft d] ∧ d.type = 0x204) ∧ (done r).1.disk = r.disk ∧
      (done r).1.m_file = r.m_file := by
  simp [done, sendOft, hLast]

theorem phase_done {s r : OftMetaTransfer} {items : List Item} (hItems : items = [])
    (hSender : Holds F s) (hState : s.m_state ≠ .Receiving) (hIdle : s.writing = false)
    (hLast : r.m_oft.filesLeft = 1) (hTarget : r.m_file = name)
    (hFile : r.content r.m_file = F) :
    Phase F P name
      { sender := s
        receiver := (done r).1
        toReceiver := items
        toSender := (done r).2 } := by
  obtain ⟨⟨d, hOut, hType⟩, hDisk, hName⟩ := done_last hLast
  refine .finished hItems (fun packet hPacket => ?_) hSender hState hIdle (hName.trans hTarget) ?_
  · rw [hOut] at hPacket
    exact ⟨d, List.mem_singleton.mp hPacket, hType⟩
  · show OftMetaTransfer.content (done r).1 (done r).1.m_file = F
    rw [OftMetaTransfer.content, hDisk, hName]
    exact hFile

/-- The prompt arrives. -/
theorem phase_prompted (hDistinct : Distinct F P) {d : OFT} {s r : OftMetaTransfer}
    (hPrompt : Prompts F d) (hSender : Offers F 0 s) (hState : r.m_state = .SetupReceive)
    (hTarget : (takePrompt d r).m_file = name) (hFile : r.content name = P) :
    Phase F P name
      { sender := s
        receiver := (handleReceiveSetup d r).1
        toReceiver := []
        toSender := (handleReceiveSetup d r).2 } := by
  have hContent : (takePrompt d r).content (takePrompt d r).m_file = P := by
    rw [hTarget]
    exact hFile
  have hSize : (takePrompt d r).fileSize = P.length := by
    rw [fileSize, hContent]
  -- the whole file is needed
  have hWhole : ∀ t : OftMetaTransfer, t.m_file = name → t.m_oft.fileSize = d.fileSize →
      t.m_oft.filesLeft = d.filesLeft → t.m_oft.bytesSent = d.bytesSent →
      Phase F P name
        { sender := s
          receiver := (ack (t.setContent [])).1
          toReceiver := []
          toSender := (ack (t.setContent [])).2 } := by
    intro t hName hFileSize hLeft hSent
    refine .acked _ 0 (.inl ?_) rfl rfl hSender ⟨hName, rfl, ?_, ?_, ?_, ?_, hDistinct.nonempty⟩
    · rfl
    · exact content_setContent t []
    · exact hFileSize.trans hPrompt.size
    · exact hLeft.trans hPrompt.last
    · exact hSent.trans hPrompt.sent
  rcases handleReceiveSetup_cases d hState with
    ⟨hPos, hLess, hResult⟩ | ⟨hFull, hEqual, hResult⟩ | ⟨-, hResult⟩ | ⟨-, hResult⟩ <;> rw [hResult]
  · rw [hSize, hPrompt.size] at hLess
    have hSent : (takePrompt d r).fileSize % 2 ^ 32 = P.length := by
      have := hDistinct.size
      rw [hSize, Nat.mod_eq_of_lt (by omega)]
    rw [hContent]
    exact .asked _ rfl hSent rfl rfl rfl hSender
      ⟨hTarget, hState, hContent, hPrompt.size, hPrompt.last, hSent, hLess⟩ (hSize ▸ hPos)
  · have hLength : P.length = F.length := by
      rw [← hSize, ← hPrompt.size]
      exact hFull
    have hSame : fileChecksum P (-1) = fileChecksum (F.take P.length) (-1) := by
      rw [hLength, List.take_length, ← hPrompt.checksum, ← hContent]
      exact hEqual.symm
    have hHas : P = F := by
      rw [hDistinct.checksum (le_of_eq hLength) hSame, hLength, List.take_length]
    exact phase_done rfl hSender.toHolds (by simp [hSender.state]) hSender.idle hPrompt.last
      hTarget (hContent.trans hHas)
  · exact hWhole _ hTarget rfl rfl rfl
  · exact hWhole _ hTarget rfl rfl rfl

/-- The resume request arrives. -/
theorem phase_asked (hDistinct : Distinct F P) {d : OFT} {s r : OftMetaTransfer}
    (hSent : d.bytesSent = P.length) (hChecksum : d.sentChecksum = fileChecksum P (-1))
    (hSender : Offers F 0 s) (hReceiver : Asks F P name r) (hPartial : 0 < P.length) :
    Phase F P name
      { sender := (handleSendResumeRequest d s).1
        receiver := r
        toReceiver := (handleSendResumeRequest d s).2.flatMap Packet.items
        toSender := [] } := by
  have hShorter := hReceiver.shorter
  have hCompared := fileChecksum_prefix hPartial (F := F) (by omega)
    (hDistinct.position hShorter)
  unfold handleSendResumeRequest
  rw [if_neg (not_not.mpr hSender.state), hSender.file, hSent, hChecksum, hCompared]
  split
  · rename_i hEqual
    exact .agreed _ P.length rfl rfl rfl rfl
      ⟨⟨hSender.file, hSender.size, hSender.last⟩, hSender.state, hSender.idle, rfl⟩ hReceiver
      (.inr ⟨rfl, hDistinct.checksum (by omega) hEqual.symm⟩)
  · exact .agreed { s.m_oft with type := 0x106 } 0 rfl hSender.sent rfl rfl
      ⟨⟨hSender.file, hSender.size, hSender.last⟩, hSender.state, hSender.idle, hSender.sent⟩
      hReceiver (.inl rfl)

/-- The agreement to resume, or to start over, arrives. -/
theorem phase_agreed {d : OFT} {k : Nat} {s r : OftMetaTransfer} (hSent : d.bytesSent = k)
    (hSender : Offers F k s) (hReceiver : Asks F P name r)
    (hPrefix : k = 0 ∨ (k = P.length ∧ P = F.take k)) :
    Phase F P name
      { sender := s
        receiver := (handleReceiveResumeSetup d r).1
        toReceiver := []
        toSender := (handleReceiveResumeSetup d r).2 } := by
  have hShorter := hReceiver.shorter
  unfold handleReceiveResumeSetup
  rw [if_neg (not_not.mpr hReceiver.state), hSent]
  split
  · rename_i hResume
    obtain ⟨hLength, hFile⟩ := hPrefix.resolve_left hResume
    refine .acked _ k (.inr ?_) rfl rfl hSender
      ⟨hReceiver.target, rfl, ?_, hReceiver.size, hReceiver.last,
        hReceiver.sent.trans hLength.symm, by omega⟩
    · rfl
    · rw [← hFile, ← hReceiver.file]
      exact content_setContent r (r.content r.m_file)
  · rename_i hZero
    obtain rfl : k = 0 := by omega
    refine .acked _ 0 (.inr ?_) rfl rfl hSender
      ⟨hReceiver.target, rfl, ?_, hReceiver.size, hReceiver.last, rfl, by omega⟩
    · rfl
    · exact content_setContent r []

/-- The receiver is ready. -/
theorem phase_acked {k : Nat} {s r : OftMetaTransfer} (hSender : Offers F k s)
    (hReceiver : Receives F name k r) :
    Phase F P name
      { sender := { s with m_state := .Sending, writing := true }
        receiver := r
        toReceiver := []
        toSender := [] } :=
  .streaming k k hSender.sent (le_refl k) (le_of_lt hReceiver.shorter)
    (by simp) rfl ⟨hSender.file, hSender.size, hSender.last⟩ rfl (fun _ => hReceiver.shorter)
    hReceiver

/-- The sender writes the next bytes. -/
theorem phase_write (hSize : F.length < 2 ^ 32) {j k room : Nat} {s r : OftMetaTransfer}
    (hSent : s.m_oft.bytesSent = j) (hWindow : k ≤ j) (hWithin : j ≤ F.length)
    (hSender : Holds F s) (hState : s.m_state = .Sending) (hWriting : s.writing = true)
    (hReceiver : Receives F name k r) :
    Phase F P name
      { sender := (OftMetaTransfer.write room s).1
        receiver := r
        toReceiver := ((F.take j).drop k).map .byte ++
          (OftMetaTransfer.write room s).2.flatMap Packet.items
        toSender := [] } := by
  set written := ((F.drop j).take BUFFER_SIZE).take room with hWritten
  have hLength : written.length ≤ F.length - j := by
    rw [hWritten, List.length_take, List.length_take, List.length_drop]
    omega
  have hMod : (j + written.length) % 2 ^ 32 = j + written.length := Nat.mod_eq_of_lt (by omega)
  -- what was under way, and behind it what was written
  have hNext : (F.take j).drop k ++ written = (F.take (j + written.length)).drop k := by
    have hPrefix : written = (F.drop j).take written.length := by
      rw [hWritten, List.take_take, List.length_take, List.take_eq_take_iff]
      omega
    rw [List.take_add, List.drop_append_of_le_length (by rw [List.length_take]; omega), ← hPrefix]
  obtain ⟨oft, hBytes, hFileSize, hLeft, hResult⟩ := write_cases room hWriting
  rw [hSender.file, hSent, ← hWritten] at hBytes hResult
  rw [hResult]
  refine .streaming (j + written.length) k (hBytes.trans hMod) (by omega) (by omega) ?_ rfl
    ⟨hSender.file, hFileSize.trans hSender.size, hLeft.trans hSender.last⟩ hState (fun hMore => ?_)
    hReceiver
  · simp [Packet.items, ← hNext]
  · have := of_decide_eq_true hMore
    have := hSender.size
    omega

/-- The receiver reads some of the bytes under way. -/
theorem phase_read (hSize : F.length < 2 ^ 32) {j k size : Nat} {s r : OftMetaTransfer}
    (hSent : s.m_oft.bytesSent = j) (hWindow : k ≤ j) (hWithin : j ≤ F.length)
    (hSender : Holds F s) (hState : s.m_state = .Sending)
    (hMore : s.writing = true → j < F.length) (hReceiver : Receives F name k r) :
    Phase F P name
      { sender := s
        receiver := (saveData (((F.take j).drop k).take size) r).1
        toReceiver := (((F.take j).drop k).drop size).map .byte
        toSender := (saveData (((F.take j).drop k).take size) r).2 } := by
  set raw := ((F.take j).drop k).take size with hRaw
  have hLength : raw.length = min size (j - k) := by
    rw [hRaw, List.length_take, List.length_drop, List.length_take]
    omega
  have hMod : (k + raw.length) % 2 ^ 32 = k + raw.length := Nat.mod_eq_of_lt (by omega)
  have hFile : F.take k ++ raw = F.take (k + raw.length) := by
    have hPrefix : raw = (F.drop k).take raw.length := by
      rw [hRaw, List.drop_take, List.take_take, List.length_take, List.take_eq_take_iff,
        List.length_drop]
      omega
    rw [List.take_add, ← hPrefix]
  have hRest : ((F.take j).drop k).drop size = (F.take j).drop (k + raw.length) := by
    rw [List.drop_drop, List.drop_eq_drop_iff, List.length_take]
    omega
  have hContent : (r.setContent (r.content r.m_file ++ raw)).content
      (r.setContent (r.content r.m_file ++ raw)).m_file = F.take (k + raw.length) := by
    rw [content_setContent, hReceiver.file, hFile]
  unfold saveData
  dsimp only
  split
  · rename_i hFull
    rw [hReceiver.sent, hReceiver.size, hMod] at hFull
    have hAll : k + raw.length = F.length := by omega
    rw [hAll, List.take_length] at hContent
    refine phase_done ?_ hSender (by simp [hState]) ?_ hReceiver.last hReceiver.target hContent
    · rw [hRest, hAll, List.drop_of_length_le (by rw [List.length_take]; omega), List.map_nil]
    · by_contra hWriting
      have := hMore (by simpa using hWriting)
      omega
  · rename_i hShort
    rw [hReceiver.sent, hReceiver.size, hMod] at hShort
    refine .streaming j (k + raw.length) hSent (by omega) hWithin ?_ rfl hSender hState hMore
      ⟨hReceiver.target, hReceiver.state, hContent, hReceiver.size, hReceiver.last, ?_, by omega⟩
    · rw [hRest]
    · show (r.m_oft.bytesSent + raw.length) % 2 ^ 32 = _
      rw [hReceiver.sent, hMod]

/-- The `done` arrives, and there is no other file. -/
theorem phase_finished {d : OFT} {rest : List Packet} {s r : OftMetaTransfer}
    (hRest : ∀ packet ∈ rest, ∃ d, packet = .oft d ∧ d.type = 0x204) (hSender : Holds F s)
    (hState : s.m_state ≠ .Receiving) (hTarget : r.m_file = name)
    (hFile : r.content r.m_file = F) :
    Phase F P name
      { sender := (handleSendDone d s).1
        receiver := r
        toReceiver := (handleSendDone d s).2.flatMap Packet.items
        toSender := rest } := by
  have hResult : handleSendDone d s = ({ s with writing := false }, []) :=
    if_neg (by simp [hSender.last])
  rw [hResult]
  exact .finished rfl hRest ⟨hSender.file, hSender.size, hSender.last⟩ hState rfl hTarget hFile

/-! ## Runs -/

theorem step_write (w : Wire) (room : Nat) (l : Link) :
    step w l (.write room) =
      { l with
        sender := (OftMetaTransfer.write room l.sender).1
        toReceiver := l.toReceiver ++
          (OftMetaTransfer.write room l.sender).2.flatMap Packet.items } := rfl

/-- Nothing is written before an answer, nor after the end. -/
theorem step_write_idle (w : Wire) (room : Nat) {l : Link} (h : l.sender.writing = false) :
    step w l (.write room) = l := by
  have hResult : OftMetaTransfer.write room l.sender = (l.sender, []) := by
    simp [OftMetaTransfer.write, h]
  simp [step_write, hResult]

theorem step_toSender_nil (w : Wire) {l : Link} (h : l.toSender = []) :
    step w l .toSender = l := by
  simp [step, h]

theorem step_toReceiver_nil (w : Wire) (size : Nat) {l : Link} (h : l.toReceiver = []) :
    step w l (.toReceiver size) = l := by
  simp [step, h, nextPacket]

/-- A header arrives at a party that is not taking file data. -/
theorem step_toSender_oft (w : Wire) {l : Link} {d : OFT} {rest : List Packet}
    (hHead : l.toSender = .oft d :: rest) (hState : l.sender.m_state ≠ .Receiving) :
    step w l .toSender =
      { l with
        sender := (readOft d l.sender).1
        toSender := rest
        toReceiver := l.toReceiver ++ (readOft d l.sender).2.flatMap Packet.items } := by
  simp [step, hHead, socketRead, hState, Packet.data]

theorem step_toReceiver_header (w : Wire) (size : Nat) {l : Link} {d : OFT} {rest : List Item}
    (hHead : l.toReceiver = .header d :: rest) (hState : l.receiver.m_state ≠ .Receiving) :
    step w l (.toReceiver size) =
      { l with
        receiver := (readOft d l.receiver).1
        toReceiver := rest
        toSender := l.toSender ++ (readOft d l.receiver).2 } := by
  simp [step, hHead, nextPacket, socketRead, hState, Packet.data]

theorem step_toReceiver_bytes (w : Wire) (size : Nat) {l : Link} {raw : List UInt8}
    (hRaw : raw ≠ []) (hHead : l.toReceiver = raw.map .byte)
    (hState : l.receiver.m_state = .Receiving) :
    step w l (.toReceiver size) =
      { l with
        receiver := (saveData (raw.take (size + 1)) l.receiver).1
        toReceiver := (raw.drop (size + 1)).map .byte
        toSender := l.toSender ++ (saveData (raw.take (size + 1)) l.receiver).2 } := by
  simp [step, hHead, nextPacket_bytes size hRaw, socketRead, hState, Packet.raw]

theorem phase_step_toSender (w : Wire) (hDistinct : Distinct F P) {l : Link} (h : Phase F P name l) :
    Phase F P name (step w l .toSender) := by
  by_cases hEmpty : l.toSender = []
  · rw [step_toSender_nil w hEmpty]
    exact h
  cases h with
  | prompted _ _ _ hToSender => exact absurd hToSender hEmpty
  | agreed _ _ _ _ _ hToSender => exact absurd hToSender hEmpty
  | streaming _ _ _ _ _ _ hToSender => exact absurd hToSender hEmpty
  | asked d hType hSent hChecksum hToReceiver hToSender hSender hReceiver hPartial =>
    rw [step_toSender_oft w hToSender (by simp [hSender.state]), hToReceiver]
    simp only [readOft, hType]
    exact phase_asked hDistinct hSent hChecksum hSender hReceiver hPartial
  | acked d k hType hToReceiver hToSender hSender hReceiver =>
    have hResult : readOft d l.sender =
        ({ l.sender with m_state := .Sending, writing := true }, []) := by
      rcases hType with hType | hType <;>
        simp [readOft, hType, handleSendSetup, handleSendResumeSetup, hSender.state]
    rw [step_toSender_oft w hToSender (by simp [hSender.state]), hToReceiver, hResult]
    exact phase_acked hSender hReceiver
  | finished hToReceiver hToSender hSender hState hIdle hTarget hFile =>
    obtain ⟨packet, rest, hHead⟩ := List.exists_cons_of_ne_nil hEmpty
    rw [hHead] at hToSender
    obtain ⟨d, rfl, hType⟩ := hToSender packet List.mem_cons_self
    rw [step_toSender_oft w hHead hState, hToReceiver]
    simp only [readOft, hType]
    exact phase_finished (fun other hOther => hToSender other (List.mem_cons_of_mem _ hOther))
      hSender hState hTarget hFile

theorem phase_step_toReceiver (w : Wire) (hDistinct : Distinct F P) (size : Nat) {l : Link}
    (h : Phase F P name l) : Phase F P name (step w l (.toReceiver size)) := by
  by_cases hEmpty : l.toReceiver = []
  · rw [step_toReceiver_nil w size hEmpty]
    exact h
  cases h with
  | asked _ _ _ _ hToReceiver => exact absurd hToReceiver hEmpty
  | acked _ _ _ hToReceiver => exact absurd hToReceiver hEmpty
  | finished hToReceiver => exact absurd hToReceiver hEmpty
  | prompted d hPrompt hToReceiver hToSender hSender hState hTarget hFile =>
    rw [step_toReceiver_header w size hToReceiver (by simp [hState]), hToSender]
    simp only [readOft, hPrompt.type]
    exact phase_prompted hDistinct hPrompt hSender hState hTarget hFile
  | agreed d k hType hSent hToReceiver hToSender hSender hReceiver hPrefix =>
    rw [step_toReceiver_header w size hToReceiver (by simp [hReceiver.state]), hToSender]
    simp only [readOft, hType]
    exact phase_agreed hSent hSender hReceiver hPrefix
  | streaming j k hSent hWindow hWithin hToReceiver hToSender hSender hState hMore hReceiver =>
    have hRaw : (F.take j).drop k ≠ [] := fun hNil =>
      hEmpty (by rw [hToReceiver, hNil, List.map_nil])
    rw [step_toReceiver_bytes w size hRaw hToReceiver hReceiver.state, hToSender]
    exact phase_read hDistinct.size hSent hWindow hWithin hSender hState hMore hReceiver

/-- **Each event leads from phase to phase.** -/
theorem phase_step (w : Wire) (hDistinct : Distinct F P) {l : Link} (event : LinkEvent)
    (h : Phase F P name l) : Phase F P name (step w l event) := by
  cases event with
  | write room =>
    by_cases hWriting : l.sender.writing = true
    · cases h with
      | streaming j k hSent hWindow hWithin hToReceiver hToSender hSender hState _ hReceiver =>
        rw [step_write, hToReceiver, hToSender]
        exact phase_write hDistinct.size hSent hWindow hWithin hSender hState hWriting hReceiver
      | prompted _ _ _ _ hSender => simp [hSender.idle] at hWriting
      | asked _ _ _ _ _ _ hSender => simp [hSender.idle] at hWriting
      | agreed _ _ _ _ _ _ hSender => simp [hSender.idle] at hWriting
      | acked _ _ _ _ _ hSender => simp [hSender.idle] at hWriting
      | finished _ _ _ _ hIdle => simp [hIdle] at hWriting
    · rw [step_write_idle w room (by simpa using hWriting)]
      exact h
  | toSender => exact phase_step_toSender w hDistinct h
  | toReceiver size => exact phase_step_toReceiver w hDistinct size h

/-- A `done` under way says that the file is there. -/
theorem Phase.file_of_done {l : Link} (h : Phase F P name l) {d : OFT}
    (hMem : .oft d ∈ l.toSender) (hDone : d.type = 0x204) : l.receiver.content name = F := by
  cases h with
  | finished _ _ _ _ _ hTarget hFile => rwa [hTarget] at hFile
  | asked d' hType _ _ _ hToSender =>
    rw [hToSender] at hMem
    obtain rfl := Packet.oft.inj (List.mem_singleton.mp hMem)
    simp [hType] at hDone
  | acked d' _ hType _ hToSender =>
    rw [hToSender] at hMem
    obtain rfl := Packet.oft.inj (List.mem_singleton.mp hMem)
    simp [hDone] at hType
  | prompted _ _ _ hToSender => simp [hToSender] at hMem
  | agreed _ _ _ _ _ hToSender => simp [hToSender] at hMem
  | streaming _ _ _ _ _ _ hToSender => simp [hToSender] at hMem

/-- Where the receiver puts the file `path` of the sender. -/
def target (files : List String) (dir path : String) : String :=
  if 0 < files.length then files.getD 0 "" else dir ++ baseName path

/-- The prompt for the only file. -/
theorem start_sender (cookie : List UInt8) (path : String) (disk : String → Option (List UInt8))
    (lastModified : String → Nat) :
    ∃ t : OftMetaTransfer,
      OftMetaTransfer.start (OftMetaTransfer.sender cookie [path] disk lastModified) =
        sendOft 0x0101 t ∧
      t.m_state = .SetupSend ∧ t.writing = false ∧ t.disk = disk ∧ t.m_file = path ∧
      t.m_oft.fileName = baseName path ∧ t.m_oft.fileCount = 1 ∧ t.m_oft.filesLeft = 1 ∧
      t.m_oft.bytesSent = 0 ∧ t.m_oft.fileSize = ((disk path).getD []).length % 2 ^ 32 ∧
      t.m_oft.checksum = fileChecksum ((disk path).getD []) (-1) := by
  refine ⟨_, if_neg ?_, rfl, rfl, rfl, ?_, ?_, ?_, ?_, rfl, ?_, ?_⟩ <;>
    simp [OftMetaTransfer.sender, OftMetaTransfer.content, fileAt]

/-- The start of a transfer of one file. -/
theorem phase_begin (hDistinct : Distinct F P) (cookie : List UInt8) (path : String)
    (files : List String) (dir : String) (disk disk' : String → Option (List UInt8))
    (lastModified lastModified' : String → Nat) (hF : disk path = some F)
    (hP : (disk' (target files dir path)).getD [] = P) :
    Phase F P (target files dir path)
      (begin (OftMetaTransfer.sender cookie [path] disk lastModified)
        (OftMetaTransfer.receiver cookie files dir disk' lastModified')) := by
  have hSize := hDistinct.size
  obtain ⟨t, hStart, hState, hIdle, hDisk, hPath, hName, hCount, hLeft, hSent, hLength, hSum⟩ :=
    start_sender cookie path disk lastModified
  have hContent : (disk path).getD [] = F := by
    rw [hF]
    rfl
  rw [hContent] at hSum hLength
  rw [Nat.mod_eq_of_lt hSize] at hLength
  have hFile : t.content t.m_file = F := by
    rw [OftMetaTransfer.content, hDisk, hPath, hContent]
  rw [begin, hStart]
  refine .prompted { t.m_oft with type := 0x0101 } ⟨rfl, hLength, hLeft, hSent, hSum⟩ rfl rfl
    ⟨⟨hFile, hLength, hLeft⟩, hState, hIdle, hSent⟩ rfl ?_ hP
  show (if (t.m_oft.fileCount : Int) - t.m_oft.filesLeft < files.length then
    files.getD ((t.m_oft.fileCount : Int) - t.m_oft.filesLeft).toNat "" else
      dir ++ t.m_oft.fileName) = target files dir path
  rw [hCount, hLeft, hName, target]
  simp

/-- A file of two bytes, sent and read one by one. -/
def twoBytes : Link :=
  [.toReceiver 0, .toSender, .write 1, .toReceiver 0, .write 1, .toReceiver 0].foldl
    (step ⟨fun _ => [], fun _ => OftMetaTransfer.initOft⟩)
    (begin (OftMetaTransfer.sender [] ["a"] (fun _ => some [1, 2]) fun _ => 0)
      (OftMetaTransfer.receiver [] ["b"] "" (fun _ => none) fun _ => 0))

/-- A file whose size is lost in a `DWORD` is done after the first read. -/
theorem file_of_lost_size (w : Wire) (hLength : F.length = 2 ^ 32) :
    let l := [.toReceiver 0, .toSender, .write 1, .toReceiver 0].foldl (step w)
      (begin (OftMetaTransfer.sender [] ["a"] (fun _ => some F) fun _ => 0)
        (OftMetaTransfer.receiver [] ["b"] "" (fun _ => none) fun _ => 0))
    (∃ d, .oft d ∈ l.toSender ∧ d.type = 0x204) ∧ l.receiver.content "b" = F.take 1 := by
  obtain ⟨t, hStart, hState, hIdle, hDisk, hPath, hName, hCount, hLeft, hSent, hSize, hSum⟩ :=
    start_sender [] "a" (fun _ => some F) fun _ => 0
  replace hSize : t.m_oft.fileSize = 0 := by
    rw [hSize, Option.getD_some, hLength, Nat.mod_self]
  have hFile : t.content t.m_file = F := by
    rw [OftMetaTransfer.content, hDisk, Option.getD_some]
  rw [begin, hStart]
  set d : OFT := { t.m_oft with type := 0x0101 } with hd
  set r := OftMetaTransfer.receiver [] ["b"] "" (fun _ => none) fun _ => 0 with hr
  have hAck : readOft d r = ack ((takePrompt d r).setContent []) := by
    show handleReceiveSetup d r = _
    rw [handleReceiveSetup, if_neg (by simp [hr, OftMetaTransfer.receiver])]
    exact if_neg (by simp [fileSize, OftMetaTransfer.content, takePrompt, hr,
      OftMetaTransfer.receiver])
  set l : Link := ⟨{ t with m_oft := d }, r, [.header d], []⟩ with hl
  -- the target is absent, so the whole file is asked for
  have hFirst : step w l (.toReceiver 0) =
      ⟨{ t with m_oft := d }, (ack ((takePrompt d r).setContent [])).1, [],
        (ack ((takePrompt d r).setContent [])).2⟩ := by
    rw [step_toReceiver_header w 0 (d := d) rfl (by simp [hl, hr, OftMetaTransfer.receiver])]
    show Link.mk _ (readOft d r).1 _ ([] ++ (readOft d r).2) = _
    rw [hAck, List.nil_append]
  set u : OftMetaTransfer := { t with m_oft := d, m_state := .Sending, writing := true } with hu
  have hSecond : step w (step w l (.toReceiver 0)) .toSender =
      ⟨u, (ack ((takePrompt d r).setContent [])).1, [], []⟩ := by
    rw [hFirst, step_toSender_oft w (d := (ack ((takePrompt d r).setContent [])).1.m_oft) rfl
      (by simp [hState])]
    simp [readOft, OftMetaTransfer.ack, sendOft, handleSendSetup, hState, hu]
  -- one byte is written
  have hData : ((u.content u.m_file).drop u.m_oft.bytesSent |>.take BUFFER_SIZE |>.take 1) =
      F.take 1 := by
    rw [show u.content u.m_file = F from hFile, show u.m_oft.bytesSent = 0 from hSent,
      List.drop_zero, List.take_take]
    rfl
  obtain ⟨oft, -, -, -, hWrite⟩ := write_cases 1 (t := u) rfl
  rw [hData] at hWrite
  set r' := (ack ((takePrompt d r).setContent [])).1 with hr'
  have hThird : step w (step w (step w l (.toReceiver 0)) .toSender) (.write 1) =
      ⟨{ u with m_oft := oft, writing := decide (oft.bytesSent < oft.fileSize) }, r',
        (F.take 1).map .byte, []⟩ := by
    rw [hSecond, step_write, hWrite]
    simp [Packet.items]
  have hRaw : F.take 1 ≠ [] := fun hNil => by
    have hNone := congrArg List.length hNil
    simp [hLength] at hNone
  -- and read; the receiver has asked for no more
  set v : OftMetaTransfer := { r'.setContent (r'.content r'.m_file ++ F.take 1) with
    m_oft := { r'.m_oft with
      sentChecksum := chunkChecksum (F.take 1) r'.m_oft.sentChecksum (r'.m_oft.bytesSent % 2 == 1)
      bytesSent := (r'.m_oft.bytesSent + (F.take 1).length) % 2 ^ 32 } } with hv
  have hDone : saveData (F.take 1) r' = done v := by
    refine if_pos ?_
    rw [show r'.m_oft.fileSize = 0 from hSize]
    exact Nat.zero_le _
  have hNone : r'.content r'.m_file = [] := content_setContent (takePrompt d r) []
  have hContent : v.content v.m_file = F.take 1 := by
    refine (content_setContent r' (r'.content r'.m_file ++ F.take 1)).trans ?_
    rw [hNone, List.nil_append]
  have hTarget : v.m_file = "b" := by
    show (if (t.m_oft.fileCount : Int) - t.m_oft.filesLeft < ["b"].length then
      ["b"].getD ((t.m_oft.fileCount : Int) - t.m_oft.filesLeft).toNat "" else _) = _
    rw [hCount, hLeft]
    rfl
  obtain ⟨⟨o, hOut, hType⟩, hDisk', hName'⟩ := done_last (r := v) hLeft
  rw [List.foldl_cons, List.foldl_cons, List.foldl_cons, List.foldl_cons, List.foldl_nil]
  show (∃ d, .oft d ∈ (step w (step w (step w (step w l _) _) _) _).toSender ∧ _) ∧
    (step w (step w (step w (step w l _) _) _) _).receiver.content _ = _
  rw [hThird, step_toReceiver_bytes w 0 hRaw rfl rfl, List.take_take]
  show (∃ d, .oft d ∈ [] ++ (saveData (F.take 1) r').2 ∧ _) ∧
    (saveData (F.take 1) r').1.content _ = _
  rw [hDone, List.nil_append, hOut, OftMetaTransfer.content, hDisk', ← hTarget]
  exact ⟨⟨o, List.mem_singleton_self _, hType⟩, hContent⟩

end Link

end Oscar
