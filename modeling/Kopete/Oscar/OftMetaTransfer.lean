import Kopete.Lib.EndAround
import Mathlib

/-!
# Oscar — `OftMetaTransfer`

One side of a direct file transfer. Both sides run the same class: the sender
prompts for a file, the receiver acknowledges, asks to resume a partial file or
reports a complete one done, and the file's bytes follow on the same socket.

A `DWORD` is the `Nat` it holds, narrowed with `%` where the code narrows it.
The disk is a function from file names to contents, and an open file has taken
every byte written to it. A packet arrives whole, headers in the wire format `w`;
`OftSegments` says what becomes of it when it does not.
A step returns what it puts on the socket; the signals to the user interface are
left out.
-/

namespace Oscar

/-- `OFT`. -/
structure OFT where
  type : Nat
  cookie : List UInt8
  fileSize : Nat
  modTime : Nat
  checksum : Nat
  bytesSent : Nat
  sentChecksum : Nat
  flags : Nat
  fileName : String
  fileCount : Nat
  filesLeft : Nat
  partCount : Nat
  partsLeft : Nat
  totalSize : Nat
deriving DecidableEq, Repr

/-- What goes over the socket: a header, or bytes of a file. -/
inductive Packet
  | oft (data : OFT)
  | bytes (raw : List UInt8)
deriving DecidableEq, Repr

/-- The wire format of headers: `OftTransfer::toWire` and `OftProtocol::parse`. -/
structure Wire where
  toWire : OFT → List UInt8
  parse : List UInt8 → OFT

/-- The bytes `readAll` returns. -/
def Packet.raw (w : Wire) : Packet → List UInt8
  | .oft data => w.toWire data
  | .bytes raw => raw

/-- The header read from them. -/
def Packet.data (w : Wire) : Packet → OFT
  | .oft data => data
  | .bytes raw => w.parse raw

/-- `OftMetaTransfer::State`. -/
inductive TransferState
  | SetupReceive | SetupSend | Receiving | Sending | Done
deriving DecidableEq, Repr

/-- The members of a transfer, with the disk it works on. `writing` is set while
`bytesWritten` is connected to `write`. -/
structure OftMetaTransfer where
  m_oft : OFT
  m_file : String
  m_dir : String
  m_files : List String
  m_state : TransferState
  writing : Bool
  disk : String → Option (List UInt8)
  lastModified : String → Nat

namespace OftMetaTransfer

def BUFFER_SIZE : Nat := 32768

/-! ## Checksums -/

/-- The values `chunkChecksum` subtracts: every second byte is shifted up. -/
def chunkValues (evenIndex : Nat) : Nat → List UInt8 → List Nat
  | _, [] => []
  | i, b :: buffer =>
    (if i % 2 = evenIndex then b.toNat * 2 ^ 8 else b.toNat) ::
      chunkValues evenIndex (i + 1) buffer

/-- `chunkChecksum`. -/
def chunkChecksum (buffer : List UInt8) (checksum : Nat) (shiftIndex : Bool) : Nat :=
  let evenIndex := if shiftIndex then 1 else 0
  let checksum := checksum / 2 ^ 16 % 2 ^ 16
  EndAround.digest (2 ^ 16) checksum (chunkValues evenIndex 0 buffer) * 2 ^ 16 % 2 ^ 32

/-- What an `int` makes of a count or of a `DWORD`. -/
def toInt (d : Nat) : Int := if d % 2 ^ 32 < 2 ^ 31 then (d % 2 ^ 32 : Nat) else d % 2 ^ 32 - 2 ^ 32

/-- The loop of `fileChecksum` over what is left of the file. -/
def fileChecksumLoop (bytes : Int) (totalRead : Nat) (checksum : Nat) (rest : List UInt8) : Nat :=
  if (rest.take BUFFER_SIZE).length = 0 then checksum
  else
    let data := rest.take BUFFER_SIZE
    if bytes ≠ -1 ∧ toInt (totalRead + data.length) ≥ bytes then
      chunkChecksum (data.take (bytes - toInt totalRead).toNat) checksum (totalRead % 2 == 1)
    else
      fileChecksumLoop bytes (totalRead + data.length)
        (chunkChecksum data checksum (totalRead % 2 == 1)) (rest.drop BUFFER_SIZE)
termination_by rest.length
decreasing_by
  simp only [List.length_take, List.length_drop, BUFFER_SIZE] at *
  omega

/-- `fileChecksum`. -/
def fileChecksum (file : List UInt8) (bytes : Int) : Nat :=
  fileChecksumLoop bytes 0 0xFFFF0000 file

/-! ## Files -/

/-- What a file on disk holds; nothing if it is not there. -/
def content (t : OftMetaTransfer) (name : String) : List UInt8 := (t.disk name).getD []

/-- `m_file.size()`. -/
def fileSize (t : OftMetaTransfer) : Nat := (t.content t.m_file).length

/-- The current file with other contents. -/
def setContent (t : OftMetaTransfer) (data : List UInt8) : OftMetaTransfer :=
  { t with disk := Function.update t.disk t.m_file (some data) }

theorem content_setContent (t : OftMetaTransfer) (data : List UInt8) :
    (t.setContent data).content (t.setContent data).m_file = data := by
  simp [setContent, content]

/-- `m_files.at( index )`. -/
def fileAt (t : OftMetaTransfer) (index : Int) : String := t.m_files.getD index.toNat ""

/-- `QFileInfo::fileName`. -/
def baseName (path : String) : String := (path.splitOn "/").getLastD ""

/-! ## Set-up -/

/-- `initOft`. -/
def initOft : OFT where
  type := 0
  cookie := []
  fileSize := 0
  modTime := 0
  checksum := 0xFFFF0000
  bytesSent := 0
  sentChecksum := 0xFFFF0000
  flags := 0x20
  fileName := ""
  fileCount := 1
  filesLeft := 1
  partCount := 1
  partsLeft := 1
  totalSize := 0

/-- The receive constructor. -/
def receiver (cookie : List UInt8) (files : List String) (dir : String)
    (disk : String → Option (List UInt8)) (lastModified : String → Nat) : OftMetaTransfer where
  m_oft := { initOft with cookie := cookie }
  m_file := ""
  m_dir := dir
  m_files := files
  m_state := .SetupReceive
  writing := false
  disk := disk
  lastModified := lastModified

/-- The send constructor. -/
def sender (cookie : List UInt8) (files : List String)
    (disk : String → Option (List UInt8)) (lastModified : String → Nat) : OftMetaTransfer where
  m_oft := { initOft with
    cookie := cookie
    totalSize := (files.map fun f => ((disk f).getD []).length).sum % 2 ^ 32
    fileCount := files.length % 2 ^ 16 }
  m_file := ""
  m_dir := ""
  m_files := files
  m_state := .SetupSend
  writing := false
  disk := disk
  lastModified := lastModified

/-! ## Messages -/

/-- `sendOft`, with the type the callers set first. -/
def sendOft (type : Nat) (t : OftMetaTransfer) : OftMetaTransfer × List Packet :=
  let t := { t with m_oft := { t.m_oft with type := type } }
  (t, [.oft t.m_oft])

/-- `prompt`. -/
def prompt (t : OftMetaTransfer) : OftMetaTransfer × List Packet :=
  let filesLeft : Nat := (t.m_oft.filesLeft + 2 ^ 16 - 1) % 2 ^ 16
  let name := t.fileAt ((t.m_oft.fileCount : Int) - filesLeft)
  sendOft 0x0101 { t with
    m_file := name
    m_oft := { t.m_oft with
      filesLeft := filesLeft
      modTime := t.lastModified name
      fileSize := (t.content name).length % 2 ^ 32
      fileName := baseName name
      checksum := fileChecksum (t.content name) (-1)
      sentChecksum := 0xFFFF0000
      bytesSent := 0 } }

/-- `ack`. -/
def ack (t : OftMetaTransfer) : OftMetaTransfer × List Packet :=
  let (t, out) := sendOft 0x0202 t
  ({ t with m_state := .Receiving }, out)

/-- `rAck`. -/
def rAck (t : OftMetaTransfer) : OftMetaTransfer × List Packet :=
  let (t, out) := sendOft 0x0207 t
  ({ t with m_state := .Receiving }, out)

/-- `done`. -/
def done (t : OftMetaTransfer) : OftMetaTransfer × List Packet :=
  let t := if t.m_oft.filesLeft = 1 then { t with m_oft := { t.m_oft with flags := 1 } } else t
  let (t, out) := sendOft 0x0204 t
  if t.m_oft.filesLeft > 1 then ({ t with m_state := .SetupReceive }, out)
  else ({ t with m_state := .Done }, out)

/-- `resume`. -/
def resume (t : OftMetaTransfer) : OftMetaTransfer × List Packet :=
  sendOft 0x0205 { t with m_oft := { t.m_oft with bytesSent := t.fileSize % 2 ^ 32 } }

/-- `rAgree`. -/
def rAgree (t : OftMetaTransfer) : OftMetaTransfer × List Packet := sendOft 0x0106 t

/-- `start`. -/
def start (t : OftMetaTransfer) : OftMetaTransfer × List Packet :=
  if t.m_files.length = 0 then (t, [])
  else
    prompt { t with m_oft := { t.m_oft with filesLeft := (t.m_oft.fileCount + 1) % 2 ^ 16 } }

/-! ## The receiving side -/

/-- The fields of the prompt the receiver takes over, and the file they name. -/
def takePrompt (oft : OFT) (t : OftMetaTransfer) : OftMetaTransfer :=
  let currentFileIndex : Int := (oft.fileCount : Int) - oft.filesLeft
  { t with
    m_oft := { t.m_oft with
      checksum := oft.checksum
      modTime := oft.modTime
      fileCount := oft.fileCount
      filesLeft := oft.filesLeft
      partCount := oft.partCount
      partsLeft := oft.partsLeft
      totalSize := oft.totalSize
      fileName := oft.fileName
      bytesSent := oft.bytesSent
      fileSize := oft.fileSize }
    m_file :=
      if currentFileIndex < t.m_files.length then t.fileAt currentFileIndex
      else t.m_dir ++ oft.fileName }

/-- `m_oft.sentChecksum = checksum`. -/
def setSentChecksum (checksum : Nat) (t : OftMetaTransfer) : OftMetaTransfer :=
  { t with m_oft := { t.m_oft with sentChecksum := checksum } }

/-- `handleReceiveSetup`. -/
def handleReceiveSetup (oft : OFT) (t : OftMetaTransfer) : OftMetaTransfer × List Packet :=
  if t.m_state ≠ .SetupReceive then (t, [])
  else
    let t := takePrompt oft t
    if 0 < t.fileSize ∧ t.fileSize ≤ oft.fileSize then
      let t := t.setSentChecksum (fileChecksum (t.content t.m_file) (-1))
      if t.fileSize < oft.fileSize then resume t -- could be a partial file
      else if t.m_oft.checksum = t.m_oft.sentChecksum then done t -- apparently we've already got it
      else ack ((t.setSentChecksum 0xFFFF0000).setContent []) -- we need the whole file
    else ack (t.setContent [])

/-- What a prompt leads to: a resume, a `done` or an `ack`, the last for a file
of the same size or where there is nothing to resume. -/
theorem handleReceiveSetup_cases (oft : OFT) {t : OftMetaTransfer}
    (hState : t.m_state = .SetupReceive) :
    let u := takePrompt oft t
    let sum := fileChecksum (u.content u.m_file) (-1)
    (0 < u.fileSize ∧ u.fileSize < oft.fileSize ∧
        handleReceiveSetup oft t = resume (u.setSentChecksum sum)) ∨
      (u.fileSize = oft.fileSize ∧ oft.checksum = sum ∧
        handleReceiveSetup oft t = done (u.setSentChecksum sum)) ∨
      (u.fileSize = oft.fileSize ∧
        handleReceiveSetup oft t = ack ((u.setSentChecksum 0xFFFF0000).setContent [])) ∨
      (¬ (0 < u.fileSize ∧ u.fileSize ≤ oft.fileSize) ∧
        handleReceiveSetup oft t = ack (u.setContent [])) := by
  intro u sum
  unfold handleReceiveSetup
  rw [if_neg (not_not.mpr hState)]
  by_cases hTarget : 0 < u.fileSize ∧ u.fileSize ≤ oft.fileSize
  · by_cases hPartial : u.fileSize < oft.fileSize
    · exact .inl ⟨hTarget.1, hPartial, (if_pos hTarget).trans (if_pos hPartial)⟩
    · have hSize : u.fileSize = oft.fileSize := by omega
      by_cases hSum : oft.checksum = sum
      · exact .inr (.inl ⟨hSize, hSum,
          (if_pos hTarget).trans ((if_neg hPartial).trans (if_pos hSum))⟩)
      · exact .inr (.inr (.inl ⟨hSize,
          (if_pos hTarget).trans ((if_neg hPartial).trans (if_neg hSum))⟩))
  · exact .inr (.inr (.inr ⟨hTarget, if_neg hTarget⟩))

/-- `handleReceiveResumeSetup`. -/
def handleReceiveResumeSetup (oft : OFT) (t : OftMetaTransfer) : OftMetaTransfer × List Packet :=
  if t.m_state ≠ .SetupReceive then (t, [])
  else if oft.bytesSent ≠ 0 then
    rAck (t.setContent (t.content t.m_file)) -- yay, we can resume
  else
    -- they insist on sending the whole file :(
    rAck ({ t.setSentChecksum 0xFFFF0000 with
      m_oft := { (t.setSentChecksum 0xFFFF0000).m_oft with bytesSent := 0 } }.setContent [])

/-- `saveData`. -/
def saveData (raw : List UInt8) (t : OftMetaTransfer) : OftMetaTransfer × List Packet :=
  let t := { t.setContent (t.content t.m_file ++ raw) with
    m_oft := { t.m_oft with
      sentChecksum := chunkChecksum raw t.m_oft.sentChecksum (t.m_oft.bytesSent % 2 == 1)
      bytesSent := (t.m_oft.bytesSent + raw.length) % 2 ^ 32 } }
  if t.m_oft.bytesSent ≥ t.m_oft.fileSize then done t else (t, [])

/-! ## The sending side -/

/-- `write`: one call, in which the socket takes at most `room` bytes. -/
def write (room : Nat) (t : OftMetaTransfer) : OftMetaTransfer × List Packet :=
  if !t.writing then (t, [])
  else
    let data := ((t.content t.m_file).drop t.m_oft.bytesSent).take BUFFER_SIZE
    let written := data.take room
    let t := { t with
      m_oft := { t.m_oft with
        sentChecksum := chunkChecksum written t.m_oft.sentChecksum (t.m_oft.bytesSent % 2 == 1)
        bytesSent := (t.m_oft.bytesSent + written.length) % 2 ^ 32 } }
    if t.m_oft.bytesSent ≥ t.m_oft.fileSize then ({ t with writing := false }, [.bytes written])
    else (t, [.bytes written])

/-- A call sends the next bytes of the file, and goes on while there are more. -/
theorem write_cases (room : Nat) {t : OftMetaTransfer} (hWriting : t.writing = true) :
    let data := (((t.content t.m_file).drop t.m_oft.bytesSent).take BUFFER_SIZE).take room
    ∃ oft : OFT, oft.bytesSent = (t.m_oft.bytesSent + data.length) % 2 ^ 32 ∧
      oft.fileSize = t.m_oft.fileSize ∧ oft.filesLeft = t.m_oft.filesLeft ∧
      write room t =
        ({ t with m_oft := oft, writing := decide (oft.bytesSent < oft.fileSize) },
          [.bytes data]) := by
  intro data
  refine ⟨{ t.m_oft with
    sentChecksum := chunkChecksum data t.m_oft.sentChecksum (t.m_oft.bytesSent % 2 == 1)
    bytesSent := (t.m_oft.bytesSent + data.length) % 2 ^ 32 }, rfl, rfl, rfl, ?_⟩
  unfold write
  split
  · simp_all
  · dsimp only
    split
    · rename_i hFull
      rw [decide_eq_false (not_lt.mpr hFull)]
    · rename_i hShort
      rw [decide_eq_true (not_le.mp hShort), hWriting]

/-- `handleSendSetup`. The first `write` is the next step. -/
def handleSendSetup (_oft : OFT) (t : OftMetaTransfer) : OftMetaTransfer × List Packet :=
  if t.m_state ≠ .SetupSend then (t, [])
  else ({ t with m_state := .Sending, writing := true }, [])

/-- `handleSendResumeSetup`. -/
def handleSendResumeSetup (_oft : OFT) (t : OftMetaTransfer) : OftMetaTransfer × List Packet :=
  if t.m_state ≠ .SetupSend then (t, [])
  else ({ t with m_state := .Sending, writing := true }, [])

/-- `handleSendResumeRequest`. -/
def handleSendResumeRequest (oft : OFT) (t : OftMetaTransfer) : OftMetaTransfer × List Packet :=
  if t.m_state ≠ .SetupSend then (t, [])
  else if fileChecksum (t.content t.m_file) (toInt oft.bytesSent) = oft.sentChecksum then
    rAgree { t with
      m_oft := { t.m_oft with sentChecksum := oft.sentChecksum, bytesSent := oft.bytesSent } }
  else rAgree t

/-- `handleSendDone`. -/
def handleSendDone (_oft : OFT) (t : OftMetaTransfer) : OftMetaTransfer × List Packet :=
  let t := { t with writing := false }
  if t.m_oft.filesLeft > 1 then prompt { t with m_state := .SetupSend }
  else (t, [])

/-! ## Reading -/

/-- `readOft`. -/
def readOft (data : OFT) (t : OftMetaTransfer) : OftMetaTransfer × List Packet :=
  match data.type with
  | 0x101 => handleReceiveSetup data t
  | 0x202 => handleSendSetup data t
  | 0x204 => handleSendDone data t
  | 0x205 => handleSendResumeRequest data t
  | 0x106 => handleReceiveResumeSetup data t
  | 0x207 => handleSendResumeSetup data t
  | _ => (t, [])

/-- `socketRead`: file data while the state is `Receiving`, else a header. -/
def socketRead (w : Wire) (packet : Packet) (t : OftMetaTransfer) :
    OftMetaTransfer × List Packet :=
  if t.m_state = .Receiving then saveData (packet.raw w) t
  else readOft (packet.data w) t

end OftMetaTransfer

end Oscar
