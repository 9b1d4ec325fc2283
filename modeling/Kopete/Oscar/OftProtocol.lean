import Kopete.Lib.DataStream
import Kopete.Oscar.OftMetaTransfer

/-!
# Oscar — the header of a file transfer

An OFT header is 192 bytes of fields and a file name, which is padded to 64
bytes; its length is in bytes 4 and 5. `OftTransfer::toWire` writes it and
`OftProtocol::parse` reads it back.

`parse` tests the magic number and nothing else. It does not ask whether the
packet is as long as the header says: what is missing of an integer is `0`, and
what is missing of the cookie or of the name is whatever `memory` held. What
follows the header goes into a buffer of the transfer, which nobody looks at.

`TextCodecs` stands for the `QTextCodec`s.

Main results:

* `OftProtocol.parse_eq_none_iff` — when there is no transfer;
* `OftProtocol.parse_of_isHeader` — a whole header leaves nothing to memory;
* `OftTransfer.isHeader_toWire` — what `toWire` writes is one.
-/

namespace Oscar

open DataStream

/-- The codecs that are asked for by name. -/
inductive CodecName
  | UTF8 | UTF16BE | ISO8859_1
deriving DecidableEq, Repr

/-- `QTextCodec::codecForName`, and the conversion of a plain `char *`. -/
structure TextCodecs where
  toUnicode : CodecName → List UInt8 → String
  fromAscii : List UInt8 → String
  canEncode : CodecName → String → Bool
  fromUnicode : CodecName → String → List UInt8

/-- A received `OftTransfer`. -/
structure OftTransfer where
  m_data : OFT
  m_buffer : Option (List UInt8)
deriving DecidableEq, Repr

/-- `readRawData` into memory that nobody has written to. -/
def readRawData (memory : Nat → UInt8) (len : Nat) (w : List UInt8) : List UInt8 × List UInt8 :=
  ((List.range len).map fun i => (w[i]?).getD (memory i), w.drop len)

/-- `skipRawData`. -/
def skipRawData (len : Nat) (w : List UInt8) : List UInt8 := w.drop len

/-- With enough bytes there, memory does not show. -/
theorem readRawData_of_le (memory : Nat → UInt8) {len : Nat} {w : List UInt8}
    (h : len ≤ w.length) : readRawData memory len w = (w.take len, w.drop len) := by
  refine Prod.ext (List.ext_getElem ?_ fun i hi _ => ?_) rfl
  · simp [readRawData, Nat.min_eq_left h]
  · have hIn : i < w.length := by
      simp only [readRawData, List.length_map, List.length_range] at hi
      omega
    simp [readRawData, List.getElem?_eq_getElem hIn]

/-- A `QString` up to its first null. -/
def truncateAtNull (s : String) : String :=
  String.ofList (s.toList.takeWhile (· ≠ Char.ofNat 0))

namespace OftProtocol

/-- "OFT2". -/
def magic : List UInt8 := [0x4F, 0x46, 0x54, 0x32]

/-- The codec for an encoding of file names. -/
def codecFor (d : Nat) : Option CodecName :=
  match d with
  | 0 => some .UTF8
  | 0x00020000 => some .UTF16BE
  | 0x00030000 => some .ISO8859_1
  | _ => none

/-- The file name, without what follows its null. -/
def fileName (codecs : TextCodecs) (d : Nat) (name : List UInt8) : String :=
  truncateAtNull <|
    match codecFor d with
    | some c => codecs.toUnicode c name
    | none => codecs.fromAscii name -- pretend it's just ascii

/-- The length and the fields, from behind the magic number. -/
def fields (codecs : TextCodecs) (memory : Nat → UInt8) (din : List UInt8) : Nat × OFT :=
  let (length, din) := readU16BE din
  let (type, din) := readU16BE din
  let (cookie, din) := readRawData memory 8 din
  let (_, din) := readU16BE din -- encryption
  let (_, din) := readU16BE din -- compression
  let (fileCount, din) := readU16BE din
  let (filesLeft, din) := readU16BE din
  let (partCount, din) := readU16BE din
  let (partsLeft, din) := readU16BE din
  let (totalSize, din) := readU32BE din
  let (fileSize, din) := readU32BE din
  let (modTime, din) := readU32BE din
  let (checksum, din) := readU32BE din
  let din := skipRawData 16 din -- resource fork, creation time
  let (bytesSent, din) := readU32BE din
  let (sentChecksum, din) := readU32BE din
  let din := skipRawData 32 din -- idstring
  let (flags, din) := readU8 din
  let din := skipRawData 87 din -- name offset, size offset, dummy block, mac info
  let (d, din) := readU32BE din
  let namelen : Int := (length : Int) - 256 + 64
  let (name, _) := readRawData memory namelen.toNat din
  (length,
    { type := type
      cookie := cookie
      fileSize := fileSize
      modTime := modTime
      checksum := checksum
      bytesSent := bytesSent
      sentChecksum := sentChecksum
      flags := flags
      fileName := fileName codecs d name
      fileCount := fileCount
      filesLeft := filesLeft
      partCount := partCount
      partsLeft := partsLeft
      totalSize := totalSize })

/-- `OftProtocol::parse`: the transfer and the number of bytes it takes; `none`
is the null pointer. -/
def parse (codecs : TextCodecs) (memory : Nat → UInt8) (packet : List UInt8) :
    Option (OftTransfer × Nat) :=
  let (b, din) := readU8 packet
  if b ≠ 0x4F then none
  else
    let (b, din) := readU8 din
    if b ≠ 0x46 then none
    else
      let (b, din) := readU8 din
      if b ≠ 0x54 then none
      else
        let (b, din) := readU8 din
        if b ≠ 0x32 then none
        else
          let (length, data) := fields codecs memory din
          let fileBuffer := if packet.length > length then some (packet.drop length) else none
          some (⟨data, fileBuffer⟩, packet.length)

/-! ## The magic number -/

/-- A byte that is tested to be some other than `0` has to be there. -/
theorem readU8_eq_iff {c : UInt8} (hc : c ≠ 0) (w : List UInt8) :
    (readU8 w).1 = c.toNat ↔ [c] <+: w := by
  cases w with
  | nil =>
    have hNonzero : c.toNat ≠ 0 := fun h => hc (UInt8.toNat_inj.mp h)
    simpa [readU8, readInt] using hNonzero.symm
  | cons b w =>
    have hByte : (readU8 (b :: w)).1 = b.toNat := by simp [readU8, readInt, beNat]
    rw [hByte, UInt8.toNat_inj, List.cons_prefix_cons]
    simp [eq_comm]

/-- One byte after the other. -/
theorem cons_cons_prefix_iff {c d : UInt8} {m w : List UInt8} :
    c :: d :: m <+: w ↔ [c] <+: w ∧ d :: m <+: w.drop 1 := by
  cases w with
  | nil => simp
  | cons b w => simp [List.cons_prefix_cons]

/-- **The test `parse` makes.** -/
theorem parse_eq (codecs : TextCodecs) (memory : Nat → UInt8) (packet : List UInt8) :
    parse codecs memory packet =
      if magic <+: packet then
        let (length, data) := fields codecs memory (packet.drop 4)
        some (⟨data, if packet.length > length then some (packet.drop length) else none⟩,
          packet.length)
      else none := by
  have hMagic : magic <+: packet ↔ [0x4F] <+: packet ∧ [0x46] <+: packet.drop 1 ∧
      [0x54] <+: packet.drop 2 ∧ [0x32] <+: packet.drop 3 := by
    rw [magic, cons_cons_prefix_iff, cons_cons_prefix_iff, cons_cons_prefix_iff, List.drop_drop,
      List.drop_drop]
  have hO := readU8_eq_iff (c := 0x4F) (by decide) packet
  have hF := readU8_eq_iff (c := 0x46) (by decide) (packet.drop 1)
  have hT := readU8_eq_iff (c := 0x54) (by decide) (packet.drop 2)
  have h2 := readU8_eq_iff (c := 0x32) (by decide) (packet.drop 3)
  show (if (readU8 packet).1 ≠ (0x4F : UInt8).toNat then none
    else if (readU8 (packet.drop 1)).1 ≠ (0x46 : UInt8).toNat then none
    else if (readU8 ((packet.drop 1).drop 1)).1 ≠ (0x54 : UInt8).toNat then none
    else if (readU8 (((packet.drop 1).drop 1).drop 1)).1 ≠ (0x32 : UInt8).toNat then none
    else _) = _
  simp only [List.drop_drop, Nat.reduceAdd, ne_eq, hO, hF, hT, h2, ite_not, hMagic, ite_and]

theorem parse_eq_none_iff (codecs : TextCodecs) (memory : Nat → UInt8) (packet : List UInt8) :
    parse codecs memory packet = none ↔ ¬ magic <+: packet := by
  rw [parse_eq]
  split
  · rename_i h
    exact iff_of_false (by simp) (not_not.mpr h)
  · rename_i h
    exact iff_of_true rfl h

/-! ## The fields at their offsets -/

/-- The header at the front of a packet, field by field. -/
theorem fields_eq (codecs : TextCodecs) (memory : Nat → UInt8) (packet : List UInt8) :
    fields codecs memory (packet.drop 4) =
      (intAt beNat 2 packet 4,
        { type := intAt beNat 2 packet 6
          cookie := (readRawData memory 8 (packet.drop 8)).1
          fileSize := intAt beNat 4 packet 32
          modTime := intAt beNat 4 packet 36
          checksum := intAt beNat 4 packet 40
          bytesSent := intAt beNat 4 packet 60
          sentChecksum := intAt beNat 4 packet 64
          flags := intAt beNat 1 packet 100
          fileName := fileName codecs (intAt beNat 4 packet 188)
            (readRawData memory (intAt beNat 2 packet 4 - 192) (packet.drop 192)).1
          fileCount := intAt beNat 2 packet 20
          filesLeft := intAt beNat 2 packet 22
          partCount := intAt beNat 2 packet 24
          partsLeft := intAt beNat 2 packet 26
          totalSize := intAt beNat 4 packet 28 }) := by
  have hName : ((intAt beNat 2 packet 4 : Int) - 256 + 64).toNat =
      intAt beNat 2 packet 4 - 192 := by omega
  simp only [fields, readU8, readU16BE, readU32BE, readInt_drop (show 0 < 1 by decide),
    readInt_drop (show 0 < 2 by decide), readInt_drop (show 0 < 4 by decide), readRawData,
    skipRawData, List.drop_drop, Nat.reduceAdd, hName]

/-- The announced size is a `DWORD`. -/
theorem parse_fileSize_lt {codecs : TextCodecs} {memory : Nat → UInt8} {packet : List UInt8}
    {p : OftTransfer × Nat} (hParse : parse codecs memory packet = some p) :
    p.1.m_data.fileSize < 2 ^ 32 := by
  rw [parse_eq] at hParse
  split at hParse
  · rw [fields_eq] at hParse
    rw [← Option.some.inj hParse]
    exact intAt_beNat_lt 4 packet 32
  · cases hParse

/-- A header as the format asks for it. -/
structure IsHeader (h : List UInt8) : Prop where
  magic : magic <+: h
  length : intAt beNat 2 h 4 = h.length
  least : 256 ≤ h.length

/-- **A whole header leaves nothing to memory.** -/
theorem parse_of_isHeader (codecs : TextCodecs) (memory memory' : Nat → UInt8) {h : List UInt8}
    (hHeader : IsHeader h) : parse codecs memory h = parse codecs memory' h := by
  have hLeast := hHeader.least
  have hCookie (m : Nat → UInt8) : readRawData m 8 (h.drop 8) =
      ((h.drop 8).take 8, (h.drop 8).drop 8) :=
    readRawData_of_le m (by rw [List.length_drop]; omega)
  have hName (m : Nat → UInt8) : readRawData m (h.length - 192) (h.drop 192) =
      ((h.drop 192).take (h.length - 192), (h.drop 192).drop (h.length - 192)) :=
    readRawData_of_le m (by rw [List.length_drop])
  simp only [parse_eq, fields_eq, hHeader.length, hCookie, hName]

end OftProtocol

namespace OftTransfer

/-- `encodeFileName`: the bytes and the number of the encoding. -/
def encodeFileName (codecs : TextCodecs) (fileName : String) : List UInt8 × Nat :=
  if codecs.canEncode .ISO8859_1 fileName then
    let data := codecs.fromUnicode .ISO8859_1 fileName
    if data.any (· ≥ 128) then (data, 3) else (data, 0)
  else (codecs.fromUnicode .UTF16BE fileName, 2)

/-- "Cool FileXfer". -/
def idString : List UInt8 := "Cool FileXfer".toList.map fun c => UInt8.ofNat c.toNat

/-- The length of the name with its null. -/
def fileNameLen (codecs : TextCodecs) (name : String) : Nat :=
  (encodeFileName codecs name).1.length + (if (encodeFileName codecs name).2 = 2 then 2 else 1)

/-- `toWire`. -/
def toWire (codecs : TextCodecs) (m_data : OFT) : List UInt8 :=
  let fileName := (encodeFileName codecs m_data.fileName).1
  let fileNameEncoding := (encodeFileName codecs m_data.fileName).2
  let fileNameLen := fileNameLen codecs m_data.fileName
  OftProtocol.magic ++
  beBytes 2 (if fileNameLen > 64 then fileNameLen - 64 + 256 else 256) ++
  beBytes 2 m_data.type ++
  m_data.cookie ++
  beBytes 2 0 ++ -- no encryption
  beBytes 2 0 ++ -- no compression
  beBytes 2 m_data.fileCount ++
  beBytes 2 m_data.filesLeft ++
  beBytes 2 m_data.partCount ++
  beBytes 2 m_data.partsLeft ++
  beBytes 4 m_data.totalSize ++
  beBytes 4 m_data.fileSize ++
  beBytes 4 m_data.modTime ++
  beBytes 4 m_data.checksum ++
  beBytes 4 0xFFFF0000 ++ -- checksum of the received resource fork
  beBytes 4 0 ++ -- its size
  beBytes 4 0 ++ -- creation time
  beBytes 4 0xFFFF0000 ++ -- checksum of the resource fork
  beBytes 4 m_data.bytesSent ++
  beBytes 4 m_data.sentChecksum ++
  idString ++
  List.replicate 19 0 ++ -- pad to 32 bytes
  beBytes 1 m_data.flags ++
  [0x1C] ++ -- name offset
  [0x11] ++ -- size offset
  List.replicate 69 0 ++ -- dummy block
  List.replicate 16 0 ++ -- mac file info
  beBytes 2 fileNameEncoding ++
  beBytes 2 0 ++ -- encoding subcode
  fileName ++
  (if fileNameEncoding = 2 then beBytes 2 0 else beBytes 1 0) ++
  List.replicate (64 - fileNameLen) 0

/-- The bytes 4 and 5, and how many there are in all. -/
theorem toWire_spec (codecs : TextCodecs) {m_data : OFT} (hCookie : m_data.cookie.length = 8) :
    let len := fileNameLen codecs m_data.fileName
    let length := if len > 64 then len - 64 + 256 else 256
    OftProtocol.magic ++ beBytes 2 length <+: toWire codecs m_data ∧
      (toWire codecs m_data).length = length := by
  intro len length
  have hLen : len = fileNameLen codecs m_data.fileName := rfl
  have hId : idString.length = 13 := by decide
  have hMagic : OftProtocol.magic.length = 4 := rfl
  have hNull : (encodeFileName codecs m_data.fileName).1.length +
      (if (encodeFileName codecs m_data.fileName).2 = 2 then beBytes 2 0
        else beBytes 1 0).length = len := by
    rw [hLen, fileNameLen]
    split <;> simp
  constructor
  · unfold toWire
    simp only [List.append_assoc, List.prefix_append_right_inj]
    exact List.prefix_append _ _
  · unfold toWire
    simp only [List.length_append, length_beBytes, List.length_replicate, List.length_singleton,
      hId, hMagic, hCookie, ← hLen]
    rw [Nat.add_assoc _ (encodeFileName codecs m_data.fileName).1.length, hNull]
    show _ = if len > 64 then len - 64 + 256 else 256
    clear_value len
    split <;> omega

/-- **What `toWire` writes is a header**, if its length is a `WORD`. -/
theorem isHeader_toWire (codecs : TextCodecs) {m_data : OFT} (hCookie : m_data.cookie.length = 8)
    (hName : fileNameLen codecs m_data.fileName < 2 ^ 16 - 192) :
    OftProtocol.IsHeader (toWire codecs m_data) := by
  obtain ⟨hPrefix, hLength⟩ := toWire_spec codecs hCookie
  have hLeast : 256 ≤ (toWire codecs m_data).length := by
    rw [hLength]
    split <;> omega
  have hFits : (toWire codecs m_data).length < 256 ^ 2 := by
    rw [hLength]
    split <;> omega
  rw [← hLength] at hPrefix
  obtain ⟨rest, hSplit⟩ := hPrefix
  rw [List.append_assoc] at hSplit
  refine ⟨⟨_, hSplit⟩, ?_, hLeast⟩
  have hField : ((toWire codecs m_data).drop 4).take 2 =
      beBytes 2 (toWire codecs m_data).length := by
    conv_lhs => rw [← hSplit]
    show (beBytes 2 _ ++ rest).take 2 = _
    rw [List.take_left' (length_beBytes 2 _)]
  rw [intAt, if_pos (by omega), hField, beNat_beBytes hFits]

end OftTransfer

end Oscar
