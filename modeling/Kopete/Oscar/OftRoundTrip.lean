import Kopete.Oscar.BufferReads
import Kopete.Oscar.OftSegments

/-!
# Oscar — a file transfer header, written and read

The name of a file ends with a null, of one byte or of two, and is padded to 64 bytes. The length
of the header counts all of it in a `WORD`.

Main results:

* `parse_toWire` — a header is read as it was written, while its length is a `WORD`;
* `fileName_tooLong` — with one byte more nothing is left of the name.
-/

namespace Oscar

open DataStream

/-! ## Names -/

/-- Some null characters. -/
def nulls (k : Nat) : String := String.ofList (List.replicate k (Char.ofNat 0))

/-- The bytes of a null. -/
def CodecName.nullSize : CodecName → Nat
  | .UTF16BE => 2
  | _ => 1

/-- What one codec has written another reads, with nulls behind it. -/
def TextCodecs.Decodes (codecs : TextCodecs) (written read : CodecName) (s : String) : Prop :=
  ∀ k, codecs.toUnicode read (codecs.fromUnicode written s ++
    List.replicate (written.nullSize * k) 0) = s ++ nulls k

/-- **Lossless codecs**, for a string: ISO 8859-1 is read back where it can be written at all,
as UTF-8 too where it is ASCII; UTF-16 is read back, and made of pairs of bytes. -/
structure TextCodecs.Lossless (codecs : TextCodecs) (s : String) : Prop where
  latin1 : codecs.canEncode .ISO8859_1 s → codecs.Decodes .ISO8859_1 .ISO8859_1 s
  ascii : codecs.canEncode .ISO8859_1 s → (∀ b ∈ codecs.fromUnicode .ISO8859_1 s, b < 128) →
    codecs.Decodes .ISO8859_1 .UTF8 s
  utf16 : codecs.canEncode .ISO8859_1 s = false → codecs.Decodes .UTF16BE .UTF16BE s
  pairs : codecs.canEncode .ISO8859_1 s = false → (codecs.fromUnicode .UTF16BE s).length % 2 = 0

/-- Nulls behind a name are cut off. -/
theorem truncateAtNull_nulls {s : String} (h : Char.ofNat 0 ∉ s.toList) (k : Nat) :
    truncateAtNull (s ++ nulls k) = s := by
  have hStop : (List.replicate k (Char.ofNat 0)).takeWhile (· ≠ Char.ofNat 0) = [] := by
    cases k <;> simp [List.replicate_succ]
  unfold truncateAtNull nulls
  rw [String.toList_append, String.toList_ofList, List.takeWhile_append_of_pos, hStop,
    List.append_nil, String.ofList_toList]
  intro c hc
  rw [decide_eq_true_eq]
  exact fun hNull => h (hNull ▸ hc)

/-- The fields have their types, and the cookie its eight bytes. -/
structure OFT.Typed (x : OFT) : Prop where
  cookie : x.cookie.length = 8
  words : ∀ w ∈ [x.type, x.fileCount, x.filesLeft, x.partCount, x.partsLeft], w < 2 ^ 16
  dwords : ∀ d ∈ [x.totalSize, x.fileSize, x.modTime, x.checksum, x.bytesSent, x.sentChecksum],
    d < 2 ^ 32
  flags : x.flags < 2 ^ 8

namespace OftTransfer

variable {codecs : TextCodecs}

/-- The bytes of the name with its null and what it is padded with. -/
def nameField (codecs : TextCodecs) (name : String) : List UInt8 :=
  (encodeFileName codecs name).1 ++
    ((if (encodeFileName codecs name).2 = 2 then beBytes 2 0 else beBytes 1 0) ++
      List.replicate (64 - fileNameLen codecs name) 0)

theorem length_nameField (codecs : TextCodecs) (name : String) :
    (nameField codecs name).length = max 64 (fileNameLen codecs name) := by
  have hLen : fileNameLen codecs name = (encodeFileName codecs name).1.length +
      (if (encodeFileName codecs name).2 = 2 then 2 else 1) := rfl
  unfold nameField
  rw [List.length_append, List.length_append, List.length_replicate]
  split at hLen <;> rename_i hTwo
  · rw [if_pos hTwo, length_beBytes]
    omega
  · rw [if_neg hTwo, length_beBytes]
    omega

theorem beBytes_zero (n : Nat) : beBytes n 0 = List.replicate n 0 := by
  induction n with
  | zero => rfl
  | succ n ih =>
    rw [beBytes, ih, Nat.zero_div, List.replicate_succ]
    rfl

theorem codecFor_encoding :
    OftProtocol.codecFor (0 * 2 ^ 16) = some .UTF8 ∧
      OftProtocol.codecFor (2 * 2 ^ 16) = some .UTF16BE ∧
      OftProtocol.codecFor (3 * 2 ^ 16) = some .ISO8859_1 := by
  decide

theorem fileName_of_codec {d : Nat} {c : CodecName} (h : OftProtocol.codecFor d = some c)
    (name : List UInt8) :
    OftProtocol.fileName codecs d name = truncateAtNull (codecs.toUnicode c name) := by
  unfold OftProtocol.fileName
  rw [h]

/-- The field of a name that ends with one null byte, or with two. -/
theorem nameField_eq {name : String} {data : List UInt8} {encoding : Nat}
    (h : encodeFileName codecs name = (data, encoding)) :
    nameField codecs name = data ++
      List.replicate ((if encoding = 2 then 2 else 1) +
        (64 - (data.length + if encoding = 2 then 2 else 1))) 0 := by
  unfold nameField fileNameLen
  rw [h]
  dsimp only
  rw [← List.replicate_append_replicate]
  split <;> rw [beBytes_zero]

/-- **The name** is read from its field. -/
theorem fileName_nameField {name : String} (h : codecs.Lossless name)
    (hNull : Char.ofNat 0 ∉ name.toList) :
    OftProtocol.fileName codecs ((encodeFileName codecs name).2 * 2 ^ 16) (nameField codecs name) =
      name := by
  have hRead : ∀ {written read : CodecName} {n : Nat}, codecs.Decodes written read name →
      written.nullSize ∣ n → truncateAtNull (codecs.toUnicode read
        (codecs.fromUnicode written name ++ List.replicate n 0)) = name := by
    intro written read n hDecodes hSize
    rw [← Nat.mul_div_cancel' hSize, hDecodes]
    exact truncateAtNull_nulls hNull _
  by_cases hLatin : codecs.canEncode .ISO8859_1 name
  · by_cases hHigh : (codecs.fromUnicode .ISO8859_1 name).any (· ≥ 128)
    · have hEncoded : encodeFileName codecs name = (codecs.fromUnicode .ISO8859_1 name, 3) := by
        unfold encodeFileName
        rw [if_pos hLatin]
        exact if_pos hHigh
      rw [nameField_eq hEncoded, hEncoded, fileName_of_codec codecFor_encoding.2.2]
      exact hRead (h.latin1 hLatin) (one_dvd _)
    · have hEncoded : encodeFileName codecs name = (codecs.fromUnicode .ISO8859_1 name, 0) := by
        unfold encodeFileName
        rw [if_pos hLatin]
        exact if_neg hHigh
      have hLow : ∀ b ∈ codecs.fromUnicode .ISO8859_1 name, b < 128 := by
        intro b hb
        by_contra hb'
        exact hHigh (List.any_eq_true.mpr ⟨b, hb, decide_eq_true (UInt8.not_lt.mp hb')⟩)
      rw [nameField_eq hEncoded, hEncoded, fileName_of_codec codecFor_encoding.1]
      exact hRead (h.ascii hLatin hLow) (one_dvd _)
  · have hEncoded : encodeFileName codecs name = (codecs.fromUnicode .UTF16BE name, 2) :=
      if_neg hLatin
    rw [Bool.not_eq_true] at hLatin
    have hPairs := h.pairs hLatin
    rw [nameField_eq hEncoded, hEncoded, fileName_of_codec codecFor_encoding.2.1]
    refine hRead (h.utf16 hLatin) (Nat.dvd_of_mod_eq_zero ?_)
    show (2 + (64 - ((codecs.fromUnicode .UTF16BE name).length + 2))) % 2 = 0
    omega

/-! ## The header -/

/-- The number that is written for the length of the header. -/
def headerLength (codecs : TextCodecs) (name : String) : Nat :=
  if fileNameLen codecs name > 64 then fileNameLen codecs name - 64 + 256 else 256

/-- What the reader skips: the resource fork, the id string, and what is in front of the
encoding. -/
def forkBytes : List UInt8 :=
  beBytes 4 0xFFFF0000 ++ (beBytes 4 0 ++ (beBytes 4 0 ++ beBytes 4 0xFFFF0000))

def idBytes : List UInt8 := idString ++ List.replicate 19 0

def dummyBytes : List UInt8 := [0x1C] ++ ([0x11] ++ (List.replicate 69 0 ++ List.replicate 16 0))

/-- The header as the reader takes it apart. -/
theorem toWire_eq (codecs : TextCodecs) (x : OFT) :
    toWire codecs x = OftProtocol.magic ++ (beBytes 2 (headerLength codecs x.fileName) ++
      (beBytes 2 x.type ++ (x.cookie ++ (beBytes 2 0 ++ (beBytes 2 0 ++ (beBytes 2 x.fileCount ++
        (beBytes 2 x.filesLeft ++ (beBytes 2 x.partCount ++ (beBytes 2 x.partsLeft ++
          (beBytes 4 x.totalSize ++ (beBytes 4 x.fileSize ++ (beBytes 4 x.modTime ++
            (beBytes 4 x.checksum ++ (forkBytes ++ (beBytes 4 x.bytesSent ++
              (beBytes 4 x.sentChecksum ++ (idBytes ++ (beBytes 1 x.flags ++ (dummyBytes ++
                (beBytes 4 ((encodeFileName codecs x.fileName).2 * 2 ^ 16) ++
                  nameField codecs x.fileName)))))))))))))))))))) := by
  have hEncoding : beBytes 4 ((encodeFileName codecs x.fileName).2 * 2 ^ 16) =
      beBytes 2 (encodeFileName codecs x.fileName).2 ++ beBytes 2 0 := by
    rw [Buffer.beBytes_four, Nat.mul_div_cancel _ (by decide), ← Buffer.beBytes_two_mod (_ * _),
      Nat.mul_mod_left]
  rw [hEncoding]
  unfold toWire headerLength forkBytes idBytes dummyBytes nameField
  simp only [List.append_assoc]

theorem readInt_beBytes {n v : Nat} (h : v < 256 ^ n) (r : List UInt8) :
    readInt beNat n (beBytes n v ++ r) = (v, r) := by
  have hLength := length_beBytes n v
  unfold readInt
  rw [if_pos (by rw [List.length_append]; omega), List.take_left' hLength,
    List.drop_left' hLength, beNat_beBytes h]

theorem readU8_beBytes {v : Nat} (h : v < 2 ^ 8) (r : List UInt8) :
    readU8 (beBytes 1 v ++ r) = (v, r) := readInt_beBytes (n := 1) (by omega) r

theorem readU16BE_beBytes {v : Nat} (h : v < 2 ^ 16) (r : List UInt8) :
    readU16BE (beBytes 2 v ++ r) = (v, r) := readInt_beBytes (n := 2) (by omega) r

theorem readU32BE_beBytes {v : Nat} (h : v < 2 ^ 32) (r : List UInt8) :
    readU32BE (beBytes 4 v ++ r) = (v, r) := readInt_beBytes (n := 4) (by omega) r

theorem skipRawData_left {n : Nat} {w : List UInt8} (h : w.length = n) (r : List UInt8) :
    skipRawData n (w ++ r) = r := List.drop_left' h

theorem readRawData_left (memory : Nat → UInt8) {n : Nat} {w : List UInt8} (h : w.length = n)
    (r : List UInt8) : readRawData memory n (w ++ r) = (w, r) := by
  rw [readRawData_of_le memory (by rw [List.length_append]; omega), List.take_left' h,
    List.drop_left' h]

/-- **A header is read as it was written**, while its length is a `WORD`. -/
theorem parse_toWire (codecs : TextCodecs) (memory : Nat → UInt8) (x : OFT) (hTyped : x.Typed)
    (hNull : Char.ofNat 0 ∉ x.fileName.toList) (hLossless : codecs.Lossless x.fileName)
    (hLength : fileNameLen codecs x.fileName ≤ 65343) :
    OftProtocol.parse codecs memory (toWire codecs x) =
      some (⟨x, none⟩, (toWire codecs x).length) := by
  have hMagic : OftProtocol.magic <+: toWire codecs x := by
    rw [toWire_eq]
    exact List.prefix_append _ _
  have hWhole : (toWire codecs x).length = headerLength codecs x.fileName :=
    (toWire_spec codecs hTyped.cookie).2
  have hFields : OftProtocol.fields codecs memory ((toWire codecs x).drop 4) =
      (headerLength codecs x.fileName, x) := by
    have hName := length_nameField codecs x.fileName
    have hWord : headerLength codecs x.fileName < 2 ^ 16 := by
      unfold headerLength
      split <;> omega
    have hRest : ((headerLength codecs x.fileName : Int) - 256 + 64).toNat =
        (nameField codecs x.fileName).length := by
      rw [hName]
      unfold headerLength
      split <;> omega
    have hEncoding : (encodeFileName codecs x.fileName).2 * 2 ^ 16 < 2 ^ 32 := by
      have hSmall : (encodeFileName codecs x.fileName).2 ≤ 3 := by
        unfold encodeFileName
        split
        · dsimp only
          split <;> omega
        · omega
      omega
    have hWords := hTyped.words
    have hDwords := hTyped.dwords
    simp only [List.forall_mem_cons, List.not_mem_nil, false_implies, implies_true, and_true]
      at hWords hDwords
    obtain ⟨hType, hFileCount, hFilesLeft, hPartCount, hPartsLeft⟩ := hWords
    obtain ⟨hTotalSize, hFileSize, hModTime, hChecksum, hBytesSent, hSentChecksum⟩ := hDwords
    have hFileName := readRawData_left memory (w := nameField codecs x.fileName) rfl []
    rw [List.append_nil] at hFileName
    rw [toWire_eq, List.drop_left' (show OftProtocol.magic.length = 4 from rfl)]
    simp only [OftProtocol.fields, readU16BE_beBytes hWord, readU16BE_beBytes hType,
      readRawData_left memory hTyped.cookie, readU16BE_beBytes (show 0 < 2 ^ 16 by decide),
      readU16BE_beBytes hFileCount, readU16BE_beBytes hFilesLeft, readU16BE_beBytes hPartCount,
      readU16BE_beBytes hPartsLeft, readU32BE_beBytes hTotalSize, readU32BE_beBytes hFileSize,
      readU32BE_beBytes hModTime, readU32BE_beBytes hChecksum,
      skipRawData_left (show forkBytes.length = 16 by decide), readU32BE_beBytes hBytesSent,
      readU32BE_beBytes hSentChecksum, skipRawData_left (show idBytes.length = 32 by decide),
      readU8_beBytes hTyped.flags, skipRawData_left (show dummyBytes.length = 87 by decide),
      readU32BE_beBytes hEncoding, hRest, hFileName, fileName_nameField hLossless hNull]
  rw [OftProtocol.parse_eq, if_pos hMagic, hFields]
  dsimp only
  rw [hWhole, if_neg (lt_irrefl _)]

/-! ## Names that are too long -/

/-- Where characters are bytes nothing is lost. -/
theorem lossless_latin1 {s : String} (h : ∀ c ∈ s.toList, c.toNat < 256) :
    OftMetaTransfer.latin1.Lossless s := by
  have hBack : (s.toList.map fun c : Char => UInt8.ofNat c.toNat).map
      (fun b : UInt8 => Char.ofNat b.toNat) = s.toList := by
    rw [List.map_map]
    refine (List.map_congr_left fun c hc => ?_).trans (List.map_id _)
    have hSmall : (UInt8.ofNat c.toNat).toNat = c.toNat := by
      rw [UInt8.toNat_ofNat']
      exact Nat.mod_eq_of_lt (h c hc)
    show Char.ofNat (UInt8.ofNat c.toNat).toNat = c
    rw [hSmall, Char.ofNat_toNat]
  have hDecodes : ∀ read, OftMetaTransfer.latin1.Decodes .ISO8859_1 read s := by
    intro read k
    show String.ofList (((s.toList.map fun c : Char => UInt8.ofNat c.toNat) ++
      List.replicate (1 * k) 0).map fun b : UInt8 => Char.ofNat b.toNat) = _
    rw [List.map_append, hBack, List.map_replicate, Nat.one_mul, String.ofList_append,
      String.ofList_toList]
    rfl
  have hAll : OftMetaTransfer.latin1.canEncode .ISO8859_1 s = true :=
    List.all_eq_true.mpr fun c hc => decide_eq_true (h c hc)
  refine ⟨fun _ => hDecodes _, fun _ _ => hDecodes _, fun hNone => ?_, fun hNone => ?_⟩
  · rw [hAll] at hNone
    exact absurd hNone (by decide)
  · rw [hAll] at hNone
    exact absurd hNone (by decide)

/-- The header is read without the name where its length reads as zero. -/
theorem fields_fileName (codecs : TextCodecs) (memory : Nat → UInt8) {b : List UInt8}
    (hZero : intAt beNat 2 b 4 = 0) :
    ∃ d, (OftProtocol.fields codecs memory (b.drop 4)).2.fileName =
      OftProtocol.fileName codecs d [] := by
  refine ⟨intAt beNat 4 b 188, ?_⟩
  rw [OftProtocol.fields_eq, hZero]
  rfl

/-- **A header of `2 ^ 16` bytes** says that it has none, and nothing of the name is read. -/
theorem fileName_tooLong {codecs : TextCodecs} (memory : Nat → UInt8) {x : OFT}
    (hLength : fileNameLen codecs x.fileName = 65344)
    {p : OftTransfer × Nat} (h : OftProtocol.parse codecs memory (toWire codecs x) = some p) :
    ∃ d, p.1.m_data.fileName = OftProtocol.fileName codecs d [] := by
  have hHeader : headerLength codecs x.fileName = 65536 := by
    unfold headerLength
    rw [hLength]
    rfl
  have hZero : intAt beNat 2 (toWire codecs x) 4 = 0 := by
    have hDrop : (toWire codecs x).drop 4 = _ :=
      (congrArg (List.drop 4) (toWire_eq codecs x)).trans
        (List.drop_left' (show OftProtocol.magic.length = 4 from rfl))
    unfold intAt
    split
    · rw [hDrop, List.take_left' (length_beBytes 2 _), beNat_beBytes_mod, hHeader]
      norm_num
    · rfl
  obtain ⟨d, hName⟩ := fields_fileName codecs memory hZero
  generalize toWire codecs x = w at h hName
  rw [OftProtocol.parse_eq] at h
  split at h
  · exact ⟨d, by rw [← Option.some.inj h]; exact hName⟩
  · cases h

/-- A header with a file name. -/
def named (name : String) : OFT :=
  { OftMetaTransfer.initOft with type := 0x101, cookie := List.replicate 8 0, fileName := name }

theorem typed_named (name : String) : (named name).Typed := by
  constructor <;> simp [named, OftMetaTransfer.initOft]

theorem parse_toWire_named :
    OftProtocol.parse OftMetaTransfer.latin1 (fun _ => 0)
        (toWire OftMetaTransfer.latin1 (named "photo.jpg")) =
      some (⟨named "photo.jpg", none⟩,
        (toWire OftMetaTransfer.latin1 (named "photo.jpg")).length) :=
  parse_toWire OftMetaTransfer.latin1 (fun _ => 0) (named "photo.jpg") (typed_named _)
    (by decide) (lossless_latin1 fun c hc => of_decide_eq_true (List.all_eq_true.mp
      (show ("photo.jpg".toList.all fun c => decide (c.toNat < 256)) = true from rfl) c hc))
    (by decide)

/-- A name of one letter. -/
def letters (n : Nat) : String := String.ofList (List.replicate n 'a')

theorem eq_of_mem_letters {n : Nat} {c : Char} (h : c ∈ (letters n).toList) : c = 'a' := by
  rw [letters, String.toList_ofList] at h
  exact List.eq_of_mem_replicate h

theorem encodeFileName_letters (n : Nat) :
    encodeFileName OftMetaTransfer.latin1 (letters n) = (List.replicate n 97, 0) := by
  have hBytes : OftMetaTransfer.latin1.fromUnicode .ISO8859_1 (letters n) =
      List.replicate n 97 := by
    show ((letters n).toList.map fun c : Char => UInt8.ofNat c.toNat) = _
    rw [letters, String.toList_ofList, List.map_replicate]
    rfl
  have hAll : OftMetaTransfer.latin1.canEncode .ISO8859_1 (letters n) = true :=
    List.all_eq_true.mpr fun c hc => by
      rw [eq_of_mem_letters hc]
      decide
  unfold encodeFileName
  rw [if_pos hAll, hBytes]
  refine if_neg fun hHigh => ?_
  obtain ⟨b, hb, hb'⟩ := List.any_eq_true.mp hHigh
  rw [List.eq_of_mem_replicate hb] at hb'
  exact absurd hb' (by decide)

theorem fileNameLen_letters (n : Nat) :
    fileNameLen OftMetaTransfer.latin1 (letters n) = n + 1 := by
  unfold fileNameLen
  rw [encodeFileName_letters]
  dsimp only
  rw [List.length_replicate, if_neg (by decide)]

/-- The null behind a name counts, too. -/
theorem longName_lost :
    ¬ ∀ (codecs : TextCodecs) (memory : Nat → UInt8) (x : OFT), x.Typed →
      Char.ofNat 0 ∉ x.fileName.toList → codecs.Lossless x.fileName →
      (encodeFileName codecs x.fileName).1.length ≤ 65343 →
      OftProtocol.parse codecs memory (toWire codecs x) =
        some (⟨x, none⟩, (toWire codecs x).length) := by
  intro h
  have hEncoded : (encodeFileName OftMetaTransfer.latin1 (letters 65343)).1.length ≤ 65343 := by
    rw [encodeFileName_letters, List.length_replicate]
  have hParse := h OftMetaTransfer.latin1 (fun _ => 0) (named (letters 65343)) (typed_named _)
    (fun hNull => absurd (eq_of_mem_letters hNull) (by decide))
    (lossless_latin1 fun c hc => by rw [eq_of_mem_letters hc]; decide) hEncoded
  obtain ⟨d, hName⟩ :=
    fileName_tooLong (fun _ => 0) (x := named (letters 65343)) (fileNameLen_letters 65343) hParse
  have hEmpty : OftProtocol.fileName OftMetaTransfer.latin1 d [] = "" := by
    unfold OftProtocol.fileName
    split <;> rfl
  have hLength := congrArg String.length (show letters 65343 = "" from hName.trans hEmpty)
  rw [letters, String.length_ofList, List.length_replicate] at hLength
  exact absurd hLength (by decide)

end OftTransfer

end Oscar
