import Kopete.Oscar.BufferWrite
import Kopete.Oscar.SSIModifyTask

/-!
# Oscar — items on the wire and back

The encoders and decoders of server-side items. `OContact::operator QByteArray`
writes a name with its length by hand and the TLVs field by field;
`SSIModifyTask::addItemToBuffer` uses `addBSTR` and `addTLV`. Both put the number
of bytes of the TLVs in front of them, and both decoders read TLVs until that
many bytes have been counted. `handleContactAdd` reads items to the end of the
packet, `SSIListTask` as many as the packet says.

`repair` stands for what `QString::fromUtf8` makes of bytes that are no UTF-8.

Main results:

* `reads_getItemFromBuffer` — an encoded item is read back, whatever follows it;
* `readBack_items` — so are the items of a packet, by both loops, from either
  encoder.
-/

namespace Oscar

open DataStream Buffer

/-- `QString::toUtf8`. -/
def toUtf8 (s : String) : List UInt8 := s.toUTF8.data.toList

/-- `QString::fromUtf8`. -/
def fromUtf8 (repair : List UInt8 → String) (bytes : List UInt8) : String :=
  (String.fromUTF8? ⟨bytes.toArray⟩).getD (repair bytes)

theorem fromUtf8_toUtf8 (repair : List UInt8 → String) (s : String) :
    fromUtf8 repair (toUtf8 s) = s := by
  have hDecode : String.fromUTF8? ⟨(toUtf8 s).toArray⟩ = some s := by
    show (if h : s.toByteArray.IsValidUTF8 then some (String.fromUTF8 s.toByteArray h) else none) =
      some s
    rw [dif_pos s.isValidUTF8]
    rfl
  rw [fromUtf8, hDecode, Option.getD_some]

/-! ## Encoding -/

/-- `refreshTLVLength`. Every item is made with it, so this is `m_tlvLength`. -/
def refreshTLVLength (tlvList : List TLV) : Nat :=
  tlvList.foldl (fun m_tlvLength t => m_tlvLength + 4 + t.length) 0

/-- `OContact::operator QByteArray`. -/
def OContact.toByteArray (i : OContact) : List UInt8 :=
  let name := toUtf8 i.name
  let b := (empty.addWord name.length).addString name
  let b := ((b.addWord i.gid).addWord i.bid).addWord i.type
  let b := b.addWord (refreshTLVLength i.tlvList)
  (i.tlvList.foldl (fun b t => ((b.addWord t.type).addWord t.length).addString t.data) b).mBuffer

/-- `SSIModifyTask::addItemToBuffer`. -/
def addItemToBuffer (item : OContact) (b : Buffer) : Buffer :=
  let b := b.addBSTR (toUtf8 item.name)
  let b := ((b.addWord item.gid).addWord item.bid).addWord item.type
  let b := b.addWord (refreshTLVLength item.tlvList)
  item.tlvList.foldl (fun b t => b.addTLV t.type t.data) b

/-! ## Decoding -/

/-- The TLVs of an item, `i` of `tlvLength` bytes having been counted. -/
def getItemTLVs (tlvLength i : Nat) (b : Buffer) : List TLV × Buffer :=
  if i < tlvLength then
    let (t, b) := b.getTLV
    let (tlvList, b) := getItemTLVs tlvLength (i + 4 + t.length) b
    (t :: tlvList, b)
  else ([], b)
termination_by tlvLength - i

/-- `SSIModifyTask::getItemFromBuffer`, and the body of the loop of `SSIListTask`. -/
def getItemFromBuffer (toLower : String → String) (repair : List UInt8 → String) (b : Buffer) :
    OContact × Buffer :=
  let (name, b) := b.getBSTR
  let itemName := fromUtf8 repair name
  let (groupId, b) := b.getWord
  let (itemId, b) := b.getWord
  let (itemType, b) := b.getWord
  let (tlvLength, b) := b.getWord
  let (tlvList, b) := getItemTLVs tlvLength 0 b
  let itemName := if itemType = ROSTER_CONTACT then normalize toLower itemName else itemName
  (⟨itemName, groupId, itemId, itemType, tlvList⟩, b)

/-- The items `handleContactAdd` reads, in at most `fuel` rounds of its loop;
`none` when it is still running after them. -/
def getItems (toLower : String → String) (repair : List UInt8 → String) :
    Nat → Buffer → Option (List OContact × Buffer)
  | 0, _ => none
  | fuel + 1, b =>
    if b.bytesAvailable > 0 then
      let (item, b) := getItemFromBuffer toLower repair b
      (getItems toLower repair fuel b).map fun r => (item :: r.1, r.2)
    else some ([], b)

/-- The loop of `SSIListTask`. Its counter is a `WORD`. -/
def getListedItems (toLower : String → String) (repair : List UInt8 → String) (ssiItems : Nat) :
    Nat → Nat → Buffer → Option (List OContact × Buffer)
  | 0, _, _ => none
  | fuel + 1, parsedItems, b =>
    if parsedItems ≤ ssiItems then
      let (item, b) := getItemFromBuffer toLower repair b
      (getListedItems toLower repair ssiItems fuel ((parsedItems + 1) % 2 ^ 16) b).map
        fun r => (item :: r.1, r.2)
    else some ([], b)

/-- `SSIListTask::handleContactListReply`: the items, and the time of the last
modification if there is one. -/
def handleContactListReply (toLower : String → String) (repair : List UInt8 → String) (fuel : Nat)
    (b : Buffer) : Option (List OContact × Option Nat) :=
  let (_, b) := b.getByte -- protocol version
  let (ssiItems, b) := b.getWord
  (getListedItems toLower repair ssiItems fuel 1 b).map fun r =>
    (r.1, if r.2.bytesAvailable > 0 then some r.2.getDWord.1 else none)

/-! ## The bytes of an item -/

/-- The fields have their types, the name is free of NUL and fits a `BSTR`, the
TLVs are whole and have a type, their bytes can be counted in a `WORD`, and the
name of a contact is normalized. -/
structure OContact.Encodable (toLower : String → String) (i : OContact) : Prop where
  name : 0 ∉ toUtf8 i.name ∧ (toUtf8 i.name).length < 2 ^ 16
  gid : i.gid < 2 ^ 16
  bid : i.bid < 2 ^ 16
  type : i.type < 2 ^ 16
  tlvs : ∀ t ∈ i.tlvList, t.type ≠ 0 ∧ t.type < 2 ^ 16 ∧ t.data.length = t.length
  tlvLength : refreshTLVLength i.tlvList < 2 ^ 16
  normalized : i.type = ROSTER_CONTACT → normalize toLower i.name = i.name

/-- A TLV on the wire. -/
def TLV.bytes (t : TLV) : List UInt8 := beBytes 2 t.type ++ (beBytes 2 t.length ++ t.data)

/-- An item on the wire. -/
def OContact.bytes (i : OContact) : List UInt8 :=
  beBytes 2 (toUtf8 i.name).length ++ toUtf8 i.name ++ (beBytes 2 i.gid ++ (beBytes 2 i.bid ++
    (beBytes 2 i.type ++ (beBytes 2 (refreshTLVLength i.tlvList) ++ i.tlvList.flatMap TLV.bytes))))

theorem refreshTLVLength_eq (tlvList : List TLV) :
    refreshTLVLength tlvList = (tlvList.map fun t => 4 + t.length).sum := by
  have hFold (n : Nat) : tlvList.foldl (fun m_tlvLength t => m_tlvLength + 4 + t.length) n =
      n + (tlvList.map fun t => 4 + t.length).sum := by
    induction tlvList generalizing n with
    | nil => rfl
    | cons t tlvList ih =>
      rw [List.foldl_cons, ih, List.map_cons, List.sum_cons]
      omega
  rw [refreshTLVLength, hFold, Nat.zero_add]

/-- TLVs written one by one. -/
theorem foldl_addString (f : TLV → List UInt8) (tlvList : List TLV) (b : Buffer) :
    tlvList.foldl (fun b t => b.addString (f t)) b = b.addString (tlvList.flatMap f) := by
  induction tlvList generalizing b with
  | nil => exact (addString_nil b).symm
  | cons t tlvList ih => rw [List.foldl_cons, ih, addString_addString, List.flatMap_cons]

theorem toByteArray_eq (i : OContact) : i.toByteArray = i.bytes := by
  have hTlv (b : Buffer) (t : TLV) :
      ((b.addWord t.type).addWord t.length).addString t.data = b.addString t.bytes := by
    rw [addWord_eq, addWord_eq, addString_addString, addString_addString, TLV.bytes]
  simp only [OContact.toByteArray, hTlv, foldl_addString]
  simp only [addWord_eq, addString_addString, addString_mBuffer, OContact.bytes,
    List.append_assoc]
  rfl

/-- Where the data of the TLVs is as long as they say, both encoders agree. -/
theorem addItemToBuffer_eq {toLower : String → String} {i : OContact} (h : i.Encodable toLower)
    (b : Buffer) : addItemToBuffer i b = b.addString i.bytes := by
  have hTlvs (b : Buffer) : i.tlvList.foldl (fun b t => b.addTLV t.type t.data) b =
      b.addString (i.tlvList.flatMap TLV.bytes) := by
    rw [← foldl_addString]
    refine List.foldl_ext _ _ _ fun b t ht => ?_
    rw [addTLV_eq, (h.tlvs t ht).2.2, TLV.bytes, List.append_assoc]
  simp only [addItemToBuffer, hTlvs, addBSTR_eq h.name.1, addWord_eq, addString_addString,
    OContact.bytes, List.append_assoc]

/-! ## One item -/

theorem reads_getTLV {t : TLV} (hType : t.type ≠ 0 ∧ t.type < 2 ^ 16)
    (hData : t.data.length = t.length) (hLength : t.length < 2 ^ 16) :
    Reads getTLV t.bytes t := by
  intro b r hb hr
  have hAvailable : b.bytesAvailable ≥ 4 := by
    rw [← hb.remaining_length, hr, TLV.bytes]
    simp only [List.length_append, length_beBytes]
    omega
  rw [TLV.bytes, List.append_assoc, List.append_assoc] at hr
  have hFirst := reads_getWord hType.2 b _ hb hr
  obtain ⟨hb, hr⟩ := hb.advance hr
  have hSecond := reads_getWord hLength _ _ hb hr
  obtain ⟨hb, hr⟩ := hb.advance hr
  have hBlock := reads_getBlock t.data _ _ hb hr
  rw [hData] at hBlock
  simp only [getTLV, if_pos hAvailable, hFirst, hSecond, if_pos hType.1, hBlock]
  rw [advance_advance, advance_advance, TLV.bytes, List.length_append, List.length_append, hData]

/-- The TLVs that make up the bytes still to be counted. -/
theorem reads_getItemTLVs {ts : List TLV} {tlvLength i : Nat} (hLength : tlvLength < 2 ^ 16)
    (hts : ∀ t ∈ ts, t.type ≠ 0 ∧ t.type < 2 ^ 16 ∧ t.data.length = t.length)
    (hSum : i + (ts.map fun t => 4 + t.length).sum = tlvLength) :
    Reads (getItemTLVs tlvLength i) (ts.flatMap TLV.bytes) ts := by
  induction ts generalizing i with
  | nil =>
    intro b r hb hr
    rw [List.map_nil, List.sum_nil] at hSum
    rw [getItemTLVs, if_neg (by omega), List.flatMap_nil, List.length_nil, advance_zero]
  | cons t ts ih =>
    rw [List.map_cons, List.sum_cons] at hSum
    obtain ⟨hZero, hType, hData⟩ := hts t List.mem_cons_self
    have hHead := reads_getTLV ⟨hZero, hType⟩ hData (by omega)
    have hTail := ih (i := i + 4 + t.length) (fun u hu => hts u (List.mem_cons_of_mem _ hu))
      (by omega)
    intro b r hb hr
    rw [List.flatMap_cons, List.append_assoc] at hr
    have hFirst := hHead b _ hb hr
    obtain ⟨hb', hr'⟩ := hb.advance hr
    have hRest := hTail _ _ hb' hr'
    rw [getItemTLVs, if_pos (by omega)]
    simp only [hFirst, hRest, advance_advance, List.flatMap_cons, List.length_append]

/-- **One item.** It is read back, whatever follows it. -/
theorem reads_getItemFromBuffer {toLower : String → String} (repair : List UInt8 → String)
    {i : OContact} (h : i.Encodable toLower) :
    Reads (getItemFromBuffer toLower repair) i.bytes i := by
  have hTlvs : Reads (getItemTLVs (refreshTLVLength i.tlvList) 0) (i.tlvList.flatMap TLV.bytes)
      i.tlvList :=
    reads_getItemTLVs h.tlvLength h.tlvs (by rw [refreshTLVLength_eq, Nat.zero_add])
  intro b r hb hr
  simp only [OContact.bytes, List.append_assoc] at hr
  rw [← List.append_assoc] at hr
  have hName := reads_getBSTR h.name.2 b _ hb hr
  obtain ⟨hb, hr⟩ := hb.advance hr
  have hGid := reads_getWord h.gid _ _ hb hr
  obtain ⟨hb, hr⟩ := hb.advance hr
  have hBid := reads_getWord h.bid _ _ hb hr
  obtain ⟨hb, hr⟩ := hb.advance hr
  have hType := reads_getWord h.type _ _ hb hr
  obtain ⟨hb, hr⟩ := hb.advance hr
  have hLength := reads_getWord h.tlvLength _ _ hb hr
  obtain ⟨hb, hr⟩ := hb.advance hr
  have hList := hTlvs _ _ hb hr
  have hNormal : (if i.type = ROSTER_CONTACT then normalize toLower i.name else i.name) =
      i.name := by
    split
    · next hContact => exact h.normalized hContact
    · rfl
  simp only [getItemFromBuffer, hName, hGid, hBid, hType, hLength, hList, fromUtf8_toUtf8,
    hNormal]
  simp only [advance_advance, OContact.bytes, List.length_append, Nat.add_assoc]

/-! ## Packets -/

theorem OContact.bytes_ne_nil (i : OContact) : 0 < i.bytes.length := by
  simp [OContact.bytes]

/-- `handleContactAdd` gets every item and stops at the end of the packet. -/
theorem getItems_items {toLower : String → String} (repair : List UInt8 → String)
    {items : List OContact} (h : ∀ i ∈ items, i.Encodable toLower) {b : Buffer} (hb : Ready b)
    (hr : b.remaining = items.flatMap OContact.bytes) :
    ∃ b', getItems toLower repair (items.length + 1) b = some (items, b') ∧
      b'.bytesAvailable = 0 := by
  induction items generalizing b with
  | nil =>
    have hEnd := hb.remaining_length
    rw [hr] at hEnd
    replace hEnd : b.bytesAvailable = 0 := hEnd.symm
    refine ⟨b, ?_, hEnd⟩
    rw [getItems, if_neg (by omega)]
  | cons i items ih =>
    rw [List.flatMap_cons] at hr
    have hMore : b.bytesAvailable > 0 := by
      have hPos := i.bytes_ne_nil
      rw [← hb.remaining_length, hr, List.length_append]
      omega
    have hItem := reads_getItemFromBuffer repair (h i List.mem_cons_self) b _ hb hr
    obtain ⟨hb', hr'⟩ := hb.advance hr
    obtain ⟨b', hRest, hEnd⟩ := ih (fun i hi => h i (List.mem_cons_of_mem _ hi)) hb' hr'
    refine ⟨b', ?_, hEnd⟩
    rw [List.length_cons, getItems, if_pos hMore]
    simp only [hItem, hRest, Option.map_some]

/-- The loop of `SSIListTask` gets as many items as it has been told, from
counter `n` on. -/
theorem getListedItems_items {toLower : String → String} (repair : List UInt8 → String)
    {items : List OContact} (h : ∀ i ∈ items, i.Encodable toLower) {ssiItems n : Nat}
    (hCount : n + items.length = ssiItems + 1) (hWord : ssiItems + 1 < 2 ^ 16) {b : Buffer}
    {r : List UInt8} (hb : Ready b) (hr : b.remaining = items.flatMap OContact.bytes ++ r) :
    ∃ b', getListedItems toLower repair ssiItems (items.length + 1) n b = some (items, b') := by
  induction items generalizing b n with
  | nil =>
    rw [List.length_nil] at hCount
    exact ⟨b, by rw [getListedItems, if_neg (by omega)]⟩
  | cons i items ih =>
    rw [List.length_cons] at hCount
    rw [List.flatMap_cons, List.append_assoc] at hr
    have hItem := reads_getItemFromBuffer repair (h i List.mem_cons_self) b _ hb hr
    obtain ⟨hb', hr'⟩ := hb.advance hr
    have hNext : (n + 1) % 2 ^ 16 = n + 1 := Nat.mod_eq_of_lt (by omega)
    obtain ⟨b', hRest⟩ := ih (fun i hi => h i (List.mem_cons_of_mem _ hi))
      (n := n + 1) (by omega) hb' hr'
    refine ⟨b', ?_⟩
    rw [List.length_cons, getListedItems, if_pos (by omega)]
    simp only [hItem, hNext, hRest, Option.map_some]

/-- With the largest count the counter never gets past it. -/
theorem getListedItems_endless (toLower : String → String) (repair : List UInt8 → String)
    (fuel : Nat) {n : Nat} (hn : n < 2 ^ 16) (b : Buffer) :
    getListedItems toLower repair 65535 fuel n b = none := by
  induction fuel generalizing n b with
  | zero => rfl
  | succ fuel ih =>
    rw [getListedItems, if_pos (by omega)]
    simp only [ih (Nat.mod_lt _ (by decide)), Option.map_none]

/-- The packet of an `SSIListTask`: version, number of items, items, and what
follows them. -/
def listReply (version : UInt8) (items : List OContact) (bytes rest : List UInt8) : List UInt8 :=
  [version] ++ (beBytes 2 items.length ++ (bytes ++ rest))

/-- Both decoders make the items of their encodings `bytes`: `handleContactAdd`
of a packet of any number of them, `SSIListTask` of one whose count it can pass. -/
structure ReadBack (toLower : String → String) (repair : List UInt8 → String)
    (items : List OContact) (bytes : List UInt8) : Prop where
  modify : ∃ fuel b, getItems toLower repair fuel (ofBytes bytes) = some (items, b) ∧
    b.bytesAvailable = 0
  list : items.length < 65535 → ∀ version rest, ∃ fuel lastModified,
    handleContactListReply toLower repair fuel (ofBytes (listReply version items bytes rest)) =
      some (items, lastModified)

theorem readBack_bytes {toLower : String → String} (repair : List UInt8 → String)
    {items : List OContact} (h : ∀ i ∈ items, i.Encodable toLower) :
    ReadBack toLower repair items (items.flatMap OContact.bytes) where
  modify := by
    obtain ⟨b, hItems, hEnd⟩ := getItems_items repair h (ready_ofBytes _) (remaining_ofBytes _)
    exact ⟨_, b, hItems, hEnd⟩
  list := by
    intro hCount version rest
    set data := listReply version items (items.flatMap OContact.bytes) rest with hData
    have hb := ready_ofBytes data
    have hr := remaining_ofBytes data
    rw [hData, listReply] at hr
    have hVersion := reads_getByte version _ _ hb hr
    obtain ⟨hb, hr⟩ := hb.advance hr
    have hNumber := reads_getWord (n := items.length) (by omega) _ _ hb hr
    obtain ⟨hb, hr⟩ := hb.advance hr
    obtain ⟨b, hItems⟩ := getListedItems_items repair h (n := 1) (Nat.add_comm ..) (by omega) hb hr
    refine ⟨items.length + 1, if b.bytesAvailable > 0 then some b.getDWord.1 else none, ?_⟩
    simp only [handleContactListReply, hVersion, hNumber, hItems, Option.map_some]

theorem foldl_addItemToBuffer {toLower : String → String} {items : List OContact}
    (h : ∀ i ∈ items, i.Encodable toLower) (b : Buffer) :
    items.foldl (fun b i => addItemToBuffer i b) b = b.addString (items.flatMap OContact.bytes) := by
  induction items generalizing b with
  | nil => exact (addString_nil b).symm
  | cons i items ih =>
    rw [List.foldl_cons, addItemToBuffer_eq (h i List.mem_cons_self),
      ih (fun i hi => h i (List.mem_cons_of_mem _ hi)), addString_addString, List.flatMap_cons]

/--
**Items on the wire.** Any list of encodable items, concatenated by either
encoder, is read back item by item: to the end of the packet by `handleContactAdd`,
and by `SSIListTask` if there are fewer than 65535 of them.
-/
theorem readBack_items (toLower : String → String) (repair : List UInt8 → String)
    (items : List OContact) (h : ∀ i ∈ items, i.Encodable toLower) :
    ReadBack toLower repair items (items.flatMap OContact.toByteArray) ∧
      ReadBack toLower repair items
        (items.foldl (fun b i => addItemToBuffer i b) empty).mBuffer := by
  rw [show OContact.toByteArray = OContact.bytes from funext toByteArray_eq,
    foldl_addItemToBuffer h]
  exact ⟨readBack_bytes repair h, readBack_bytes repair h⟩

/-- A group with one member. -/
theorem readBack_group :
    ReadBack id (fun _ => "") [⟨"", 1, 0, ROSTER_GROUP, [⟨0x00C8, 2, [0, 1]⟩]⟩]
        ([⟨"", 1, 0, ROSTER_GROUP, [⟨0x00C8, 2, [0, 1]⟩]⟩].flatMap OContact.toByteArray) ∧
      ReadBack id (fun _ => "") [⟨"", 1, 0, ROSTER_GROUP, [⟨0x00C8, 2, [0, 1]⟩]⟩]
        ([⟨"", 1, 0, ROSTER_GROUP, [⟨0x00C8, 2, [0, 1]⟩]⟩].foldl
          (fun b i => addItemToBuffer i b) empty).mBuffer := by
  refine readBack_items id _ _ fun i hi => ?_
  rw [List.mem_singleton.mp hi]
  exact ⟨by decide, by decide, by decide, by decide, by decide, by decide, by decide⟩

/-- 65535 empty groups: the counter of `SSIListTask` wraps, and the loop goes on
behind the end of the packet. -/
theorem listReply_endless :
    ¬ ∀ items : List OContact, (∀ i ∈ items, i.Encodable id) → ∀ version rest,
      ∃ fuel lastModified, handleContactListReply id (fun _ => "") fuel
        (ofBytes (listReply version items (items.flatMap OContact.toByteArray) rest)) =
          some (items, lastModified) := by
  intro h
  obtain ⟨items, hCount, hEncodable⟩ : ∃ items : List OContact, items.length = 65535 ∧
      ∀ i ∈ items, i.Encodable id := by
    refine ⟨List.replicate 65535 ⟨"", 0, 0, ROSTER_GROUP, []⟩, List.length_replicate, ?_⟩
    intro i hi
    rw [List.eq_of_mem_replicate hi]
    exact ⟨by decide, by decide, by decide, by decide, by decide, by decide, by decide⟩
  obtain ⟨fuel, lastModified, hReply⟩ := h items hEncodable 0 []
  set data := listReply 0 items (items.flatMap OContact.toByteArray) [] with hData
  have hb := ready_ofBytes data
  have hr := remaining_ofBytes data
  replace hr : (ofBytes data).remaining =
      [0] ++ (beBytes 2 65535 ++ (items.flatMap OContact.toByteArray ++ [])) := by
    rw [hr, hData, listReply, hCount]
  have hVersion := reads_getByte 0 _ _ hb hr
  obtain ⟨hb, hr⟩ := hb.advance hr
  have hNumber := reads_getWord (n := 65535) (by decide) _ _ hb hr
  simp only [handleContactListReply, hVersion, hNumber,
    getListedItems_endless id _ fuel (show 1 < 2 ^ 16 by decide), Option.map_none] at hReply
  cases hReply

end Oscar
