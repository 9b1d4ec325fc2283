import Kopete.Oscar.BufferWrite

/-!
# Oscar — channel 2 messages

`SendMessageTask::addRendezvousMessageData` writes a message into the TLV 0x2711
of a request, or behind the reason code of an automatic response;
`MessageReceiverTask::parseRendezvousData` reads it. Two segments of fixed
length come first, then the text, then what belongs to the type of the message:
the blocks of a plugin, or two colors. A message in UTF-8 says so with a
capability at the very end, and behind a plugin nobody reads it.

`rx` stands for the regular expression of chat invitations: what it finds in a
join string, the exchange and the name of the room.

Main results:

* `parseRendezvousData_add` — both segments are read back, up to the text;
* `recovers_iff` — when the message that is read is the one that was written.
-/

namespace Oscar

open DataStream Buffer

/-! ## Messages -/

/-- `MessagePlugin::Types`. -/
inductive MessagePlugin.Types where
  | Unknown | Message | StatusMsgExt | File | WebUrl | Contacts | GreetingCard | Chat | XtrazScript
deriving DecidableEq, Repr

/-- `MessagePlugin`. -/
structure MessagePlugin where
  type : MessagePlugin.Types
  subType : UInt16
  subTypeText : List UInt8
  data : List UInt8
deriving DecidableEq, Repr

namespace MessagePlugin

def GUID_UNKNOWN : List UInt8 := List.replicate 16 0

def GUID_MESSAGE : List UInt8 :=
  [0xBE, 0x6B, 0x73, 0x05, 0x0F, 0xC2, 0x10, 0x4F, 0xA6, 0xDE, 0x4D, 0xB1, 0xE3, 0x56, 0x4B, 0x0E]

def GUID_STATUSMSGEXT : List UInt8 :=
  [0x81, 0x1A, 0x18, 0xBC, 0x0E, 0x6C, 0x18, 0x47, 0xA5, 0x91, 0x6F, 0x18, 0xDC, 0xC7, 0x6F, 0x1A]

def GUID_FILE : List UInt8 :=
  [0xF0, 0x2D, 0x12, 0xD9, 0x30, 0x91, 0xD3, 0x11, 0x8D, 0xD7, 0x00, 0x10, 0x4B, 0x06, 0x46, 0x2E]

def GUID_WEBURL : List UInt8 :=
  [0x37, 0x1C, 0x58, 0x72, 0xE9, 0x87, 0xD4, 0x11, 0xA4, 0xC1, 0x00, 0xD0, 0xB7, 0x59, 0xB1, 0xD9]

def GUID_CONTACTS : List UInt8 :=
  [0x2A, 0x0E, 0x7D, 0x46, 0x76, 0x76, 0xD4, 0x11, 0xBC, 0xE6, 0x00, 0x04, 0xAC, 0x96, 0x1E, 0xA6]

def GUID_GREETINGCARD : List UInt8 :=
  [0x01, 0xE5, 0x3B, 0x48, 0x2A, 0xE4, 0xD1, 0x11, 0xB6, 0x79, 0x00, 0x60, 0x97, 0xE1, 0xE2, 0x94]

def GUID_CHAT : List UInt8 :=
  [0xBF, 0xF7, 0x20, 0xB2, 0x37, 0x8E, 0xD4, 0x11, 0xBD, 0x28, 0x00, 0x04, 0xAC, 0x96, 0xD9, 0x05]

def GUID_XTRAZSCRIPT : List UInt8 :=
  [0x3B, 0x60, 0xB3, 0xEF, 0xD8, 0x2A, 0x6C, 0x45, 0xA4, 0xE0, 0x9C, 0x5A, 0x5E, 0x67, 0xE8, 0x65]

/-- `guid`. -/
def guid : Types → List UInt8
  | .Message => GUID_MESSAGE
  | .StatusMsgExt => GUID_STATUSMSGEXT
  | .File => GUID_FILE
  | .WebUrl => GUID_WEBURL
  | .Contacts => GUID_CONTACTS
  | .GreetingCard => GUID_GREETINGCARD
  | .Chat => GUID_CHAT
  | .XtrazScript => GUID_XTRAZSCRIPT
  | .Unknown => GUID_UNKNOWN

/-- `setType( Guid )`: the type a GUID stands for. -/
def typeOf (guid : List UInt8) : Types :=
  if guid = GUID_MESSAGE then .Message
  else if guid = GUID_STATUSMSGEXT then .StatusMsgExt
  else if guid = GUID_FILE then .File
  else if guid = GUID_WEBURL then .WebUrl
  else if guid = GUID_CONTACTS then .Contacts
  else if guid = GUID_GREETINGCARD then .GreetingCard
  else if guid = GUID_CHAT then .Chat
  else if guid = GUID_XTRAZSCRIPT then .XtrazScript
  else .Unknown

theorem guid_length (type : Types) : (guid type).length = 16 := by
  cases type <;> rfl

theorem typeOf_guid (type : Types) : typeOf (guid type) = type := by
  cases type <;> decide

end MessagePlugin

namespace MessageType

def Unknown : Int := 0x00

def Plain : Int := 0x01

def Chat : Int := 0x02

def Plugin : Int := 0x1A

end MessageType

/-- `Message::Encoding`. -/
inductive Message.Encoding where
  | UserDefined | ASCII | LATIN1 | UTF8 | UCS2
deriving DecidableEq, Repr

/-- `Message`, without what belongs to file transfers. -/
structure Message where
  sender : String
  receiver : String
  channel : Int
  properties : Nat
  messageType : Int
  protocolVersion : Int
  channel2Counter : Int
  icbmCookie : List UInt8
  textArray : List UInt8
  exchange : Nat
  chatRoom : String
  encoding : Message.Encoding
  plugin : Option MessagePlugin
deriving DecidableEq, Repr

namespace Message

/-- `Message()`. -/
def new : Message := ⟨"", "", -1, 0, 0, 0, 0, [], [], 0, "", .UserDefined, none⟩

def AutoResponse : Nat := 0x0001

def Request : Nat := 0x0100

def StatusMessageRequest : Nat := 0x0200

/-- `hasProperty`. -/
def hasProperty (m : Message) (prop : Nat) : Bool := m.properties &&& prop != 0

/-- `addProperty`. -/
def addProperty (m : Message) (prop : Nat) : Message := { m with properties := m.properties ||| prop }

end Message

/-- The conversion of an `int` to `BYTE`. -/
def toByte (i : Int) : UInt8 := UInt8.ofNat (i % 2 ^ 8).toNat

/-- The conversion of an `int` to `WORD`. -/
def toWord (i : Int) : Nat := (i % 2 ^ 16).toNat

/-- The capability that stands for UTF-8, a string of 38 characters. -/
def utf8Capability : List UInt8 :=
  "\x7b0946134E-4C7F-11D1-8222-444553540000\x7d".toList.map fun c => UInt8.ofNat c.toNat

/-! ## The sender -/

/-- `SendMessageTask`, as far as the message is concerned. -/
structure SendMessageTask where
  m_message : Message
  m_cookieCount : UInt32
deriving DecidableEq, Repr

namespace SendMessageTask

def ICQ_TCP_VERSION : Nat := 9

/-- The channel 2 counter: the one of the request in an automatic response. -/
def channel2Counter (t : SendMessageTask) : Int :=
  if t.m_message.hasProperty Message.AutoResponse then t.m_message.channel2Counter
  else (t.m_cookieCount &&& 0x7FFF).toNat

/-- `addPluginData`. -/
def addPluginData (t : SendMessageTask) (b : Buffer) : Buffer :=
  match t.m_message.plugin with
  | none => b
  | some plugin =>
    let headerBuffer := empty.addString (MessagePlugin.guid plugin.type)
    let headerBuffer := headerBuffer.addLEWord plugin.subType.toNat
    let headerBuffer := headerBuffer.addLEDBlock plugin.subTypeText
    -- unknown
    let headerBuffer := ((headerBuffer.addDWord 0x00000100).addDWord 0).addDWord 0
    let headerBuffer := (headerBuffer.addWord 0).addByte 0
    (b.addLEBlock headerBuffer.mBuffer).addLEDBlock plugin.data

/-- `addRendezvousMessageData`. -/
def addRendezvousMessageData (t : SendMessageTask) (b : Buffer) : Buffer × SendMessageTask :=
  let m := t.m_message
  -- first data segment
  let b := (b.addLEWord 0x001B).addLEWord ICQ_TCP_VERSION
  let b := b.addString (List.replicate 16 0)
  let b := ((b.addWord 0).addLEDWord 3).addByte 0
  let channel2Counter := t.channel2Counter
  let m_cookieCount :=
    if m.hasProperty Message.AutoResponse then t.m_cookieCount else t.m_cookieCount - 1
  let b := b.addLEWord (toWord channel2Counter)
  -- second data segment
  let b := (b.addLEWord 0x000E).addLEWord (toWord channel2Counter)
  let b := b.addString (List.replicate 12 0)
  -- actual message data segment
  let b := b.addByte (toByte (if m.messageType = MessageType.Unknown then MessageType.Plain
    else m.messageType))
  let messageFlags := if m.hasProperty Message.StatusMessageRequest then 0x03 else 0x00
  let b := b.addByte messageFlags
  let status := if m.hasProperty Message.StatusMessageRequest ∧ ¬ m.hasProperty Message.AutoResponse
    then 1 else 0
  let b := (b.addLEWord status).addLEWord status
  let b := ((b.addLEWord (m.textArray.length + 1)).addString m.textArray).addByte 0
  let b := if m.messageType = MessageType.Plugin then t.addPluginData b
    else (b.addLEDWord 0x00000000).addLEDWord 0x00FFFFFF
  let b := if m.encoding = .UTF8 then (b.addLEDWord 38).addString utf8Capability else b
  (b, { t with m_cookieCount := m_cookieCount })

end SendMessageTask

/-! ## The receiver -/

/-- `MessageReceiverTask`, and the user id of its client. -/
structure MessageReceiverTask where
  m_fromUser : String
  userId : String
  m_icbmCookie : List UInt8
deriving DecidableEq, Repr

/-- `qstrncmp( s, t, len ) == 0`. Both strings end with a NUL. -/
def qstrncmpEq : Nat → List UInt8 → List UInt8 → Bool
  | 0, _, _ => true
  | len + 1, s, t => s.headD 0 = t.headD 0 ∧ (s.headD 0 = 0 ∨ qstrncmpEq len s.tail t.tail)

namespace MessageReceiverTask

/-- The capabilities at the end of a message that is no plugin. -/
def getCapabilities (b : Buffer) (encoding : Message.Encoding) : Message.Encoding :=
  if b.bytesAvailable ≥ 4 then
    let capLength := b.getLEDWord.1
    let rest := b.getLEDWord.2
    if rest.bytesAvailable < asInt capLength then encoding
    else
      let cap := (rest.getBlock capLength).1
      getCapabilities (rest.getBlock capLength).2
        (if qstrncmpEq capLength cap utf8Capability then .UTF8 else encoding)
  else encoding
termination_by b.bytesAvailable.toNat
decreasing_by
  have hHead := getLEDWord_bytesAvailable (b := b) (by omega)
  have hBlock := getBytes_bytesAvailable_le
    (min b.getLEDWord.1 (toDWord b.getLEDWord.2.bytesAvailable)) b.getLEDWord.2
  simp only [getBlock]
  omega

/-- The encoding of a message that is no plugin. The colors are for nothing. -/
def getEncoding (b : Buffer) : Message.Encoding :=
  if b.bytesAvailable ≥ 8 then
    let (_, b) := b.getLEDWord
    let (_, b) := b.getLEDWord
    getCapabilities b .UserDefined
  else .UserDefined

/-- The plugin of a message: its GUID, its subtype and the text of the subtype
come from the header block. -/
def getPlugin (b : Buffer) : MessagePlugin :=
  let header := b.getLEBlock
  let pluginGuid := (ofBytes header.1).getGuid
  let subTypeId := pluginGuid.2.getLEWord
  let subTypeText := subTypeId.2.getLEDBlock
  let data := if header.2.bytesAvailable ≥ 4 then header.2.getLEDBlock.1 else []
  ⟨MessagePlugin.typeOf pluginGuid.1, UInt16.ofNat subTypeId.1, subTypeText.1, data⟩

/-- The real message, from its text on. -/
def parseMessage (t : MessageReceiverTask) (protocolVersion channel2Counter : Nat)
    (messageType : UInt8) (b : Buffer) (msg : Message) : Message :=
  let (msgText, b) := b.getLEBlock
  let msgText := if msgText.getLast? = some 0 then msgText.dropLast else msgText
  let isPlugin := (messageType.toNat : Int) = MessageType.Plugin
  let encoding := if isPlugin then .UserDefined else getEncoding b
  let plugin := if isPlugin then some (getPlugin b) else msg.plugin
  let msg := msg.addProperty
    (if messageType &&& 0xF0 = 0xE0 then Message.StatusMessageRequest else Message.Request)
  { msg with
    encoding := encoding
    textArray := msgText
    plugin := plugin
    sender := t.m_fromUser
    receiver := t.userId
    channel := 0x02
    icbmCookie := t.m_icbmCookie
    protocolVersion := protocolVersion
    channel2Counter := channel2Counter
    messageType := messageType.toNat }

/-- `parseRendezvousData`. -/
def parseRendezvousData (rx : List UInt8 → Option (Nat × String)) (t : MessageReceiverTask)
    (b : Buffer) (msg : Message) : Message :=
  if msg.messageType = MessageType.Chat then
    let b := b.skipBytes 4
    match rx (getBlock (toDWord (b.size - 4)) b).1 with
    | some (exchange, chatroom) => { msg with exchange := exchange, chatRoom := chatroom }
    | none => msg
  else
    let (length1, b) := b.getLEWord
    if length1 ≠ 0x001B then msg
    else
      let (protocolVersion, b) := b.getLEWord
      let b := (((b.skipBytes 16).skipBytes 2).skipBytes 4).skipBytes 1
      let (channel2Counter, b) := b.getLEWord
      let (length2, b) := b.getLEWord
      if length2 = 0x000E then
        let b := b.skipBytes 14
        let (messageType, b) := b.getByte
        let b := b.skipBytes 5
        t.parseMessage protocolVersion channel2Counter messageType b msg
      else msg

end MessageReceiverTask

/-! ## The bytes of a message -/

/-- The header block of a plugin. -/
def MessagePlugin.headerBytes (p : MessagePlugin) : List UInt8 :=
  guid p.type ++ (leBytes 2 p.subType.toNat ++ ((leBytes 4 p.subTypeText.length ++ p.subTypeText) ++
    (beBytes 4 0x00000100 ++ (beBytes 4 0 ++ (beBytes 4 0 ++ (beBytes 2 0 ++ [0]))))))

/-- The blocks of a plugin. -/
def MessagePlugin.bytes (p : MessagePlugin) : List UInt8 :=
  (leBytes 2 p.headerBytes.length ++ p.headerBytes) ++ (leBytes 4 p.data.length ++ p.data)

/-- What follows the text. -/
def Message.tailBytes (m : Message) : List UInt8 :=
  (if m.messageType = MessageType.Plugin then (m.plugin.map MessagePlugin.bytes).getD []
    else leBytes 4 0x00000000 ++ leBytes 4 0x00FFFFFF) ++
  (if m.encoding = .UTF8 then leBytes 4 38 ++ utf8Capability else [])

/-- The text and what follows it. -/
def Message.dataBytes (m : Message) : List UInt8 :=
  leBytes 2 (m.textArray.length + 1) ++ (m.textArray ++ ([0] ++ m.tailBytes))

namespace SendMessageTask

/-- The type that is sent. -/
def typeByte (t : SendMessageTask) : UInt8 :=
  toByte (if t.m_message.messageType = MessageType.Unknown then MessageType.Plain
    else t.m_message.messageType)

/-- Flags, status and priority. -/
def flagBytes (t : SendMessageTask) : List UInt8 :=
  let m := t.m_message
  let status := if m.hasProperty Message.StatusMessageRequest ∧ ¬ m.hasProperty Message.AutoResponse
    then 1 else 0
  [if m.hasProperty Message.StatusMessageRequest then 0x03 else 0x00] ++
    (leBytes 2 status ++ leBytes 2 status)

/-- Everything in front of the text. -/
def segmentBytes (t : SendMessageTask) : List UInt8 :=
  leBytes 2 0x001B ++ (leBytes 2 ICQ_TCP_VERSION ++ (List.replicate 16 0 ++ (beBytes 2 0 ++
    (leBytes 4 3 ++ ([0] ++ (leBytes 2 (toWord t.channel2Counter) ++ (leBytes 2 0x000E ++
      ((leBytes 2 (toWord t.channel2Counter) ++ List.replicate 12 0) ++
        ([t.typeByte] ++ t.flagBytes)))))))))

theorem addPluginData_eq (t : SendMessageTask) (b : Buffer) :
    t.addPluginData b =
      b.addString ((t.m_message.plugin.map MessagePlugin.bytes).getD []) := by
  unfold addPluginData
  cases t.m_message.plugin with
  | none => exact (addString_nil b).symm
  | some p =>
    simp only [addLEWord_eq, addLEDBlock_eq, addDWord_eq, addWord_eq, addByte_eq, addLEBlock_eq,
      addString_addString, addString_mBuffer, Option.map_some, Option.getD_some,
      MessagePlugin.bytes, MessagePlugin.headerBytes, List.append_assoc]
    rfl

theorem addRendezvousMessageData_eq (t : SendMessageTask) (b : Buffer) :
    (t.addRendezvousMessageData b).1 = b.addString (t.segmentBytes ++ t.m_message.dataBytes) := by
  have hTail (b : Buffer) : (if t.m_message.messageType = MessageType.Plugin then t.addPluginData b
      else (b.addLEDWord 0x00000000).addLEDWord 0x00FFFFFF) =
        b.addString (if t.m_message.messageType = MessageType.Plugin
          then (t.m_message.plugin.map MessagePlugin.bytes).getD []
          else leBytes 4 0x00000000 ++ leBytes 4 0x00FFFFFF) := by
    split
    · rw [addPluginData_eq]
    · rw [addLEDWord_eq, addLEDWord_eq, addString_addString]
  have hCapability (b : Buffer) : (if t.m_message.encoding = .UTF8
      then (b.addLEDWord 38).addString utf8Capability else b) =
        b.addString (if t.m_message.encoding = .UTF8 then leBytes 4 38 ++ utf8Capability else []) := by
    split
    · rw [addLEDWord_eq, addString_addString]
    · rw [addString_nil]
  simp only [addRendezvousMessageData, hTail, hCapability]
  simp only [addLEWord_eq, addLEDWord_eq, addWord_eq, addByte_eq, addString_addString,
    segmentBytes, typeByte, flagBytes, Message.dataBytes, Message.tailBytes, List.append_assoc]

end SendMessageTask

/-! ## Both segments -/

theorem skipBytes_front {b : Buffer} (hb : b.Ready) {w r : List UInt8} (hr : b.remaining = w ++ r)
    (h : w ≠ []) : b.skipBytes w.length = b.advance w.length :=
  congrArg Prod.snd (reads_skipBytes w h b r hb hr)

theorem toWord_lt (i : Int) : toWord i < 2 ^ 16 := by
  unfold toWord
  omega

theorem parseRendezvousData_add (rx : List UInt8 → Option (Nat × String)) (t : SendMessageTask)
    (u : MessageReceiverTask) {msg : Message} (hChat : msg.messageType ≠ MessageType.Chat)
    {b : Buffer} (hb : b.Ready) {r : List UInt8} (hr : b.remaining = t.segmentBytes ++ r) :
    ∃ b', b'.Ready ∧ b'.remaining = r ∧
      u.parseRendezvousData rx b msg = u.parseMessage SendMessageTask.ICQ_TCP_VERSION
        (toWord t.channel2Counter) t.typeByte b' msg := by
  simp only [SendMessageTask.segmentBytes, List.append_assoc] at hr
  have hLength1 := reads_getLEWord (n := 0x001B) (by decide) _ _ hb hr
  obtain ⟨hb, hr⟩ := hb.advance hr
  have hVersion := reads_getLEWord (n := SendMessageTask.ICQ_TCP_VERSION) (by decide) _ _ hb hr
  obtain ⟨hb, hr⟩ := hb.advance hr
  have hPlugin := skipBytes_front hb hr (by decide)
  obtain ⟨hb, hr⟩ := hb.advance hr
  have hUnknown := skipBytes_front hb hr (by decide)
  obtain ⟨hb, hr⟩ := hb.advance hr
  have hCapabilities := skipBytes_front hb hr (by decide)
  obtain ⟨hb, hr⟩ := hb.advance hr
  have hZero := skipBytes_front hb hr (by decide)
  obtain ⟨hb, hr⟩ := hb.advance hr
  have hCounter := reads_getLEWord (toWord_lt _) _ _ hb hr
  obtain ⟨hb, hr⟩ := hb.advance hr
  have hLength2 := reads_getLEWord (n := 0x000E) (by decide) _ _ hb hr
  obtain ⟨hb, hr⟩ := hb.advance hr
  rw [← List.append_assoc] at hr
  have hCookie := skipBytes_front hb hr (List.append_ne_nil_of_right_ne_nil _ (by decide))
  obtain ⟨hb, hr⟩ := hb.advance hr
  have hType := reads_getByte t.typeByte _ _ hb hr
  obtain ⟨hb, hr⟩ := hb.advance hr
  have hFlags := skipBytes_front hb hr (List.cons_ne_nil _ _)
  obtain ⟨hb, hr⟩ := hb.advance hr
  refine ⟨_, hb, hr, ?_⟩
  change Buffer.skipBytes 16 _ = _ at hPlugin
  change Buffer.skipBytes 2 _ = _ at hUnknown
  change Buffer.skipBytes 4 _ = _ at hCapabilities
  change Buffer.skipBytes 1 _ = _ at hZero
  change Buffer.skipBytes 14 _ = _ at hCookie
  change Buffer.skipBytes 5 _ = _ at hFlags
  simp only [MessageReceiverTask.parseRendezvousData, if_neg hChat, hLength1, hVersion, hPlugin,
    hUnknown, hCapabilities, hZero, hCounter, hLength2, hCookie, hType, hFlags, ne_eq,
    not_true_eq_false, if_false, if_true]

/-! ## The text -/

theorem chop_nul (text : List UInt8) :
    (if (text ++ [0]).getLast? = some 0 then (text ++ [0]).dropLast else text ++ [0]) = text := by
  rw [List.getLast?_concat, if_pos rfl, List.dropLast_concat]

theorem getLEBlock_text {text : List UInt8} (h : text.length + 1 < 2 ^ 16) {b : Buffer}
    (hb : b.Ready) {r : List UInt8}
    (hr : b.remaining = leBytes 2 (text.length + 1) ++ (text ++ ([0] ++ r))) :
    b.getLEBlock.1 = text ++ [0] ∧ b.getLEBlock.2.Ready ∧ b.getLEBlock.2.remaining = r := by
  have hLength : (text ++ [0]).length = text.length + 1 := List.length_append
  have hText := reads_getLEBlock (s := text ++ [0]) (by omega)
  rw [hLength] at hText
  rw [← List.append_assoc text, ← List.append_assoc] at hr
  rw [hText b r hb hr]
  exact ⟨rfl, hb.advance hr⟩

/-- A text whose length is no `WORD` is cut. -/
theorem getLEBlock_text_cut {text : List UInt8} (h : ¬ text.length + 1 < 2 ^ 16) {b : Buffer}
    (hb : b.Ready) {r : List UInt8}
    (hr : b.remaining = leBytes 2 (text.length + 1) ++ r) :
    b.getLEBlock.1.length < text.length := by
  rw [← leBytes_two_mod] at hr
  have hCount := reads_getLEWord (n := (text.length + 1) % 2 ^ 16) (by omega) b r hb hr
  simp only [getLEBlock, hCount]
  refine Nat.lt_of_le_of_lt (length_getBlock_le _ _) ?_
  omega

/-! ## Plugins -/

theorem MessagePlugin.length_headerBytes (p : MessagePlugin) :
    p.headerBytes.length = p.subTypeText.length + 37 := by
  simp only [headerBytes, List.length_append, guid_length, length_leBytes, length_beBytes,
    List.length_singleton]
  omega

theorem length_getLEDBlock_le {b : Buffer} (h : 0 ≤ b.mReadPos) :
    b.getLEDBlock.1.length ≤ b.mBuffer.length := by
  by_cases hEnd : b.mReadPos < b.size
  · have hPos : 0 < b.bytesAvailable := by
      unfold bytesAvailable
      omega
    have hLeft : 0 ≤ b.getLEDWord.2.bytesAvailable ∧
        b.getLEDWord.2.bytesAvailable ≤ b.bytesAvailable := by
      simp only [getLEDWord, getLEWord, getLEByte, getByte_bytesAvailable]
      omega
    simp only [getLEDBlock, getBlock, length_getBytes]
    refine (Nat.min_le_right _ _).trans ?_
    unfold toDWord
    unfold bytesAvailable at hLeft ⊢
    split <;> simp only [size] at * <;> omega
  · simp only [getLEDBlock, getLEDWord, getLEWord, getLEByte, getByte, if_neg hEnd]
    exact (length_getBlock_le _ _).trans (Nat.zero_le _)

open MessagePlugin in
theorem getPlugin_bytes {p : MessagePlugin} (h : p.subTypeText.length < 65499)
    (hData : p.data.length < 2 ^ 32) {b : Buffer} (hb : b.Ready) {r : List UInt8}
    (hr : b.remaining = p.bytes ++ r) : MessageReceiverTask.getPlugin b = p := by
  have hSize : p.headerBytes.length < 2 ^ 16 := by
    rw [length_headerBytes]
    omega
  rw [bytes, List.append_assoc] at hr
  have hHeader := reads_getLEBlock hSize b _ hb hr
  obtain ⟨hb, hr⟩ := hb.advance hr
  have hMore : (b.advance (leBytes 2 p.headerBytes.length ++
      p.headerBytes).length).bytesAvailable ≥ 4 := by
    rw [← hb.remaining_length, hr]
    simp only [List.length_append, length_leBytes]
    omega
  have hBlock := reads_getLEDBlock hData _ _ hb hr
  have hb := ready_ofBytes p.headerBytes
  have hr := remaining_ofBytes p.headerBytes
  nth_rewrite 2 [headerBytes] at hr
  have hGuid := reads_getGuid (guid_length p.type) _ _ hb hr
  obtain ⟨hb, hr⟩ := hb.advance hr
  have hSubType := reads_getLEWord p.subType.toNat_lt _ _ hb hr
  obtain ⟨hb, hr⟩ := hb.advance hr
  have hText := reads_getLEDBlock (s := p.subTypeText) (by omega) _ _ hb hr
  simp only [MessageReceiverTask.getPlugin, hHeader, hGuid, hSubType, hText, if_pos hMore,
    hBlock, typeOf_guid, UInt16.ofNat_toNat]

theorem subTypeText_getPlugin {b : Buffer} {p : MessagePlugin}
    (h : MessageReceiverTask.getPlugin b = p) :
    p.subTypeText = (ofBytes b.getLEBlock.1).getGuid.2.getLEWord.2.getLEDBlock.1 := by
  have hFields : MessageReceiverTask.getPlugin b =
      ⟨MessagePlugin.typeOf (ofBytes b.getLEBlock.1).getGuid.1,
        UInt16.ofNat (ofBytes b.getLEBlock.1).getGuid.2.getLEWord.1,
        (ofBytes b.getLEBlock.1).getGuid.2.getLEWord.2.getLEDBlock.1,
        if b.getLEBlock.2.bytesAvailable ≥ 4 then b.getLEBlock.2.getLEDBlock.1 else []⟩ := rfl
  cases p
  rw [hFields, MessagePlugin.mk.injEq] at h
  exact h.2.2.1.symm

theorem getPlugin_cut {p : MessagePlugin} (h : ¬ p.subTypeText.length < 65499)
    {b : Buffer} (hb : b.Ready) {r : List UInt8} (hr : b.remaining = p.bytes ++ r) :
    MessageReceiverTask.getPlugin b ≠ p := by
  have hLength := p.length_headerBytes
  rw [MessagePlugin.bytes, List.append_assoc, List.append_assoc, ← leBytes_two_mod] at hr
  have hCount := reads_getLEWord (n := p.headerBytes.length % 2 ^ 16) (by omega) b _ hb hr
  have hSize : b.getLEBlock.1.length ≤ p.headerBytes.length % 2 ^ 16 := by
    simp only [getLEBlock, hCount]
    exact length_getBlock_le _ _
  have hPlace : 0 ≤ (ofBytes b.getLEBlock.1).getGuid.2.mReadPos ∧
      (ofBytes b.getLEBlock.1).getGuid.2.mBuffer = b.getLEBlock.1 :=
    ⟨by simp [getGuid, getBBlock, ofBytes], rfl⟩
  have hPlace' : 0 ≤ (ofBytes b.getLEBlock.1).getGuid.2.getLEWord.2.mReadPos ∧
      (ofBytes b.getLEBlock.1).getGuid.2.getLEWord.2.mBuffer = b.getLEBlock.1 := by
    rw [getLEWord_mBuffer]
    exact ⟨hPlace.1.trans (getLEWord_pos_le _), hPlace.2⟩
  have hText := length_getLEDBlock_le hPlace'.1
  rw [hPlace'.2] at hText
  intro hEq
  rw [← subTypeText_getPlugin hEq] at hText
  omega

/-! ## The encoding -/

theorem qstrncmpEq_self (len : Nat) (s : List UInt8) : qstrncmpEq len s s = true := by
  induction len generalizing s with
  | zero => rfl
  | succ len ih => simp [qstrncmpEq, ih]

theorem getCapabilities_end {b : Buffer} (h : b.bytesAvailable = 0) (encoding : Message.Encoding) :
    MessageReceiverTask.getCapabilities b encoding = encoding := by
  rw [MessageReceiverTask.getCapabilities, if_neg (by omega)]

theorem length_utf8Capability : utf8Capability.length = 38 := by
  decide

theorem getCapabilities_utf8 {b : Buffer} (hb : b.Ready)
    (hr : b.remaining = leBytes 4 38 ++ (utf8Capability ++ [])) (encoding : Message.Encoding) :
    MessageReceiverTask.getCapabilities b encoding = .UTF8 := by
  have hMore : b.bytesAvailable = 42 := by
    rw [← hb.remaining_length, hr, List.length_append, List.length_append, length_utf8Capability,
      length_leBytes]
    rfl
  have hLength := reads_getLEDWord (n := 38) (by decide) _ _ hb hr
  obtain ⟨hb, hr⟩ := hb.advance hr
  have hLeft := hb.remaining_length
  rw [hr, List.length_append, length_utf8Capability] at hLeft
  have hFits : asInt 38 = 38 := rfl
  have hCapability := reads_getBlock utf8Capability _ _ hb hr
  rw [length_utf8Capability] at hCapability
  obtain ⟨hb, hr⟩ := hb.advance hr
  have hEnd := hb.remaining_length
  rw [hr, length_utf8Capability] at hEnd
  rw [MessageReceiverTask.getCapabilities, if_pos (by omega)]
  simp only [hLength, hCapability]
  rw [if_neg (by rw [hFits, ← hLeft]; decide), getCapabilities_end hEnd.symm, qstrncmpEq_self,
    if_pos rfl]

theorem getEncoding_tail {m : Message} (h : m.messageType ≠ MessageType.Plugin) {b : Buffer}
    (hb : b.Ready) (hr : b.remaining = m.tailBytes) :
    MessageReceiverTask.getEncoding b = if m.encoding = .UTF8 then .UTF8 else .UserDefined := by
  rw [Message.tailBytes, if_neg h, List.append_assoc] at hr
  have hMore : b.bytesAvailable ≥ 8 := by
    rw [← hb.remaining_length, hr]
    simp only [List.length_append, length_leBytes]
    omega
  have hForeground := reads_getLEDWord (n := 0x00000000) (by decide) _ _ hb hr
  obtain ⟨hb, hr⟩ := hb.advance hr
  have hBackground := reads_getLEDWord (n := 0x00FFFFFF) (by decide) _ _ hb hr
  obtain ⟨hb, hr⟩ := hb.advance hr
  simp only [MessageReceiverTask.getEncoding, if_pos hMore, hForeground, hBackground]
  split
  · next hUtf8 =>
    rw [if_pos hUtf8] at hr
    exact getCapabilities_utf8 hb (by rw [hr, List.append_nil]) _
  · next hUtf8 =>
    rw [if_neg hUtf8] at hr
    have hEnd := hb.remaining_length
    rw [hr] at hEnd
    exact getCapabilities_end hEnd.symm _

/-! ## The message -/

/-- `r` is what the sender of a message means: its text, whether it is in UTF-8,
its type, the counter and its plugin. -/
structure Recovers (t : SendMessageTask) (r : Message) : Prop where
  textArray : r.textArray = t.m_message.textArray
  encoding : r.encoding = if t.m_message.encoding = .UTF8 then .UTF8 else .UserDefined
  messageType : r.messageType = if t.m_message.messageType = MessageType.Unknown
    then MessageType.Plain else t.m_message.messageType
  channel2Counter : r.channel2Counter = t.channel2Counter
  plugin : t.m_message.messageType = MessageType.Plugin → r.plugin = t.m_message.plugin

/-- Everything has room, and a plugin message is not in UTF-8. -/
structure Transferable (m : Message) : Prop where
  textArray : m.textArray.length ≤ 65534
  messageType : 0 ≤ m.messageType ∧ m.messageType < 2 ^ 8
  channel2Counter : m.hasProperty Message.AutoResponse →
    0 ≤ m.channel2Counter ∧ m.channel2Counter < 2 ^ 16
  encoding : m.messageType = MessageType.Plugin → m.encoding ≠ .UTF8
  subTypeText : m.messageType = MessageType.Plugin →
    ∀ p, m.plugin = some p → p.subTypeText.length < 65499

section Message

variable {t : SendMessageTask} (u : MessageReceiverTask) (msg : Message) {b : Buffer}

theorem typeByte_iff :
    (t.typeByte.toNat : Int) = (if t.m_message.messageType = MessageType.Unknown
      then MessageType.Plain else t.m_message.messageType) ↔
    0 ≤ t.m_message.messageType ∧ t.m_message.messageType < 2 ^ 8 := by
  simp only [SendMessageTask.typeByte, toByte, UInt8.toNat_ofNat']
  by_cases hUnknown : t.m_message.messageType = MessageType.Unknown
  · rw [if_pos hUnknown, hUnknown]
    decide
  · rw [if_neg hUnknown]
    omega

theorem counter_iff :
    (toWord t.channel2Counter : Int) = t.channel2Counter ↔
      (t.m_message.hasProperty Message.AutoResponse →
        0 ≤ t.m_message.channel2Counter ∧ t.m_message.channel2Counter < 2 ^ 16) := by
  unfold SendMessageTask.channel2Counter toWord
  split
  · next hAuto =>
    rw [forall_prop_of_true hAuto, Int.toNat_of_nonneg (Int.emod_nonneg _ (by decide))]
    exact ⟨fun hMod => by omega, fun hRange => by omega⟩
  · next hAuto =>
    have hMask : (t.m_cookieCount &&& 0x7FFF).toNat ≤ 0x7FFF := by
      rw [UInt32.toNat_and]
      exact Nat.and_le_right
    refine iff_of_true ?_ fun hTrue => absurd hTrue hAuto
    omega

theorem parseMessage_text_iff (n c : Nat) (type : UInt8) (hb : b.Ready)
    (hr : b.remaining = t.m_message.dataBytes) :
    (u.parseMessage n c type b msg).textArray = t.m_message.textArray ↔
      t.m_message.textArray.length ≤ 65534 := by
  rw [Message.dataBytes] at hr
  constructor
  · intro hText
    by_contra hLong
    have hCut := getLEBlock_text_cut (by omega) hb hr
    have hLength := congrArg List.length hText
    simp only [MessageReceiverTask.parseMessage] at hLength
    split at hLength
    · rw [List.length_dropLast] at hLength
      omega
    · omega
  · intro hShort
    simp only [MessageReceiverTask.parseMessage, (getLEBlock_text (by omega) hb hr).1, chop_nul]

theorem parseMessage_tail (n c : Nat) (type : UInt8) (hb : b.Ready)
    (hr : b.remaining = t.m_message.dataBytes) (hText : t.m_message.textArray.length ≤ 65534) :
    ∃ b' : Buffer, b'.Ready ∧ b'.remaining = t.m_message.tailBytes ∧
      (u.parseMessage n c type b msg).encoding = (if (type.toNat : Int) = MessageType.Plugin
        then .UserDefined else MessageReceiverTask.getEncoding b') ∧
      (u.parseMessage n c type b msg).plugin = if (type.toNat : Int) = MessageType.Plugin
        then some (MessageReceiverTask.getPlugin b') else msg.plugin := by
  obtain ⟨-, hReady, hRest⟩ := getLEBlock_text (by omega) hb hr
  exact ⟨_, hReady, hRest, rfl, rfl⟩

theorem typeByte_plugin_iff (h : 0 ≤ t.m_message.messageType ∧ t.m_message.messageType < 2 ^ 8) :
    (t.typeByte.toNat : Int) = MessageType.Plugin ↔
      t.m_message.messageType = MessageType.Plugin := by
  rw [typeByte_iff.mpr h]
  split
  · next hUnknown =>
    rw [hUnknown]
    decide
  · exact Iff.rfl

theorem tailBytes_plugin {m : Message} (h : m.messageType = MessageType.Plugin)
    {p : MessagePlugin} (hp : m.plugin = some p) : ∃ r, m.tailBytes = p.bytes ++ r := by
  rw [Message.tailBytes, if_pos h, hp]
  exact ⟨_, rfl⟩

end Message

/--
**Channel 2 messages.** The receiver of a message has what its sender meant, if
and only if everything has room and a plugin message is not in UTF-8. The bytes
may be a TLV of their own or follow the reason code of an automatic response.
-/
theorem recovers_iff (rx : List UInt8 → Option (Nat × String)) (t : SendMessageTask)
    (hPlugin : t.m_message.messageType = MessageType.Plugin → t.m_message.plugin ≠ none)
    (hData : ∀ p, t.m_message.plugin = some p → p.data.length < 2 ^ 31)
    (u : MessageReceiverTask) (msg : Message) (hChat : msg.messageType ≠ MessageType.Chat)
    (b : Buffer) (hb : b.Ready)
    (hr : b.remaining = (t.addRendezvousMessageData empty).1.mBuffer) :
    Recovers t (u.parseRendezvousData rx b msg) ↔ Transferable t.m_message := by
  rw [t.addRendezvousMessageData_eq, addString_mBuffer] at hr
  obtain ⟨b', hb', hr', hParse⟩ := parseRendezvousData_add rx t u hChat hb hr
  rw [hParse]
  have hText := parseMessage_text_iff u msg SendMessageTask.ICQ_TCP_VERSION
    (toWord t.channel2Counter) t.typeByte hb' hr'
  constructor
  · intro h
    have hLength := hText.mp h.textArray
    have hType := typeByte_iff.mp h.messageType
    obtain ⟨e, he, hTail, hEncoding, hPart⟩ := parseMessage_tail u msg
      SendMessageTask.ICQ_TCP_VERSION (toWord t.channel2Counter) t.typeByte hb' hr' hLength
    refine ⟨hLength, hType, counter_iff.mp h.channel2Counter, fun hIs hUtf8 => ?_,
      fun hIs p hp => ?_⟩
    · have hRead := h.encoding
      rw [hEncoding, if_pos ((typeByte_plugin_iff hType).mpr hIs), if_pos hUtf8] at hRead
      cases hRead
    · have hRead := h.plugin hIs
      rw [hPart, if_pos ((typeByte_plugin_iff hType).mpr hIs), hp] at hRead
      obtain ⟨r, hBytes⟩ := tailBytes_plugin hIs hp
      by_contra hLong
      exact getPlugin_cut hLong he (hTail.trans hBytes) (Option.some.inj hRead)
  · intro h
    obtain ⟨e, he, hTail, hEncoding, hPart⟩ := parseMessage_tail u msg
      SendMessageTask.ICQ_TCP_VERSION (toWord t.channel2Counter) t.typeByte hb' hr' h.textArray
    have hIs := typeByte_plugin_iff h.messageType
    refine ⟨hText.mpr h.textArray, ?_, typeByte_iff.mpr h.messageType,
      counter_iff.mpr h.channel2Counter, fun hSame => ?_⟩
    · rw [hEncoding]
      by_cases hSame : t.m_message.messageType = MessageType.Plugin
      · rw [if_pos (hIs.mpr hSame), if_neg (h.encoding hSame)]
      · rw [if_neg (mt hIs.mp hSame), getEncoding_tail hSame he hTail]
    · obtain ⟨p, hp⟩ := Option.ne_none_iff_exists'.mp (hPlugin hSame)
      obtain ⟨r, hBytes⟩ := tailBytes_plugin hSame hp
      rw [hPart, if_pos (hIs.mpr hSame), hp, getPlugin_bytes (h.subTypeText hSame p hp)
        ((hData p hp).trans (by decide)) he (hTail.trans hBytes)]

/-- A script for Xtraz, with the counter of a new task. -/
def xtrazScript : SendMessageTask :=
  ⟨{ Message.new with
      channel := 2
      messageType := MessageType.Plugin
      plugin := some ⟨.XtrazScript, 8, [0x53, 0x63], [0x3C, 0x4E, 0x3E]⟩ }, 0x7FFF⟩

theorem recovers_iff_xtrazScript :
    Recovers xtrazScript ((⟨"", "", []⟩ : MessageReceiverTask).parseRendezvousData (fun _ => none)
      (ofBytes (xtrazScript.addRendezvousMessageData empty).1.mBuffer) Message.new) := by
  refine (recovers_iff _ xtrazScript (fun _ => Option.some_ne_none _) ?_ _ _ (by decide) _
    (ready_ofBytes _) (remaining_ofBytes _)).mpr ?_
  · intro p hp
    rw [← Option.some.inj hp]
    decide
  · refine ⟨by decide, by decide, by decide, fun _ => by decide, fun _ p hp => ?_⟩
    rw [← Option.some.inj hp]
    decide

/-- The same script in UTF-8: the capability is there, and nobody looks for it. -/
theorem plugin_utf8_lost :
    ¬ ∀ t : SendMessageTask, t.m_message.channel = 2 →
      (t.m_message.messageType = MessageType.Plugin → t.m_message.plugin ≠ none) →
      t.m_message.textArray.length ≤ 65534 →
      Recovers t ((⟨"", "", []⟩ : MessageReceiverTask).parseRendezvousData (fun _ => none)
        (ofBytes (t.addRendezvousMessageData empty).1.mBuffer) Message.new) := by
  intro h
  have hEncoding := (h { xtrazScript with m_message := { xtrazScript.m_message with
    encoding := .UTF8 } } rfl (fun _ => Option.some_ne_none _) (by decide)).encoding
  revert hEncoding
  decide +kernel

end Oscar
