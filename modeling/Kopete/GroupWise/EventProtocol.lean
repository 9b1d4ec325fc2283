import Kopete.GroupWise.InputProtocol

/-!
# GroupWise — `EventProtocol`

An event is its type, the DN of its source, and what its type calls for. The
parser takes what it finds for the last item of an event: nothing behind it asks
whether there is more input. The time of receipt is left out.

Main results:

* `laid_readContents` — the items of each type of event, in order;
* `parse_overRead_iff` — an event is made from too few bytes exactly where the
  input ends inside its last item;
* `parse_outOfSync_iff` — when an attempt to parse loses the stream.
-/

namespace GroupWise

open CountedReader DataStream

/-! ## Events -/

/-! `GroupWise::Event`, as far as the parser tells the types apart. -/

namespace Event

@[match_pattern] def InvalidRecipient : Nat := 101
@[match_pattern] def UndeliverableStatus : Nat := 102
@[match_pattern] def StatusChange : Nat := 103
@[match_pattern] def ContactAdd : Nat := 104
@[match_pattern] def ConferenceClosed : Nat := 105
@[match_pattern] def ConferenceJoined : Nat := 106
@[match_pattern] def ConferenceLeft : Nat := 107
@[match_pattern] def ReceiveMessage : Nat := 108
@[match_pattern] def ReceiveFile : Nat := 109
@[match_pattern] def UserTyping : Nat := 112
@[match_pattern] def UserNotTyping : Nat := 113
@[match_pattern] def UserDisconnect : Nat := 114
@[match_pattern] def ServerDisconnect : Nat := 115
@[match_pattern] def ConferenceRename : Nat := 116
@[match_pattern] def ConferenceInvite : Nat := 117
@[match_pattern] def ConferenceInviteNotify : Nat := 118
@[match_pattern] def ConferenceReject : Nat := 119
@[match_pattern] def ReceiveAutoReply : Nat := 121
@[match_pattern] def ReceivedBroadcast : Nat := 122
@[match_pattern] def ReceivedSystemBroadcast : Nat := 123
@[match_pattern] def Stop : Nat := 133

end Event

/-- `EventTransfer`. A part that has not been set is absent from `contents`. -/
structure EventTransfer (τ : Type) where
  eventType : Nat
  source : τ
  guid : Option τ
  flags : Option Nat
  message : Option τ
  status : Option Nat
  statusText : Option τ
deriving DecidableEq, Repr

variable {τ : Type}

/-- The constructor of `EventTransfer`. -/
def EventTransfer.new (eventType : Nat) (source : τ) : EventTransfer τ :=
  ⟨eventType, source, none, none, none, none, none⟩

/-! ## Parsing -/

/-- The switch of `EventProtocol::parse`. -/
def readContents (text : Text τ) (type : Nat) (tentative : EventTransfer τ) :
    Parser (EventTransfer τ) :=
  match type with
  | Event.StatusChange => do
    let status ← readStatus
    let statusText ← readString text
    pure { tentative with status := some status, statusText := some statusText }
  | Event.ConferenceJoined | Event.ConferenceLeft => do
    let guid ← readString text
    let flags ← readFlags
    pure { tentative with guid := some guid, flags := some flags }
  | Event.UndeliverableStatus | Event.ConferenceClosed | Event.ConferenceInviteNotify
  | Event.ConferenceReject | Event.UserTyping | Event.UserNotTyping => do
    let guid ← readString text
    pure { tentative with guid := some guid }
  | Event.ReceiveAutoReply | Event.ReceiveMessage => do
    let guid ← readString text
    let flags ← readFlags
    let message ← readString text
    pure { tentative with guid := some guid, flags := some flags, message := some message }
  | Event.ConferenceInvite => do
    let guid ← readString text
    let message ← readString text
    pure { tentative with guid := some guid, message := some message }
  | Event.UserDisconnect | Event.ServerDisconnect => pure tentative
  | Event.InvalidRecipient | Event.ContactAdd | Event.ReceiveFile | Event.ConferenceRename =>
    pure tentative -- unhandled
  | Event.ReceivedBroadcast | Event.ReceivedSystemBroadcast => do
    let message ← readString text
    pure { tentative with message := some message }
  | _ => pure tentative -- unexpected event type

/-- What `EventProtocol::parse` reads behind the event type. -/
def readBody (text : Text τ) (type : Nat) : Parser (EventTransfer τ) := do
  let source ← readString text
  readContents text type (.new type (text.toLower source))

/-- `EventProtocol::parse` as a reader. -/
def readEvent (text : Text τ) : Parser (EventTransfer τ) := do
  okToProceed
  let type ← readNat 4
  if type > Event.Stop then
    failWith .OutOfSync
  else
    readBody text type

/-- `EventProtocol::parse`: the transfer with the number of bytes parsed, and
the state. -/
def EventProtocol.parse (text : Text τ) (state : EventProtocolState) (wire : List UInt8) :
    Option (EventTransfer τ × Nat) × EventProtocolState :=
  match readEvent text ⟨state, 0, wire⟩ with
  | (some tentative, p) => (some (tentative, p.count), .Success)
  | (none, p) => (none, p.state)

/-! ## Items of an event -/

/-- What follows the source of an event. -/
def contentItems (type : Nat) : List (Item UInt8) :=
  match type with
  | Event.StatusChange => [intItem 2, stringItem]
  | Event.ConferenceJoined | Event.ConferenceLeft => [stringItem, intItem 4]
  | Event.UndeliverableStatus | Event.ConferenceClosed | Event.ConferenceInviteNotify
  | Event.ConferenceReject | Event.UserTyping | Event.UserNotTyping => [stringItem]
  | Event.ReceiveAutoReply | Event.ReceiveMessage => [stringItem, intItem 4, stringItem]
  | Event.ConferenceInvite => [stringItem, stringItem]
  | Event.ReceivedBroadcast | Event.ReceivedSystemBroadcast => [stringItem]
  | _ => []

theorem laid_readContents (text : Text τ) (type : Nat) (tentative : EventTransfer τ) :
    Laid .NeedMore (contentItems type) (readContents text type tentative) := by
  have hString := reads_readString text
  unfold readContents
  split
  case h_1 => exact .item reads_readStatus fun _ => .item hString fun _ => .done _
  case h_2 | h_3 => exact .item hString fun _ => .item reads_readFlags fun _ => .done _
  case h_4 | h_5 | h_6 | h_7 | h_8 | h_9 => exact .item hString fun _ => .done _
  case h_10 | h_11 =>
    exact .item hString fun _ => .item reads_readFlags fun _ => .item hString fun _ => .done _
  case h_12 => exact .item hString fun _ => .item hString fun _ => .done _
  case h_13 | h_14 | h_15 | h_16 | h_17 | h_18 => exact .done _
  case h_19 | h_20 => exact .item hString fun _ => .done _
  case h_21 =>
    have hNone : contentItems type = [] := by
      unfold contentItems
      split <;> first | rfl | contradiction
    rw [hNone]
    exact .done _

/-- What follows the type of an event. -/
def bodyItems (type : Nat) : List (Item UInt8) := stringItem :: contentItems type

theorem laid_readBody (text : Text τ) (type : Nat) :
    Laid .NeedMore (bodyItems type) (readBody text type) :=
  .item (reads_readString text) fun _ => laid_readContents text type _

/-! ## Results of `parse` -/

/-- The type at the front of the wire; `0` if it is not all there. -/
def eventType (wire : List UInt8) : Nat := (readInt leNat 4 wire).1

/-- The wire ends inside the last item of the event at its front. -/
def EndsInEvent (wire : List UInt8) : Prop :=
  eventType wire ≤ Event.Stop ∧ EndsInLast (bodyItems (eventType wire)) (wire.drop 4)

theorem readEvent_eq (text : Text τ) (state : EventProtocolState) {wire : List UInt8}
    (h : wire ≠ []) :
    readEvent text ⟨state, 0, wire⟩ =
      if eventType wire > Event.Stop then (none, ⟨.OutOfSync, 4, wire.drop 4⟩)
      else readBody text (eventType wire) ⟨state, 4, wire.drop 4⟩ := by
  rw [readEvent, bind_some (okToProceed_cons (p := ⟨state, 0, wire⟩) h)]
  rw [bind_some (show readNat 4 ⟨state, 0, wire⟩ =
    (some (eventType wire), ⟨state, 4, wire.drop 4⟩) from rfl)]
  split <;> rfl

theorem regular_readEvent (text : Text τ) : Regular (readEvent text) :=
  regular_okToProceed.bind fun _ => (regular_readNat 4).bind fun type =>
    (regular_failWith _).ite (laid_readBody text type).regular

theorem EventProtocol.parse_some {text : Text τ} {state : EventProtocolState} {wire : List UInt8}
    {t : EventTransfer τ} {n : Nat} (h : (EventProtocol.parse text state wire).1 = some (t, n)) :
    readEvent text ⟨state, 0, wire⟩ = (some t, Cursor.advance ⟨state, 0, wire⟩ n) ∧
      (EventProtocol.parse text state wire).2 = .Success := by
  unfold EventProtocol.parse at h ⊢
  rcases hRead : readEvent text ⟨state, 0, wire⟩ with ⟨_ | t', p⟩
  · rw [hRead] at h
    cases h
  · rw [hRead] at h
    obtain ⟨m, rfl, -⟩ := regular_readEvent text _ _ _ hRead
    obtain ⟨rfl, hn⟩ := Prod.mk.inj (Option.some.inj h)
    rw [show m = n by simpa [Cursor.advance] using hn]
    exact ⟨rfl, rfl⟩

theorem EventProtocol.parse_none {text : Text τ} {state : EventProtocolState} {wire : List UInt8}
    (h : (EventProtocol.parse text state wire).1 = none) :
    ∃ p, readEvent text ⟨state, 0, wire⟩ = (none, p) ∧
      (EventProtocol.parse text state wire).2 = p.state := by
  unfold EventProtocol.parse at h ⊢
  rcases hRead : readEvent text ⟨state, 0, wire⟩ with ⟨_ | t, p⟩
  · exact ⟨p, rfl, rfl⟩
  · rw [hRead] at h
    cases h

/-- An event takes the bytes of its type at least. -/
theorem EventProtocol.parse_progress {text : Text τ} {state : EventProtocolState} {wire : List UInt8}
    {t : EventTransfer τ} {n : Nat} (hWire : wire ≠ [])
    (h : (EventProtocol.parse text state wire).1 = some (t, n)) : 4 ≤ n := by
  obtain ⟨hRead, -⟩ := EventProtocol.parse_some h
  rw [readEvent_eq text state hWire] at hRead
  split at hRead
  · cases hRead
  · obtain ⟨m, hm, -⟩ := (laid_readBody text _).regular _ _ _ hRead
    have hcount := congrArg Cursor.count hm
    simp only [Cursor.advance] at hcount
    omega

/-- **An event that is all there** is made from the same bytes whatever follows
them, and whatever the state was. -/
theorem EventProtocol.parse_stable {text : Text τ} {state : EventProtocolState} {wire : List UInt8}
    {t : EventTransfer τ} {n : Nat} (h : (EventProtocol.parse text state wire).1 = some (t, n))
    (hn : n ≤ wire.length) (state' : EventProtocolState) (more : List UInt8) :
    EventProtocol.parse text state' (wire ++ more) = (some (t, n), .Success) := by
  obtain ⟨hRead, -⟩ := EventProtocol.parse_some h
  obtain ⟨m, hm, hSame⟩ := regular_readEvent text _ _ _ hRead
  obtain rfl : n = m := by
    have hcount := congrArg Cursor.count hm
    simpa [Cursor.advance] using hcount
  unfold EventProtocol.parse
  rw [hSame hn state' 0 more]
  simp

/-- **An event made from too few bytes.** -/
theorem EventProtocol.parse_overRead_iff (text : Text τ) (state : EventProtocolState) {wire : List UInt8}
    (hWire : wire ≠ []) :
    (∃ t n, (EventProtocol.parse text state wire).1 = some (t, n) ∧ wire.length < n) ↔
      EndsInEvent wire := by
  have hOver : (∃ t n, (EventProtocol.parse text state wire).1 = some (t, n) ∧ wire.length < n) ↔
      OverRead (readEvent text) ⟨state, 0, wire⟩ := by
    constructor
    · rintro ⟨t, n, h, hlt⟩
      exact ⟨t, _, (EventProtocol.parse_some h).1, by simpa [Cursor.advance] using hlt⟩
    · rintro ⟨t, p, h, hlt⟩
      refine ⟨t, p.count, ?_, by simpa using hlt⟩
      rw [EventProtocol.parse, h]
  rw [hOver, OverRead, readEvent_eq text state hWire, EndsInEvent]
  have hBody := (laid_readBody text (eventType wire)).overRead_iff ⟨state, 4, wire.drop 4⟩
  split
  · rename_i hType
    refine ⟨?_, fun h => absurd h.1 (not_le.mpr hType)⟩
    rintro ⟨t, p, h, -⟩
    cases h
  · rename_i hType
    rw [← hBody, and_iff_right (not_lt.mp hType), OverRead]
    by_cases hLength : 4 ≤ wire.length
    · have hSame : 4 + (wire.drop 4).length = 0 + wire.length := by
        rw [List.length_drop]
        omega
      simp only [hSame]
    · -- the type itself is cut, and nothing is left for the source
      obtain ⟨d, hd⟩ := (laid_readBody text (eventType wire)).fails_at_end
        (c := ⟨state, 4, wire.drop 4⟩) (List.drop_of_length_le (by omega))
      simp [hd]

/-- **A lost stream.** -/
theorem EventProtocol.parse_outOfSync_iff (text : Text τ) {state : EventProtocolState} {wire : List UInt8}
    (hWire : wire ≠ []) (hState : state ≠ .OutOfSync) :
    (EventProtocol.parse text state wire).2 = .OutOfSync ↔ eventType wire > Event.Stop := by
  rcases hParse : (EventProtocol.parse text state wire).1 with _ | ⟨t, n⟩
  · obtain ⟨p, hRead, hEnd⟩ := EventProtocol.parse_none hParse
    rw [hEnd]
    rw [readEvent_eq text state hWire] at hRead
    split at hRead
    · rename_i hType
      rw [← (Prod.mk.inj hRead).2]
      exact ⟨fun _ => hType, fun _ => rfl⟩
    · rename_i hType
      refine ⟨fun hLost => ?_, fun h => absurd h hType⟩
      rcases (laid_readBody text _).state hRead with h | h
      · exact absurd (h.symm.trans hLost) hState
      · rw [h] at hLost
        cases hLost
  · obtain ⟨hRead, hSuccess⟩ := EventProtocol.parse_some hParse
    rw [hSuccess]
    refine ⟨fun h => ?_, fun hType => ?_⟩
    · cases h
    · rw [readEvent_eq text state hWire, if_pos hType] at hRead
      cases hRead

end GroupWise
