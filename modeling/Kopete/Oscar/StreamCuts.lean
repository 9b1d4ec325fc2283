import Kopete.Oscar.CoreProtocol

/-!
# Oscar — when the transfers depend on how the stream is cut

`flapFramer` is the framing the wire format asks for: a transfer is made from
the `length + 6` bytes of a frame once they are all there. `wireToTransfer`
differs from it in two places.

* Off channel 2 it tests `wire.size() < flapLength`, without the 6 bytes of
  the header, and `FlapProtocol::parse` does not test at all. A non-empty
  frame is emitted up to 6 bytes early, with bytes from behind `m_in`.
* On channel 2 the SNAC header is read whatever `flapLength` is. When the
  frame is shorter than the header, the missing fields come from the bytes
  that happen to follow in `m_in`, or are `0` when there are none yet.

`StreamSafe` says that a stream gives neither of them a chance, and
`addIncomingData_cut_iff` that this is exactly when the cutting does not matter.
-/

namespace Oscar

open DataStream Framing

/-! ## Headers at fixed offsets -/

/-- The FLAP header of a packet. -/
def flap (w : List UInt8) : FLAP := (readFlap w).1

/-- The SNAC header of a packet. -/
def snac (w : List UInt8) : SNAC := (readSnac (readFlap w).2).1

theorem readFlap_eq (w : List UInt8) :
    readFlap w = (⟨intAt beNat 1 w 1, intAt beNat 2 w 2, intAt beNat 2 w 4⟩, w.drop 6) := by
  simp only [readFlap, readU8, readU16BE, readInt_snd,
    readInt_drop (show 0 < 1 by decide), readInt_drop (show 0 < 2 by decide)]

theorem snac_eq (w : List UInt8) :
    snac w = ⟨intAt beNat 2 w 6, intAt beNat 2 w 8, intAt beNat 2 w 10, intAt beNat 4 w 12⟩ := by
  simp only [snac, readFlap_eq, readSnac, readU16BE, readU32BE,
    readInt_drop (show 0 < 2 by decide), readInt_drop (show 0 < 4 by decide)]

theorem flap_eq (w : List UInt8) :
    flap w = ⟨intAt beNat 1 w 1, intAt beNat 2 w 2, intAt beNat 2 w 4⟩ := by
  rw [flap, readFlap_eq]

/-- The FLAP header is in the first 6 bytes. -/
theorem flap_append {w : List UInt8} (x : List UInt8) (h : 6 ≤ w.length) :
    flap (w ++ x) = flap w := by
  simp only [flap_eq]
  rw [intAt_append x (by omega), intAt_append x (by omega), intAt_append x (by omega)]

theorem flap_take {w : List UInt8} {n : Nat} (h : 6 ≤ n) (hn : n ≤ w.length) :
    flap (w.take n) = flap w := by
  simp only [flap_eq]
  rw [intAt_take (by omega) hn, intAt_take (by omega) hn, intAt_take (by omega) hn]

/-- A window inside the part that is kept. -/
theorem rawData_take {w : List UInt8} {off len : Nat} {n : Int}
    (h : ∀ i < n.toNat, off + i < len) : rawData (w.take len) off n = rawData w off n := by
  unfold rawData
  apply List.map_congr_left
  intro i hi
  rw [List.getElem?_take, if_pos (h i (List.mem_range.mp hi))]

/-! ## What the code does with a buffer -/

/-- The transfer `SnacProtocol::parse` makes from a packet that is long enough. -/
def snacTransfer (packet : List UInt8) : Transfer :=
  let snacOffset : Nat := if (snac packet).flags ≥ 0x8000 then 18 else 10
  let length : Int := (flap packet).length - snacOffset
  ⟨flap packet, some (snac packet), length, rawData packet (6 + snacOffset) length⟩

theorem SnacProtocol.parse_eq (packet : List UInt8) :
    SnacProtocol.parse packet =
      if (flap packet).length + 6 > packet.length then none
      else some (snacTransfer packet, (flap packet).length + 6) := rfl

/-- The transfer made from a packet on either kind of channel. -/
def packetTransfer (packet : List UInt8) : Transfer :=
  if (flap packet).channel = 2 then snacTransfer packet else (FlapProtocol.parse packet).1

@[simp] theorem packetTransfer_flap (packet : List UInt8) :
    (packetTransfer packet).flap = flap packet := by
  unfold packetTransfer
  split <;> rfl

/-- The number of bytes that have to be in `m_in` before a frame is emitted. -/
def bytesNeeded (f : FLAP) : Nat :=
  if f.channel = 2 then f.length + 6 else max 6 f.length

/-- What `wireToTransfer` takes off a buffer. -/
def nextTransfer (w : List UInt8) : Option (Transfer × Nat) :=
  if 6 ≤ w.length ∧ intAt beNat 1 w 0 = 0x2A ∧ bytesNeeded (flap w) ≤ w.length then
    some (packetTransfer w, (flap w).length + 6)
  else
    none

theorem wireToTransfer_eq (st : State) (w : List UInt8) :
    wireToTransfer st w =
      if w.length < 6 then (.NeedMore, none, 0)
      else if intAt beNat 1 w 0 = 0x2A then
        if w.length < (flap w).length then (.NeedMore, none, 0)
        else if (flap w).channel = 2 then
          if (flap w).length + 6 > w.length then (.NeedMore, none, 0)
          else (.Available, some (snacTransfer w), (flap w).length + 6)
        else (.Available, some (FlapProtocol.parse w).1, (flap w).length + 6)
      else (st, none, 0) := by
  have hfst : (readU8 w).1 = intAt beNat 1 w 0 := by
    rw [readU8, readInt_zero]
  unfold wireToTransfer
  rw [SnacProtocol.parse_eq]
  simp only [hfst]
  split
  · rfl
  · split
    · change (if w.length < (flap w).length then _ else _) = _
      split
      · rfl
      · change (if (flap w).channel = 2 then _ else _) = _
        split
        · by_cases hsize : (flap w).length + 6 > w.length
          · simp only [if_pos hsize]
          · simp only [if_neg hsize]
        · rfl
    · rfl

theorem wireToTransfer_some {w : List UInt8} {t : Transfer} {n : Nat} (st : State)
    (h : nextTransfer w = some (t, n)) : wireToTransfer st w = (.Available, some t, n) := by
  rw [nextTransfer] at h
  split at h
  · next hc =>
    obtain ⟨hlen, hstart, hneed⟩ := hc
    cases h
    rw [wireToTransfer_eq, if_neg (by omega), if_pos hstart]
    unfold bytesNeeded at hneed
    unfold packetTransfer
    split at hneed
    · next hch => rw [if_neg (by omega), if_pos hch, if_neg (by omega), if_pos hch]
    · next hch => rw [if_neg (by omega), if_neg hch, if_neg hch]
  · cases h

theorem wireToTransfer_none {w : List UInt8} (st : State) (h : nextTransfer w = none) :
    ∃ st', wireToTransfer st w = (st', none, 0) := by
  have hn : ¬ (6 ≤ w.length ∧ intAt beNat 1 w 0 = 0x2A ∧ bytesNeeded (flap w) ≤ w.length) := by
    intro hc
    rw [nextTransfer, if_pos hc] at h
    cases h
  rw [wireToTransfer_eq]
  by_cases hlen : w.length < 6
  · exact ⟨_, if_pos hlen⟩
  rw [if_neg hlen]
  by_cases hstart : intAt beNat 1 w 0 = 0x2A
  · have hneed : w.length < bytesNeeded (flap w) := by
      by_contra hge
      exact hn ⟨by omega, hstart, by omega⟩
    rw [if_pos hstart]
    unfold bytesNeeded at hneed
    split at hneed
    · next hch =>
      by_cases hshort : w.length < (flap w).length
      · exact ⟨_, if_pos hshort⟩
      · rw [if_neg hshort, if_pos hch]
        exact ⟨_, if_pos (by omega)⟩
    · exact ⟨_, if_pos (by omega)⟩
  · exact ⟨_, if_neg hstart⟩

/-- What the loop does with a buffer it takes a transfer off. -/
theorem parseLoop_some {c : CoreProtocol} {t : Transfer} {n : Nat}
    (h : nextTransfer c.m_in = some (t, n)) :
    parseLoop c = parseLoop { c with
      m_in := c.m_in.drop n, m_state := .Available, emitted := c.emitted ++ [t] } := by
  have hw := wireToTransfer_some c.m_state h
  rw [nextTransfer] at h
  split at h
  · next hc =>
    obtain ⟨k, rfl⟩ : ∃ k, n = k + 1 := by
      cases h
      exact ⟨_, rfl⟩
    rw [parseLoop, dif_neg (by omega), hw]
    rfl
  · cases h

/-- What the loop does with a buffer it takes nothing off. -/
theorem parseLoop_none {c : CoreProtocol} (h : nextTransfer c.m_in = none) :
    ∃ st, parseLoop c = { c with m_state := st } := by
  obtain ⟨st, hw⟩ := wireToTransfer_none c.m_state h
  rw [parseLoop]
  split
  · exact ⟨c.m_state, rfl⟩
  · rw [hw]
    exact ⟨st, by simp⟩

/-! ## The framing of the wire format -/

/-- The first frame of a buffer, once all of it is there. -/
def completeFrame (w : List UInt8) : Option (Transfer × Nat) :=
  if 6 ≤ w.length ∧ intAt beNat 1 w 0 = 0x2A ∧ (flap w).length + 6 ≤ w.length then
    some (packetTransfer (w.take ((flap w).length + 6)), (flap w).length + 6)
  else
    none

/-- FLAP framing: a frame is cut off when it is complete. -/
def flapFramer : Framer UInt8 Transfer where
  next := completeFrame
  progress := by
    intro w m n h
    unfold completeFrame at h
    split at h
    · next hc => cases h; omega
    · cases h
  stable := by
    intro w m n x h
    unfold completeFrame at h ⊢
    split at h
    · next hc =>
      obtain ⟨hlen, hstart, hall⟩ := hc
      cases h
      rw [flap_append x hlen, intAt_append x (by omega), List.length_append,
        if_pos ⟨by omega, hstart, by omega⟩, List.take_append_of_le_length hall]
    · cases h

/-- Offset and size of the fields of the SNAC header in a channel 2 frame. -/
def snacFields : List (Nat × Nat) := [(6, 2), (8, 2), (10, 2), (12, 4)]

/-- What the stream has to look like from the start of a frame on, for the
frame to come out the same wherever the stream is cut: off channel 2 the frame
is empty or less than `max 6 flapLength` of its bytes ever arrive; on channel 2
the header fields that reach past the end of a complete frame read as `0`. -/
def FrameSafe (u : List UInt8) : Prop :=
  6 ≤ u.length → intAt beNat 1 u 0 = 0x2A →
    if (flap u).channel = 2 then
      (flap u).length + 6 ≤ u.length →
        ∀ p ∈ snacFields, (flap u).length + 6 < p.1 + p.2 → intAt beNat p.2 u p.1 = 0
    else
      (flap u).length = 0 ∨ u.length < max 6 (flap u).length

instance (u : List UInt8) : Decidable (FrameSafe u) := by
  unfold FrameSafe
  infer_instance

/-- Every frame of the stream, the last incomplete one included, is safe. -/
def StreamSafe (s : List UInt8) : Prop :=
  ∀ u ∈ flapFramer.starts s, FrameSafe u

/-! ## On a safe stream the code frames as the wire format does -/

/-- The SNAC header of a safe frame is the same when more bytes are there. -/
theorem snac_take_of_safe {b y : List UInt8} (hsafe : FrameSafe (b ++ y)) (hlen : 6 ≤ b.length)
    (hstart : intAt beNat 1 b 0 = 0x2A) (hch : (flap b).channel = 2)
    (hall : (flap b).length + 6 ≤ b.length) :
    snac (b.take ((flap b).length + 6)) = snac b := by
  unfold FrameSafe at hsafe
  rw [flap_append y hlen, intAt_append y (by omega), List.length_append, if_pos hch] at hsafe
  have hz := hsafe (by omega) hstart (by omega)
  -- a field inside the frame is kept; one that is not reads as 0 on both sides
  have hfield : ∀ p ∈ snacFields,
      intAt beNat p.2 (b.take ((flap b).length + 6)) p.1 = intAt beNat p.2 b p.1 := by
    intro p hp
    by_cases hin : p.1 + p.2 ≤ (flap b).length + 6
    · exact intAt_take hin hall
    · rw [intAt_short (by rw [List.length_take_of_le hall]; omega)]
      by_cases hb : p.1 + p.2 ≤ b.length
      · rw [← intAt_append y hb, hz p hp (by omega)]
      · rw [intAt_short (by omega)]
  have h6 := hfield (6, 2) (by decide)
  have h8 := hfield (8, 2) (by decide)
  have h10 := hfield (10, 2) (by decide)
  have h12 := hfield (12, 4) (by decide)
  rw [snac_eq, snac_eq, h6, h8, h10, h12]

/-- On a buffer that continues as a safe frame, `wireToTransfer` takes a
transfer off exactly when the frame is complete, and the same one. -/
theorem nextTransfer_eq_completeFrame {b y : List UInt8} (hsafe : FrameSafe (b ++ y)) :
    nextTransfer b = completeFrame b := by
  unfold nextTransfer completeFrame
  by_cases hlen : 6 ≤ b.length
  swap
  · rw [if_neg (by omega), if_neg (by omega)]
  by_cases hstart : intAt beNat 1 b 0 = 0x2A
  swap
  · rw [if_neg (by tauto), if_neg (by tauto)]
  by_cases hch : (flap b).channel = 2
  · -- channel 2: the length test is right, only the header can differ
    rw [bytesNeeded, if_pos hch]
    by_cases hall : (flap b).length + 6 ≤ b.length
    · rw [if_pos ⟨hlen, hstart, hall⟩, if_pos ⟨hlen, hstart, hall⟩]
      have hflap := flap_take (n := (flap b).length + 6) (by omega) hall
      have hsnac := snac_take_of_safe hsafe hlen hstart hch hall
      have ht : packetTransfer (b.take ((flap b).length + 6)) = packetTransfer b := by
        unfold packetTransfer snacTransfer
        rw [hflap, hsnac, if_pos hch, if_pos hch]
        simp only
        split <;> rw [rawData_take (fun i hi => by omega)]
      rw [ht]
    · rw [if_neg (by omega), if_neg (by omega)]
  · -- another channel: only an empty frame is reached
    unfold FrameSafe at hsafe
    rw [flap_append y hlen, intAt_append y (by omega), List.length_append, if_neg hch] at hsafe
    have hzero := hsafe (by omega) hstart
    rw [bytesNeeded, if_neg hch]
    by_cases hneed : max 6 (flap b).length ≤ b.length
    · have hL : (flap b).length = 0 := by omega
      rw [if_pos ⟨hlen, hstart, hneed⟩, if_pos ⟨hlen, hstart, by omega⟩]
      have hflap := flap_take (w := b) (n := (flap b).length + 6) (by omega) (by omega)
      have ht : packetTransfer (b.take ((flap b).length + 6)) = packetTransfer b := by
        unfold packetTransfer
        rw [hflap, if_neg hch, if_neg hch]
        change (⟨flap _, none, (flap _).length, rawData _ 6 (flap _).length⟩ : Transfer) =
          ⟨flap b, none, (flap b).length, rawData b 6 (flap b).length⟩
        rw [hflap, rawData_take (fun i hi => by omega)]
      rw [ht]
    · rw [if_neg (by omega), if_neg (by omega)]

/-- Both sub-parsers are in the state they start in. -/
def InSync (c : CoreProtocol) : Prop :=
  c.snacState = .NeedMore ∧ c.flapState = .NeedMore

/-- Where the code's framing agrees with the wire format's, the loop drains. -/
theorem parseLoop_eq_drain {w : List UInt8}
    (hAgree : ∀ u ∈ flapFramer.starts w, nextTransfer u = completeFrame u) :
    ∀ c : CoreProtocol, c.m_in = w → ∃ st, parseLoop c =
      { c with
        m_in := (flapFramer.drain w).2, m_state := st,
        emitted := c.emitted ++ (flapFramer.drain w).1 } := by
  induction w using flapFramer.drain_induction with
  | hNone w h =>
    intro c hc
    subst hc
    obtain ⟨st, hst⟩ := parseLoop_none ((hAgree _ (flapFramer.mem_starts_self _)).trans h)
    refine ⟨st, ?_⟩
    rw [hst, flapFramer.drain_none h]
    simp
  | hSome w m n h ih =>
    intro c hc
    subst hc
    have hnext := (hAgree _ (flapFramer.mem_starts_self _)).trans h
    obtain ⟨st, hst⟩ := ih (fun u hu => hAgree u (flapFramer.mem_starts_drop h hu))
      { c with m_in := c.m_in.drop n, m_state := .Available, emitted := c.emitted ++ [m] } rfl
    refine ⟨st, ?_⟩
    rw [parseLoop_some hnext, hst, flapFramer.drain_some h]
    simp

theorem addIncomingData_eq_drain {c : CoreProtocol} {chunk : List UInt8} (hSync : InSync c)
    (hAgree : ∀ u ∈ flapFramer.starts (c.m_in ++ chunk), nextTransfer u = completeFrame u) :
    ∃ st, addIncomingData c chunk =
      { c with
        m_in := (flapFramer.drain (c.m_in ++ chunk)).2, m_state := st,
        emitted := c.emitted ++ (flapFramer.drain (c.m_in ++ chunk)).1 } := by
  obtain ⟨st, hst⟩ := parseLoop_eq_drain hAgree
    { c with m_in := c.m_in ++ chunk, m_state := .Available } rfl
  refine ⟨st, ?_⟩
  unfold addIncomingData
  rw [hst]
  simp [hSync.1, hSync.2]

/-- The state after some chunks is what draining the received bytes gives. -/
def Drained (c : CoreProtocol) (received : List UInt8) : Prop :=
  InSync c ∧ (c.emitted, c.m_in) = flapFramer.drain received

theorem feed_drained_aux {s : List UInt8} (hsafe : StreamSafe s) (chunks : List (List UInt8)) :
    ∀ (c : CoreProtocol) (received y : List UInt8), Drained c received →
      received ++ chunks.flatten ++ y = s →
      Drained (chunks.foldl addIncomingData c) (received ++ chunks.flatten) := by
  induction chunks with
  | nil =>
    intro c received y hc _
    simpa using hc
  | cons chunk rest ih =>
    intro c received y hc hs
    obtain ⟨hSync, hdrain⟩ := hc
    have hin : c.m_in = (flapFramer.drain received).2 := congrArg Prod.snd hdrain
    have hout : c.emitted = (flapFramer.drain received).1 := congrArg Prod.fst hdrain
    have hs' : (received ++ chunk) ++ (rest.flatten ++ y) = s := by
      rw [← hs, List.flatten_cons]
      simp only [List.append_assoc]
    have hAgree : ∀ u ∈ flapFramer.starts (c.m_in ++ chunk), nextTransfer u = completeFrame u := by
      intro u hu
      rw [hin] at hu
      have hu' := flapFramer.mem_starts_append (rest.flatten ++ y)
        (flapFramer.mem_starts_drain_rest hu)
      rw [hs'] at hu'
      exact nextTransfer_eq_completeFrame (hsafe _ hu')
    obtain ⟨st, hst⟩ := addIncomingData_eq_drain hSync hAgree
    rw [List.foldl_cons, List.flatten_cons, ← List.append_assoc]
    refine ih _ (received ++ chunk) y ⟨?_, ?_⟩ (by simpa using hs')
    · rw [hst]
      exact hSync
    · rw [hst, hin, hout, flapFramer.drain_append received chunk]

/-- On a safe stream any chunks give the messages of the bytes received. -/
theorem feed_drained {s y : List UInt8} (hsafe : StreamSafe s) (chunks : List (List UInt8))
    (hs : chunks.flatten ++ y = s) : Drained (feed chunks) chunks.flatten := by
  have hinit : Drained CoreProtocol.init [] :=
    ⟨⟨rfl, rfl⟩, (flapFramer.drain_none flapFramer.next_nil).symm⟩
  simpa [feed] using feed_drained_aux hsafe chunks CoreProtocol.init [] y hinit (by simpa using hs)

/-! ## Off a safe stream some cutting goes wrong -/

/-- The two chunkings have the same effect. -/
def SameOutcome (cs cs' : List (List UInt8)) : Prop :=
  (feed cs).emitted = (feed cs').emitted ∧ (feed cs).m_in = (feed cs').m_in

/-- The size of the frame a transfer was made from. -/
def frameSize (t : Transfer) : Nat := t.flap.length + 6

/-- At no time do the frames emitted so far hold more bytes than have arrived. -/
def NothingEarly (cs : List (List UInt8)) : Prop :=
  ∀ k, ((feed (cs.take k)).emitted.map frameSize).sum ≤ (cs.take k).flatten.length

theorem completeFrame_size {w : List UInt8} {t : Transfer} {n : Nat}
    (h : completeFrame w = some (t, n)) : frameSize t = n := by
  unfold completeFrame at h
  split at h
  · next hc =>
    cases h
    rw [frameSize, packetTransfer_flap, flap_take (by omega) hc.2.2]
  · cases h

/-- The bytes of a buffer are those of its complete frames and the rest. -/
theorem drain_sizes (w : List UInt8) :
    ((flapFramer.drain w).1.map frameSize).sum + (flapFramer.drain w).2.length = w.length := by
  induction w using flapFramer.drain_induction with
  | hNone w h =>
    rw [flapFramer.drain_none h]
    simp
  | hSome w m n h ih =>
    have hn := completeFrame_size h
    have hle := (flapFramer.progress h).2
    rw [List.length_drop] at ih
    rw [flapFramer.drain_some h, List.map_cons, List.sum_cons, hn]
    simp only
    omega

/-- Emitted transfers are never taken back. -/
theorem parseLoop_emitted_isPrefix (c : CoreProtocol) : c.emitted <+: (parseLoop c).emitted := by
  fun_induction parseLoop c with
  | case1 c _ => exact List.prefix_refl _
  | case2 c _ st t _ => exact List.prefix_append _ _
  | case3 c _ st t n _ ih => exact (List.prefix_append _ _).trans ih

theorem addIncomingData_emitted (c : CoreProtocol) (chunk : List UInt8) :
    (addIncomingData c chunk).emitted =
      (parseLoop { c with m_in := c.m_in ++ chunk, m_state := .Available }).emitted := by
  unfold addIncomingData
  simp only
  split <;> rfl

theorem foldl_emitted_isPrefix (cs : List (List UInt8)) (c : CoreProtocol) :
    c.emitted <+: (cs.foldl addIncomingData c).emitted := by
  induction cs generalizing c with
  | nil => exact List.prefix_refl _
  | cons chunk rest ih =>
    refine List.IsPrefix.trans ?_ (ih (addIncomingData c chunk))
    rw [addIncomingData_emitted]
    exact parseLoop_emitted_isPrefix { c with m_in := c.m_in ++ chunk, m_state := .Available }

theorem feed_append (cs ds : List (List UInt8)) :
    feed (cs ++ ds) = ds.foldl addIncomingData (feed cs) := by
  rw [feed, List.foldl_append, feed]

theorem feed_emitted_isPrefix (cs ds : List (List UInt8)) :
    (feed cs).emitted <+: (feed (cs ++ ds)).emitted := by
  rw [feed_append]
  exact foldl_emitted_isPrefix ds _

/-- Everything received has been emitted, frame by frame. -/
structure Aligned (cs : List (List UInt8)) : Prop where
  sync : InSync (feed cs)
  empty : (feed cs).m_in = []
  sizes : ((feed cs).emitted.map frameSize).sum = cs.flatten.length

/-- The first transfer of a chunk that arrives when nothing is left over. -/
theorem feed_first {cs : List (List UInt8)} {b : List UInt8} {t : Transfer} {n : Nat}
    (hAl : Aligned cs) (h : nextTransfer b = some (t, n)) :
    (feed cs).emitted ++ [t] <+: (feed (cs ++ [b])).emitted := by
  have hin : (feed cs).m_in ++ b = b := by
    rw [hAl.empty, List.nil_append]
  rw [feed_append, List.foldl_cons, List.foldl_nil, addIncomingData_emitted, hin,
    parseLoop_some (c := { feed cs with m_in := b, m_state := .Available }) h]
  exact parseLoop_emitted_isPrefix { feed cs with
    m_in := b.drop n, m_state := .Available, emitted := (feed cs).emitted ++ [t] }

/-- A chunk that is exactly one frame is emitted and leaves nothing. -/
theorem Aligned.frame {cs : List (List UInt8)} {w : List UInt8} {t : Transfer} {n : Nat}
    (hAl : Aligned cs) (h : completeFrame w = some (t, n)) : Aligned (cs ++ [w.take n]) := by
  have hsize := completeFrame_size h
  unfold completeFrame at h
  split at h
  swap
  · cases h
  next hc =>
  obtain ⟨hlen, hstart, hall⟩ := hc
  cases h
  -- the frame alone is all the code needs
  have hflap := flap_take (n := (flap w).length + 6) (by omega) hall
  have htake : (w.take ((flap w).length + 6)).length = (flap w).length + 6 :=
    List.length_take_of_le hall
  have hneed : bytesNeeded (flap w) ≤ (flap w).length + 6 := by
    unfold bytesNeeded
    split <;> omega
  have hnext : nextTransfer (w.take ((flap w).length + 6)) =
      some (packetTransfer (w.take ((flap w).length + 6)), (flap w).length + 6) := by
    rw [nextTransfer, hflap, htake, intAt_take (by omega) hall,
      if_pos ⟨by omega, hstart, hneed⟩]
  have hin : (feed cs).m_in ++ w.take ((flap w).length + 6) = w.take ((flap w).length + 6) := by
    rw [hAl.empty, List.nil_append]
  have hfeed : ∃ st, feed (cs ++ [w.take ((flap w).length + 6)]) = { feed cs with
      m_in := [], m_state := st,
      emitted := (feed cs).emitted ++ [packetTransfer (w.take ((flap w).length + 6))] } := by
    refine ⟨.Available, ?_⟩
    rw [feed_append, List.foldl_cons, List.foldl_nil, addIncomingData, hin,
      parseLoop_some (c := { feed cs with m_in := _, m_state := .Available }) hnext]
    simp only
    rw [List.drop_of_length_le (by omega), parseLoop, dif_pos (by rfl)]
    simp [hAl.sync.1, hAl.sync.2]
  obtain ⟨st, hst⟩ := hfeed
  refine ⟨?_, ?_, ?_⟩
  · rw [hst]
    exact hAl.sync
  · rw [hst]
  · rw [hst, List.map_append, List.sum_append, hAl.sizes, List.flatten_append,
      List.length_append]
    simp [hsize, htake]

/-- What the property asks of a stream: no cutting emits a frame early, and
any two have the same effect. -/
def CutInvariant (s : List UInt8) : Prop :=
  ∀ cs cs' : List (List UInt8), cs.flatten = s → cs'.flatten = s →
    SameOutcome cs cs' ∧ NothingEarly cs

/-- At the start of a frame, with all before it emitted, an unsafe frame shows
in a cutting of the rest. -/
theorem CutInvariant.frameSafe {s u : List UInt8} {cs : List (List UInt8)} (hP : CutInvariant s)
    (hAl : Aligned cs) (hs : cs.flatten ++ u = s) : FrameSafe u := by
  have hcut : ∀ n, (cs ++ [u.take n] ++ [u.drop n]).flatten = s := by
    intro n
    simp [hs]
  intro hlen hstart
  split
  · next hch =>
    intro hall p hp hpast
    by_contra hne
    -- cut A ends with the frame, cut B behind the field
    have he : p.1 + p.2 ≤ u.length := by
      by_contra hshort
      exact hne (intAt_short (by omega))
    have hnext : ∀ n, (flap u).length + 6 ≤ n → n ≤ u.length →
        nextTransfer (u.take n) = some (snacTransfer (u.take n), (flap u).length + 6) := by
      intro n hn hnu
      have hflap := flap_take (w := u) (n := n) (by omega) hnu
      rw [nextTransfer, hflap, List.length_take_of_le hnu, intAt_take (by omega) hnu,
        bytesNeeded, if_pos hch, if_pos ⟨by omega, hstart, hn⟩, packetTransfer, hflap, if_pos hch]
    have hA := (feed_first hAl (hnext _ (Nat.le_refl _) hall)).trans
      (feed_emitted_isPrefix _ [u.drop ((flap u).length + 6)])
    have hB := (feed_first hAl (hnext (p.1 + p.2) (by omega) he)).trans
      (feed_emitted_isPrefix _ [u.drop (p.1 + p.2)])
    rw [(hP _ _ (hcut _) (hcut (p.1 + p.2))).1.1] at hA
    have heq : snacTransfer (u.take ((flap u).length + 6)) = snacTransfer (u.take (p.1 + p.2)) := by
      have hsame := List.prefix_of_prefix_length_le hA hB (by simp)
      have := hsame.eq_of_length (by simp)
      simpa using this
    have hsnac : snac (u.take ((flap u).length + 6)) = snac (u.take (p.1 + p.2)) := by
      have := congrArg Transfer.snac heq
      simpa [snacTransfer] using this
    have hfield : intAt beNat p.2 (u.take ((flap u).length + 6)) p.1 =
        intAt beNat p.2 (u.take (p.1 + p.2)) p.1 := by
      simp only [snac_eq, SNAC.mk.injEq] at hsnac
      simp only [snacFields, List.mem_cons, List.not_mem_nil, or_false] at hp
      rcases hp with rfl | rfl | rfl | rfl
      · exact hsnac.1
      · exact hsnac.2.1
      · exact hsnac.2.2.1
      · exact hsnac.2.2.2
    rw [intAt_short (by rw [List.length_take_of_le hall]; omega),
      intAt_take (Nat.le_refl _) he] at hfield
    exact hne hfield.symm
  · next hch =>
    by_contra hcon
    obtain ⟨hL, hreach⟩ : (flap u).length ≠ 0 ∧ max 6 (flap u).length ≤ u.length := by
      omega
    have hflap := flap_take (w := u) (n := max 6 (flap u).length) (by omega) hreach
    have hnext : nextTransfer (u.take (max 6 (flap u).length)) =
        some (packetTransfer (u.take (max 6 (flap u).length)), (flap u).length + 6) := by
      rw [nextTransfer, hflap, List.length_take_of_le hreach, intAt_take (by omega) hreach,
        bytesNeeded, if_neg hch, if_pos ⟨by omega, hstart, Nat.le_refl _⟩]
    -- the early frame is emitted by the chunk that does not hold all of it
    have hearly := (hP _ _ (hcut (max 6 (flap u).length)) (hcut (max 6 (flap u).length))).2
      (cs.length + 1)
    have htake : (cs ++ [u.take (max 6 (flap u).length)] ++ [u.drop (max 6 (flap u).length)]).take
        (cs.length + 1) = cs ++ [u.take (max 6 (flap u).length)] := by
      rw [List.take_left' (by simp)]
    rw [htake] at hearly
    obtain ⟨more, hmore⟩ := feed_first hAl hnext
    have hsum : ((feed (cs ++ [u.take (max 6 (flap u).length)])).emitted.map frameSize).sum =
        cs.flatten.length + ((flap u).length + 6) + (more.map frameSize).sum := by
      rw [← hmore, List.map_append, List.map_append, List.sum_append, List.sum_append, hAl.sizes]
      simp [frameSize, hflap]
    rw [hsum, List.flatten_append, List.length_append] at hearly
    simp only [List.flatten_cons, List.flatten_nil, List.append_nil,
      List.length_take_of_le hreach] at hearly
    omega

theorem CutInvariant.starts_safe {s : List UInt8} (hP : CutInvariant s) (w : List UInt8) :
    ∀ cs : List (List UInt8), Aligned cs → cs.flatten ++ w = s →
      ∀ u ∈ flapFramer.starts w, FrameSafe u := by
  induction w using flapFramer.drain_induction with
  | hNone w h =>
    intro cs hAl hs u hu
    rw [flapFramer.starts_none h, List.mem_singleton] at hu
    rw [hu]
    exact hP.frameSafe hAl hs
  | hSome w m n h ih =>
    intro cs hAl hs u hu
    rw [flapFramer.starts_some h, List.mem_cons] at hu
    rcases hu with rfl | hu
    · exact hP.frameSafe hAl hs
    · exact ih (cs ++ [w.take n]) (hAl.frame h) (by simpa using hs) u hu

theorem aligned_nil : Aligned [] :=
  ⟨⟨rfl, rfl⟩, rfl, rfl⟩

/--
**The cutting does not matter exactly on safe streams.** For a byte stream `s`:
every two ways of cutting it make `addIncomingData` emit the same transfers and
keep the same bytes, and none emits a frame before all of it has arrived, if
and only if off channel 2 no non-empty frame gets as far as `max 6 flapLength`
bytes, and in every complete channel 2 frame the SNAC header fields that reach
past its end read as `0`.
-/
theorem addIncomingData_cut_iff (s : List UInt8) : CutInvariant s ↔ StreamSafe s := by
  constructor
  · intro hP u hu
    exact hP.starts_safe s [] aligned_nil rfl u hu
  · intro hsafe cs cs' hcs hcs'
    have hd := (feed_drained hsafe cs (y := []) (by simpa using hcs)).2
    have hd' := (feed_drained hsafe cs' (y := []) (by simpa using hcs')).2
    rw [hcs, ← hcs', ← hd', Prod.mk.injEq] at hd
    refine ⟨hd, fun k => ?_⟩
    have hk := (feed_drained hsafe (cs.take k) (y := (cs.drop k).flatten) (by
      rw [← List.flatten_append, List.take_append_drop, hcs])).2
    have hsizes := drain_sizes (cs.take k).flatten
    rw [← hk] at hsizes
    simp only at hsizes
    omega

/-- A frame on channel 1 with one byte of data: it is emitted when only the
header is there. -/
theorem addIncomingData_cut_differs : ¬ CutInvariant [0x2A, 1, 0, 0, 0, 1, 7] := by
  intro hP
  have hsafe := hP.frameSafe aligned_nil (List.nil_append _)
  revert hsafe
  decide

end Oscar
