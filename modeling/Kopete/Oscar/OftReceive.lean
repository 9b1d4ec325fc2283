import Kopete.Oscar.OftMetaTransfer
import Kopete.Lib.Run

/-!
# Oscar — the checksum of a received file

A receive session takes over one file after the other, and `m_oft.sentChecksum`
lives across all of them. `handleReceiveSetup` recomputes or resets it where the
target file has contents no longer than announced, and leaves it as it is where
the file is absent, empty or too long; from there `saveData` continues the
checksum of the file before.

Checksums are compared through the weighted sum of the bytes: those at even
positions count 256 times. Chunks of any size then add up.

Main results:

* `Tracks.chunk` — a chunk continues the checksum of what came before it;
* `good_socketRead` — what one step keeps, and the checksum a `done` carries;
* `done_checksum` — a session whose prompts find the checksum reset sends the
  checksum of each file it completes.
-/

namespace Oscar

namespace OftMetaTransfer

open EndAround

/-! ## Weighted sums -/

/-- The sum of bytes from position `p` on, those at even positions shifted up. -/
def weightSum : Nat → List UInt8 → Nat
  | _, [] => 0
  | p, b :: data => (if p % 2 = 0 then b.toNat * 2 ^ 8 else b.toNat) + weightSum (p + 1) data

theorem weightSum_append (p : Nat) (data raw : List UInt8) :
    weightSum p (data ++ raw) = weightSum p data + weightSum (p + data.length) raw := by
  induction data generalizing p with
  | nil => simp [weightSum]
  | cons b data ih =>
    simp only [List.cons_append, weightSum, List.length_cons, ih]
    rw [show p + 1 + data.length = p + (data.length + 1) by omega]
    omega

/-- Only the parity of the first position matters. -/
theorem weightSum_congr {p q : Nat} (h : p % 2 = q % 2) (data : List UInt8) :
    weightSum p data = weightSum q data := by
  induction data generalizing p q with
  | nil => rfl
  | cons b data ih => rw [weightSum, weightSum, h, ih (show (p + 1) % 2 = (q + 1) % 2 by omega)]

/-- `evenIndex` picks the bytes at even positions of the file. -/
theorem sum_chunkValues (p i : Nat) (buffer : List UInt8) :
    (chunkValues (p % 2) i buffer).sum = weightSum (p + i) buffer := by
  induction buffer generalizing i with
  | nil => rfl
  | cons b buffer ih =>
    rw [chunkValues, List.sum_cons, ih, weightSum]
    have hpos : i % 2 = p % 2 ↔ (p + i) % 2 = 0 := by omega
    simp only [hpos]
    rfl

theorem chunkValues_lt {evenIndex i v : Nat} {buffer : List UInt8}
    (hv : v ∈ chunkValues evenIndex i buffer) : v < 2 ^ 16 := by
  induction buffer generalizing i with
  | nil => simp [chunkValues] at hv
  | cons b buffer ih =>
    have hb := b.toNat_lt
    rcases List.mem_cons.mp hv with rfl | hv
    · split <;> omega
    · exact ih hv

/-! ## Checksums of a prefix -/

/-- `checksum` is a checksum of `data`, however it was cut into chunks. -/
def Tracks (data : List UInt8) (checksum : Nat) : Prop :=
  ∃ v, checksum = v * 2 ^ 16 ∧ Represents (2 ^ 16) v (weightSum 0 data)

/-- The cutting cannot show: the weighted sum is not one of those for which both
`0` and `0xFFFF0000` stand. -/
def Unambiguous (data : List UInt8) : Prop :=
  ¬ (2 ^ 16 - 1 ∣ weightSum 0 data ∧ 2 ^ 16 - 1 < weightSum 0 data)

instance (data : List UInt8) : Decidable (Unambiguous data) :=
  inferInstanceAs (Decidable (¬ (_ ∧ _)))

theorem tracks_nil : Tracks [] 0xFFFF0000 :=
  ⟨2 ^ 16 - 1, rfl, represents_zero (by decide)⟩

/-- The upper digit of a checksum that was made from one. -/
theorem digit_of_mul {v : Nat} (hv : v < 2 ^ 16) : v * 2 ^ 16 / 2 ^ 16 % 2 ^ 16 = v := by
  omega

/-- A checksum is its upper digit, and a chunk takes its bytes from that. -/
theorem chunkChecksum_eq {checksum v : Nat} (hv : checksum / 2 ^ 16 % 2 ^ 16 = v) (p : Nat)
    (raw : List UInt8) : chunkChecksum raw checksum (p % 2 == 1) =
      digest (2 ^ 16) v (chunkValues (p % 2) 0 raw) * 2 ^ 16 := by
  have hIndex : (if (p % 2 == 1) = true then 1 else 0) = p % 2 := by
    rcases Nat.mod_two_eq_zero_or_one p with hZero | hOne
    · simp [hZero]
    · simp [hOne]
  have hDigit : digest (2 ^ 16) v (chunkValues (p % 2) 0 raw) < 2 ^ 16 :=
    (represents_digest (by decide) (represents_digit (show v < 2 ^ 16 by omega))
      fun _ => chunkValues_lt).digit
  show digest (2 ^ 16) (checksum / 2 ^ 16 % 2 ^ 16)
    (chunkValues (if (p % 2 == 1) = true then 1 else 0) 0 raw) * 2 ^ 16 % 2 ^ 32 = _
  rw [hIndex, hv]
  omega

theorem represents_chunk {v s : Nat} (hv : Represents (2 ^ 16) v s) (p : Nat)
    (raw : List UInt8) :
    Represents (2 ^ 16) (digest (2 ^ 16) v (chunkValues (p % 2) 0 raw)) (s + weightSum p raw) := by
  have hNext := represents_digest (by decide) hv
    (show ∀ value ∈ chunkValues (p % 2) 0 raw, value < 2 ^ 16 from fun _ => chunkValues_lt)
  rwa [sum_chunkValues, Nat.add_zero] at hNext

/-- **A chunk continues the checksum.** -/
theorem Tracks.chunk {data : List UInt8} {checksum p : Nat} (h : Tracks data checksum)
    (hp : p % 2 = data.length % 2) (raw : List UInt8) :
    Tracks (data ++ raw) (chunkChecksum raw checksum (p % 2 == 1)) := by
  obtain ⟨v, rfl, hv⟩ := h
  have hNext := represents_chunk hv p raw
  rw [weightSum_congr (show p % 2 = (0 + data.length) % 2 by omega), ← weightSum_append] at hNext
  exact ⟨_, chunkChecksum_eq (digit_of_mul hv.digit) p raw, hNext⟩

theorem Tracks.unique {data : List UInt8} {checksum checksum' : Nat} (h : Tracks data checksum)
    (h' : Tracks data checksum') (hData : Unambiguous data) : checksum = checksum' := by
  obtain ⟨v, rfl, hv⟩ := h
  obtain ⟨w, rfl, hw⟩ := h'
  rw [hv.unique hw hData]

theorem tracks_chunkChecksum (data : List UInt8) :
    Tracks data (chunkChecksum data 0xFFFF0000 false) :=
  tracks_nil.chunk (p := 0) rfl data

/-- The loop of `fileChecksum` continues the checksum block by block. -/
theorem tracks_fileChecksumLoop {data : List UInt8} {checksum totalRead : Nat}
    (h : Tracks data checksum) (hRead : totalRead % 2 = data.length % 2) (rest : List UInt8) :
    Tracks (data ++ rest) (fileChecksumLoop (-1) totalRead checksum rest) := by
  induction hn : rest.length using Nat.strong_induction_on generalizing data checksum totalRead rest
    with
  | h n ih =>
    rw [fileChecksumLoop]
    by_cases hrest : (rest.take BUFFER_SIZE).length = 0
    · have hnil : rest = [] := by
        simpa [BUFFER_SIZE] using hrest
      rw [if_pos hrest, hnil, List.append_nil]
      exact h
    · rw [if_neg hrest]
      have hlen : (rest.drop BUFFER_SIZE).length < n := by
        rw [List.length_take] at hrest
        rw [List.length_drop]
        unfold BUFFER_SIZE at *
        omega
      have hNext : (totalRead + (rest.take BUFFER_SIZE).length) % 2 =
          (data ++ rest.take BUFFER_SIZE).length % 2 := by
        rw [List.length_append]
        omega
      have hblock := ih _ hlen (h.chunk hRead (rest.take BUFFER_SIZE)) hNext _ rfl
      rw [List.append_assoc, List.take_append_drop] at hblock
      simpa using hblock

theorem tracks_fileChecksum (data : List UInt8) : Tracks data (fileChecksum data (-1)) :=
  tracks_fileChecksumLoop tracks_nil rfl data

/-! ## Invariant -/

/-- While a file is being received or a resume has been asked for, the checksum
is that of the file so far, and `bytesSent` has the parity of its length. -/
def Synced (t : OftMetaTransfer) : Prop :=
  t.m_state = .Receiving ∨ (t.m_state = .SetupReceive ∧ t.m_oft.type = 0x205) →
    Tracks (t.content t.m_file) t.m_oft.sentChecksum ∧
      t.m_oft.bytesSent % 2 = (t.content t.m_file).length % 2

/-- Each `done` sent carries the checksum of the current file. -/
def DoneChecksum (result : OftMetaTransfer × List Packet) : Prop :=
  ∀ d, .oft d ∈ result.2 → d.type = 0x204 →
    d.sentChecksum = chunkChecksum (result.1.content result.1.m_file) 0xFFFF0000 false

/-- What a step has to show. -/
def Good (result : OftMetaTransfer × List Packet) : Prop :=
  DoneChecksum result ∧ Synced result.1

theorem good_silent {t : OftMetaTransfer} (h : Synced t) : Good (t, []) :=
  ⟨fun _ hd => absurd hd List.not_mem_nil, h⟩

/-- A message of another type leaves only the invariant to show. -/
theorem good_sendOft {type : Nat} {t : OftMetaTransfer} (hType : type ≠ 0x204)
    (h : Synced (sendOft type t).1) : Good (sendOft type t) := by
  refine ⟨fun d hd hdone => absurd ?_ hType, h⟩
  rw [← hdone, Packet.oft.inj (List.mem_singleton.mp hd)]

theorem good_ack {t : OftMetaTransfer} (hTracks : Tracks (t.content t.m_file) t.m_oft.sentChecksum)
    (hParity : t.m_oft.bytesSent % 2 = (t.content t.m_file).length % 2) : Good (ack t) := by
  refine ⟨fun d hd hdone => ?_, fun _ => ⟨hTracks, hParity⟩⟩
  rw [Packet.oft.inj (List.mem_singleton.mp hd)] at hdone
  simp at hdone

theorem good_rAck {t : OftMetaTransfer}
    (hTracks : Tracks (t.content t.m_file) t.m_oft.sentChecksum)
    (hParity : t.m_oft.bytesSent % 2 = (t.content t.m_file).length % 2) : Good (rAck t) := by
  refine ⟨fun d hd hdone => ?_, fun _ => ⟨hTracks, hParity⟩⟩
  rw [Packet.oft.inj (List.mem_singleton.mp hd)] at hdone
  simp at hdone

theorem good_resume {t : OftMetaTransfer}
    (hTracks : Tracks (t.content t.m_file) t.m_oft.sentChecksum) : Good (resume t) := by
  refine good_sendOft (by decide) fun _ => ⟨hTracks, ?_⟩
  show (t.content t.m_file).length % 2 ^ 32 % 2 = (t.content t.m_file).length % 2
  omega

/-- `prompt` leaves the receiving side. -/
theorem good_prompt {t : OftMetaTransfer} (h : t.m_state = .SetupSend) : Good (prompt t) := by
  refine good_sendOft (by decide) fun hState => ?_
  rcases hState with hState | ⟨hState, -⟩
  · exact absurd (h.symm.trans hState) (by decide)
  · exact absurd (h.symm.trans hState) (by decide)

/-- `done` after a file whose checksum has been kept. -/
theorem good_done {t : OftMetaTransfer} (hTracks : Tracks (t.content t.m_file) t.m_oft.sentChecksum)
    (hData : Unambiguous (t.content t.m_file)) : Good (done t) := by
  have hsum := hTracks.unique (tracks_chunkChecksum _) hData
  unfold done
  constructor
  · intro d hd _
    revert hd
    dsimp only [sendOft]
    split <;> split <;> intro hd <;>
      · rw [Packet.oft.inj (List.mem_singleton.mp hd)]
        exact hsum
  · intro hState
    revert hState
    dsimp only [sendOft]
    split <;> split <;> simp

/-! ## One step -/

/-- A prompt that finds its target ready: where the file has nothing to resume,
the checksum has been reset since the file before. -/
structure PromptOk (oft : OFT) (t : OftMetaTransfer) : Prop where
  reset : ¬ (0 < (takePrompt oft t).fileSize ∧ (takePrompt oft t).fileSize ≤ oft.fileSize) →
    t.m_oft.sentChecksum = 0xFFFF0000
  even : oft.bytesSent % 2 = 0
  complete : (takePrompt oft t).fileSize = oft.fileSize →
    Unambiguous ((takePrompt oft t).content (takePrompt oft t).m_file)

/-- The condition on a step. -/
def StepOk (w : Wire) (t : OftMetaTransfer) (packet : Packet) : Prop :=
  match t.m_state with
  | .Receiving =>
    t.m_oft.fileSize ≤ (t.m_oft.bytesSent + (packet.raw w).length) % 2 ^ 32 →
      Unambiguous (t.content t.m_file ++ packet.raw w)
  | .SetupReceive =>
    ((packet.data w).type = 0x101 → PromptOk (packet.data w) t) ∧
      ((packet.data w).type = 0x106 → (packet.data w).bytesSent ≠ 0 → t.m_oft.type = 0x205)
  | _ => True

theorem good_handleReceiveSetup {oft : OFT} {t : OftMetaTransfer} (hSynced : Synced t)
    (hOk : t.m_state = .SetupReceive → PromptOk oft t) : Good (handleReceiveSetup oft t) := by
  by_cases hState : t.m_state = .SetupReceive
  · obtain ⟨hReset, hEven, hComplete⟩ := hOk hState
    have hTracks := tracks_fileChecksum ((takePrompt oft t).content (takePrompt oft t).m_file)
    rcases handleReceiveSetup_cases oft hState with
      ⟨-, -, hResult⟩ | ⟨hSize, -, hResult⟩ | ⟨-, hResult⟩ | ⟨hNone, hResult⟩ <;> rw [hResult]
    · exact good_resume hTracks
    · exact good_done hTracks (hComplete hSize)
    · -- the file on disk is another one of this size
      refine good_ack ?_ ?_ <;> rw [content_setContent]
      · exact tracks_nil
      · exact hEven
    · refine good_ack ?_ ?_ <;> rw [content_setContent]
      · show Tracks [] t.m_oft.sentChecksum
        rw [hReset hNone]
        exact tracks_nil
      · exact hEven
  · rw [handleReceiveSetup, if_pos hState]
    exact good_silent hSynced

theorem good_handleReceiveResumeSetup {oft : OFT} {t : OftMetaTransfer} (hSynced : Synced t)
    (hOk : t.m_state = .SetupReceive → oft.bytesSent ≠ 0 → t.m_oft.type = 0x205) :
    Good (handleReceiveResumeSetup oft t) := by
  unfold handleReceiveResumeSetup
  by_cases hState : t.m_state = .SetupReceive
  · rw [if_neg (not_not.mpr hState)]
    split
    · rename_i hResume
      obtain ⟨hTracks, hParity⟩ := hSynced (.inr ⟨hState, hOk hState hResume⟩)
      refine good_rAck ?_ ?_ <;> rw [content_setContent]
      · exact hTracks
      · exact hParity
    · refine good_rAck ?_ ?_ <;> rw [content_setContent]
      · exact tracks_nil
      · rfl
  · rw [if_pos hState]
    exact good_silent hSynced

theorem good_saveData {raw : List UInt8} {t : OftMetaTransfer} (hSynced : Synced t)
    (hState : t.m_state = .Receiving)
    (hOk : t.m_oft.fileSize ≤ (t.m_oft.bytesSent + raw.length) % 2 ^ 32 →
      Unambiguous (t.content t.m_file ++ raw)) : Good (saveData raw t) := by
  obtain ⟨hTracks, hParity⟩ := hSynced (.inl hState)
  have hNext := hTracks.chunk hParity raw
  have hContent := content_setContent t (t.content t.m_file ++ raw)
  unfold saveData
  dsimp only
  split
  · rename_i hFull
    refine good_done ?_ ?_
    · exact hContent.symm ▸ hNext
    · exact hContent.symm ▸ hOk hFull
  · have hLength : (t.m_oft.bytesSent + raw.length) % 2 ^ 32 % 2 =
        (t.content t.m_file ++ raw).length % 2 := by
      rw [List.length_append]
      omega
    exact good_silent fun _ => ⟨hContent.symm ▸ hNext, hContent.symm ▸ hLength⟩

/-- Off the receiving side nothing has to be kept. -/
theorem synced_of_state {t : OftMetaTransfer} (hReceiving : t.m_state ≠ .Receiving)
    (hSetup : t.m_state ≠ .SetupReceive) : Synced t := by
  rintro (hState | ⟨hState, -⟩)
  · exact absurd hState hReceiving
  · exact absurd hState hSetup

theorem good_handleSendSetup {oft : OFT} {t : OftMetaTransfer} (hSynced : Synced t) :
    Good (handleSendSetup oft t) := by
  unfold handleSendSetup
  split
  · exact good_silent hSynced
  · exact good_silent (synced_of_state (by simp) (by simp))

theorem good_handleSendResumeRequest {oft : OFT} {t : OftMetaTransfer} (hSynced : Synced t) :
    Good (handleSendResumeRequest oft t) := by
  unfold handleSendResumeRequest
  split
  · exact good_silent hSynced
  · rename_i hState
    replace hState : t.m_state = .SetupSend := not_not.mp hState
    split <;>
      exact good_sendOft (by decide) (synced_of_state (by simp [sendOft, hState])
        (by simp [sendOft, hState]))

theorem good_handleSendDone {oft : OFT} {t : OftMetaTransfer} (hSynced : Synced t) :
    Good (handleSendDone oft t) := by
  unfold handleSendDone
  dsimp only
  split
  · exact good_prompt rfl
  · exact good_silent hSynced

/-- **One step.** It sends no `done` with another checksum, and keeps the
invariant. -/
theorem good_socketRead {w : Wire} {t : OftMetaTransfer} {packet : Packet} (hSynced : Synced t)
    (hOk : StepOk w t packet) : Good (socketRead w packet t) := by
  unfold socketRead
  split
  · rename_i hState
    rw [StepOk, hState] at hOk
    exact good_saveData hSynced hState hOk
  · have hSetup : t.m_state = .SetupReceive →
        ((packet.data w).type = 0x101 → PromptOk (packet.data w) t) ∧
          ((packet.data w).type = 0x106 → (packet.data w).bytesSent ≠ 0 →
            t.m_oft.type = 0x205) := by
      intro hState
      rwa [StepOk, hState] at hOk
    unfold readOft
    split
    · rename_i hType
      exact good_handleReceiveSetup hSynced fun hState => (hSetup hState).1 hType
    · exact good_handleSendSetup hSynced
    · exact good_handleSendDone hSynced
    · exact good_handleSendResumeRequest hSynced
    · rename_i hType
      exact good_handleReceiveResumeSetup hSynced fun hState => (hSetup hState).2 hType
    · show Good (handleSendSetup (packet.data w) t)
      exact good_handleSendSetup hSynced
    · exact good_silent hSynced

/-! ## Sessions -/

/-- The state after a packet. -/
def afterPacket (w : Wire) (t : OftMetaTransfer) (packet : Packet) : OftMetaTransfer :=
  (socketRead w packet t).1

/-- **Checksums of received files.** In a receive session whose steps all meet
`StepOk`, each `done` sent carries the checksum of the file just completed. -/
theorem done_checksum (w : Wire) (cookie : List UInt8) (files : List String) (dir : String)
    (disk : String → Option (List UInt8)) (lastModified : String → Nat) (packets : List Packet)
    (hOk : Run.StepsMeet (afterPacket w) (StepOk w)
      (receiver cookie files dir disk lastModified) packets) :
    Run.StepsMeet (afterPacket w) (fun t packet => DoneChecksum (socketRead w packet t))
      (receiver cookie files dir disk lastModified) packets :=
  Run.stepsMeet_of_inv (fun _ _ hSynced hStep => good_socketRead hSynced hStep)
    (fun hState => by simp [receiver, initOft] at hState) hOk

/-- The prompt for one of two files that hold the byte `1`. -/
def promptOne (fileName : String) (filesLeft : Nat) : OFT :=
  { initOft with
    type := 0x101
    fileSize := 1
    checksum := 0xFEFF0000
    fileName := fileName
    fileCount := 2
    filesLeft := filesLeft
    totalSize := 2 }

/-- A file that arrives, and one that is already there. -/
theorem done_checksum_two_files :
    Run.StepsMeet (afterPacket ⟨fun _ => [], fun _ => initOft⟩)
      (fun t packet => DoneChecksum (socketRead ⟨fun _ => [], fun _ => initOft⟩ packet t))
      (receiver [] ["a", "b"] "" (Function.update (fun _ => none) "b" (some [1])) fun _ => 0)
      [.oft (promptOne "a" 2), .bytes [1], .oft (promptOne "b" 1)] := by
  refine done_checksum _ _ _ _ _ _ _ ⟨⟨fun _ => ⟨by decide, by decide, by decide⟩, by decide⟩,
    fun _ => by decide, ⟨fun _ => ⟨?_, by decide, by decide⟩, by decide⟩, trivial⟩
  decide

/-- **The second of two new files.** Neither is on disk, and the checksum of the
second starts from that of the first. -/
theorem second_done_continues_first :
    ¬ Run.StepsMeet (afterPacket ⟨fun _ => [], fun _ => initOft⟩)
      (fun t packet => DoneChecksum (socketRead ⟨fun _ => [], fun _ => initOft⟩ packet t))
      (receiver [] ["a", "b"] "" (fun _ => none) fun _ => 0)
      [.oft (promptOne "a" 2), .bytes [1], .oft (promptOne "b" 1), .bytes [1]] := by
  rintro ⟨-, -, -, hDone, -⟩
  have hLast := hDone _ (List.mem_singleton_self _) rfl
  exact absurd hLast (by decide)

end OftMetaTransfer

end Oscar
