import Kopete.Oscar.OftReceive

/-!
# Oscar — a receiver that waits is owed bytes

`Receiving` is left from inside `saveData` alone, which the next bytes of the
file call. A receiver that enters it with nothing left to receive waits for
bytes that the sender, who has closed the file, never sends.

A resume is asked for below the announced size, and the whole file from `0`; so
this happens with an announced size of `0`, and then always: the test for a file
that is already there wants `m_file.size() > 0` (`progresses_iff`).
-/

namespace Oscar

namespace OftMetaTransfer

/-- The bytes of a file, as they are read. -/
def readAll (w : Wire) (raws : List (List UInt8)) (t : OftMetaTransfer) : OftMetaTransfer :=
  raws.foldl (fun t raw => afterPacket w t (.bytes raw)) t

/-- A receiver of file data is owed some, and sends `done` when it has all of
it, in whatever pieces it is read. -/
def Progresses (w : Wire) (t : OftMetaTransfer) : Prop :=
  t.m_state = .Receiving → t.m_oft.bytesSent < t.m_oft.fileSize ∧
    ∀ raws : List (List UInt8), (∀ raw ∈ raws, raw ≠ []) →
      t.m_oft.bytesSent + raws.flatten.length = t.m_oft.fileSize →
      (readAll w raws t).m_oft.type = 0x204 ∧ (readAll w raws t).m_state ≠ .Receiving

/-- What a sender of this code may send a receiver: bytes while it receives,
else a prompt, which starts at byte 0, or an answer to a resume. -/
def FromSender (w : Wire) (t : OftMetaTransfer) (packet : Packet) : Prop :=
  t.m_state ≠ .Receiving →
    ((packet.data w).type = 0x101 ∧ (packet.data w).bytesSent = 0 ∧
        (packet.data w).fileSize < 2 ^ 32) ∨
      ((packet.data w).type = 0x106 ∧ t.m_oft.type = 0x205)

/-- The condition on a step: no prompt that is taken announces an empty file. -/
def NonEmptyPrompt (w : Wire) (t : OftMetaTransfer) (packet : Packet) : Prop :=
  t.m_state = .SetupReceive → (packet.data w).type = 0x101 → (packet.data w).fileSize ≠ 0

/-! ## Invariant -/

/-- A receiver that receives or has asked for a resume is short of some bytes. -/
structure Owed (t : OftMetaTransfer) : Prop where
  receives : t.m_state = .Receiving ∨ t.m_state = .SetupReceive ∨ t.m_state = .Done
  size : t.m_oft.fileSize < 2 ^ 32
  short : t.m_state = .Receiving ∨ (t.m_state = .SetupReceive ∧ t.m_oft.type = 0x205) →
    t.m_oft.bytesSent < t.m_oft.fileSize

/-- `done` ends the file. -/
theorem done_spec (t : OftMetaTransfer) :
    (done t).1.m_oft.type = 0x204 ∧ (done t).1.m_oft.fileSize = t.m_oft.fileSize ∧
      ((done t).1.m_state = .SetupReceive ∨ (done t).1.m_state = .Done) := by
  unfold done sendOft
  dsimp only
  split <;> split <;> simp

theorem owed_done {t : OftMetaTransfer} (hSize : t.m_oft.fileSize < 2 ^ 32) :
    Owed (done t).1 := by
  obtain ⟨hType, hSame, hState⟩ := done_spec t
  refine ⟨.inr hState, by rwa [hSame], ?_⟩
  rintro (hReceiving | ⟨-, hResume⟩)
  · rcases hState with hState | hState <;> rw [hState] at hReceiving <;> cases hReceiving
  · rw [hType] at hResume
    cases hResume

theorem owed_ack {t : OftMetaTransfer} (hSize : t.m_oft.fileSize < 2 ^ 32)
    (hShort : t.m_oft.bytesSent < t.m_oft.fileSize) : Owed (ack t).1 :=
  ⟨.inl rfl, hSize, fun _ => hShort⟩

theorem owed_rAck {t : OftMetaTransfer} (hSize : t.m_oft.fileSize < 2 ^ 32)
    (hShort : t.m_oft.bytesSent < t.m_oft.fileSize) : Owed (rAck t).1 :=
  ⟨.inl rfl, hSize, fun _ => hShort⟩

theorem owed_handleReceiveSetup {oft : OFT} {t : OftMetaTransfer}
    (hState : t.m_state = .SetupReceive) (hStart : oft.bytesSent = 0)
    (hSize : oft.fileSize < 2 ^ 32) (hNonzero : oft.fileSize ≠ 0) :
    Owed (handleReceiveSetup oft t).1 := by
  have hShort : oft.bytesSent < oft.fileSize := by omega
  rcases handleReceiveSetup_cases oft hState with
    ⟨-, hPartial, hResult⟩ | ⟨-, -, hResult⟩ | ⟨-, hResult⟩ | ⟨-, hResult⟩ <;> rw [hResult]
  · refine ⟨.inr (.inl hState), hSize, fun _ => ?_⟩
    show (takePrompt oft t).fileSize % 2 ^ 32 < oft.fileSize
    omega
  · exact owed_done hSize
  · exact owed_ack hSize hShort
  · exact owed_ack hSize hShort

theorem owed_handleReceiveResumeSetup {oft : OFT} {t : OftMetaTransfer} (h : Owed t)
    (hState : t.m_state = .SetupReceive) (hResume : t.m_oft.type = 0x205) :
    Owed (handleReceiveResumeSetup oft t).1 := by
  have hShort := h.short (.inr ⟨hState, hResume⟩)
  unfold handleReceiveResumeSetup
  rw [if_neg (not_not.mpr hState)]
  split
  · exact owed_rAck h.size hShort
  · exact owed_rAck h.size (Nat.zero_lt_of_lt hShort)

theorem owed_saveData {raw : List UInt8} {t : OftMetaTransfer} (h : Owed t)
    (hState : t.m_state = .Receiving) : Owed (saveData raw t).1 := by
  unfold saveData
  dsimp only
  split
  · exact owed_done h.size
  · rename_i hLess
    exact ⟨.inl hState, h.size, fun _ => not_le.mp hLess⟩

/-- Nothing but a prompt or a resume is answered. -/
theorem readOft_fromSender {w : Wire} {t : OftMetaTransfer} {packet : Packet}
    (hState : t.m_state ≠ .Receiving) (hAdm : FromSender w t packet) :
    ((packet.data w).type = 0x101 ∧ (packet.data w).bytesSent = 0 ∧
        (packet.data w).fileSize < 2 ^ 32 ∧
        afterPacket w t packet = (handleReceiveSetup (packet.data w) t).1) ∨
      (t.m_oft.type = 0x205 ∧
        afterPacket w t packet = (handleReceiveResumeSetup (packet.data w) t).1) := by
  unfold afterPacket socketRead
  rw [if_neg hState]
  rcases hAdm hState with ⟨hType, hStart, hSize⟩ | ⟨hType, hResume⟩
  · exact .inl ⟨hType, hStart, hSize, by simp only [readOft, hType]⟩
  · exact .inr ⟨hResume, by simp only [readOft, hType]⟩

theorem owed_afterPacket {w : Wire} {t : OftMetaTransfer} {packet : Packet} (h : Owed t)
    (hAdm : FromSender w t packet) (hOk : NonEmptyPrompt w t packet) :
    Owed (afterPacket w t packet) := by
  by_cases hState : t.m_state = .Receiving
  · unfold afterPacket socketRead
    rw [if_pos hState]
    exact owed_saveData h hState
  · rcases readOft_fromSender hState hAdm with
      ⟨hType, hStart, hSize, hResult⟩ | ⟨hResume, hResult⟩ <;> rw [hResult]
    · by_cases hSetup : t.m_state = .SetupReceive
      · exact owed_handleReceiveSetup hSetup hStart hSize (hOk hSetup hType)
      · rw [handleReceiveSetup, if_pos hSetup]
        exact h
    · by_cases hSetup : t.m_state = .SetupReceive
      · exact owed_handleReceiveResumeSetup h hSetup hResume
      · rw [handleReceiveResumeSetup, if_pos hSetup]
        exact h

/-! ## Progress -/

/-- The rest of the file ends in `done`. -/
theorem done_of_rest {w : Wire} {t : OftMetaTransfer} (hState : t.m_state = .Receiving)
    (hShort : t.m_oft.bytesSent < t.m_oft.fileSize) (hSize : t.m_oft.fileSize < 2 ^ 32)
    {raws : List (List UInt8)} (hRaws : ∀ raw ∈ raws, raw ≠ [])
    (hAll : t.m_oft.bytesSent + raws.flatten.length = t.m_oft.fileSize) :
    (readAll w raws t).m_oft.type = 0x204 ∧ (readAll w raws t).m_state ≠ .Receiving := by
  induction raws generalizing t with
  | nil =>
    rw [List.flatten_nil, List.length_nil] at hAll
    omega
  | cons raw raws ih =>
    rw [List.flatten_cons, List.length_append] at hAll
    have hSum : (t.m_oft.bytesSent + raw.length) % 2 ^ 32 = t.m_oft.bytesSent + raw.length :=
      Nat.mod_eq_of_lt (by omega)
    have hStep : afterPacket w t (.bytes raw) = (saveData raw t).1 := by
      rw [afterPacket, socketRead, if_pos hState]
      rfl
    by_cases hLast : raws.flatten.length = 0
    · have hNil : raws = [] := by
        cases raws with
        | nil => rfl
        | cons r raws =>
          have hne := List.length_pos_iff.mpr (hRaws r (by simp))
          rw [List.flatten_cons, List.length_append] at hLast
          omega
      obtain ⟨u, hDone⟩ : ∃ u, (saveData raw t).1 = (done u).1 := by
        unfold saveData
        dsimp only
        rw [if_pos (by rw [hSum]; omega)]
        exact ⟨_, rfl⟩
      have hRead : readAll w (raw :: raws) t = (done u).1 := by
        rw [hNil, ← hDone, ← hStep]
        rfl
      obtain ⟨hType, -, hEnd⟩ := done_spec u
      rw [hRead]
      exact ⟨hType, by rcases hEnd with hEnd | hEnd <;> simp [hEnd]⟩
    · set u := (saveData raw t).1 with hu
      have hNext : u.m_state = .Receiving ∧
          u.m_oft.bytesSent = t.m_oft.bytesSent + raw.length ∧
          u.m_oft.fileSize = t.m_oft.fileSize := by
        rw [hu]
        unfold saveData
        dsimp only
        rw [hSum, if_neg (by omega)]
        exact ⟨hState, rfl, rfl⟩
      obtain ⟨hReceiving, hSent, hSame⟩ := hNext
      have hRest := ih hReceiving (by omega) (by omega)
        (fun r hr => hRaws r (List.mem_cons_of_mem _ hr)) (by omega)
      have hRead : readAll w (raw :: raws) t = readAll w raws u := by
        show readAll w raws (afterPacket w t (.bytes raw)) = _
        rw [hStep]
      rw [hRead]
      exact hRest

theorem Owed.progresses {w : Wire} {t : OftMetaTransfer} (h : Owed t) : Progresses w t := by
  intro hState
  have hShort := h.short (.inl hState)
  exact ⟨hShort, fun _ hRaws hAll => done_of_rest hState hShort h.size hRaws hAll⟩

/-- A prompt for an empty file is acknowledged, and nothing will follow. -/
theorem not_progresses_of_empty {w : Wire} {oft : OFT} {t : OftMetaTransfer}
    (hState : t.m_state = .SetupReceive) (hEmpty : oft.fileSize = 0) :
    ¬ Progresses w (handleReceiveSetup oft t).1 := by
  have hTarget : ¬ (0 < (takePrompt oft t).fileSize ∧ (takePrompt oft t).fileSize ≤ oft.fileSize) := by
    omega
  have hAck : handleReceiveSetup oft t = ack ((takePrompt oft t).setContent []) := by
    rw [handleReceiveSetup, if_neg (not_not.mpr hState)]
    exact if_neg hTarget
  rw [hAck]
  intro h
  have hShort : oft.bytesSent < oft.fileSize := (h rfl).1
  omega

/--
**Progress of a receiver.** Along every run of prompts, answers to resumes and
file data, the receiver is owed bytes whenever it receives, and reports done
when it has them, if and only if no prompt it takes announces an empty file.
-/
theorem progresses_iff (w : Wire) (cookie : List UInt8) (files : List String) (dir : String)
    (disk : String → Option (List UInt8)) (lastModified : String → Nat) (packets : List Packet)
    (hAdm : Run.StepsMeet (afterPacket w) (FromSender w)
      (receiver cookie files dir disk lastModified) packets) :
    (∀ t ∈ Run.states (afterPacket w) (receiver cookie files dir disk lastModified) packets,
      Progresses w t) ↔
      Run.StepsMeet (afterPacket w) (NonEmptyPrompt w)
        (receiver cookie files dir disk lastModified) packets := by
  have hNeeds (t : OftMetaTransfer) (packet : Packet) (_ : Owed t) (_ : FromSender w t packet)
      (hProgresses : Progresses w (afterPacket w t packet)) : NonEmptyPrompt w t packet := by
    intro hSetup hType hEmpty
    have hStep : afterPacket w t packet = (handleReceiveSetup (packet.data w) t).1 := by
      rw [afterPacket, socketRead, if_neg (by simp [hSetup])]
      simp only [readOft, hType]
    rw [hStep] at hProgresses
    exact not_progresses_of_empty hSetup hEmpty hProgresses
  have hKeeps (t : OftMetaTransfer) (packet : Packet) (h : Owed t) (hFrom : FromSender w t packet)
      (hOk : NonEmptyPrompt w t packet) : Owed (afterPacket w t packet) :=
    owed_afterPacket h hFrom hOk
  have hStart : Owed (receiver cookie files dir disk lastModified) := by
    refine ⟨.inr (.inl rfl), by simp [receiver, initOft], ?_⟩
    rintro (hState | ⟨-, hType⟩)
    · cases hState
    · cases hType
  exact Run.holds_iff_of_adm (fun _ h => h.progresses) hNeeds hKeeps hStart hAdm

/-- A file of two bytes. -/
theorem progresses_two_bytes :
    (∀ t ∈ Run.states (afterPacket ⟨fun _ => [], fun _ => initOft⟩)
        (receiver [] ["a"] "" (fun _ => none) fun _ => 0)
        [.oft { initOft with type := 0x101, fileSize := 2 }, .bytes [1], .bytes [2]],
      Progresses ⟨fun _ => [], fun _ => initOft⟩ t) ↔
      Run.StepsMeet (afterPacket ⟨fun _ => [], fun _ => initOft⟩)
        (NonEmptyPrompt ⟨fun _ => [], fun _ => initOft⟩)
        (receiver [] ["a"] "" (fun _ => none) fun _ => 0)
        [.oft { initOft with type := 0x101, fileSize := 2 }, .bytes [1], .bytes [2]] := by
  refine progresses_iff _ _ _ _ _ _ _ ⟨fun _ => .inl ⟨rfl, rfl, by decide⟩, ?_, ?_, trivial⟩
  · exact fun hState => absurd (by decide) hState
  · exact fun hState => absurd (by decide) hState

/-- The prompt for an empty file is answered with an `ack`. -/
theorem empty_file_waits :
    ¬ ∀ t ∈ Run.states (afterPacket ⟨fun _ => [], fun _ => initOft⟩)
        (receiver [] ["a"] "" (fun _ => none) fun _ => 0)
        [.oft { initOft with type := 0x101 }],
      Progresses ⟨fun _ => [], fun _ => initOft⟩ t := by
  intro h
  have hWaits : Progresses ⟨fun _ => [], fun _ => initOft⟩
      (handleReceiveSetup { initOft with type := 0x101 }
        (receiver [] ["a"] "" (fun _ => none) fun _ => 0)).1 := h _ (Run.foldl_mem_states _ _)
  exact not_progresses_of_empty rfl rfl hWaits

end OftMetaTransfer

end Oscar
