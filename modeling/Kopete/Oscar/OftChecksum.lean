import Kopete.Oscar.OftReceive
import Kopete.Oscar.OftTransfer

/-!
# Oscar — one checksum, many chunks

`fileChecksum` reads a file in blocks, `write` sends what the socket takes and
`saveData` gets what has arrived. All three continue `chunkChecksum` over their
own chunks, and the two sides compare the results.

The chunks add up modulo `0xFFFF`, but a chunk ends with a digit, and `0` and
`0xFFFF` are the same residue. Which of them is left depends on the last chunk:
bytes that take exactly what is there leave `0`, more bytes leave `0xFFFF`. So
the chunks do not matter exactly for the byte strings whose weighted sum is not
a multiple of `0xFFFF` above it (`checksumsAgree_iff`).
-/

namespace Oscar

namespace OftMetaTransfer

open EndAround

/-- `chunkChecksum` over one chunk after the other, `processed` bytes into the
file. -/
def checksumFrom (checksum processed : Nat) : List (List UInt8) → Nat
  | [] => checksum
  | chunk :: chunks =>
    checksumFrom (chunkChecksum chunk checksum (processed % 2 == 1)) (processed + chunk.length)
      chunks

/-- Calls of `write`, the socket taking at most `rooms` bytes each. -/
def writeAll (rooms : List Nat) (t : OftMetaTransfer) : OftMetaTransfer :=
  rooms.foldl (fun t room => (write room t).1) t

/-- Calls of `saveData`, with the bytes each one reads. -/
def saveAll (raws : List (List UInt8)) (t : OftMetaTransfer) : OftMetaTransfer :=
  raws.foldl (fun t raw => (saveData raw t).1) t

/-- Every way of taking the checksum of `data` gives the same: any chunks and
one call, the blocks of `fileChecksum`, what a sender writes and what a receiver
saves; and a resume after `n` bytes is not refused. -/
structure ChecksumsAgree (data : List UInt8) : Prop where
  chunks : ∀ chunks : List (List UInt8), chunks.flatten = data →
    checksumFrom 0xFFFF0000 0 chunks = chunkChecksum data 0xFFFF0000 false
  file : fileChecksum data (-1) = chunkChecksum data 0xFFFF0000 false
  sender : ∀ (t : OftMetaTransfer) (rooms : List Nat), t.content t.m_file = data →
    t.m_oft.bytesSent = 0 → t.m_oft.sentChecksum = 0xFFFF0000 →
    (writeAll rooms t).m_oft.bytesSent = data.length →
    (writeAll rooms t).m_oft.sentChecksum = fileChecksum data (-1)
  receiver : ∀ (t : OftMetaTransfer) (raws : List (List UInt8)), raws.flatten = data →
    t.m_oft.bytesSent = 0 → t.m_oft.sentChecksum = 0xFFFF0000 →
    (saveAll raws t).m_oft.sentChecksum = fileChecksum data (-1)
  resume : ∀ n, 0 < n → n ≤ data.length → data.length < 2 ^ 31 →
    fileChecksum data (toInt n) = fileChecksum (data.take n) (-1)

/-! ## All chunks are checksums of the bytes -/

/-- A checksum of the digit `v`, and whatever was subtracted to leave it. -/
theorem checksumFrom_spec {v s : Nat} (hv : Represents (2 ^ 16) v s) (p : Nat)
    (chunks : List (List UInt8)) : ∃ v', checksumFrom (v * 2 ^ 16) p chunks = v' * 2 ^ 16 ∧
      Represents (2 ^ 16) v' (s + weightSum p chunks.flatten) := by
  induction chunks generalizing v s p with
  | nil => exact ⟨v, rfl, hv⟩
  | cons chunk chunks ih =>
    obtain ⟨v', hSum, hRest⟩ := ih (represents_chunk hv p chunk) (p + chunk.length)
    refine ⟨v', by rw [checksumFrom, chunkChecksum_eq (digit_of_mul hv.digit), hSum], ?_⟩
    rwa [Nat.add_assoc, ← weightSum_append, ← List.flatten_cons] at hRest

theorem tracks_checksumFrom {data : List UInt8} {checksum processed : Nat}
    (h : Tracks data checksum) (hp : processed % 2 = data.length % 2)
    (chunks : List (List UInt8)) :
    Tracks (data ++ chunks.flatten) (checksumFrom checksum processed chunks) := by
  obtain ⟨v, rfl, hv⟩ := h
  obtain ⟨v', hSum, hAll⟩ := checksumFrom_spec hv processed chunks
  rw [weightSum_congr (show processed % 2 = (0 + data.length) % 2 by omega),
    ← weightSum_append] at hAll
  exact ⟨v', hSum, hAll⟩

/-- A sender of `data`, and the checksum of what it has sent. -/
structure Sends (data : List UInt8) (t : OftMetaTransfer) : Prop where
  file : t.content t.m_file = data
  sent : t.m_oft.bytesSent ≤ data.length
  checksum : Tracks (data.take t.m_oft.bytesSent) t.m_oft.sentChecksum

theorem sends_write {data : List UInt8} {t : OftMetaTransfer} (room : Nat)
    (hSize : data.length < 2 ^ 32) (h : Sends data t) : Sends data (write room t).1 := by
  unfold write
  split
  · exact h
  · set written := (((t.content t.m_file).drop t.m_oft.bytesSent).take BUFFER_SIZE).take room
      with hWritten
    have hTake : written = (data.drop t.m_oft.bytesSent).take (min room BUFFER_SIZE) := by
      rw [hWritten, h.file, List.take_take]
    have hLength : written.length ≤ data.length - t.m_oft.bytesSent := by
      rw [hTake, List.length_take, List.length_drop]
      omega
    have hSent := h.sent
    have hMod : (t.m_oft.bytesSent + written.length) % 2 ^ 32 =
        t.m_oft.bytesSent + written.length := Nat.mod_eq_of_lt (by omega)
    have hPrefix : data.take t.m_oft.bytesSent ++ written =
        data.take (t.m_oft.bytesSent + written.length) := by
      have hTaken : written = (data.drop t.m_oft.bytesSent).take written.length := by
        rw [hTake, List.length_take, List.take_eq_take_iff]
        omega
      rw [List.take_add, ← hTaken]
    have hNext := h.checksum.chunk (p := t.m_oft.bytesSent) (by
      rw [List.length_take, Nat.min_eq_left hSent]) written
    rw [hPrefix] at hNext
    have hSends : Sends data { t with
        m_oft := { t.m_oft with
          sentChecksum := chunkChecksum written t.m_oft.sentChecksum (t.m_oft.bytesSent % 2 == 1)
          bytesSent := (t.m_oft.bytesSent + written.length) % 2 ^ 32 } } :=
      ⟨h.file, by rw [hMod]; show _ + _ ≤ _; omega, by rw [hMod]; exact hNext⟩
    dsimp only
    split
    · exact ⟨hSends.file, hSends.sent, hSends.checksum⟩
    · exact hSends

theorem sends_writeAll {data : List UInt8} {t : OftMetaTransfer} (rooms : List Nat)
    (hSize : data.length < 2 ^ 32) (h : Sends data t) : Sends data (writeAll rooms t) := by
  induction rooms generalizing t with
  | nil => exact h
  | cons room rooms ih => exact ih (sends_write room hSize h)

/-- The count of bytes is a `DWORD`. -/
theorem writeAll_bytesSent_lt {t : OftMetaTransfer} (rooms : List Nat)
    (h : t.m_oft.bytesSent < 2 ^ 32) : (writeAll rooms t).m_oft.bytesSent < 2 ^ 32 := by
  induction rooms generalizing t with
  | nil => exact h
  | cons room rooms ih =>
    have hStep : (write room t).1.m_oft.bytesSent < 2 ^ 32 := by
      unfold write
      split
      · exact h
      · dsimp only
        split <;> exact Nat.mod_lt _ (by decide)
    exact ih hStep

theorem tracks_saveAll {data : List UInt8} {t : OftMetaTransfer}
    (h : Tracks data t.m_oft.sentChecksum) (hp : t.m_oft.bytesSent % 2 = data.length % 2)
    (raws : List (List UInt8)) :
    Tracks (data ++ raws.flatten) (saveAll raws t).m_oft.sentChecksum := by
  induction raws generalizing data t with
  | nil => simpa [saveAll] using h
  | cons raw raws ih =>
    have hSaved : (saveData raw t).1.m_oft.sentChecksum =
          chunkChecksum raw t.m_oft.sentChecksum (t.m_oft.bytesSent % 2 == 1) ∧
        (saveData raw t).1.m_oft.bytesSent = (t.m_oft.bytesSent + raw.length) % 2 ^ 32 := by
      unfold saveData done sendOft
      dsimp only
      split
      · split <;> split <;> exact ⟨rfl, rfl⟩
      · exact ⟨rfl, rfl⟩
    have hNext : (saveData raw t).1.m_oft.bytesSent % 2 = (data ++ raw).length % 2 := by
      rw [hSaved.2, List.length_append]
      omega
    have hRest := ih (t := (saveData raw t).1) (by rw [hSaved.1]; exact h.chunk hp raw) hNext
    rwa [List.append_assoc, ← List.flatten_cons] at hRest

/-- Where only one digit stands for the sum, everything agrees. -/
theorem checksumsAgree_of_unambiguous {data : List UInt8} (h : Unambiguous data) :
    ChecksumsAgree data where
  chunks := by
    intro chunks hFlatten
    have hChunks := tracks_checksumFrom tracks_nil (show 0 % 2 = 0 from rfl) chunks
    rw [List.nil_append, hFlatten] at hChunks
    exact hChunks.unique (tracks_chunkChecksum data) h
  file := (tracks_fileChecksum data).unique (tracks_chunkChecksum data) h
  sender := by
    intro t rooms hFile hSent hSum hDone
    by_cases hSize : data.length < 2 ^ 32
    · have hStart : Sends data t :=
        ⟨hFile, by omega, by rw [hSent, hSum]; exact tracks_nil⟩
      have hEnd := (sends_writeAll rooms hSize hStart).checksum
      rw [hDone, List.take_length] at hEnd
      exact hEnd.unique (tracks_fileChecksum data) h
    · have hlt := writeAll_bytesSent_lt rooms (show t.m_oft.bytesSent < 2 ^ 32 by omega)
      omega
  receiver := by
    intro t raws hFlatten hSent hSum
    have hSaved := tracks_saveAll (t := t) (by rw [hSum]; exact tracks_nil)
      (by rw [hSent]; rfl) raws
    rw [List.nil_append, hFlatten] at hSaved
    exact hSaved.unique (tracks_fileChecksum data) h
  resume := fun _ hPos hLeft hInt => fileChecksum_prefix hPos hLeft (.inl hInt)

/-! ## From any checksum on -/

/-- Bytes that do not take from the digit `v` a multiple of `0xFFFF` beyond it. -/
def UnambiguousFrom (v p : Nat) (data : List UInt8) : Prop :=
  ¬ (v < weightSum p data ∧ 2 ^ 16 - 1 ∣ weightSum p data - v)

instance (v p : Nat) (data : List UInt8) : Decidable (UnambiguousFrom v p data) :=
  inferInstanceAs (Decidable (¬ (_ ∧ _)))

theorem checksumFrom_unique {v p : Nat} {chunks chunks' : List (List UInt8)} (hv : v < 2 ^ 16)
    (hData : UnambiguousFrom v p chunks.flatten) (hSame : chunks.flatten = chunks'.flatten) :
    checksumFrom (v * 2 ^ 16) p chunks = checksumFrom (v * 2 ^ 16) p chunks' := by
  obtain ⟨w, hSum, hw⟩ := checksumFrom_spec (represents_digit hv) p chunks
  obtain ⟨w', hSum', hw'⟩ := checksumFrom_spec (represents_digit hv) p chunks'
  rw [← hSame] at hw'
  have hSingle : ¬ (2 ^ 16 - 1 ∣ 2 ^ 16 - 1 - v + weightSum p chunks.flatten ∧
      2 ^ 16 - 1 < 2 ^ 16 - 1 - v + weightSum p chunks.flatten) := by
    rintro ⟨hDvd, hMore⟩
    have hBeyond : v < weightSum p chunks.flatten := by omega
    refine hData ⟨hBeyond, ?_⟩
    have hSplit : 2 ^ 16 - 1 - v + weightSum p chunks.flatten =
        2 ^ 16 - 1 + (weightSum p chunks.flatten - v) := by omega
    rw [hSplit] at hDvd
    exact (Nat.dvd_add_right (dvd_refl _)).mp hDvd
  rw [hSum, hSum', hw.unique hw' hSingle]

/-- Chunks without bytes do nothing. -/
theorem checksumFrom_filter {v p : Nat} (hv : v < 2 ^ 16) (chunks : List (List UInt8)) :
    checksumFrom (v * 2 ^ 16) p (chunks.filter (· ≠ [])) = checksumFrom (v * 2 ^ 16) p chunks := by
  induction chunks generalizing v p with
  | nil => rfl
  | cons chunk chunks ih =>
    have hNext := (represents_chunk (represents_digit hv) p chunk).digit
    have hRest := ih hNext (p := p + chunk.length)
    rw [checksumFrom, chunkChecksum_eq (digit_of_mul hv)]
    by_cases hEmpty : chunk = []
    · rw [List.filter_cons_of_neg (by simpa using hEmpty)]
      rw [hEmpty, chunkValues, digest_nil hv] at hRest
      rw [hEmpty, chunkValues, digest_nil hv]
      exact hRest
    · rw [List.filter_cons_of_pos (by simpa using hEmpty), checksumFrom,
        chunkChecksum_eq (digit_of_mul hv)]
      exact hRest

/-! ## Two chunks that disagree -/

/-- The weighted sums of the ends of a file have no wide gaps. -/
theorem exists_end (a p : Nat) (data : List UInt8) (h : a < weightSum p data) :
    ∃ k ≤ data.length, a < weightSum (p + k) (data.drop k) ∧
      weightSum (p + k) (data.drop k) < a + (2 ^ 16 - 1) := by
  induction data generalizing p with
  | nil => exact absurd h (Nat.not_lt_zero a)
  | cons b data ih =>
    by_cases hRest : a < weightSum (p + 1) data
    · obtain ⟨k, hk, hMore, hLess⟩ := ih (p + 1) hRest
      rw [show p + 1 + k = p + (k + 1) by omega] at hMore hLess
      exact ⟨k + 1, Nat.succ_le_succ hk, hMore, hLess⟩
    · refine ⟨0, Nat.zero_le _, h, ?_⟩
      have hb := b.toNat_lt
      simp only [Nat.add_zero, List.drop_zero, weightSum]
      split <;> omega

/-- The digit a first chunk leaves, and what the rest makes of it. -/
theorem checksumFrom_two {v s p k : Nat} {data : List UInt8} (hv : Represents (2 ^ 16) v s)
    (hk : k ≤ data.length) :
    ∃ w, Represents (2 ^ 16) w (s + weightSum p (data.take k)) ∧
      checksumFrom (v * 2 ^ 16) p [data.take k, data.drop k] =
        digest (2 ^ 16) w (chunkValues ((p + k) % 2) 0 (data.drop k)) * 2 ^ 16 := by
  have hFirst := represents_chunk hv p (data.take k)
  refine ⟨_, hFirst, ?_⟩
  rw [checksumFrom, checksumFrom, checksumFrom, chunkChecksum_eq (digit_of_mul hv.digit),
    List.length_take_of_le hk, chunkChecksum_eq (digit_of_mul hFirst.digit)]

/-- The digit a first chunk leaves, from the sum `T` of what is still to come. -/
theorem first_digit {w s T : Nat} (hw : Represents (2 ^ 16) w s) (hAll : 2 ^ 16 - 1 ∣ s + T) :
    w ≡ T [MOD 2 ^ 16 - 1] := by
  have hZero : s + T ≡ 0 [MOD 2 ^ 16 - 1] := (Nat.modEq_zero_iff_dvd).mpr hAll
  have hSame : w + s ≡ T + s [MOD 2 ^ 16 - 1] := by
    rw [Nat.add_comm T s]
    exact hw.residue.trans hZero.symm
  exact Nat.ModEq.add_right_cancel' s hSame

/-- **A multiple of `0xFFFF`.** Two ways of cutting the bytes disagree: a last chunk
that takes exactly the digit that is left, and one that takes more. -/
theorem exists_disagree {v p : Nat} {data : List UInt8} (hv : v < 2 ^ 16)
    (h : ¬ UnambiguousFrom v p data) :
    ∃ chunks chunks' : List (List UInt8), chunks.flatten = data ∧ chunks'.flatten = data ∧
      checksumFrom (v * 2 ^ 16) p chunks ≠ checksumFrom (v * 2 ^ 16) p chunks' := by
  obtain ⟨hMore, hDvd⟩ := not_not.mp h
  have hStart := represents_digit hv
  have hAll : 2 ^ 16 - 1 ∣ 2 ^ 16 - 1 - v + weightSum p data := by
    have hSplit : 2 ^ 16 - 1 - v + weightSum p data = 2 ^ 16 - 1 + (weightSum p data - v) := by
      omega
    rw [hSplit]
    exact (Nat.dvd_add_right (dvd_refl _)).mpr hDvd
  have hSplit (k : Nat) (hk : k ≤ data.length) :
      weightSum p (data.take k) + weightSum (p + k) (data.drop k) = weightSum p data := by
    have hSum := weightSum_append p (data.take k) (data.drop k)
    rwa [List.take_append_drop, List.length_take_of_le hk, eq_comm] at hSum
  have hValues (k : Nat) : (chunkValues ((p + k) % 2) 0 (data.drop k)).sum =
      weightSum (p + k) (data.drop k) := sum_chunkValues (p + k) 0 (data.drop k)
  -- the last bytes take exactly the digit that is left
  obtain ⟨k, hk, hPos, hSmall⟩ := exists_end 0 p data (by omega)
  obtain ⟨w, hw, hZero⟩ := checksumFrom_two (p := p) hStart hk
  have hDigit : weightSum (p + k) (data.drop k) = w := by
    have hMod := first_digit hw (T := weightSum (p + k) (data.drop k))
      (by rwa [Nat.add_assoc, hSplit k hk])
    have hlt := hw.digit
    unfold Nat.ModEq at hMod
    omega
  rw [digest_eq_zero (by decide) hw.digit (fun _ => chunkValues_lt)
    ((hValues k).trans hDigit), Nat.zero_mul] at hZero
  -- some more of them take more than that
  obtain ⟨k', hk', hLess, hMany⟩ : ∃ k' ≤ data.length,
      weightSum (p + k') (data.drop k') < 2 ^ 17 ∧
        ∀ w', Represents (2 ^ 16) w' (2 ^ 16 - 1 - v + weightSum p (data.take k')) →
          w' < weightSum (p + k') (data.drop k') := by
    by_cases hWide : 2 ^ 16 - 1 < weightSum p data
    · obtain ⟨k', hk', hPos', hSmall'⟩ := exists_end (2 ^ 16 - 1) p data hWide
      refine ⟨k', hk', by omega, fun w' hw' => ?_⟩
      have hlt := hw'.digit
      omega
    · have hLeast := Nat.le_of_dvd (by omega) hDvd
      refine ⟨0, Nat.zero_le _, ?_, fun w' hw' => ?_⟩
      · rw [Nat.add_zero, List.drop_zero]
        omega
      · rw [List.take_zero, weightSum] at hw'
        have hNothing := hw'.exact (by omega)
        rw [Nat.add_zero, List.drop_zero]
        omega
  obtain ⟨w', hw', hRest⟩ := checksumFrom_two (p := p) hStart hk'
  have hBeyond := hMany w' hw'
  have hNonzero := digest_ne_zero (v := w') (B := 2 ^ 16) (by decide) (fun _ => chunkValues_lt)
    (by rw [hValues k']; omega) (by rw [hValues k']; omega)
  refine ⟨[data.take k, data.drop k], [data.take k', data.drop k'], by simp, by simp, ?_⟩
  rw [hZero, hRest]
  exact (Nat.mul_ne_zero hNonzero (by decide)).symm

/-- A new checksum has the largest digit. -/
theorem unambiguousFrom_max {data : List UInt8} :
    UnambiguousFrom (2 ^ 16 - 1) 0 data ↔ Unambiguous data := by
  refine not_congr ⟨fun ⟨hMore, hDvd⟩ => ⟨?_, hMore⟩, fun ⟨hDvd, hMore⟩ => ⟨hMore, ?_⟩⟩
  · have hSum := Nat.dvd_add hDvd (dvd_refl (2 ^ 16 - 1))
    rwa [Nat.sub_add_cancel hMore.le] at hSum
  · exact Nat.dvd_sub hDvd (dvd_refl _)

/--
**Chunks do not matter exactly off the multiples of `0xFFFF`.** For every byte
string, all ways of taking its checksum agree if and only if its weighted sum is
not a multiple of `0xFFFF` above `0xFFFF`.
-/
theorem checksumsAgree_iff (data : List UInt8) : ChecksumsAgree data ↔ Unambiguous data := by
  constructor
  · intro hAgree
    by_contra hData
    obtain ⟨chunks, chunks', hFlatten, hFlatten', hne⟩ :=
      exists_disagree (v := 2 ^ 16 - 1) (p := 0) (by decide) (mt unambiguousFrom_max.mp hData)
    exact hne ((hAgree.chunks chunks hFlatten).trans (hAgree.chunks chunks' hFlatten').symm)
  · exact checksumsAgree_of_unambiguous

/-- Four bytes `FF`: one call leaves `0xFFFF0000`, three bytes and one leave `0`. -/
theorem checksums_disagree : ¬ ChecksumsAgree [0xFF, 0xFF, 0xFF, 0xFF] := by
  intro h
  have hSame := h.chunks [[0xFF, 0xFF, 0xFF], [0xFF]] rfl
  exact absurd hSame (by decide)

end OftMetaTransfer

end Oscar
