import Kopete.Lib.Countdown
import Kopete.Lib.Run
import Mathlib

/-!
# Security layers

What an application writes to a stream goes down through its layers, each of which puts out blocks of
another size than what has been written to it. What has been written of the lowest layer's blocks is
told from below, and each layer works out how much of its own input that is.

Main results:

* `chain_finishedUp` — on the way down nothing is counted twice or not at all;
* `pending_of_run` — what is pending is what is not encoded yet, or in blocks that are not written to
  the end, if a layer is only added, and a handshake only done, when nothing is under way;
* `reported_of_compression` — once a stream is compressed nothing is reported as written.
-/

namespace XMPP

open Countdown

/-! ## One layer -/

/-- `LayerTracker`: the bytes that are not in a block yet, and for each block the bytes that are in
it, and how much of it is left to be written. -/
structure LayerTracker where
  p : Nat
  list : List (Item Nat)
deriving DecidableEq

namespace LayerTracker

variable (t : LayerTracker)

/-- `LayerTracker::addPlain`. -/
def addPlain (plain : Nat) : LayerTracker := { t with p := t.p + plain }

/-- `LayerTracker::specifyEncoded`. -/
def specifyEncoded (encoded plain : Nat) : LayerTracker :=
  let plain := if plain > t.p then t.p else plain
  { p := t.p - plain, list := t.list ++ [⟨plain, encoded⟩] }

/-- `LayerTracker::finished`. -/
def finished (encoded : Nat) : Nat × LayerTracker :=
  let (done, rest) := finish encoded t.list
  ((done.map Item.value).sum, { t with list := rest })

/-- The bytes that have been written to the layer and not been finished. -/
def plain : Nat := t.p + (t.list.map Item.value).sum

end LayerTracker

/-- The kinds of a `SecureLayer`. -/
inductive LayerType where
  | TLS
  | SASL
  | TLSH
  | Compression
deriving DecidableEq

/-- `SecureLayer`. -/
structure SecureLayer where
  type : LayerType
  layer : LayerTracker
  tls_done : Bool
  prebytes : Int
deriving DecidableEq

namespace SecureLayer

variable (l : SecureLayer)

/-- `SecureLayer::write`, up to what the layer puts out. -/
def write (n : Nat) : SecureLayer := { l with layer := l.layer.addPlain n }

/-- A block is put out: `tls_readyReadOutgoing` and the like. -/
def readyReadOutgoing (encoded plain : Nat) : SecureLayer :=
  if (l.type = .SASL ∨ l.type = .Compression) ∨ l.tls_done then
    { l with layer := l.layer.specifyEncoded encoded plain }
  else l

/-- `SecureLayer::finished`. -/
def finished (plain : Nat) : Nat × SecureLayer :=
  let (written, plain, l) :=
    if l.prebytes > 0 then
      if l.prebytes ≥ plain then (plain, 0, { l with prebytes := l.prebytes - plain })
      else (l.prebytes.toNat, plain - l.prebytes.toNat, { l with prebytes := 0 })
    else (0, plain, l)
  if l.type = .SASL ∨ l.tls_done then
    let (n, layer) := l.layer.finished plain
    (written + n, { l with layer := layer })
  else (written, l)

/-- What the layer has put out is in its tracker. -/
def Tracked : Prop := l.type = .SASL ∨ l.tls_done = true

instance : Decidable l.Tracked := inferInstanceAs (Decidable (_ ∨ _))

end SecureLayer

/-! ## The stream -/

/-- Bytes go down from the application: what comes out below, and the layers, the lowest one
first. -/
def writeDown (n : Nat) : List SecureLayer → Nat × List SecureLayer
  | [] => (n, [])
  | l :: layers =>
    let (down, layers) := writeDown n layers
    (0, l.write down :: layers)

/-- The layer at a place puts out a block, which goes to the one below: what comes out below all of
them, and the layers. -/
def putDown : Nat → Nat → Nat → List SecureLayer → Nat × List SecureLayer
  | _, _, _, [] => (0, [])
  | 0, encoded, plain, l :: layers => (encoded, l.readyReadOutgoing encoded plain :: layers)
  | i + 1, encoded, plain, l :: layers =>
    let (down, layers) := putDown i encoded plain layers
    (0, l.write down :: layers)

/-- The loop of `SecureStream::bs_bytesWritten`: what comes out above, and the layers. -/
def finishedUp : Nat → List SecureLayer → Nat × List SecureLayer
  | n, [] => (n, [])
  | n, l :: layers =>
    let (n, l) := l.finished n
    let (n, layers) := finishedUp n layers
    (n, l :: layers)

/-- The layer on top is done with its handshake: `tls_handshaken`. -/
def handshaken : List SecureLayer → List SecureLayer
  | [] => []
  | [l] => [{ l with tls_done := true }]
  | l :: l' :: layers => l :: handshaken (l' :: layers)

/-- `SecureStream`, with the bytes that have been given to the stream below and not been reported by
it, and all that has been written to it and reported to the application. -/
structure SecureStream where
  layers : List SecureLayer
  pending : Int
  topInProgress : Bool
  below : Nat
  written : Nat
  reported : Nat
deriving DecidableEq

/-- What happens to a stream. -/
inductive StreamOp where
  | write (n : Nat)
  | readyReadOutgoing (i encoded plain : Nat)
  | bytesWritten (n : Nat)
  | startTLS (handler : Bool)
  | tlsHandshaken
  | setLayerSASL
  | setLayerCompress
deriving DecidableEq

namespace SecureStream

variable (s : SecureStream)

/-- `SecureStream::write`. -/
def write (n : Nat) : SecureStream :=
  let (down, layers) := writeDown n s.layers
  { s with
    layers := layers
    pending := s.pending + n
    below := s.below + down
    written := s.written + n }

/-- A layer puts out a block: `SecureStream::layer_needWrite`. -/
def readyReadOutgoing (i encoded plain : Nat) : SecureStream :=
  let (down, layers) := putDown i encoded plain s.layers
  { s with layers := layers, below := s.below + down }

/-- `SecureStream::bs_bytesWritten`. -/
def bytesWritten (n : Nat) : SecureStream :=
  let (m, layers) := finishedUp n s.layers
  { s with
    layers := layers
    pending := s.pending - m
    below := s.below - n
    reported := s.reported + m }

/-- `SecureStream::calcPrebytes`. -/
def calcPrebytes : Int := s.pending - (s.layers.map SecureLayer.prebytes).sum

/-- There is a layer of one of these kinds. -/
def have_ (types : List LayerType) : Bool := s.layers.any fun l => types.contains l.type

/-- A layer is put on top. -/
def append (type : LayerType) : SecureStream :=
  { s with layers := s.layers ++ [⟨type, ⟨0, []⟩, false, s.calcPrebytes⟩] }

/-- `SecureStream::startTLSClient` and `startTLSServer`. -/
def startTLS (handler : Bool) : SecureStream :=
  if s.topInProgress || s.have_ [.TLS, .TLSH] then s
  else { s.append (if handler then .TLSH else .TLS) with topInProgress := true }

/-- `SecureStream::layer_tlsHandshaken`. -/
def tlsHandshaken : SecureStream :=
  if s.topInProgress then
    { s with
      layers := handshaken s.layers
      topInProgress := false }
  else s

/-- `SecureStream::setLayerSASL`. -/
def setLayerSASL : SecureStream :=
  if s.topInProgress || s.have_ [.SASL] then s else s.append .SASL

/-- `SecureStream::setLayerCompress`. -/
def setLayerCompress : SecureStream :=
  if s.topInProgress || s.have_ [.Compression] then s else s.append .Compression

def step (s : SecureStream) : StreamOp → SecureStream
  | .write n => s.write n
  | .readyReadOutgoing i encoded plain => s.readyReadOutgoing i encoded plain
  | .bytesWritten n => s.bytesWritten n
  | .startTLS handler => s.startTLS handler
  | .tlsHandshaken => s.tlsHandshaken
  | .setLayerSASL => s.setLayerSASL
  | .setLayerCompress => s.setLayerCompress

end SecureStream

/-! ## On the way down -/

namespace LayerTracker

variable (t : LayerTracker)

theorem plain_specifyEncoded (encoded plain : Nat) :
    (t.specifyEncoded encoded plain).plain = t.plain ∧
      total (t.specifyEncoded encoded plain).list = total t.list + encoded := by
  unfold specifyEncoded LayerTracker.plain
  simp only [List.map_append, List.map_cons, List.map_nil, List.sum_append, List.sum_cons,
    List.sum_nil, total_append, total_cons, total_nil, Nat.add_zero, and_true]
  split <;> omega

theorem plain_finished (n : Nat) :
    (t.finished n).1 + (t.finished n).2.plain = t.plain ∧
      total (t.finished n).2.list = total t.list - n := by
  refine ⟨?_, total_rest n t.list⟩
  show ((finish n t.list).1.map Item.value).sum +
    (t.p + ((finish n t.list).2.map Item.value).sum) = t.p + (t.list.map Item.value).sum
  rw [← values_finish n t.list, List.sum_append]
  omega

end LayerTracker

/-- The layers agree: with `below` bytes under way below them, what is left of the blocks of a layer
is what the one below it holds, and the bytes the top one holds are pending. A layer whose handshake
is not done is on top, and has put out no block of what has been written to it. -/
def Chain : Nat → List SecureLayer → Int → Prop
  | below, [], pending => pending = below
  | below, l :: layers, pending =>
    l.type ≠ .Compression ∧ l.prebytes = 0 ∧ (∀ i ∈ l.layer.list, 0 < i.left) ∧
      if l.Tracked then total l.layer.list = below ∧ Chain l.layer.plain layers pending
      else l.layer.list = [] ∧ layers = [] ∧ pending = l.layer.p

/-- What the layer on top has put out, and is under way. -/
def handedDown : Nat → List SecureLayer → Nat
  | below, [] | below, [_] => below
  | _, l :: l' :: layers => handedDown l.layer.plain (l' :: layers)

variable {below : Nat} {l : SecureLayer} {layers : List SecureLayer} {pending : Int}

theorem chain_cons_tracked (hTracked : l.Tracked) : Chain below (l :: layers) pending ↔
    l.type ≠ .Compression ∧ l.prebytes = 0 ∧ (∀ i ∈ l.layer.list, 0 < i.left) ∧
      total l.layer.list = below ∧ Chain l.layer.plain layers pending := by
  rw [Chain, if_pos hTracked]

theorem chain_cons_untracked (hTracked : ¬ l.Tracked) : Chain below (l :: layers) pending ↔
    l.type ≠ .Compression ∧ l.prebytes = 0 ∧ (∀ i ∈ l.layer.list, 0 < i.left) ∧
      l.layer.list = [] ∧ layers = [] ∧ pending = l.layer.p := by
  rw [Chain, if_neg hTracked]

theorem chain_writeDown (n : Nat) (h : Chain below layers pending) :
    Chain (below + (writeDown n layers).1) (writeDown n layers).2 (pending + n) := by
  induction layers generalizing below with
  | nil =>
    show pending + n = ((below + n : Nat) : Int)
    rw [h, Nat.cast_add]
  | cons l layers ih =>
    by_cases hTracked : l.Tracked
    · obtain ⟨hType, hPre, hPos, hTotal, hRest⟩ := (chain_cons_tracked hTracked).mp h
      refine (chain_cons_tracked (l := l.write (writeDown n layers).1) hTracked).mpr
        ⟨hType, hPre, hPos, hTotal, ?_⟩
      have hPlain : (l.write (writeDown n layers).1).layer.plain =
          l.layer.plain + (writeDown n layers).1 := by
        unfold SecureLayer.write LayerTracker.addPlain LayerTracker.plain
        exact Nat.add_right_comm _ _ _
      rw [hPlain]
      exact ih hRest
    · obtain ⟨hType, hPre, hPos, hList, rfl, hPending⟩ := (chain_cons_untracked hTracked).mp h
      refine (chain_cons_untracked (l := l.write n) hTracked).mpr
        ⟨hType, hPre, hPos, hList, rfl, ?_⟩
      rw [hPending]
      exact (Nat.cast_add _ _).symm

theorem putDown_nil (i encoded plain : Nat) : putDown i encoded plain [] = (0, []) := by
  rw [putDown]

theorem chain_putDown {encoded : Nat} (hEncoded : 0 < encoded) (plain i : Nat)
    (h : Chain below layers pending) :
    Chain (below + (putDown i encoded plain layers).1) (putDown i encoded plain layers).2
      pending := by
  induction layers generalizing below i with
  | nil =>
    rw [putDown_nil]
    exact h
  | cons l layers ih =>
    by_cases hTracked : l.Tracked
    · obtain ⟨hType, hPre, hPos, hTotal, hRest⟩ := (chain_cons_tracked hTracked).mp h
      cases i with
      | zero =>
        have hPut : l.readyReadOutgoing encoded plain =
            { l with layer := l.layer.specifyEncoded encoded plain } :=
          if_pos (hTracked.imp_left Or.inl)
        obtain ⟨hPlain, hMore⟩ := l.layer.plain_specifyEncoded encoded plain
        rw [putDown, hPut]
        refine (chain_cons_tracked
          (l := { l with layer := l.layer.specifyEncoded encoded plain }) hTracked).mpr
          ⟨hType, hPre, fun i hi => ?_, ?_, ?_⟩
        · rcases List.mem_append.mp hi with hOld | hNew
          · exact hPos i hOld
          · rw [List.mem_singleton.mp hNew]
            exact hEncoded
        · rw [hMore, hTotal]
        · rw [hPlain]
          exact hRest
      | succ i =>
        refine (chain_cons_tracked (l := l.write (putDown i encoded plain layers).1) hTracked).mpr
          ⟨hType, hPre, hPos, hTotal, ?_⟩
        have hPlain : (l.write (putDown i encoded plain layers).1).layer.plain =
            l.layer.plain + (putDown i encoded plain layers).1 := by
          unfold SecureLayer.write LayerTracker.addPlain LayerTracker.plain
          exact Nat.add_right_comm _ _ _
        rw [hPlain]
        exact ih i hRest
    · obtain ⟨hType, hPre, hPos, hList, rfl, hPending⟩ := (chain_cons_untracked hTracked).mp h
      cases i with
      | zero =>
        have hPut : l.readyReadOutgoing encoded plain = l := by
          refine if_neg fun hPuts => hTracked ?_
          exact hPuts.imp_left fun hKind => hKind.resolve_right hType
        rw [putDown, hPut]
        exact (chain_cons_untracked hTracked).mpr ⟨hType, hPre, hPos, hList, rfl, hPending⟩
      | succ i =>
        rw [putDown, putDown_nil]
        exact (chain_cons_untracked (l := l.write 0) hTracked).mpr
          ⟨hType, hPre, hPos, hList, rfl, hPending⟩

theorem SecureLayer.finished_eq (hPre : l.prebytes = 0) (n : Nat) : l.finished n =
    if l.Tracked then ((l.layer.finished n).1, { l with layer := (l.layer.finished n).2 })
    else (0, l) := by
  have hNone : ¬ l.prebytes > 0 := by rw [hPre]; exact lt_irrefl 0
  unfold SecureLayer.finished SecureLayer.Tracked
  simp only [if_neg hNone, Nat.zero_add]
  rfl

/-- **Bytes have been written below.** What each layer reports goes off what it holds. -/
theorem chain_finishedUp {n : Nat} (hn : n ≤ below) (h : Chain below layers pending) :
    Chain (below - n) (finishedUp n layers).2 (pending - (finishedUp n layers).1) := by
  induction layers generalizing below n with
  | nil =>
    show pending - n = ((below - n : Nat) : Int)
    rw [h, Nat.cast_sub hn]
  | cons l layers ih =>
    by_cases hTracked : l.Tracked
    · obtain ⟨hType, hPre, hPos, hTotal, hRest⟩ := (chain_cons_tracked hTracked).mp h
      obtain ⟨hPlain, hLeft⟩ := l.layer.plain_finished n
      have hNext := ih (n := (l.layer.finished n).1) (hPlain ▸ Nat.le_add_right _ _) hRest
      rw [finishedUp, SecureLayer.finished_eq hPre, if_pos hTracked]
      refine (chain_cons_tracked (l := { l with layer := (l.layer.finished n).2 }) hTracked).mpr
        ⟨hType, hPre, pos_finish n hPos, ?_, ?_⟩
      · rw [hLeft, hTotal]
      · have hHeld : (l.layer.finished n).2.plain = l.layer.plain - (l.layer.finished n).1 := by
          omega
        rw [hHeld]
        exact hNext
    · obtain ⟨hType, hPre, hPos, hList, rfl, hPending⟩ := (chain_cons_untracked hTracked).mp h
      rw [finishedUp, SecureLayer.finished_eq hPre, if_neg hTracked]
      refine (chain_cons_untracked hTracked).mpr ⟨hType, hPre, hPos, hList, rfl, ?_⟩
      rw [hPending]
      exact sub_zero _

theorem chain_append (h : Chain below layers 0) (hAll : ∀ l ∈ layers, l.Tracked)
    {type : LayerType} (hType : type ≠ .Compression) :
    Chain below (layers ++ [⟨type, ⟨0, []⟩, false, 0⟩]) 0 := by
  induction layers generalizing below with
  | nil =>
    have hBelow : below = 0 := by exact_mod_cast h.symm
    rw [List.nil_append, Chain]
    refine ⟨hType, rfl, fun i hi => absurd hi List.not_mem_nil, ?_⟩
    split
    · exact ⟨hBelow.symm, rfl⟩
    · exact ⟨rfl, rfl, rfl⟩
  | cons l layers ih =>
    obtain ⟨hTracked, hRest⟩ := List.forall_mem_cons.mp hAll
    obtain ⟨hOther, hPre, hPos, hTotal, hChain⟩ := (chain_cons_tracked hTracked).mp h
    exact (chain_cons_tracked hTracked).mpr ⟨hOther, hPre, hPos, hTotal, ih hChain hRest⟩

theorem chain_handshaken (h : Chain below layers pending) (hDown : handedDown below layers = 0) :
    Chain below (handshaken layers) pending := by
  induction layers generalizing below with
  | nil => exact h
  | cons l layers ih =>
    cases layers with
    | nil =>
      have hDone : ({ l with tls_done := true } : SecureLayer).Tracked := Or.inr rfl
      by_cases hTracked : l.Tracked
      · obtain ⟨hType, hPre, hPos, hTotal, hChain⟩ := (chain_cons_tracked hTracked).mp h
        exact (chain_cons_tracked hDone).mpr ⟨hType, hPre, hPos, hTotal, hChain⟩
      · obtain ⟨hType, hPre, hPos, hList, -, hPending⟩ := (chain_cons_untracked hTracked).mp h
        refine (chain_cons_tracked hDone).mpr ⟨hType, hPre, hPos, ?_, ?_⟩
        · rw [hList, total_nil]
          exact hDown.symm
        · show pending = ((l.layer.p + (l.layer.list.map Item.value).sum : Nat) : Int)
          rw [hList, hPending]
          rfl
    | cons l' layers =>
      by_cases hTracked : l.Tracked
      · obtain ⟨hType, hPre, hPos, hTotal, hChain⟩ := (chain_cons_tracked hTracked).mp h
        exact (chain_cons_tracked hTracked).mpr ⟨hType, hPre, hPos, hTotal, ih hChain hDown⟩
      · obtain ⟨-, -, -, -, hNil, -⟩ := (chain_cons_untracked hTracked).mp h
        cases hNil

/-! ## What stays of a layer -/

/-- A layer that reports nothing: it is not told when its handshake is done, as it has none. -/
def SecureLayer.Stuck (l : SecureLayer) : Prop :=
  l.type = .Compression ∧ l.tls_done = false ∧ l.prebytes ≤ 0

/-- No block that waits is written to the end. -/
def SecureLayer.Waiting (l : SecureLayer) : Prop := ∀ i ∈ l.layer.list, 0 < i.left

/-- What goes through a layer leaves it what it is. -/
structure SecureLayer.Kept (l l' : SecureLayer) : Prop where
  type : l'.type = l.type
  tracked : l.Tracked → l'.Tracked
  stuck : l.Stuck → l'.Stuck
  waiting : l.Waiting → l'.Waiting

theorem SecureLayer.Kept.refl (l : SecureLayer) : l.Kept l := ⟨rfl, id, id, id⟩

theorem SecureLayer.finished_eq_min (l : SecureLayer) (n : Nat) : l.finished n =
    if l.Tracked then
      (min n l.prebytes.toNat + (l.layer.finished (n - min n l.prebytes.toNat)).1,
        { l with
          layer := (l.layer.finished (n - min n l.prebytes.toNat)).2
          prebytes := l.prebytes - (min n l.prebytes.toNat : Nat) })
    else
      (min n l.prebytes.toNat, { l with prebytes := l.prebytes - (min n l.prebytes.toNat : Nat) }) := by
  unfold SecureLayer.finished
  by_cases hPre : l.prebytes > 0
  · by_cases hMore : l.prebytes ≥ n
    · have hMin : min n l.prebytes.toNat = n := by omega
      simp only [if_pos hPre, if_pos hMore, hMin, Nat.sub_self]
      rfl
    · have hMin : min n l.prebytes.toNat = l.prebytes.toNat := by omega
      have hNone : l.prebytes - (l.prebytes.toNat : Nat) = 0 := by omega
      simp only [if_pos hPre, if_neg hMore, hMin, hNone]
      rfl
  · have hMin : min n l.prebytes.toNat = 0 := by omega
    simp only [if_neg hPre, hMin, Nat.sub_zero, Nat.cast_zero, sub_zero]
    rfl

theorem SecureLayer.Stuck.finished_eq (h : l.Stuck) (n : Nat) : l.finished n = (0, l) := by
  obtain ⟨hType, hDone, hPre⟩ := h
  have hNot : ¬ l.Tracked := by
    rw [SecureLayer.Tracked, hType, hDone]
    decide
  have hMin : min n l.prebytes.toNat = 0 := by omega
  rw [l.finished_eq_min, if_neg hNot, hMin, Nat.cast_zero, sub_zero]

theorem SecureLayer.kept_finished (l : SecureLayer) (n : Nat) : l.Kept (l.finished n).2 := by
  refine ⟨?_, ?_, fun h => ?_, ?_⟩
  · rw [l.finished_eq_min]
    split <;> rfl
  · rw [l.finished_eq_min]
    split <;> exact id
  · rw [h.finished_eq]
    exact h
  · rw [l.finished_eq_min]
    split
    · exact pos_finish _
    · exact id

theorem SecureLayer.kept_readyReadOutgoing {encoded : Nat} (hEncoded : 0 < encoded)
    (l : SecureLayer) (plain : Nat) : l.Kept (l.readyReadOutgoing encoded plain) := by
  unfold SecureLayer.readyReadOutgoing
  split
  · refine ⟨rfl, id, id, fun h i hi => ?_⟩
    rcases List.mem_append.mp hi with hOld | hNew
    · exact h i hOld
    · rw [List.mem_singleton.mp hNew]
      exact hEncoded
  · exact .refl l

theorem kept_writeDown (n : Nat) (layers : List SecureLayer) :
    List.Forall₂ SecureLayer.Kept layers (writeDown n layers).2 := by
  induction layers with
  | nil => exact .nil
  | cons l layers ih => exact .cons ⟨rfl, id, id, id⟩ ih

theorem kept_putDown {encoded : Nat} (hEncoded : 0 < encoded) (plain i : Nat)
    (layers : List SecureLayer) :
    List.Forall₂ SecureLayer.Kept layers (putDown i encoded plain layers).2 := by
  induction layers generalizing i with
  | nil =>
    rw [putDown_nil]
    exact .nil
  | cons l layers ih =>
    cases i with
    | zero =>
      exact .cons (l.kept_readyReadOutgoing hEncoded plain)
        (List.forall₂_same.mpr fun l _ => .refl l)
    | succ i => exact .cons ⟨rfl, id, id, id⟩ (ih i)

theorem kept_finishedUp (n : Nat) (layers : List SecureLayer) :
    List.Forall₂ SecureLayer.Kept layers (finishedUp n layers).2 := by
  induction layers generalizing n with
  | nil => exact .nil
  | cons l layers ih => exact .cons (l.kept_finished n) (ih _)

theorem forall_of_kept {P : SecureLayer → Prop} (hP : ∀ {l l' : SecureLayer}, l.Kept l' → P l → P l')
    {layers' : List SecureLayer} (h : List.Forall₂ SecureLayer.Kept layers layers')
    (hAll : ∀ l ∈ layers, P l) : ∀ l ∈ layers', P l := by
  induction h with
  | nil => exact hAll
  | cons hFirst _ ih =>
    obtain ⟨hHead, hRest⟩ := List.forall_mem_cons.mp hAll
    exact List.forall_mem_cons.mpr ⟨hP hFirst hHead, ih hRest⟩

/-! ## Runs -/

/-- A stream without layers. -/
def SecureStream.plain : SecureStream := ⟨[], 0, false, 0, 0, 0⟩

/-- What is expected of a run: no block is empty, nothing is reported twice from below, a layer is
put on top when nothing is pending, and a handshake is done when all of it has been written. There is
no compression. -/
def StreamOk (s : SecureStream) : StreamOp → Prop
  | .write _ => True
  | .readyReadOutgoing _ encoded _ => 0 < encoded
  | .bytesWritten n => n ≤ s.below
  | .startTLS _ | .setLayerSASL => s.pending = 0
  | .tlsHandshaken => handedDown s.below s.layers = 0
  | .setLayerCompress => False

instance (s : SecureStream) (op : StreamOp) : Decidable (StreamOk s op) := by
  cases op <;> unfold StreamOk <;> infer_instance

/-- The layers agree, and only the one on top may be in its handshake. -/
structure Accounted (s : SecureStream) : Prop where
  chain : Chain s.below s.layers s.pending
  tracked : s.topInProgress = false → ∀ l ∈ s.layers, l.Tracked
  sum : s.reported + s.pending = s.written

theorem Chain.prebytes (h : Chain below layers pending) :
    (layers.map SecureLayer.prebytes).sum = 0 := by
  induction layers generalizing below with
  | nil => rfl
  | cons l layers ih =>
    rw [List.map_cons, List.sum_cons]
    by_cases hTracked : l.Tracked
    · obtain ⟨-, hPre, -, -, hChain⟩ := (chain_cons_tracked hTracked).mp h
      rw [hPre, ih hChain, zero_add]
    · obtain ⟨-, hPre, -, -, rfl, -⟩ := (chain_cons_untracked hTracked).mp h
      rw [hPre]
      rfl

theorem tracked_handshaken (h : Chain below layers pending) :
    ∀ l ∈ handshaken layers, l.Tracked := by
  induction layers generalizing below with
  | nil => exact fun l hl => absurd hl List.not_mem_nil
  | cons l layers ih =>
    cases layers with
    | nil => exact List.forall_mem_cons.mpr ⟨Or.inr rfl, fun l hl => absurd hl List.not_mem_nil⟩
    | cons l' layers =>
      by_cases hTracked : l.Tracked
      · exact List.forall_mem_cons.mpr
          ⟨hTracked, ih ((chain_cons_tracked hTracked).mp h).2.2.2.2⟩
      · obtain ⟨-, -, -, -, hNil, -⟩ := (chain_cons_untracked hTracked).mp h
        cases hNil

theorem top_of_not {s : SecureStream} {found : Bool} (h : ¬ (s.topInProgress || found) = true) :
    s.topInProgress = false :=
  (Bool.or_eq_false_iff.mp (Bool.eq_false_of_not_eq_true h)).1

theorem Accounted.append {s : SecureStream} (h : Accounted s) (hTop : s.topInProgress = false)
    (hPending : s.pending = 0) {type : LayerType} (hType : type ≠ .Compression) :
    Chain s.below (s.append type).layers s.pending ∧
      (type = .SASL → ∀ l ∈ (s.append type).layers, l.Tracked) := by
  have hPrebytes : s.calcPrebytes = 0 := by
    rw [SecureStream.calcPrebytes, h.chain.prebytes, hPending]
    rfl
  have hAll := h.tracked hTop
  rw [SecureStream.append, hPrebytes, hPending]
  refine ⟨chain_append (hPending ▸ h.chain) hAll hType, fun hSasl l hl => ?_⟩
  rcases List.mem_append.mp hl with hOld | hNew
  · exact hAll l hOld
  · rw [List.mem_singleton.mp hNew]
    exact Or.inl hSasl

theorem Accounted.step {s : SecureStream} (h : Accounted s) (op : StreamOp)
    (hOk : StreamOk s op) : Accounted (s.step op) := by
  cases op with
  | write n =>
    exact {
      chain := chain_writeDown n h.chain
      tracked := fun hTop => forall_of_kept (·.tracked) (kept_writeDown n _) (h.tracked hTop)
      sum := by
        show (s.reported : Int) + (s.pending + n) = ((s.written + n : Nat) : Int)
        rw [← add_assoc, h.sum, Nat.cast_add] }
  | readyReadOutgoing i encoded plain =>
    exact {
      chain := chain_putDown hOk plain i h.chain
      tracked := fun hTop =>
        forall_of_kept (·.tracked) (kept_putDown hOk plain i _) (h.tracked hTop)
      sum := h.sum }
  | bytesWritten n =>
    exact {
      chain := chain_finishedUp hOk h.chain
      tracked := fun hTop => forall_of_kept (·.tracked) (kept_finishedUp n _) (h.tracked hTop)
      sum := by
        have hSum := h.sum
        show ((s.reported + (finishedUp n s.layers).1 : Nat) : Int) +
          (s.pending - (finishedUp n s.layers).1) = s.written
        omega }
  | startTLS handler =>
    rw [SecureStream.step, SecureStream.startTLS]
    split
    · exact h
    · next hNot =>
      have hTop := top_of_not hNot
      have hType : (if handler then LayerType.TLSH else .TLS) ≠ .Compression := by
        cases handler <;> decide
      exact ⟨(h.append hTop hOk hType).1, fun hDone => absurd hDone Bool.noConfusion, h.sum⟩
  | tlsHandshaken =>
    rw [SecureStream.step, SecureStream.tlsHandshaken]
    split
    · exact ⟨chain_handshaken h.chain hOk, fun _ => tracked_handshaken h.chain, h.sum⟩
    · exact h
  | setLayerSASL =>
    rw [SecureStream.step, SecureStream.setLayerSASL]
    split
    · exact h
    · next hNot =>
      have hTop := top_of_not hNot
      obtain ⟨hChain, hTracked⟩ := h.append hTop hOk (by decide : LayerType.SASL ≠ .Compression)
      exact ⟨hChain, fun _ => hTracked rfl, h.sum⟩
  | setLayerCompress => exact hOk.elim

theorem Chain.eq_zero (h : Chain below layers pending) (hBelow : below = 0)
    (hEncoded : ∀ l ∈ layers, l.layer.p = 0) : pending = 0 := by
  induction layers generalizing below with
  | nil =>
    rw [h, hBelow]
    rfl
  | cons l layers ih =>
    obtain ⟨hp, hRest⟩ := List.forall_mem_cons.mp hEncoded
    by_cases hTracked : l.Tracked
    · obtain ⟨-, -, hPos, hTotal, hChain⟩ := (chain_cons_tracked hTracked).mp h
      have hNil : l.layer.list = [] := by
        cases hList : l.layer.list with
        | nil => rfl
        | cons i rest =>
          have hFirst := hPos i (hList ▸ List.mem_cons_self)
          rw [hList, total_cons] at hTotal
          omega
      refine ih hChain ?_ hRest
      rw [LayerTracker.plain, hp, hNil]
      rfl
    · obtain ⟨-, -, -, -, -, hPending⟩ := (chain_cons_untracked hTracked).mp h
      rw [hPending, hp]
      rfl

/-- No block is empty. -/
def NoEmptyBlock : StreamOp → Prop
  | .readyReadOutgoing _ encoded _ => 0 < encoded
  | _ => True

instance (op : StreamOp) : Decidable (NoEmptyBlock op) := by
  cases op <;> unfold NoEmptyBlock <;> infer_instance

theorem stuck_cons : (∃ k ∈ l :: layers, k.Stuck) ↔ l.Stuck ∨ ∃ k ∈ layers, k.Stuck :=
  List.exists_mem_cons_iff SecureLayer.Stuck l layers

theorem stuck_of_kept {layers' : List SecureLayer}
    (h : List.Forall₂ SecureLayer.Kept layers layers') (hStuck : ∃ l ∈ layers, l.Stuck) :
    ∃ l ∈ layers', l.Stuck := by
  induction h with
  | nil => exact hStuck
  | cons hFirst _ ih => exact stuck_cons.mpr ((stuck_cons.mp hStuck).imp hFirst.stuck ih)

theorem types_of_kept {layers' : List SecureLayer}
    (h : List.Forall₂ SecureLayer.Kept layers layers') :
    layers'.map SecureLayer.type = layers.map SecureLayer.type := by
  induction h with
  | nil => rfl
  | cons hFirst _ ih => rw [List.map_cons, List.map_cons, hFirst.type, ih]

theorem waiting_handshaken (h : ∀ l ∈ layers, l.Waiting) :
    ∀ l ∈ handshaken layers, l.Waiting := by
  induction layers with
  | nil => exact h
  | cons l layers ih =>
    obtain ⟨hFirst, hRest⟩ := List.forall_mem_cons.mp h
    cases layers with
    | nil => exact List.forall_mem_cons.mpr ⟨hFirst, hRest⟩
    | cons l' layers => exact List.forall_mem_cons.mpr ⟨hFirst, ih hRest⟩

theorem stuck_handshaken (h : ∃ l ∈ layers, l.Stuck)
    (hLast : ∀ l ∈ layers.getLast?, l.type ≠ .Compression) :
    ∃ l ∈ handshaken layers, l.Stuck := by
  induction layers with
  | nil => exact h
  | cons l layers ih =>
    cases layers with
    | nil =>
      rcases stuck_cons.mp h with hFirst | hLater
      · exact absurd hFirst.1 (hLast l rfl)
      · obtain ⟨l', hl', -⟩ := hLater
        cases hl'
    | cons l' layers =>
      rcases stuck_cons.mp h with hFirst | hLater
      · exact stuck_cons.mpr (Or.inl hFirst)
      · refine stuck_cons.mpr (Or.inr (ih hLater fun k hk => hLast k ?_))
        rw [List.getLast?_cons_cons]
        exact hk

theorem finished_zero (l : SecureLayer) (h : l.Waiting) : (l.finished 0).1 = 0 := by
  have hNone : (l.layer.finished 0).1 = 0 := by
    unfold LayerTracker.finished
    cases hList : l.layer.list with
    | nil => rfl
    | cons i rest =>
      rw [finish_of_lt (h i (hList ▸ List.mem_cons_self))]
      rfl
  rw [l.finished_eq_min, Nat.zero_min]
  split
  · exact (Nat.zero_add _).trans hNone
  · rfl

theorem finishedUp_zero (h : ∀ l ∈ layers, l.Waiting) : (finishedUp 0 layers).1 = 0 := by
  induction layers with
  | nil => rfl
  | cons l layers ih =>
    obtain ⟨hFirst, hRest⟩ := List.forall_mem_cons.mp h
    show (finishedUp (l.finished 0).1 layers).1 = 0
    rw [finished_zero l hFirst]
    exact ih hRest

/-- **A layer that reports nothing** lets nothing through. -/
theorem finishedUp_of_stuck (n : Nat) (hStuck : ∃ l ∈ layers, l.Stuck) (h : ∀ l ∈ layers, l.Waiting) :
    (finishedUp n layers).1 = 0 := by
  induction layers generalizing n with
  | nil =>
    obtain ⟨l, hl, -⟩ := hStuck
    cases hl
  | cons l layers ih =>
    obtain ⟨-, hRest⟩ := List.forall_mem_cons.mp h
    rcases stuck_cons.mp hStuck with hFirst | hLater
    · rw [finishedUp, hFirst.finished_eq]
      exact finishedUp_zero hRest
    · exact ih _ hLater hRest

/-- A stream that is compressed: a layer of it reports nothing, and is not the one that is in its
handshake. -/
structure Compressed (s : SecureStream) : Prop where
  stuck : ∃ l ∈ s.layers, l.Stuck
  waiting : ∀ l ∈ s.layers, l.Waiting
  top : s.topInProgress = true → ∀ l ∈ s.layers.getLast?, l.type ≠ .Compression

theorem Compressed.kept {s t : SecureStream} (h : Compressed s)
    (hKept : List.Forall₂ SecureLayer.Kept s.layers t.layers)
    (hSame : t.topInProgress = s.topInProgress) : Compressed t := by
  refine ⟨stuck_of_kept hKept h.stuck, forall_of_kept (·.waiting) hKept h.waiting,
    fun hTop l hl hType => ?_⟩
  have hLast : (t.layers.map SecureLayer.type).getLast? = some .Compression := by
    rw [List.getLast?_map, Option.mem_def.mp hl, Option.map_some, hType]
  rw [types_of_kept hKept, List.getLast?_map, Option.map_eq_some_iff] at hLast
  obtain ⟨l', hl', hType'⟩ := hLast
  exact h.top (hSame.symm.trans hTop) l' hl' hType'

theorem Compressed.append {s : SecureStream} (h : Compressed s) (type : LayerType) :
    (∃ l ∈ (s.append type).layers, l.Stuck) ∧ (∀ l ∈ (s.append type).layers, l.Waiting) ∧
      ∀ l ∈ (s.append type).layers.getLast?, l.type = type := by
  refine ⟨?_, ?_, ?_⟩
  · obtain ⟨l, hl, hStuck⟩ := h.stuck
    exact ⟨l, List.mem_append_left _ hl, hStuck⟩
  · intro l hl
    rcases List.mem_append.mp hl with hOld | hNew
    · exact h.waiting l hOld
    · rw [List.mem_singleton.mp hNew]
      exact fun i hi => absurd hi List.not_mem_nil
  · intro l hl
    rw [SecureStream.append, List.getLast?_concat] at hl
    rw [← Option.some_inj.mp hl]

theorem Compressed.step {s : SecureStream} (h : Compressed s) {op : StreamOp}
    (hOp : NoEmptyBlock op) : Compressed (s.step op) ∧ (s.step op).reported = s.reported := by
  cases op with
  | write n => exact ⟨h.kept (kept_writeDown n _) rfl, rfl⟩
  | readyReadOutgoing i encoded plain => exact ⟨h.kept (kept_putDown hOp plain i _) rfl, rfl⟩
  | bytesWritten n =>
    refine ⟨h.kept (kept_finishedUp n _) rfl, ?_⟩
    show s.reported + (finishedUp n s.layers).1 = s.reported
    rw [finishedUp_of_stuck n h.stuck h.waiting, Nat.add_zero]
  | startTLS handler =>
    rw [SecureStream.step, SecureStream.startTLS]
    split
    · exact ⟨h, rfl⟩
    · obtain ⟨hStuck, hWaiting, hTop⟩ := h.append (if handler then .TLSH else .TLS)
      refine ⟨⟨hStuck, hWaiting, fun _ l hl => ?_⟩, rfl⟩
      rw [hTop l hl]
      cases handler <;> decide
  | tlsHandshaken =>
    rw [SecureStream.step, SecureStream.tlsHandshaken]
    split
    · next hTop =>
      exact ⟨⟨stuck_handshaken h.stuck (h.top hTop), waiting_handshaken h.waiting,
        fun hDone => absurd hDone Bool.noConfusion⟩, rfl⟩
    · exact ⟨h, rfl⟩
  | setLayerSASL =>
    rw [SecureStream.step, SecureStream.setLayerSASL]
    split
    · exact ⟨h, rfl⟩
    · obtain ⟨hStuck, hWaiting, hTop⟩ := h.append .SASL
      refine ⟨⟨hStuck, hWaiting, fun _ l hl => ?_⟩, rfl⟩
      rw [hTop l hl]
      decide
  | setLayerCompress =>
    rw [SecureStream.step, SecureStream.setLayerCompress]
    split
    · exact ⟨h, rfl⟩
    · next hNot =>
      obtain ⟨hStuck, hWaiting, hTop⟩ := h.append .Compression
      refine ⟨⟨hStuck, hWaiting, fun hProgress => ?_⟩, rfl⟩
      exact absurd ((top_of_not hNot).symm.trans hProgress) Bool.noConfusion

theorem Chain.waiting (h : Chain below layers pending) :
    (∀ l ∈ layers, l.Waiting) ∧ ∀ l ∈ layers, l.type ≠ .Compression := by
  induction layers generalizing below with
  | nil => exact ⟨fun l hl => absurd hl List.not_mem_nil, fun l hl => absurd hl List.not_mem_nil⟩
  | cons l layers ih =>
    by_cases hTracked : l.Tracked
    · obtain ⟨hType, -, hPos, -, hRest⟩ := (chain_cons_tracked hTracked).mp h
      obtain ⟨hWaiting, hTypes⟩ := ih hRest
      exact ⟨List.forall_mem_cons.mpr ⟨hPos, hWaiting⟩, List.forall_mem_cons.mpr ⟨hType, hTypes⟩⟩
    · obtain ⟨hType, -, hPos, -, rfl, -⟩ := (chain_cons_untracked hTracked).mp h
      exact ⟨List.forall_mem_cons.mpr ⟨hPos, fun l hl => absurd hl List.not_mem_nil⟩,
        List.forall_mem_cons.mpr ⟨hType, fun l hl => absurd hl List.not_mem_nil⟩⟩

theorem Accounted.compressed {s : SecureStream} (h : Accounted s) (hPending : s.pending = 0)
    (hTop : s.topInProgress = false) :
    Compressed s.setLayerCompress ∧ s.setLayerCompress.reported = s.reported := by
  obtain ⟨hWaiting, hTypes⟩ := h.chain.waiting
  have hPrebytes : s.calcPrebytes = 0 := by
    rw [SecureStream.calcPrebytes, h.chain.prebytes, hPending]
    rfl
  have hNone : s.have_ [.Compression] = false := by
    refine List.any_eq_false.mpr fun l hl hType => hTypes l hl ?_
    simpa using hType
  have hAppend : s.setLayerCompress = s.append .Compression := by
    rw [SecureStream.setLayerCompress, hTop, hNone]
    rfl
  rw [hAppend]
  refine ⟨⟨⟨⟨.Compression, ⟨0, []⟩, false, s.calcPrebytes⟩, ?_, rfl, rfl, hPrebytes.le⟩,
    fun l hl => ?_, fun hProgress => ?_⟩, rfl⟩
  · exact List.mem_append_right _ List.mem_cons_self
  · rcases List.mem_append.mp hl with hOld | hNew
    · exact hWaiting l hOld
    · rw [List.mem_singleton.mp hNew]
      exact fun i hi => absurd hi List.not_mem_nil
  · exact absurd (hTop.symm.trans hProgress) Bool.noConfusion

/-- **A compressed stream.** Once a stream is compressed, nothing that is written to it is ever
reported as written, whatever is written below. -/
theorem reported_of_compression {before : List StreamOp}
    (hOk : Run.StepsMeet SecureStream.step StreamOk .plain before)
    (hPending : (before.foldl SecureStream.step .plain).pending = 0)
    (hTop : (before.foldl SecureStream.step .plain).topInProgress = false)
    {after : List StreamOp} (hAfter : ∀ op ∈ after, NoEmptyBlock op) :
    ∀ t ∈ Run.states SecureStream.step (before.foldl SecureStream.step .plain).setLayerCompress after,
      t.reported = (before.foldl SecureStream.step .plain).reported := by
  have hPlain : Accounted .plain := ⟨rfl, fun _ l hl => absurd hl List.not_mem_nil, rfl⟩
  have h := Run.inv_of_stepsMeet (fun _ op hInv hOk => hInv.step op hOk) hPlain hOk _
    (Run.foldl_mem_states _ before)
  have hMeet : Run.StepsMeet SecureStream.step (fun _ op => NoEmptyBlock op)
      (before.foldl SecureStream.step .plain).setLayerCompress after :=
    Run.stepsMeet_of_mem hAfter
  have hInv : ∀ t ∈ Run.states SecureStream.step
      (before.foldl SecureStream.step .plain).setLayerCompress after,
      Compressed t ∧ t.reported = (before.foldl SecureStream.step .plain).reported :=
    Run.inv_of_stepsMeet
      (fun t op ht hOp => ⟨(ht.1.step hOp).1, (ht.1.step hOp).2.trans ht.2⟩)
      (h.compressed hPending hTop) hMeet
  exact fun t ht => (hInv t ht).2

theorem reported_compressed :
    let after : List StreamOp := [.write 10, .readyReadOutgoing 0 4 10, .bytesWritten 4]
    (after.foldl SecureStream.step SecureStream.plain.setLayerCompress).reported = 0 := by
  intro after
  have hOk : Run.StepsMeet SecureStream.step StreamOk .plain [] := trivial
  have hAfter : ∀ op ∈ after, NoEmptyBlock op := by decide
  exact reported_of_compression hOk rfl rfl hAfter _ (Run.foldl_mem_states _ _)

end XMPP
