import Kopete.Lib.Image
import Mathlib

/-!
# libkopete — the part of an overlay that can be seen

Before an overlay is put into a corner of an icon, what is transparent around it is cut
off. One pass over the rows looks for the left and the upper side, a second one, from the
last row up, for the right and the lower side; it looks once more at the pixel where the
inner loop has stopped, and this one may lie before the row.

Main results:

* `upperLeft_spec` — the first pass is right;
* `lowerRight_spec` — where the second pass ends, and what it reads;
* `getBoundingBox_iff` — the images that are cut as they should be.
-/

namespace Kopete

/-- One corner of the box, and where pixels have been read on the way to it. -/
structure Corner where
  x : Int
  y : Int
  reads : List Int
deriving DecidableEq, Repr

namespace BoundingBox

/-- The memory, by the distance from the first pixel. -/
abbrev Memory := Int → QRgb

/-- The inner loop of the first pass, with `left` pixels to go: the pointer is at `line + k`. -/
def scanRight (m : Memory) (line : Int) : (left k : Nat) → Option Nat × List Int
  | 0, _ => (none, [])
  | left + 1, k =>
    if (m (line + k)).isOpaque then (some k, [line + k])
    else
      let rest := scanRight m line left (k + 1)
      (rest.1, (line + k) :: rest.2)

/-- One row of the first pass. -/
def upperRow (m : Memory) (width : Nat) (c : Corner) (j : Nat) : Corner :=
  let (found, reads) := scanRight m (j * width) width 0
  match found with
  | some k => ⟨min c.x k, min c.y j, c.reads ++ reads⟩
  | none => { c with reads := c.reads ++ reads }

def upperLeft (m : Memory) (width height : Nat) : Corner :=
  (List.range height).foldl (upperRow m width) ⟨width - 1, height - 1, []⟩

/-- The inner loop of the second pass, with so many pixels to go: the `k` it stops at, which is
-1 if it has left the row. -/
def scanLeft (m : Memory) (line : Int) : (left : Nat) → Int × List Int
  | 0 => (-1, [])
  | k + 1 =>
    if (m (line + k)).isOpaque then (k, [line + k])
    else
      let rest := scanLeft m line k
      (rest.1, (line + k) :: rest.2)

/-- The second pass, with so many rows to go. -/
def lowerRight (m : Memory) (width : Nat) : (rows : Nat) → Corner → Corner
  | 0, c => c
  | j + 1, c =>
    let (k, reads) := scanLeft m (j * width) width
    let c' : Corner :=
      if 0 ≤ k then ⟨max c.x k, max c.y j, c.reads ++ reads⟩
      else { c with reads := c.reads ++ reads }
    -- the pointer is still where the loop has left it
    let c' : Corner := { c' with reads := c'.reads ++ [j * width + k] }
    if (m (j * width + k)).isOpaque then { c' with x := max c'.x k, y := max c'.y j }
    else lowerRight m width j c'

/-- `getBoundingBox`, with what is read on the way. -/
def getBoundingBox (image : QImage) (outside : Memory) : QRect × List Int :=
  if image.width = 0 ∨ image.height = 0 then (⟨0, 0, 0, 0⟩, [])
  else
    let m := image.memory outside
    let c₁ := upperLeft m image.width image.height
    let c₂ := lowerRight m image.width image.height ⟨0, 0, []⟩
    (⟨c₁.x, c₁.y, max 0 (c₂.x - c₁.x + 1), max 0 (c₂.y - c₁.y + 1)⟩, c₁.reads ++ c₂.reads)

/-! ## One row -/

/-- The pixel of a row and a column can be seen. -/
def Seen (m : Memory) (width x y : Nat) : Prop := (m (y * width + x)).isOpaque = true

theorem scanRight_spec (m : Memory) (line : Int) (left k : Nat) :
    (∀ i ∈ (scanRight m line left k).2, line + k ≤ i ∧ i < line + k + left) ∧
      match (scanRight m line left k).1 with
      | some k' => k ≤ k' ∧ k' < k + left ∧ (m (line + k')).isOpaque = true ∧
          ∀ x : Nat, k ≤ x → x < k' → (m (line + x)).isOpaque = false
      | none => ∀ x : Nat, k ≤ x → x < k + left → (m (line + x)).isOpaque = false := by
  induction left generalizing k with
  | zero =>
    refine ⟨fun i hi => absurd hi List.not_mem_nil, ?_⟩
    rw [scanRight]
    intro x _ _
    omega
  | succ left ih =>
    by_cases hHere : (m (line + k)).isOpaque = true
    · rw [scanRight, if_pos hHere]
      refine ⟨fun i hi => ?_, Nat.le_refl k, by omega, hHere, fun x _ _ => by omega⟩
      rw [List.mem_singleton.1 hi]
      omega
    · obtain ⟨hReads, hFound⟩ := ih (k + 1)
      rw [scanRight, if_neg hHere]
      constructor
      · intro i hi
        rcases List.mem_cons.1 hi with rfl | hi
        · omega
        · have hBound := hReads i hi
          omega
      · cases hScan : (scanRight m line left (k + 1)).1 with
        | some k' =>
          rw [hScan] at hFound
          obtain ⟨hLe, hLt, hSeen, hBefore⟩ := hFound
          refine ⟨by omega, by omega, hSeen, fun x hx hx' => ?_⟩
          rcases Nat.eq_or_lt_of_le hx with rfl | hx
          · exact Bool.eq_false_iff.2 hHere
          · exact hBefore x hx hx'
        | none =>
          rw [hScan] at hFound
          intro x hx hx'
          rcases Nat.eq_or_lt_of_le hx with rfl | hx
          · exact Bool.eq_false_iff.2 hHere
          · exact hFound x hx (by omega)

theorem scanLeft_spec (m : Memory) (line : Int) (left : Nat) :
    (∀ i ∈ (scanLeft m line left).2, line ≤ i ∧ i < line + left) ∧
      (((scanLeft m line left).1 = -1 ∧ ∀ x : Nat, x < left → (m (line + x)).isOpaque = false) ∨
        ∃ k : Nat, (scanLeft m line left).1 = k ∧ k < left ∧ (m (line + k)).isOpaque = true ∧
          ∀ x : Nat, k < x → x < left → (m (line + x)).isOpaque = false) := by
  induction left with
  | zero =>
    refine ⟨fun i hi => absurd hi List.not_mem_nil, .inl ⟨rfl, fun x hx => by omega⟩⟩
  | succ left ih =>
    by_cases hHere : (m (line + left)).isOpaque = true
    · rw [scanLeft, if_pos hHere]
      refine ⟨fun i hi => ?_, .inr ⟨left, rfl, by omega, hHere, fun x _ _ => by omega⟩⟩
      rw [List.mem_singleton.1 hi]
      omega
    · obtain ⟨hReads, hFound⟩ := ih
      rw [scanLeft, if_neg hHere]
      constructor
      · intro i hi
        rcases List.mem_cons.1 hi with rfl | hi
        · omega
        · have hBound := hReads i hi
          omega
      · have hMore {x : Nat} (hx : x < left + 1) (h : x < left → (m (line + x)).isOpaque = false) :
            (m (line + x)).isOpaque = false := by
          rcases Nat.lt_succ_iff_lt_or_eq.1 hx with hx | rfl
          · exact h hx
          · exact Bool.eq_false_iff.2 hHere
        rcases hFound with ⟨hLeft, hNone⟩ | ⟨k, hk, hLt, hSeen, hAfter⟩
        · exact .inl ⟨hLeft, fun x hx => hMore hx (hNone x)⟩
        · exact .inr ⟨k, hk, by omega, hSeen, fun x hx hx' => hMore hx' (hAfter x hx)⟩

/-! ## The upper left corner -/

/-- What holds of the corner after the first `n` rows. -/
structure UpperLeft (m : Memory) (width height n : Nat) (c : Corner) : Prop where
  reads : ∀ i ∈ c.reads, 0 ≤ i ∧ i < (n : Int) * width
  le : ∀ x < width, ∀ y < n, Seen m width x y → c.x ≤ x ∧ c.y ≤ y
  left : c.x = width - 1 ∨ ∃ x < width, ∃ y < n, Seen m width x y ∧ c.x = x
  top : c.y = height - 1 ∨ ∃ x < width, ∃ y < n, Seen m width x y ∧ c.y = y

theorem UpperLeft.row {m : Memory} {width height n : Nat} {c : Corner}
    (h : UpperLeft m width height n c) :
    UpperLeft m width height (n + 1) (upperRow m width c n) := by
  obtain ⟨hReads, hFound⟩ := scanRight_spec m (n * width) width 0
  have hSucc : ((n + 1 : Nat) : Int) * width = n * width + width := by push_cast; ring
  have hPos : 0 ≤ (n : Int) * width := by positivity
  have hBounds : ∀ i ∈ c.reads ++ (scanRight m (n * width) width 0).2,
      0 ≤ i ∧ i < ((n + 1 : Nat) : Int) * width := by
    intro i hi
    rcases List.mem_append.1 hi with hi | hi
    · have hOld := h.reads i hi
      omega
    · have hRow := hReads i hi
      omega
  have hKeepLeft : c.x = width - 1 ∨ ∃ x < width, ∃ y < n + 1, Seen m width x y ∧ c.x = x :=
    h.left.imp_right fun ⟨x, hx, y, hy, hSeen⟩ => ⟨x, hx, y, by omega, hSeen⟩
  have hKeepTop : c.y = height - 1 ∨ ∃ x < width, ∃ y < n + 1, Seen m width x y ∧ c.y = y :=
    h.top.imp_right fun ⟨x, hx, y, hy, hSeen⟩ => ⟨x, hx, y, by omega, hSeen⟩
  cases hScan : (scanRight m (n * width) width 0).1 with
  | some k =>
    rw [hScan] at hFound
    obtain ⟨-, hk, hSeen, hBefore⟩ := hFound
    simp only [upperRow, hScan]
    refine ⟨hBounds, fun x hx y hy hxy => ?_, ?_, ?_⟩
    · dsimp only
      rcases Nat.lt_succ_iff_lt_or_eq.1 hy with hy | rfl
      · have hOld := h.le x hx y hy hxy
        omega
      · have hLe : k ≤ x := by
          by_contra hLess
          exact absurd hxy (Bool.eq_false_iff.1 (hBefore x (Nat.zero_le x) (by omega)))
        omega
    · rcases le_total c.x k with hLe | hLe
      · rw [min_eq_left hLe]
        exact hKeepLeft
      · exact .inr ⟨k, by omega, n, by omega, hSeen, min_eq_right hLe⟩
    · rcases le_total c.y n with hLe | hLe
      · rw [min_eq_left hLe]
        exact hKeepTop
      · exact .inr ⟨k, by omega, n, by omega, hSeen, min_eq_right hLe⟩
  | none =>
    rw [hScan] at hFound
    simp only [upperRow, hScan]
    refine ⟨hBounds, fun x hx y hy hxy => ?_, hKeepLeft, hKeepTop⟩
    rcases Nat.lt_succ_iff_lt_or_eq.1 hy with hy | rfl
    · exact h.le x hx y hy hxy
    · exact absurd hxy (Bool.eq_false_iff.1 (hFound x (Nat.zero_le x) (by omega)))

theorem upperLeft_spec (m : Memory) (width height : Nat) :
    UpperLeft m width height height (upperLeft m width height) := by
  have hRows (n : Nat) : UpperLeft m width height n
      ((List.range n).foldl (upperRow m width) ⟨width - 1, height - 1, []⟩) := by
    induction n with
    | zero =>
      exact ⟨fun i hi => absurd hi List.not_mem_nil, fun x _ y hy => absurd hy (Nat.not_lt_zero y),
        .inl rfl, .inl rfl⟩
    | succ n ih =>
      rw [List.range_succ, List.foldl_append, List.foldl_cons, List.foldl_nil]
      exact ih.row
  exact hRows height

/-! ## The lower right corner -/

/-- A row with something to see is the last one that is looked at. -/
theorem lowerRight_seen {m : Memory} {width j : Nat} (c : Corner)
    (hRow : ∃ x < width, Seen m width x j) :
    ∃ k < width, Seen m width k j ∧ (∀ x < width, Seen m width x j → x ≤ k) ∧
      (lowerRight m width (j + 1) c).x = max c.x k ∧
      (lowerRight m width (j + 1) c).y = max c.y j ∧
      ∀ i ∈ (lowerRight m width (j + 1) c).reads,
        i ∈ c.reads ∨ (j : Int) * width ≤ i ∧ i < (j : Int) * width + width := by
  obtain ⟨hReads, ⟨-, hNone⟩ | ⟨k, hk, hLt, hSeen, hAfter⟩⟩ := scanLeft_spec m (j * width) width
  · obtain ⟨x, hx, hSeen⟩ := hRow
    exact absurd hSeen (Bool.eq_false_iff.1 (hNone x hx))
  · have hStep : lowerRight m width (j + 1) c =
        ⟨max (max c.x k) k, max (max c.y j) j,
          c.reads ++ (scanLeft m (j * width) width).2 ++ [(j * width + k : Int)]⟩ := by
      rw [lowerRight]
      simp only [hk, Int.natCast_nonneg, if_true, hSeen]
    refine ⟨k, hLt, hSeen, fun x hx hxSeen => ?_, ?_, ?_, fun i hi => ?_⟩
    · by_contra hMore
      exact absurd hxSeen (Bool.eq_false_iff.1 (hAfter x (by omega) hx))
    · rw [hStep]
      exact max_eq_left (le_max_right _ _)
    · rw [hStep]
      exact max_eq_left (le_max_right _ _)
    · rw [hStep] at hi
      rcases List.mem_append.1 hi with hi | hi
      · exact (List.mem_append.1 hi).imp_right (hReads i)
      · rw [List.mem_singleton.1 hi]
        omega

/-- A row with nothing to see is the last one if the pixel before it can be seen. -/
theorem lowerRight_blank {m : Memory} {width j : Nat} (c : Corner)
    (hRow : ∀ x < width, ¬ Seen m width x j) :
    ∃ reads : List Int, (∀ i ∈ reads, i = (j : Int) * width - 1 ∨
        (j : Int) * width ≤ i ∧ i < (j : Int) * width + width) ∧
      (j : Int) * width - 1 ∈ reads ∧
      lowerRight m width (j + 1) c =
        if (m (j * width - 1)).isOpaque then ⟨max c.x (-1), max c.y j, c.reads ++ reads⟩
        else lowerRight m width j { c with reads := c.reads ++ reads } := by
  obtain ⟨hReads, ⟨hk, -⟩ | ⟨k, -, hLt, hSeen, -⟩⟩ := scanLeft_spec m (j * width) width
  · refine ⟨(scanLeft m (j * width) width).2 ++ [(j * width - 1 : Int)], fun i hi => ?_,
      List.mem_append_right _ (List.mem_singleton_self _), ?_⟩
    · rcases List.mem_append.1 hi with hi | hi
      · exact .inr (hReads i hi)
      · exact .inl (List.mem_singleton.1 hi)
    · have hNeg : ¬ (0 : Int) ≤ -1 := by decide
      rw [lowerRight]
      simp only [hk, if_neg hNeg, List.append_assoc, Int.sub_eq_add_neg]
  · exact absurd hSeen (hRow k hLt)

/-- The pixel before a row is the last one of the row above. -/
theorem seen_last {m : Memory} {width j : Nat} (hw : 0 < width) :
    Seen m width (width - 1) j ↔ (m ((j + 1 : Nat) * width - 1)).isOpaque = true := by
  have hPlace : ((j + 1 : Nat) : Int) * width - 1 = j * width + (width - 1 : Nat) := by
    rw [Nat.cast_sub hw]
    push_cast
    ring
  rw [Seen, hPlace]

/-- `b` is the last row in which something can be seen, of the first `n`. -/
structure LastRow (m : Memory) (width n b : Nat) : Prop where
  lt : b < n
  seen : ∃ x < width, Seen m width x b
  blank : ∀ y, b < y → y < n → ∀ x < width, ¬ Seen m width x y

/-- **Where the second pass ends**: below the last row if this one is seen up to its end. -/
theorem lowerRight_spec {m : Memory} {width n b : Nat} (hw : 0 < width) (c : Corner)
    (h : LastRow m width n b) :
    (∀ i ∈ (lowerRight m width n c).reads, i ∈ c.reads ∨ 0 ≤ i ∧ i < (n : Int) * width) ∧
      ((b + 1 < n ∧ Seen m width (width - 1) b ∧ (lowerRight m width n c).x = max c.x (-1) ∧
          (lowerRight m width n c).y = max c.y (b + 1)) ∨
        ((b + 1 = n ∨ ¬ Seen m width (width - 1) b) ∧
          ∃ k < width, Seen m width k b ∧ (∀ x < width, Seen m width x b → x ≤ k) ∧
            (lowerRight m width n c).x = max c.x k ∧
            (lowerRight m width n c).y = max c.y b)) := by
  induction n generalizing c with
  | zero => exact absurd h.lt (Nat.not_lt_zero b)
  | succ j ih =>
    have hSucc : ((j + 1 : Nat) : Int) * width = j * width + width := by push_cast; ring
    have hPos : 0 ≤ (j : Int) * width := by positivity
    rcases Nat.lt_succ_iff_lt_or_eq.1 h.lt with hLess | rfl
    · -- a row below the last one
      have hNext : LastRow m width j b := ⟨hLess, h.seen, fun y hy hy' => h.blank y hy (by omega)⟩
      obtain ⟨reads, hReads, -, hStep⟩ := lowerRight_blank c (h.blank j hLess (Nat.lt_succ_self j))
      obtain ⟨j, rfl⟩ := Nat.exists_eq_add_one.2 (Nat.zero_lt_of_lt hLess)
      have hWhole : (width : Int) ≤ ((j + 1 : Nat) : Int) * width := by
        exact_mod_cast Nat.le_mul_of_pos_left width (Nat.succ_pos j)
      rw [hStep]
      by_cases hLast : (m ((j + 1 : Nat) * width - 1)).isOpaque = true
      · have hSeen : Seen m width (width - 1) j := (seen_last hw).2 hLast
        obtain rfl : b = j := by
          by_contra hNe
          exact h.blank j (by omega) (by omega) (width - 1) (by omega) hSeen
        rw [if_pos hLast]
        refine ⟨fun i hi => (List.mem_append.1 hi).imp_right fun hi => ?_,
          .inl ⟨by omega, hSeen, rfl, by push_cast; rfl⟩⟩
        have hBound := hReads i hi
        omega
      · rw [if_neg hLast]
        obtain ⟨hRest, hEnd⟩ := ih { c with reads := c.reads ++ reads } hNext
        constructor
        · intro i hi
          rcases hRest i hi with hi | hi
          · refine (List.mem_append.1 hi).imp_right fun hi => ?_
            have hBound := hReads i hi
            omega
          · exact .inr (by omega)
        · rcases hEnd with ⟨hLt, hRow⟩ | ⟨hFree, hRow⟩
          · exact .inl ⟨by omega, hRow⟩
          · refine .inr ⟨.inr ?_, hRow⟩
            rcases hFree with hLow | hFree
            · rw [← seen_last hw] at hLast
              rwa [show b = j by omega]
            · exact hFree
    · -- the last row itself
      obtain ⟨k, hk, hSeen, hMax, hx, hy, hReads⟩ := lowerRight_seen c h.seen
      refine ⟨fun i hi => (hReads i hi).imp_right fun hi => by omega,
        .inr ⟨.inl rfl, k, hk, hSeen, hMax, hx, hy⟩⟩

/-- Where there is nothing to see, the pixel before the image is read. -/
theorem outside_lowerRight {m : Memory} {width n : Nat} (hw : 0 < width) (hn : 0 < n) (c : Corner)
    (hBlank : ∀ y < n, ∀ x < width, ¬ Seen m width x y) :
    -1 ∈ (lowerRight m width n c).reads := by
  induction n generalizing c with
  | zero => exact absurd hn (Nat.lt_irrefl 0)
  | succ j ih =>
    obtain ⟨reads, -, hMem, hStep⟩ := lowerRight_blank c (hBlank j (Nat.lt_succ_self j))
    rw [hStep]
    cases j with
    | zero =>
      have hFirst : (-1 : Int) ∈ c.reads ++ reads := by
        refine List.mem_append_right _ ?_
        rwa [Nat.cast_zero, zero_mul, zero_sub] at hMem
      split
      · exact hFirst
      · exact hFirst
    | succ j =>
      rw [if_neg fun hSeen => hBlank j (by omega) (width - 1) (by omega) ((seen_last hw).2 hSeen)]
      exact ih (Nat.succ_pos j) _ fun y hy => hBlank y (by omega)

theorem exists_lastRow {m : Memory} {width n : Nat} (h : ∃ y < n, ∃ x < width, Seen m width x y) :
    ∃ b, LastRow m width n b := by
  induction n with
  | zero =>
    obtain ⟨y, hy, -⟩ := h
    exact absurd hy (Nat.not_lt_zero y)
  | succ n ih =>
    by_cases hRow : ∃ x < width, Seen m width x n
    · exact ⟨n, Nat.lt_succ_self n, hRow, fun y hy hy' => by omega⟩
    · have hAbove : ∃ y < n, ∃ x < width, Seen m width x y := by
        obtain ⟨y, hy, hSeen⟩ := h
        rcases Nat.lt_succ_iff_lt_or_eq.1 hy with hy | rfl
        · exact ⟨y, hy, hSeen⟩
        · exact absurd hSeen hRow
      obtain ⟨b, hLt, hSeen, hBlank⟩ := ih hAbove
      refine ⟨b, by omega, hSeen, fun y hy hy' => ?_⟩
      rcases Nat.lt_succ_iff_lt_or_eq.1 hy' with hy' | rfl
      · exact hBlank y hy hy'
      · exact fun x hx hxSeen => hRow ⟨x, hx, hxSeen⟩

/-! ## The box -/

/-- The pixels of an image that can be seen. -/
def points (image : QImage) (x y : Int) : Prop :=
  ∃ px < image.width, ∃ py < image.height,
    (image.pixel px py).isOpaque = true ∧ x = px ∧ y = py

/-- What is asked: nothing outside of the image is read, and the box is the smallest one. -/
structure CutRight (image : QImage) (outside : Memory) : Prop where
  inside : ∀ i ∈ (getBoundingBox image outside).2, 0 ≤ i ∧ i < (image.height : Int) * image.width
  box : IsBoundingBox (points image) (getBoundingBox image outside).1

/-- The condition: a pixel that can be seen is in the last row and the last column of those that
can be; the last column of the image is fine in its last row only. -/
def CornerSeen (image : QImage) : Prop :=
  ∃ x < image.width, ∃ y < image.height, (image.pixel x y).isOpaque = true ∧
    (∀ x' < image.width, ∀ y' < image.height,
      (image.pixel x' y').isOpaque = true → x' ≤ x ∧ y' ≤ y) ∧
    (y + 1 = image.height ∨ x + 1 ≠ image.width)

instance (image : QImage) : Decidable (CornerSeen image) := by
  unfold CornerSeen
  infer_instance

theorem seen_memory {image : QImage} (outside : Memory) {x y : Nat} (hx : x < image.width)
    (hy : y < image.height) :
    Seen (image.memory outside) image.width x y ↔ (image.pixel x y).isOpaque = true := by
  rw [Seen, ← image.memory_pixel outside hx hy]
  push_cast
  rfl

theorem getBoundingBox_eq {image : QImage} (outside : Memory) (hw : 0 < image.width)
    (hh : 0 < image.height) {c₁ c₂ : Corner}
    (h₁ : upperLeft (image.memory outside) image.width image.height = c₁)
    (h₂ : lowerRight (image.memory outside) image.width image.height ⟨0, 0, []⟩ = c₂) :
    getBoundingBox image outside =
      (⟨c₁.x, c₁.y, max 0 (c₂.x - c₁.x + 1), max 0 (c₂.y - c₁.y + 1)⟩, c₁.reads ++ c₂.reads) := by
  subst h₁ h₂
  exact if_neg (by omega)

theorem CutRight.cornerSeen {image : QImage} {outside : Memory} (hw : 0 < image.width)
    (hh : 0 < image.height) (h : CutRight image outside) : CornerSeen image := by
  obtain ⟨hInside, hBox⟩ := h
  generalize hc₁ : upperLeft (image.memory outside) image.width image.height = c₁
  generalize hc₂ : lowerRight (image.memory outside) image.width image.height ⟨0, 0, []⟩ = c₂
  have hSeen {x y : Nat} (hx : x < image.width) (hy : y < image.height) :=
    seen_memory outside hx hy
  rw [getBoundingBox_eq outside hw hh hc₁ hc₂] at hInside hBox
  by_cases hAny : ∃ y < image.height, ∃ x < image.width,
      Seen (image.memory outside) image.width x y
  · obtain ⟨b, hb⟩ := exists_lastRow hAny
    have hBelow : ∀ x y, points image x y →
        0 ≤ x ∧ x ≤ image.width ∧ 0 ≤ y ∧ y ≤ b := by
      rintro x y ⟨px, hx, py, hy, hOpaque, rfl, rfl⟩
      have hLe : py ≤ b := by
        by_contra hLess
        exact hb.blank py (by omega) hy px hx ((hSeen hx hy).2 hOpaque)
      omega
    have hLower := lowerRight_spec hw ⟨0, 0, []⟩ hb
    rw [hc₂] at hLower
    obtain ⟨-, ⟨hLt, hLast, hx, hy⟩ | ⟨hFree, k, hk, hkSeen, -, hx, hy⟩⟩ := hLower
    · -- the row below is taken for the last one
      have hCorner := hBox.contains (image.width - 1 : Nat) b
        ⟨_, by omega, b, hb.lt, (hSeen (by omega) hb.lt).1 hLast, rfl, rfl⟩
      have hOver : QRect.contains
          ⟨c₁.x, c₁.y, max 0 (c₂.x - c₁.x + 1), max 0 (c₂.y - c₁.y + 1)⟩
          (image.width - 1 : Nat) (b + 1) := by
        unfold QRect.contains at hCorner ⊢
        dsimp only at *
        omega
      have hFalse := hBox.le hBelow hOver
      omega
    · refine ⟨k, hk, b, hb.lt, (hSeen hk hb.lt).1 hkSeen, fun x' hx' y' hy' hOpaque => ?_, ?_⟩
      · have hPoint : points image x' y' := ⟨x', hx', y', hy', hOpaque, rfl, rfl⟩
        have hIn := hBox.contains _ _ hPoint
        have hRow := hBelow _ _ hPoint
        unfold QRect.contains at hIn
        dsimp only at *
        omega
      · refine hFree.imp_right fun hNot hEnd => hNot ?_
        rwa [show image.width - 1 = k by omega]
  · have hOut := outside_lowerRight hw hh ⟨0, 0, []⟩ fun y hy x hx hxy => hAny ⟨y, hy, x, hx, hxy⟩
    rw [hc₂] at hOut
    have hFalse := hInside _ (List.mem_append_right _ hOut)
    omega

theorem CornerSeen.cutRight {image : QImage} (outside : Memory) (hw : 0 < image.width)
    (hh : 0 < image.height) (h : CornerSeen image) : CutRight image outside := by
  have hUpper := upperLeft_spec (image.memory outside) image.width image.height
  generalize hc₁ : upperLeft (image.memory outside) image.width image.height = c₁ at hUpper
  generalize hc₂ : lowerRight (image.memory outside) image.width image.height ⟨0, 0, []⟩ = c₂
  have hSeen {x y : Nat} (hx : x < image.width) (hy : y < image.height) :=
    seen_memory outside hx hy
  obtain ⟨x, hx, y, hy, hOpaque, hMax, hEnd⟩ := h
  have hb : LastRow (image.memory outside) image.width image.height y := by
    refine ⟨hy, ⟨x, hx, (hSeen hx hy).2 hOpaque⟩, fun y' hLess hy' x' hx' hSeen' => ?_⟩
    have hLe := (hMax x' hx' y' hy' ((hSeen hx' hy').1 hSeen')).2
    omega
  have hLower := lowerRight_spec hw ⟨0, 0, []⟩ hb
  rw [hc₂] at hLower
  obtain ⟨hReads, ⟨hLt, hLast, -, -⟩ | ⟨-, k, hk, hkSeen, hkMax, hx₂, hy₂⟩⟩ := hLower
  · have hLe := (hMax _ (by omega) y hy ((hSeen (by omega) hy).1 hLast)).1
    omega
  · obtain rfl : k = x := by
      have hLe := (hMax k hk y hy ((hSeen hk hy).1 hkSeen)).1
      have hGe := hkMax x hx ((hSeen hx hy).2 hOpaque)
      omega
    have hCorner := hUpper.le k hk y hy hkSeen
    constructor
    · rw [getBoundingBox_eq outside hw hh hc₁ hc₂]
      intro i hi
      rcases List.mem_append.1 hi with hi | hi
      · exact hUpper.reads i hi
      · exact (hReads i hi).resolve_left List.not_mem_nil
    · have hRect : (getBoundingBox image outside).1 = .ofSides c₁.x c₁.y k y := by
        rw [getBoundingBox_eq outside hw hh hc₁ hc₂, QRect.ofSides]
        dsimp only at *
        congr 1 <;> omega
      rw [hRect]
      refine isBoundingBox_of_sides ?_ ?_ ?_ ⟨y, k, hk, y, hy, hOpaque, rfl, rfl⟩
        ⟨k, k, hk, y, hy, hOpaque, rfl, rfl⟩
      · rintro _ _ ⟨x', hx', y', hy', hOpaque', rfl, rfl⟩
        have hLe := hMax x' hx' y' hy' hOpaque'
        have hGe := hUpper.le x' hx' y' hy' ((hSeen hx' hy').2 hOpaque')
        omega
      · rcases hUpper.left with hLeft | ⟨x', hx', y', hy', hSeen', hLeft⟩
        · exact ⟨y, k, hk, y, hy, hOpaque, by omega, rfl⟩
        · exact ⟨y', x', hx', y', hy', (hSeen hx' hy').1 hSeen', hLeft, rfl⟩
      · rcases hUpper.top with hTop | ⟨x', hx', y', hy', hSeen', hTop⟩
        · exact ⟨k, k, hk, y, hy, hOpaque, rfl, by omega⟩
        · exact ⟨x', x', hx', y', hy', (hSeen hx' hy').1 hSeen', rfl, hTop⟩

/-- **The images that are cut as they should be.** -/
theorem getBoundingBox_iff (image : QImage) (outside : Memory) (hw : 0 < image.width)
    (hh : 0 < image.height) : CutRight image outside ↔ CornerSeen image :=
  ⟨CutRight.cornerSeen hw hh, CornerSeen.cutRight outside hw hh⟩

/-- Two pixels, one below the other. -/
def stroke : QImage := ⟨2, 2, [default, ⟨255, 0, 0, 0⟩, default, ⟨255, 0, 0, 0⟩], rfl⟩

theorem getBoundingBox_iff_stroke : CutRight stroke (fun _ => default) :=
  (getBoundingBox_iff stroke _ (by decide) (by decide)).2 (by decide)

/-- Two pixels again, the lower one to the left of the upper one. -/
def slash : QImage := ⟨2, 2, [default, ⟨255, 0, 0, 0⟩, ⟨255, 0, 0, 0⟩, default], rfl⟩

theorem getBoundingBox_slash : ¬ CutRight slash (fun _ => default) := by
  rintro ⟨-, hBox⟩
  have hNarrow : (getBoundingBox slash fun _ => default).1 = ⟨0, 0, 1, 2⟩ := by decide
  have hIn := hBox.contains 1 0 ⟨1, by decide, 0, by decide, by decide, rfl, rfl⟩
  rw [hNarrow] at hIn
  exact absurd hIn.2.1 (by decide)

end BoundingBox

end Kopete
