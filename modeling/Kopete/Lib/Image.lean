import Mathlib

/-!
# Images — pixels, rectangles, bounding boxes

An image of 32 bits a pixel, its rows one after the other in memory, and the smallest
rectangle around a set of points.

Main results:

* `isBoundingBox_of_sides` — the rectangle between the outermost points is the smallest one;
* `IsBoundingBox.le` — and there is no other.
-/

/-- `QRgb`, by its four bytes. -/
structure QRgb where
  alpha : UInt8
  red : UInt8
  green : UInt8
  blue : UInt8
deriving DecidableEq, Repr

instance : Inhabited QRgb := ⟨⟨0, 0, 0, 0⟩⟩

/-- `qAlpha(p) != 0`. -/
def QRgb.isOpaque (p : QRgb) : Bool := p.alpha ≠ 0

/-- `QRect`, by its upper left corner and its size. -/
structure QRect where
  x : Int
  y : Int
  width : Int
  height : Int
deriving DecidableEq, Repr

namespace QRect

def contains (r : QRect) (x y : Int) : Prop :=
  r.x ≤ x ∧ x < r.x + r.width ∧ r.y ≤ y ∧ y < r.y + r.height

/-- `QRect::isNull`. -/
def isNull (r : QRect) : Bool := r.width = 0 ∧ r.height = 0

/-- The rectangle with these first and last columns and rows. -/
def ofSides (x₁ y₁ x₂ y₂ : Int) : QRect := ⟨x₁, y₁, x₂ - x₁ + 1, y₂ - y₁ + 1⟩

theorem contains_ofSides {x₁ y₁ x₂ y₂ x y : Int} :
    (ofSides x₁ y₁ x₂ y₂).contains x y ↔ x₁ ≤ x ∧ x ≤ x₂ ∧ y₁ ≤ y ∧ y ≤ y₂ := by
  unfold contains ofSides
  dsimp only
  omega

end QRect

/-! ## Bounding boxes -/

/-- The smallest rectangle around a set of points; of the empty set, any empty one. -/
structure IsBoundingBox (s : Int → Int → Prop) (r : QRect) : Prop where
  contains : ∀ x y, s x y → r.contains x y
  smallest : ∀ r' : QRect, (∀ x y, s x y → r'.contains x y) →
    ∀ x y, r.contains x y → r'.contains x y

variable {s : Int → Int → Prop} {x₁ y₁ x₂ y₂ : Int}

theorem isBoundingBox_of_sides
    (hIn : ∀ x y, s x y → x₁ ≤ x ∧ x ≤ x₂ ∧ y₁ ≤ y ∧ y ≤ y₂)
    (hLeft : ∃ y, s x₁ y) (hTop : ∃ x, s x y₁) (hRight : ∃ y, s x₂ y) (hBottom : ∃ x, s x y₂) :
    IsBoundingBox s (.ofSides x₁ y₁ x₂ y₂) := by
  refine ⟨fun x y h => QRect.contains_ofSides.2 (hIn x y h), fun r' hr' x y hxy => ?_⟩
  obtain ⟨yl, hl⟩ := hLeft
  obtain ⟨xt, ht⟩ := hTop
  obtain ⟨yr, hr⟩ := hRight
  obtain ⟨xb, hb⟩ := hBottom
  have hSides := QRect.contains_ofSides.1 hxy
  have hLeft := hr' _ _ hl
  have hTop := hr' _ _ ht
  have hRight := hr' _ _ hr
  have hBottom := hr' _ _ hb
  unfold QRect.contains at *
  omega

/-- A bounding box has nothing outside of the outermost points. -/
theorem IsBoundingBox.le {r : QRect} (h : IsBoundingBox s r)
    (hIn : ∀ x y, s x y → x₁ ≤ x ∧ x ≤ x₂ ∧ y₁ ≤ y ∧ y ≤ y₂) {x y : Int} (hxy : r.contains x y) :
    x₁ ≤ x ∧ x ≤ x₂ ∧ y₁ ≤ y ∧ y ≤ y₂ :=
  QRect.contains_ofSides.1
    (h.smallest (.ofSides x₁ y₁ x₂ y₂) (fun x y hs => QRect.contains_ofSides.2 (hIn x y hs))
      x y hxy)

/-! ## Images -/

/-- `QImage`, of 32 bits a pixel: there is no gap between its rows. -/
structure QImage where
  width : Nat
  height : Nat
  bits : List QRgb
  length_bits : bits.length = width * height
deriving DecidableEq

namespace QImage

/-- `QImage()`. -/
def null : QImage := ⟨0, 0, [], rfl⟩

def ofPixels (width height : Nat) (f : Nat → Nat → QRgb) : QImage where
  width := width
  height := height
  bits := (List.range (width * height)).map fun i => f (i % width) (i / width)
  length_bits := by rw [List.length_map, List.length_range]

def pixel (image : QImage) (x y : Nat) : QRgb := image.bits.getD (y * image.width + x) default

/-- What a pointer finds that is `i` pixels after the first one. -/
def memory (image : QImage) (outside : Int → QRgb) (i : Int) : QRgb :=
  if 0 ≤ i then (image.bits[i.toNat]?).getD (outside i) else outside i

theorem memory_pixel (image : QImage) (outside : Int → QRgb) {x y : Nat} (hx : x < image.width)
    (hy : y < image.height) :
    image.memory outside (y * image.width + x : Nat) = image.pixel x y := by
  have hBound : y * image.width + x < image.bits.length := by
    rw [image.length_bits, Nat.mul_comm image.width]
    calc y * image.width + x < y * image.width + image.width := Nat.add_lt_add_left hx _
      _ = (y + 1) * image.width := (Nat.succ_mul _ _).symm
      _ ≤ image.height * image.width := Nat.mul_le_mul_right _ hy
  rw [memory, if_pos (Int.natCast_nonneg _), Int.toNat_natCast, pixel,
    List.getElem?_eq_getElem hBound, List.getD_eq_getElem _ _ hBound, Option.getD_some]

/-- `QImage::copy`: of a null rectangle all of the image; what is outside of it is transparent. -/
def copy (image : QImage) (r : QRect) : QImage :=
  if r.isNull then image
  else if r.width ≤ 0 ∨ r.height ≤ 0 then null
  else
    ofPixels r.width.toNat r.height.toNat fun x y =>
      let x' := r.x + x
      let y' := r.y + y
      if 0 ≤ x' ∧ x' < image.width ∧ 0 ≤ y' ∧ y' < image.height then
        image.pixel x'.toNat y'.toNat
      else default

end QImage
