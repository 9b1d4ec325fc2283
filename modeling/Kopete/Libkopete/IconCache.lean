import Kopete.Lib.PlaceMarkers
import Kopete.Libkopete.BoundingBox
import Kopete.Libkopete.Account
import Mathlib

/-!
# libkopete — the cache of status icons

An icon for a status is rendered once: it is kept under a fingerprint of what has been
asked for, the texts of which are put together with a slash between them. What the
renderer looks at is not quite what the fingerprint is made of: it asks for the type of
the status, and whether there is a color at all.

Main results:

* `renderIcon_eq_of_look` — what the renderer looks at;
* `lookups_right` — the lookups that find what they would have rendered.
-/

namespace Kopete

/-- A valid `QColor`, as it is named. -/
@[ext]
structure Rgb where
  red : UInt8
  green : UInt8
  blue : UInt8
deriving DecidableEq, Repr

/-- `QColor`; `none` is the invalid one. -/
abbrev QColor := Option Rgb

namespace QColor

def hexByte (b : UInt8) : List Char :=
  [Nat.digitChar (b.toNat / 16), Nat.digitChar (b.toNat % 16)]

/-- `QColor::name`: the components of an invalid color are 0. -/
def name (color : QColor) : List Char :=
  let c := color.getD ⟨0, 0, 0⟩
  '#' :: (hexByte c.red ++ hexByte c.green ++ hexByte c.blue)

end QColor

/-- The icons there are, what is done to them outside of this program, and how the numbers of the
locale look. -/
structure Theme where
  /-- `QIcon::fromTheme(icon).pixmap(size)`. -/
  fromTheme : String → Int → QImage
  /-- `KIconLoader::loadIcon`; `none` is the null pixmap. -/
  loadIcon : String → Int → Option QImage
  colorize : Rgb → QImage → QImage
  toGray : QImage → QImage
  /-- `QImage::scaled`, to a square. -/
  scaled : Int → QImage → QImage
  semiTransparent : QImage → QImage
  /-- What lies around an image in memory. -/
  outside : QImage → BoundingBox.Memory
  localNumber : Int → List Char

/-- What an icon is asked for with. -/
structure IconRequest where
  statusFor : OnlineStatus
  icon : String
  size : Int
  color : QColor
  idle : Bool
deriving DecidableEq, Repr

namespace IconCache

open PlaceMarkers

/-! ## Rendering -/

/-- One pixel of `blendOnLower`. -/
def blendPixel (u l : QRgb) : QRgb :=
  let ua := u.alpha.toNat
  let la := l.alpha.toNat
  if ua = 0 then l
  else
    let d := ua * 255 + la * (255 - ua)
    let mix (uc lc : Nat) : UInt8 := UInt8.ofNat ((uc * ua * 255 + lc * la * (255 - ua)) / d)
    { alpha := mix ua la
      red := mix u.red.toNat l.red.toNat
      green := mix u.green.toNat l.green.toNat
      blue := mix u.blue.toNat l.blue.toNat }

def blendOnLower (upper lower : QImage) (offset : Int × Int) : QImage :=
  if upper.width = 0 ∨ upper.height = 0 ∨ lower.width = 0 ∨ lower.height = 0 ∨
      offset.1 < 0 ∨ (lower.width : Int) ≤ offset.1 ∨
      offset.2 < 0 ∨ (lower.height : Int) ≤ offset.2 then lower
  else
    let cx := offset.1.toNat
    let cy := offset.2.toNat
    let cw := min (upper.width + cx) lower.width
    let ch := min (upper.height + cy) lower.height
    .ofPixels lower.width lower.height fun x y =>
      if cx ≤ x ∧ x < cw ∧ cy ≤ y ∧ y < ch then
        blendPixel (upper.pixel (x - cx) (y - cy)) (lower.pixel x y)
      else lower.pixel x y

/-- From the bottom right corner on, clockwise. -/
def getOffsetForCorner (upper lower : QImage) (i : Nat) : Int × Int :=
  let dX := (lower.width : Int) - upper.width
  let dY := (lower.height : Int) - upper.height
  match i % 4 with
  | 0 => (dX, dY)
  | 1 => (0, dY)
  | 2 => (0, 0)
  | _ => (dX, 0)

/-- One turn of the loop over the overlays, with the number of corners that are taken. -/
def addOverlay (t : Theme) (size : Int) (state : QImage × Nat) (name : String) : QImage × Nat :=
  match t.loadIcon name size with
  | none => state
  | some overlay =>
    if name.endsWith "_overlay" then
      let image := overlay.copy (BoundingBox.getBoundingBox overlay (t.outside overlay)).1
      (blendOnLower image state.1 (getOffsetForCorner image state.1 state.2), state.2 + 1)
    else (blendOnLower overlay state.1 (0, 0), state.2)

/-- The statuses that are shown in gray: `OnlineStatus::AccountOffline` is 0x80000001. -/
def isGray (status : OnlineStatus) : Bool :=
  status.internalStatus = 0x80000001 ∨ status.status = .offline

/-- `OnlineStatusManager::renderIcon`; a pixmap is its image. -/
def renderIcon (t : Theme) (r : IconRequest) : QImage :=
  let basis := t.fromTheme r.icon r.size
  let basis :=
    match r.color with
    | some c => t.colorize c basis
    | none => basis
  let basis := if isGray r.statusFor then t.toGray basis else basis
  let basis := (r.statusFor.overlayIcons.foldl (addOverlay t r.size) (basis, 0)).1
  let basis := if (basis.width : Int) ≠ r.size then t.scaled r.size basis else basis
  if r.idle then t.semiTransparent basis else basis

/-- What the renderer looks at. -/
structure Look where
  icon : String
  size : Int
  color : QColor
  gray : Bool
  overlays : List String
  idle : Bool
deriving DecidableEq, Repr

def look (r : IconRequest) : Look :=
  ⟨r.icon, r.size, r.color, isGray r.statusFor, r.statusFor.overlayIcons, r.idle⟩

theorem renderIcon_eq_of_look (t : Theme) {r r' : IconRequest} (h : look r = look r') :
    renderIcon t r = renderIcon t r' := by
  obtain ⟨hIcon, hSize, hColor, hGray, hOverlays, hIdle⟩ := Look.mk.inj h
  unfold renderIcon
  rw [hIcon, hSize, hColor, hGray, hOverlays, hIdle]

/-! ## The cache -/

/-- `QString::number`. -/
def number (n : Int) : List Char := (if n < 0 then ['-'] else []) ++ Nat.toDigits 10 n.natAbs

/-- `QStringList::join(",")`. -/
def join (names : List String) : List Char := [','].intercalate (names.map String.toList)

/-- `OnlineStatusManager::fingerprint`. -/
def fingerprint (t : Theme) (r : IconRequest) : List Char :=
  let put (template text : List Char) := arg template text text
  let fp := ['%', '1', '/', '%', '2', '/', '%', '3', '/', '%', '4', '/', '%', '5', '/', '%', '6']
  let fp := put fp r.statusFor.description.toList
  let fp := put fp r.icon.toList
  let fp := put fp r.color.name
  let fp := put fp (join r.statusFor.overlayIcons)
  let fp := arg fp (number r.size) (t.localNumber r.size)
  put fp [if r.idle then 'i' else 'a']

/-- `iconCache`. -/
abbrev Icons := List Char → Option QImage

/-- `OnlineStatusManager::cacheLookupByObject`. -/
def cacheLookupByObject (t : Theme) (icons : Icons) (r : IconRequest) : QImage × Icons :=
  match icons (fingerprint t r) with
  | some icon => (icon, icons)
  | none =>
    let icon := renderIcon t r
    (icon, Function.update icons (fingerprint t r) (some icon))

inductive Event where
  | lookup (r : IconRequest)
  /-- `slotIconsChanged`. -/
  | iconsChanged
deriving DecidableEq, Repr

/-- What the lookups of a run return. -/
def lookups (t : Theme) : Icons → List Event → List (IconRequest × QImage)
  | _, [] => []
  | icons, .lookup r :: es =>
    let (icon, icons) := cacheLookupByObject t icons r
    (r, icon) :: lookups t icons es
  | _, .iconsChanged :: es => lookups t (fun _ => none) es

/-- Each lookup returns what would be rendered for it. -/
def LookupsRight (t : Theme) (es : List Event) : Prop :=
  ∀ p ∈ lookups t (fun _ => none) es, p.2 = renderIcon t p.1

/-- No two requests between two changes of the icons have one fingerprint and look different. -/
def NoClash (t : Theme) (es : List Event) : Prop :=
  ∀ before between after r r',
    es = before ++ .lookup r :: (between ++ .lookup r' :: after) → .iconsChanged ∉ between →
      fingerprint t r = fingerprint t r' → look r = look r'

/-- What is in the cache has been rendered for a request since the last change of the icons. -/
def Rendered (t : Theme) (es : List Event) (icons : Icons) : Prop :=
  ∀ fp icon, icons fp = some icon → ∃ before r after,
    es = before ++ .lookup r :: after ∧ .iconsChanged ∉ after ∧
      fingerprint t r = fp ∧ icon = renderIcon t r

theorem Rendered.append {t : Theme} {es : List Event} {icons : Icons} (h : Rendered t es icons)
    (r : IconRequest) : Rendered t (es ++ [.lookup r]) icons := by
  intro fp icon hIcon
  obtain ⟨before, r', after, rfl, hAfter, hSame⟩ := h fp icon hIcon
  refine ⟨before, r', after ++ [.lookup r], ?_, ?_, hSame⟩
  · rw [List.append_assoc, List.cons_append]
  · rw [List.mem_append, List.mem_singleton]
    rintro (hMem | hMem)
    · exact hAfter hMem
    · cases hMem

/-- **One lookup**: it returns what it would render, and the cache stays what it was. -/
theorem cacheLookupByObject_spec {t : Theme} {es after : List Event} {icons : Icons}
    {r : IconRequest} (h : Rendered t es icons) (hClash : NoClash t (es ++ .lookup r :: after)) :
    (cacheLookupByObject t icons r).1 = renderIcon t r ∧
      Rendered t (es ++ [.lookup r]) (cacheLookupByObject t icons r).2 := by
  rw [cacheLookupByObject]
  cases hHit : icons (fingerprint t r) with
  | some icon =>
    obtain ⟨before, r', between, rfl, hBetween, hSame, rfl⟩ := h _ _ hHit
    have hLook : look r' = look r :=
      hClash before between after r' r (by rw [List.append_assoc, List.cons_append]) hBetween hSame
    exact ⟨renderIcon_eq_of_look t hLook, h.append r⟩
  | none =>
    refine ⟨rfl, fun fp icon hIcon => ?_⟩
    by_cases hfp : fp = fingerprint t r
    · subst hfp
      dsimp only at hIcon
      rw [Function.update_self] at hIcon
      exact ⟨es, r, [], rfl, List.not_mem_nil, rfl, (Option.some.inj hIcon).symm⟩
    · dsimp only at hIcon
      rw [Function.update_of_ne hfp] at hIcon
      exact h.append r fp icon hIcon

theorem lookups_of_rendered {t : Theme} {es before : List Event} {icons : Icons}
    (h : Rendered t before icons) (hClash : NoClash t (before ++ es)) :
    ∀ p ∈ lookups t icons es, p.2 = renderIcon t p.1 := by
  induction es generalizing before icons with
  | nil => exact fun p hp => absurd hp List.not_mem_nil
  | cons e es ih =>
    have hShift : before ++ e :: es = before ++ [e] ++ es := by
      rw [List.append_assoc, List.singleton_append]
    cases e with
    | lookup r =>
      obtain ⟨hHere, hNext⟩ := cacheLookupByObject_spec h hClash
      rw [hShift] at hClash
      intro p hp
      rcases List.mem_cons.1 hp with rfl | hp
      · exact hHere
      · exact ih hNext hClash p hp
    | iconsChanged =>
      rw [hShift] at hClash
      have hNone : Rendered t (before ++ [.iconsChanged]) fun _ => none :=
        fun fp icon hIcon => by cases hIcon
      exact ih hNone hClash

/-- One icon, of one pixel, gray, and what comes of it with a dark color. -/
def onePixel : Theme where
  fromTheme _ _ := ⟨1, 1, [⟨255, 100, 100, 100⟩], rfl⟩
  loadIcon _ _ := none
  colorize c image := .ofPixels image.width image.height fun x y =>
    let p := image.pixel x y
    let shade (v w : UInt8) : UInt8 := UInt8.ofNat (v.toNat * w.toNat / 128)
    ⟨p.alpha, shade c.red p.red, shade c.green p.green, shade c.blue p.blue⟩
  toGray image := image
  scaled _ image := image
  semiTransparent image := image
  outside _ _ := default
  localNumber := number

/-- For an account without a color. -/
def plain : IconRequest := ⟨.ofType .online, "jabber_protocol", 1, none, false⟩

/-- For an account of the same protocol whose color is black. -/
def black : IconRequest := { plain with color := some ⟨0, 0, 0⟩ }

end IconCache

end Kopete
