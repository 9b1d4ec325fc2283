import Kopete.Lib.Html
import Mathlib

/-!
# Chat window — nickname colors

`ChatMessagePart::formatStyleKeywords` colors a nickname by the contact id: the code units,
each multiplied by its position, are added up, and the sum modulo the number of colors is
the index of the color. The sum is an `int`; where a product or a sum is no `int`, the
machine wraps it, which the language leaves undefined. `QString::length` is an `int`, so the
position always is one.

Main results:

* `weigh_overflowed`, `weigh_hash` — what the loop has added up, exactly;
* `nameColor_sound_iff` — when it is.
-/

namespace ChatMessagePart

open Html

/-- `nameColors`. -/
def nameColors : List Text :=
  ["red", "blue", "gray", "magenta", "violet", "#808000", "yellowgreen",
    "darkred", "darkgreen", "darksalmon", "darkcyan", "#B07D2B",
    "mediumpurple", "peru", "olivedrab", "#B01712", "darkorange", "slateblue",
    "slategray", "goldenrod", "orangered", "tomato", "#1E90FF", "steelblue",
    "deeppink", "saddlebrown", "coral", "royalblue"].map latin1

/-- `sizeof(nameColors) / sizeof(nameColors[0]) - 1`. -/
def nameColorsLen : Int := nameColors.length - 1

def IsInt (x : Int) : Prop := -2 ^ 31 ≤ x ∧ x < 2 ^ 31

instance (x : Int) : Decidable (IsInt x) := inferInstanceAs (Decidable (_ ∧ _))

/-- What is left of a number in 32 bits. -/
def wrap (x : Int) : Int := x.bmod (2 ^ 32)

/-- The variable `hash`, and whether something that was no `int` has been wrapped. -/
structure Hash where
  hash : Int
  overflowed : Bool
deriving DecidableEq, Repr

/-- `hash += contactId[f].unicode() * f`. -/
def Hash.add (h : Hash) (f : Nat) (unicode : UInt16) : Hash :=
  let product : Int := unicode.toNat * f
  let sum := h.hash + wrap product
  ⟨wrap sum, h.overflowed || !decide (IsInt product) || !decide (IsInt sum)⟩

/-- The loop, from position `f` on. -/
def weigh : Hash → Nat → Text → Hash
  | h, _, [] => h
  | h, f, unicode :: contactId => weigh (h.add f unicode) (f + 1) contactId

def hash (contactId : Text) : Hash := weigh ⟨0, false⟩ 0 contactId

/-- `hash % nameColorsLen`. -/
def colorIndex (contactId : Text) : Int := (hash contactId).hash.tmod nameColorsLen

/-- `nameColors[ hash % nameColorsLen ]`; outside the table there is no color. -/
def nameColor (contactId : Text) : Option Text :=
  if 0 ≤ colorIndex contactId then nameColors[(colorIndex contactId).toNat]? else none

/-- Nothing overflows, and the index is inside the table. -/
def Sound (contactId : Text) : Prop :=
  (hash contactId).overflowed = false ∧
    0 ≤ colorIndex contactId ∧ colorIndex contactId < nameColors.length

instance (contactId : Text) : Decidable (Sound contactId) := inferInstanceAs (Decidable (_ ∧ _))

/-- The exact sum, from position `f` on. -/
def weightedSum : Nat → Text → Nat
  | _, [] => 0
  | f, unicode :: contactId => unicode.toNat * f + weightedSum (f + 1) contactId

/-! ## The loop -/

theorem wrap_of_isInt {x : Int} (h : IsInt x) : wrap x = x := by
  obtain ⟨hLow, hHigh⟩ := h
  exact Int.bmod_eq_of_le (by omega) (by omega)

/-- Adding to what is exact so far. -/
theorem add_of_exact {f : Nat} {unicode : UInt16} {n : Nat}
    (h : n + unicode.toNat * f < 2 ^ 31) :
    (Hash.mk n false).add f unicode = ⟨(n + unicode.toNat * f : Nat), false⟩ := by
  have hProduct : IsInt (unicode.toNat * f) := ⟨by omega, by omega⟩
  have hSum : IsInt (n + unicode.toNat * f) := ⟨by omega, by omega⟩
  simp only [Hash.add, wrap_of_isInt hProduct, wrap_of_isInt hSum, hProduct, hSum]
  simp

theorem add_of_inexact {f : Nat} {unicode : UInt16} {n : Nat}
    (h : 2 ^ 31 ≤ n + unicode.toNat * f) :
    ((Hash.mk n false).add f unicode).overflowed = true := by
  simp only [Hash.add, Bool.false_or, Bool.or_eq_true, Bool.not_eq_true', decide_eq_false_iff_not]
  by_cases hProduct : IsInt (unicode.toNat * f)
  · right
    rw [wrap_of_isInt hProduct]
    exact fun hSum => absurd hSum.2 (by omega)
  · exact Or.inl hProduct

/-- What has overflowed once stays so. -/
theorem weigh_overflowed_of_overflowed {h : Hash} (hOver : h.overflowed = true) (f : Nat)
    (contactId : Text) : (weigh h f contactId).overflowed = true := by
  induction contactId generalizing h f with
  | nil => exact hOver
  | cons unicode contactId ih => exact ih (by simp [Hash.add, hOver]) (f + 1)

/-- **The loop, while nothing overflows.** -/
theorem weigh_hash {n f : Nat} {contactId : Text} (h : n + weightedSum f contactId < 2 ^ 31) :
    weigh ⟨n, false⟩ f contactId = ⟨(n + weightedSum f contactId : Nat), false⟩ := by
  induction contactId generalizing n f with
  | nil => rfl
  | cons unicode contactId ih =>
    rw [weightedSum] at h
    rw [weigh, add_of_exact (by omega), ih (by omega), weightedSum, Nat.add_assoc]

/-- **The loop overflows** as soon as the exact sum is no `int`. -/
theorem weigh_overflowed {n f : Nat} {contactId : Text} (hStart : n < 2 ^ 31)
    (h : 2 ^ 31 ≤ n + weightedSum f contactId) :
    (weigh ⟨n, false⟩ f contactId).overflowed = true := by
  induction contactId generalizing n f with
  | nil => exact absurd h (by rw [weightedSum]; omega)
  | cons unicode contactId ih =>
    rw [weightedSum] at h
    rw [weigh]
    by_cases hHere : n + unicode.toNat * f < 2 ^ 31
    · rw [add_of_exact hHere]
      exact ih hHere (by omega)
    · exact weigh_overflowed_of_overflowed (add_of_inexact (by omega)) _ _

theorem hash_of_lt {contactId : Text} (h : weightedSum 0 contactId < 2 ^ 31) :
    hash contactId = ⟨weightedSum 0 contactId, false⟩ := by
  have hExact : weigh ⟨(0 : Nat), false⟩ 0 contactId = _ := weigh_hash (by omega)
  rw [Nat.zero_add] at hExact
  exact hExact

/-! ## The index -/

theorem index_of_hash {x : Int} (h : 0 ≤ x) :
    0 ≤ x.tmod nameColorsLen ∧ x.tmod nameColorsLen < nameColors.length := by
  have hLength : nameColors.length = 28 := rfl
  rw [nameColorsLen, hLength, Int.tmod_eq_emod_of_nonneg h]
  omega

theorem sound_of_lt {contactId : Text} (h : weightedSum 0 contactId < 2 ^ 31) :
    Sound contactId := by
  have hIndex := index_of_hash (Int.natCast_nonneg (weightedSum 0 contactId))
  rw [Sound, colorIndex, hash_of_lt h]
  exact ⟨rfl, hIndex⟩

/-- **The index is sound** exactly for the ids whose exact sum is an `int`. -/
theorem nameColor_sound_iff (contactId : Text) :
    Sound contactId ↔ weightedSum 0 contactId < 2 ^ 31 := by
  refine ⟨fun ⟨hOver, _⟩ => ?_, sound_of_lt⟩
  by_contra hHeavy
  have hTrue : (weigh ⟨(0 : Nat), false⟩ 0 contactId).overflowed = true :=
    weigh_overflowed (by omega) (by omega)
  exact absurd (hOver.symm.trans hTrue) (by simp)

/-- 340 times one Chinese character: 1020 bytes in UTF-8, and an index of -22. -/
theorem nameColor_unsound :
    ¬ Sound (List.replicate 340 0x9fa5) ∧ colorIndex (List.replicate 340 0x9fa5) = -22 := by
  decide +kernel

end ChatMessagePart
