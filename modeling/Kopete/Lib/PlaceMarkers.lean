import Mathlib

/-!
# Place markers

A template in which `%1`, `%2`, ... stand for texts that are put in one after the other:
each goes to the lowest marker that is left, wherever this one comes from. A marker has one
digit or two, and an `L` before them asks for a localized number.
-/

namespace PlaceMarkers

inductive Piece where
  | char (c : Char)
  | marker (n : Nat) (locale : Bool) (raw : List Char)
deriving DecidableEq, Repr

namespace Piece

/-- What it is in the template. -/
def raw : Piece → List Char
  | char c => [c]
  | marker _ _ cs => cs

def number : Piece → Option Nat
  | char _ => none
  | marker n _ _ => some n

end Piece

def digitValue (c : Char) : Option Nat := if c.isDigit then some (c.toNat - 48) else none

/-- One digit or two, with what they are and what is behind them. -/
def digits (cs : List Char) : Option (Nat × List Char × List Char) :=
  match cs with
  | [] => none
  | c :: cs =>
    (digitValue c).map fun n =>
      match cs with
      | [] => (n, [c], [])
      | c' :: cs' =>
        match digitValue c' with
        | some n' => (10 * n + n', [c, c'], cs')
        | none => (n, [c], cs)

/-- What begins with a percent sign that is before this text. -/
def marker (cs : List Char) : Option (Piece × List Char) :=
  match cs with
  | 'L' :: cs => (digits cs).map fun (n, raw, rest) => (.marker n true ('%' :: 'L' :: raw), rest)
  | cs => (digits cs).map fun (n, raw, rest) => (.marker n false ('%' :: raw), rest)

theorem append_of_digits {cs raw rest : List Char} {n : Nat}
    (h : digits cs = some (n, raw, rest)) : raw ++ rest = cs ∧ raw ≠ [] := by
  rw [digits.eq_def] at h
  split at h
  · cases h
  · next c cs =>
    obtain ⟨n', -, hSome⟩ := Option.map_eq_some_iff.1 h
    split at hSome
    · cases hSome
      exact ⟨rfl, List.cons_ne_nil _ _⟩
    · split at hSome
      · cases hSome
        exact ⟨rfl, List.cons_ne_nil _ _⟩
      · cases hSome
        exact ⟨rfl, List.cons_ne_nil _ _⟩

theorem append_of_marker {cs rest : List Char} {p : Piece} (h : marker cs = some (p, rest)) :
    p.raw ++ rest = '%' :: cs ∧ rest.length < cs.length := by
  rw [marker.eq_def] at h
  split at h
  · obtain ⟨⟨n, raw, rest'⟩, hDigits, hSame⟩ := Option.map_eq_some_iff.1 h
    cases hSame
    obtain ⟨rfl, hNe⟩ := append_of_digits hDigits
    refine ⟨rfl, ?_⟩
    simp only [List.length_cons, List.length_append]
    omega
  · obtain ⟨⟨n, raw, rest'⟩, hDigits, hSame⟩ := Option.map_eq_some_iff.1 h
    cases hSame
    obtain ⟨rfl, hNe⟩ := append_of_digits hDigits
    refine ⟨rfl, ?_⟩
    have hPos := List.length_pos_iff.2 hNe
    simp only [List.length_append]
    omega

/-- The markers of a template, and what is between them. -/
def pieces (cs : List Char) : List Piece :=
  match cs with
  | [] => []
  | c :: cs =>
    if c = '%' then
      match _hMarker : marker cs with
      | some (p, rest) => p :: pieces rest
      | none => .char c :: pieces cs
    else .char c :: pieces cs
termination_by cs.length
decreasing_by
  · have hLess := (append_of_marker _hMarker).2
    rw [List.length_cons]
    omega
  · exact Nat.lt_succ_self _
  · exact Nat.lt_succ_self _

/-- The numbers of the markers. -/
def numbers (cs : List Char) : List Nat := (pieces cs).filterMap Piece.number

/-- `QString::arg`, of a text and what stands for it where a localized one is asked for. -/
def arg (template text localized : List Char) : List Char :=
  match (numbers template).min? with
  | none => template
  | some low =>
    (pieces template).flatMap fun
      | .char c => [c]
      | .marker n locale raw => if n = low then (if locale then localized else text) else raw

end PlaceMarkers
