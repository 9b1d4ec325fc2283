import Kopete.Lib.XmlStream

/-!
# Messages — the body of a message, as plain text

The body is a text document. Setting it from plain text makes a block of every line; taken
as plain text every separator becomes a line feed.

Main results:

* `plainBody_setPlainBody` — a plain body is the plain body of what is set from it.
-/

namespace Kopete

open XmlStream (Text)

/-- `QChar::ObjectReplacementCharacter`, `QChar::Nbsp` and what separates blocks and lines of
a text document. -/
def objectReplacement : Char := Char.ofNat 0xFFFC

def nbsp : Char := Char.ofNat 0xA0

def paragraphSeparator : Char := Char.ofNat 0x2029

def isSeparator (c : Char) : Bool :=
  c = paragraphSeparator || c = Char.ofNat 0x2028 || c = Char.ofNat 0xFDD0 || c = Char.ofNat 0xFDD1

/-- `QTextDocument::toPlainText` for one of its characters. -/
def plainChar (c : Char) : Char := if isSeparator c then '\n' else if c = nbsp then ' ' else c

/-- `QTextDocument::setPlainText`: what becomes of the characters. -/
def documentOf : Text → Text
  | '\r' :: '\n' :: s => paragraphSeparator :: documentOf s
  | c :: s =>
    (if c = '\r' ∨ c = '\n' ∨ c = Char.ofNat 0xFDD0 ∨ c = Char.ofNat 0xFDD1 then paragraphSeparator
      else c) :: documentOf s
  | [] => []

/-- `Kopete::Message`: the characters of its document, and its HTML form. -/
structure Message where
  body : Text
  escapedBody : Text

namespace Message

def withoutObjects (s : Text) : Text := s.map fun c => if c = objectReplacement then ' ' else c

/-- `Message::plainBody`. -/
def plainBody (m : Message) : Text := withoutObjects (m.body.map plainChar)

/-- The document of a message after `Message::setPlainBody`. -/
def setPlainBody (body : Text) : Text := documentOf (withoutObjects body)

/-- The characters that a plain body can have. -/
def IsPlain (c : Char) : Prop := isSeparator c = false ∧ c ≠ nbsp ∧ c ≠ objectReplacement

theorem isPlain_plainChar (c : Char) :
    isSeparator (plainChar c) = false ∧ plainChar c ≠ nbsp := by
  unfold plainChar
  by_cases hSeparator : isSeparator c
  · rw [if_pos hSeparator]
    decide
  · rw [if_neg hSeparator]
    split
    · decide
    · exact ⟨Bool.eq_false_iff.2 hSeparator, ‹_›⟩

theorem isPlain_of_mem_plainBody {m : Message} {c : Char} (h : c ∈ m.plainBody) : IsPlain c := by
  obtain ⟨d, hd, rfl⟩ := List.mem_map.1 h
  obtain ⟨e, -, rfl⟩ := List.mem_map.1 hd
  split
  · unfold IsPlain
    decide
  · exact ⟨(isPlain_plainChar e).1, (isPlain_plainChar e).2, ‹_›⟩

theorem withoutObjects_of_plain {s : Text} (h : ∀ c ∈ s, c ≠ objectReplacement) :
    withoutObjects s = s := by
  unfold withoutObjects
  conv_rhs => rw [← List.map_id s]
  exact List.map_congr_left fun c hc => if_neg (h c hc)

theorem documentOf_plain {s : Text} (h : ∀ c ∈ s, IsPlain c) (hReturn : '\r' ∉ s) :
    (documentOf s).map plainChar = s := by
  induction s with
  | nil => rfl
  | cons c s ih =>
    have hc : c ≠ '\r' := fun hc => hReturn (by rw [hc]; exact List.mem_cons_self)
    obtain ⟨hSeparator, hNbsp, -⟩ := h c List.mem_cons_self
    have hRest := ih (fun d hd => h d (List.mem_cons_of_mem _ hd))
      (fun hd => hReturn (List.mem_cons_of_mem _ hd))
    have hHead : documentOf (c :: s) = (if c = '\r' ∨ c = '\n' ∨ c = Char.ofNat 0xFDD0 ∨
        c = Char.ofNat 0xFDD1 then paragraphSeparator else c) :: documentOf s := by
      rw [documentOf]
      exact fun _ hEq _ => hc hEq
    rw [hHead, List.map_cons, hRest]
    congr 1
    unfold isSeparator at hSeparator
    simp only [Bool.or_eq_false_iff, decide_eq_false_iff_not] at hSeparator
    obtain ⟨⟨⟨hParagraph, hLine⟩, hBegin⟩, hEnd⟩ := hSeparator
    by_cases hFeed : c = '\n'
    · rw [if_pos (.inr (.inl hFeed)), hFeed]
      decide
    · rw [if_neg (by rintro (h | h | h | h) <;> contradiction)]
      unfold plainChar isSeparator
      rw [if_neg (by simp [hParagraph, hLine, hBegin, hEnd]), if_neg hNbsp]

/-- **A plain body** without carriage returns is that of what is set from it. -/
theorem plainBody_setPlainBody {s e : Text} (h : ∀ c ∈ s, IsPlain c) (hReturn : '\r' ∉ s) :
    plainBody ⟨setPlainBody s, e⟩ = s := by
  unfold plainBody setPlainBody
  rw [withoutObjects_of_plain fun c hc => (h c hc).2.2, documentOf_plain h hReturn,
    withoutObjects_of_plain fun c hc => (h c hc).2.2]

theorem length_documentOf_le (s : Text) : (documentOf s).length ≤ s.length := by
  induction s using documentOf.induct with
  | case1 s ih => exact Nat.le_trans (Nat.succ_le_succ ih) (Nat.le_succ _)
  | case2 c s hNot ih =>
    rw [documentOf]
    · exact Nat.succ_le_succ ih
    · exact hNot
  | case3 => exact Nat.le_refl _

/-- Setting a body does not make it longer. -/
theorem length_setPlainBody_le (s e : Text) :
    (plainBody ⟨setPlainBody s, e⟩).length ≤ s.length := by
  unfold plainBody setPlainBody withoutObjects
  rw [List.length_map, List.length_map]
  exact Nat.le_trans (length_documentOf_le _) (Nat.le_of_eq (List.length_map _))

theorem not_mem_documentOf (s : Text) : '\r' ∉ documentOf s := by
  induction s using documentOf.induct with
  | case1 s ih =>
    rw [documentOf]
    exact fun h => (List.mem_cons.1 h).elim (by decide) ih
  | case2 c s hNot ih =>
    rw [documentOf]
    · refine fun h => (List.mem_cons.1 h).elim ?_ ih
      split
      · decide
      case isFalse hc => exact fun h => hc (.inl h.symm)
    · exact hNot
  | case3 => exact List.not_mem_nil

/-- Nor does it leave a carriage return. -/
theorem not_mem_setPlainBody (s e : Text) : '\r' ∉ plainBody ⟨setPlainBody s, e⟩ := by
  intro h
  obtain ⟨d, hd, hSame⟩ := List.mem_map.1 h
  obtain ⟨c, hc, rfl⟩ := List.mem_map.1 hd
  have hReturn : c = '\r' := by
    unfold plainChar at hSame
    split at hSame
    · exact absurd hSame (by decide)
    · split at hSame
      · exact absurd hSame (by decide)
      · split at hSame
        · exact absurd hSame (by decide)
        · exact hSame
  rw [hReturn] at hc
  exact not_mem_documentOf _ hc

end Message

end Kopete
