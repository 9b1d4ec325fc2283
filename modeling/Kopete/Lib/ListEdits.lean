import Kopete.Lib.QList

/-!
# Lists as sets, edited in any order

Values are appended to a list and taken off it, one after the other. Where no value is both
appended and taken off, and none is appended that is there, the order does not matter to the set.

Main results:

* `mem_foldl_edit` — what is on the list in the end;
* `nodup_foldl_edit` — no value is on it twice.
-/

namespace QList

variable {α : Type*}

inductive Edit (α : Type*)
  | append (a : α)
  | removeAll (a : α)

/-- The list after an edit. -/
def edit [DecidableEq α] (l : List α) : Edit α → List α
  | .append a => l ++ [a]
  | .removeAll a => removeAll l a

/-- No value is appended and taken off, none is edited twice, and only new ones are appended. -/
structure Independent (l : List α) (es : List (Edit α)) : Prop where
  apart : ∀ a, .append a ∈ es → .removeAll a ∉ es
  once : es.Nodup
  new : ∀ a, .append a ∈ es → a ∉ l

variable {l : List α} {es es' : List (Edit α)}

/-- The order of the edits does not matter. -/
theorem Independent.perm (h : Independent l es) (hPerm : es'.Perm es) : Independent l es' where
  apart a ha hb := h.apart a (hPerm.mem_iff.mp ha) (hPerm.mem_iff.mp hb)
  once := hPerm.nodup_iff.mpr h.once
  new a ha := h.new a (hPerm.mem_iff.mp ha)

variable [DecidableEq α]

/-- **What is on the list in the end**: what has been appended, and what was there and has not been
taken off. -/
theorem mem_foldl_edit (h : ∀ a, .append a ∈ es → .removeAll a ∉ es) (a : α) :
    a ∈ es.foldl edit l ↔ .append a ∈ es ∨ a ∈ l ∧ .removeAll a ∉ es := by
  induction es generalizing l with
  | nil => simp
  | cons e es ih =>
    have hRest : ∀ a, .append a ∈ es → .removeAll a ∉ es := fun a ha hb =>
      h a (List.mem_cons_of_mem e ha) (List.mem_cons_of_mem e hb)
    rw [List.foldl_cons, ih hRest]
    cases e with
    | append b =>
      have hApart : a = b → .removeAll a ∉ es := by
        rintro rfl hb
        exact h a List.mem_cons_self (List.mem_cons_of_mem _ hb)
      simp only [edit, List.mem_append, List.mem_cons, List.not_mem_nil, or_false,
        Edit.append.injEq, reduceCtorEq, false_or]
      tauto
    | removeAll b =>
      simp only [edit, mem_removeAll, List.mem_cons, Edit.removeAll.injEq, reduceCtorEq, false_or]
      tauto

/-- **No value is on the list twice.** -/
theorem nodup_foldl_edit (hl : l.Nodup) (h : Independent l es) : (es.foldl edit l).Nodup := by
  induction es generalizing l with
  | nil => exact hl
  | cons e es ih =>
    obtain ⟨hOther, hOnce⟩ := List.nodup_cons.mp h.once
    have hApart : ∀ a, .append a ∈ es → .removeAll a ∉ es := fun a ha hb =>
      h.apart a (List.mem_cons_of_mem e ha) (List.mem_cons_of_mem e hb)
    rw [List.foldl_cons]
    cases e with
    | append b =>
      refine ih (nodup_append_iff.mpr ⟨hl, h.new b List.mem_cons_self⟩) ⟨hApart, hOnce, ?_⟩
      intro a ha hMem
      rcases List.mem_append.mp hMem with hBefore | hNow
      · exact h.new a (List.mem_cons_of_mem _ ha) hBefore
      · rw [List.mem_singleton.mp hNow] at ha
        exact hOther ha
    | removeAll b =>
      refine ih (nodup_removeAll hl b) ⟨hApart, hOnce, ?_⟩
      intro a ha hMem
      exact h.new a (List.mem_cons_of_mem _ ha) (mem_removeAll.mp hMem).1

end QList
