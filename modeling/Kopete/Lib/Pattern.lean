import Mathlib

/-!
# Patterns in a text

A pattern finds its first occurrence in a text, which is not empty; what is between the
occurrences are the parts of the text, and a section is some of these, with the occurrences
between them.

Main results:

* `flatten_sections` — nothing of a text is lost when it is taken apart;
* `textSection_zero` — the section from the first part to the last one is the text;
* `filter_split_run` — between runs of separators there are the same parts as between single
  ones, the empty ones apart.
-/

/-- What it finds first: what is before that, what it is, and what is behind it. -/
structure Pattern (α : Type*) where
  indexIn : List α → Option (List α × List α × List α)
  append_of_indexIn : ∀ {s before found after},
    indexIn s = some (before, found, after) → before ++ (found ++ after) = s
  ne_nil_of_indexIn : ∀ {s before found after},
    indexIn s = some (before, found, after) → found ≠ []

namespace Pattern

variable {α : Type*} (p : Pattern α)

theorem length_lt {s before found after : List α}
    (h : p.indexIn s = some (before, found, after)) : after.length < s.length := by
  have hPos : 0 < found.length := List.length_pos_iff.2 (p.ne_nil_of_indexIn h)
  rw [← p.append_of_indexIn h, List.length_append, List.length_append]
  omega

/-- The parts, each with what has been found before it. -/
def sectionsFrom (sep s : List α) : List (List α × List α) :=
  match h : p.indexIn s with
  | none => [(sep, s)]
  | some (before, found, after) =>
    have := p.length_lt h
    (sep, before) :: sectionsFrom found after
termination_by s.length

def sections (s : List α) : List (List α × List α) := p.sectionsFrom [] s

/-- Without what has been found before the first of them. -/
def joinSections : List (List α × List α) → List α
  | [] => []
  | (_, part) :: rest => part ++ rest.flatMap fun (sep, part) => sep ++ part

/-- `QString::section`: from the end if the number is negative. -/
def textSection (s : List α) (start stop : Int) : List α :=
  let sections := p.sections s
  let start := if start < 0 then start + sections.length else start
  let stop := if stop < 0 then stop + sections.length else stop
  if sections.length ≤ start ∨ stop < 0 ∨ stop < start then []
  else joinSections ((sections.take (stop + 1).toNat).drop start.toNat)

/-- `QString::split`, with the empty parts. -/
def split (s : List α) : List (List α) := (p.sections s).map Prod.snd

/-- `QString::SkipEmptyParts`. -/
def skipEmptyParts (parts : List (List α)) : List (List α) := parts.filter (!·.isEmpty)

/-! ## All sections -/

theorem sectionsFrom_none {sep s : List α} (h : p.indexIn s = none) :
    p.sectionsFrom sep s = [(sep, s)] := by
  rw [sectionsFrom]
  split
  · rfl
  · next hSome => rw [h] at hSome; cases hSome

theorem sectionsFrom_some {sep s before found after : List α}
    (h : p.indexIn s = some (before, found, after)) :
    p.sectionsFrom sep s = (sep, before) :: p.sectionsFrom found after := by
  rw [sectionsFrom]
  split
  · next hNone => rw [h] at hNone; cases hNone
  · next hSome =>
    rw [h] at hSome
    cases hSome
    rfl

theorem flatMap_sectionsFrom (sep s : List α) :
    ((p.sectionsFrom sep s).flatMap fun (sep, part) => sep ++ part) = sep ++ s := by
  fun_induction p.sectionsFrom sep s with
  | case1 sep s => rw [List.flatMap_singleton]
  | case2 sep s before found after hFind _ ih =>
    rw [List.flatMap_cons, ih, List.append_assoc, p.append_of_indexIn hFind]

/-- **Nothing is lost.** -/
theorem flatten_sections (s : List α) :
    ((p.sections s).flatMap fun (sep, part) => sep ++ part) = s :=
  p.flatMap_sectionsFrom [] s

theorem exists_sections (s : List α) : ∃ part rest, p.sections s = ([], part) :: rest := by
  cases hFind : p.indexIn s with
  | none => exact ⟨s, [], p.sectionsFrom_none hFind⟩
  | some o => exact ⟨_, _, p.sectionsFrom_some hFind⟩

/-- **From the first part to the last one.** -/
theorem textSection_zero (s : List α) : p.textSection s 0 (-1) = s := by
  obtain ⟨part, rest, hSections⟩ := p.exists_sections s
  have hAll := p.flatten_sections s
  rw [hSections, List.flatMap_cons] at hAll
  have hStop : ((-1 : Int) + ((rest.length + 1 : Nat) : Int) + 1).toNat = rest.length + 1 := by
    omega
  have hTake : (([], part) :: rest).take (rest.length + 1) = ([], part) :: rest :=
    List.take_of_length_le (Nat.le_refl _)
  rw [textSection, hSections]
  simp only [List.length_cons, Int.lt_irrefl, if_false, Int.reduceNeg, Int.reduceLT, if_true]
  rw [if_neg (by omega), hStop, hTake]
  exact hAll

/-! ## Runs of separators -/

/-- One separator or more, as many as there are. -/
def run (isSep : α → Bool) : Pattern α where
  indexIn s :=
    match s.dropWhile (!isSep ·) with
    | [] => none
    | c :: t => some (s.takeWhile (!isSep ·), c :: t.takeWhile isSep, t.dropWhile isSep)
  append_of_indexIn := by
    intro s before found after h
    split at h
    · cases h
    · next c t hDrop =>
      cases h
      rw [List.cons_append, List.takeWhile_append_dropWhile, ← hDrop,
        List.takeWhile_append_dropWhile]
  ne_nil_of_indexIn := by
    intro s before found after h
    split at h
    · cases h
    · cases h
      exact List.cons_ne_nil _ _

variable {isSep : α → Bool}

theorem indexIn_run_none {s : List α} (h : (run isSep).indexIn s = none) :
    ∀ c ∈ s, isSep c = false := by
  simp only [run] at h
  split at h
  · next hDrop =>
    intro c hc
    simpa using List.dropWhile_eq_nil_iff.1 hDrop c hc
  · cases h

theorem indexIn_run_some {s before found after : List α}
    (h : (run isSep).indexIn s = some (before, found, after)) :
    (∀ c ∈ before, isSep c = false) ∧
      ∃ c t, found = c :: t ∧ isSep c = true ∧ ∀ d ∈ t, isSep d = true := by
  simp only [run] at h
  split at h
  · cases h
  · next c t hDrop =>
    cases h
    have hHead := List.head_dropWhile_not (p := (!isSep ·)) (l := s)
      (by rw [hDrop]; exact List.cons_ne_nil _ _)
    refine ⟨fun d hd => by simpa using List.mem_takeWhile_imp hd, c, _, rfl, ?_,
      fun d hd => List.mem_takeWhile_imp hd⟩
    simpa only [hDrop, List.head_cons, Bool.not_eq_false'] using hHead

theorem skipEmptyParts_splitOnP_append {t : List α} (ht : ∀ c ∈ t, isSep c = true) (s : List α) :
    skipEmptyParts ((t ++ s).splitOnP isSep) = skipEmptyParts (s.splitOnP isSep) := by
  induction t with
  | nil => rfl
  | cons c t ih =>
    rw [List.cons_append, List.splitOnP_cons_eq_if_modifyHead, if_pos (ht c List.mem_cons_self)]
    exact ih fun d hd => ht d (List.mem_cons_of_mem c hd)

/-- **Between runs of separators.** -/
theorem filter_split_run (s : List α) :
    skipEmptyParts ((run isSep).split s) = skipEmptyParts (s.splitOnP isSep) := by
  suffices h : ∀ sep, skipEmptyParts (((run isSep).sectionsFrom sep s).map Prod.snd) =
      skipEmptyParts (s.splitOnP isSep) from h []
  intro sep
  fun_induction (run isSep).sectionsFrom sep s with
  | case1 sep s hNone =>
    rw [List.splitOnP_eq_singleton (indexIn_run_none hNone)]
    rfl
  | case2 sep s before found after hSome _ ih =>
    obtain ⟨hBefore, c, t, rfl, hc, ht⟩ := indexIn_run_some hSome
    rw [← (run isSep).append_of_indexIn hSome, List.cons_append,
      List.splitOnP_append_cons_of_forall_mem hBefore c hc, List.map_cons]
    simp only [skipEmptyParts, List.filter_cons] at ih ⊢
    have hSkip := skipEmptyParts_splitOnP_append ht after
    simp only [skipEmptyParts] at hSkip
    rw [ih, hSkip]

end Pattern
