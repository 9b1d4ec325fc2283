import Kopete.Lib.QList
import Mathlib

/-!
# Rows that are dropped one by one

Rows are moved one after the other, each before what stands at some place by then. To drop them
all at one place is to have them there in order, between the rows that were before the place and
those that were behind it. Moving them one by one comes to that only if every place fits: no row
that has been moved, and none that is to stay in front, is behind it.

Main results:

* `place_new`, `place_moved` — a row is put in, or taken out and put back;
* `order_iff` — the moved rows are in order just when every place fits;
* `placeAll_rows_iff`, `placeAll_end_iff` — places that are counted up from a row, or from the one
  before the first, with rows from elsewhere at the end;
* `placeAll_movesAt_iff` — both.
-/

namespace RowDrop

open QList (removeAll mem_removeAll removeAll_of_not_mem)

variable {α : Type*} [DecidableEq α] {l : List α} {d : α} {j : ℕ}

/-- The row `d` is put before what stands at `j`. -/
def place (l : List α) (j : ℕ) (d : α) : List α :=
  removeAll (l.take j) d ++ d :: removeAll (l.drop j) d

/-- Rows are put at their places one after the other. -/
def placeAll (l : List α) (moves : List (α × ℕ)) : List α :=
  moves.foldl (fun l m => place l m.2 m.1) l

/-- The rows with `ds` dropped before the row `r`. -/
def dropped (l : List α) (r : ℕ) (ds : List α) : List α :=
  (l.take r).filter (· ∉ ds) ++ ds ++ (l.drop r).filter (· ∉ ds)

/-! ## One row -/

theorem removeAll_append (as bs : List α) (a : α) :
    removeAll (as ++ bs) a = removeAll as a ++ removeAll bs a := List.filter_append ..

theorem filter_removeAll {p : α → Bool} (hp : p d = false) (as : List α) :
    (removeAll as d).filter p = as.filter p := by
  rw [removeAll, List.filter_filter]
  refine List.filter_congr fun x _ => ?_
  by_cases hx : x = d
  · simp [hx, hp]
  · simp [hx]

/-- The other rows stay as they are. -/
theorem filter_place {p : α → Bool} (hp : p d = false) : (place l j d).filter p = l.filter p := by
  rw [place, List.filter_append, List.filter_cons_of_neg (by simp [hp]), filter_removeAll hp,
    filter_removeAll hp, ← List.filter_append, List.take_append_drop]

theorem place_perm : (place l j d).Perm (d :: removeAll l d) := by
  have hParts : removeAll (l.take j) d ++ removeAll (l.drop j) d = removeAll l d := by
    rw [← removeAll_append, List.take_append_drop]
  exact List.perm_middle.trans (hParts ▸ List.Perm.refl _)

theorem mem_place {x : α} : x ∈ place l j d ↔ x = d ∨ x ∈ l := by
  rw [place_perm.mem_iff, List.mem_cons, mem_removeAll]
  tauto

theorem nodup_place (h : l.Nodup) : (place l j d).Nodup := by
  rw [place_perm.nodup_iff, List.nodup_cons]
  exact ⟨fun hMem => (mem_removeAll.mp hMem).2 rfl, QList.nodup_removeAll h d⟩

theorem length_place (h : l.Nodup) :
    (place l j d).length = if d ∈ l then l.length else l.length + 1 := by
  rw [place_perm.length_eq, List.length_cons]
  split
  · next hMem =>
    obtain ⟨as, bs, rfl, hNot⟩ := List.eq_append_cons_of_mem hMem
    have hBehind := (List.nodup_cons.mp (List.nodup_append.mp h).2.1).1
    rw [removeAll_append, QList.removeAll_cons_self, removeAll_of_not_mem hNot,
      removeAll_of_not_mem hBehind, List.length_append, List.length_append, List.length_cons]
    omega
  · next hNew => rw [removeAll_of_not_mem hNew]

theorem length_place_le (h : l.Nodup) : (place l j d).length ≤ l.length + 1 := by
  rw [length_place h]
  split <;> omega

/-- Behind all rows. -/
theorem place_of_length_le (hj : l.length ≤ j) : place l j d = removeAll l d ++ [d] := by
  rw [place, List.take_of_length_le hj, List.drop_of_length_le hj]
  rfl

omit [DecidableEq α] in
/-- A place among the first ones. -/
theorem insertIdx_append (as bs : List α) (a : α) {i : ℕ} (hi : i ≤ as.length) :
    (as ++ bs).insertIdx i a = as.insertIdx i a ++ bs := by
  induction as generalizing i with
  | nil =>
    obtain rfl := Nat.le_zero.mp hi
    rfl
  | cons b as ih =>
    cases i with
    | zero => rfl
    | succ i =>
      rw [List.cons_append, List.insertIdx_succ_cons, List.insertIdx_succ_cons,
        ih (Nat.le_of_succ_le_succ hi), List.cons_append]

omit [DecidableEq α] in
theorem insertIdx_eq (hj : j ≤ l.length) : l.insertIdx j d = l.take j ++ d :: l.drop j := by
  have hTake : (l.take j).length = j := List.length_take_of_le hj
  calc l.insertIdx j d = (l.take j ++ l.drop j).insertIdx j d := by rw [List.take_append_drop]
    _ = (l.take j).insertIdx j d ++ l.drop j := insertIdx_append _ _ d (Nat.le_of_eq hTake.symm)
    _ = (l.take j).insertIdx (l.take j).length d ++ l.drop j := by rw [hTake]
    _ = l.take j ++ d :: l.drop j := by
      rw [List.insertIdx_length_self, List.append_assoc, List.singleton_append]

/-- **A new row** is put in. -/
theorem place_new (hNew : d ∉ l) (hj : j ≤ l.length) : place l j d = l.insertIdx j d := by
  rw [insertIdx_eq hj, place, removeAll_of_not_mem fun hMem => hNew (List.mem_of_mem_take hMem),
    removeAll_of_not_mem fun hMem => hNew (List.mem_of_mem_drop hMem)]

/-- **A row is taken out and put back**: a place behind it is counted without it. -/
theorem place_moved (h : l.Nodup) (hMem : d ∈ l) (hj : j ≤ l.length) :
    place l j d =
      (l.eraseIdx (l.idxOf d)).insertIdx (if l.idxOf d < j then j - 1 else j) d := by
  obtain ⟨as, bs, rfl, hNot⟩ := List.eq_append_cons_of_mem hMem
  have hBehind : d ∉ bs := (List.nodup_cons.mp (List.nodup_append.mp h).2.1).1
  have hIdx : (as ++ d :: bs).idxOf d = as.length := by
    rw [List.idxOf_append_of_notMem hNot, List.idxOf_cons_self, Nat.add_zero]
  have hErased : (as ++ d :: bs).eraseIdx as.length = as ++ bs := by
    rw [List.eraseIdx_append_of_length_le (Nat.le_refl _), Nat.sub_self, List.eraseIdx_cons_zero]
  rw [List.length_append, List.length_cons] at hj
  rw [hIdx, hErased]
  split
  · next hBefore =>
    obtain ⟨k, rfl⟩ := Nat.exists_eq_add_of_lt hBefore
    have hTake : (as ++ d :: bs).take (as.length + k + 1) = as ++ d :: bs.take k := by
      rw [Nat.add_assoc, List.take_length_add_append, List.take_succ_cons]
    have hDrop : (as ++ d :: bs).drop (as.length + k + 1) = bs.drop k := by
      rw [Nat.add_assoc, List.drop_length_add_append, List.drop_succ_cons]
    rw [place, hTake, hDrop, removeAll_append, QList.removeAll_cons_self,
      removeAll_of_not_mem hNot, removeAll_of_not_mem fun hIn => hBehind (List.mem_of_mem_take hIn),
      removeAll_of_not_mem fun hIn => hBehind (List.mem_of_mem_drop hIn), Nat.add_sub_cancel,
      insertIdx_eq (by rw [List.length_append]; omega), List.take_length_add_append,
      List.drop_length_add_append]
  · next hNotBefore =>
    have hLe : j ≤ as.length := by omega
    rw [place, List.take_append_of_le_length hLe, List.drop_append_of_le_length hLe,
      removeAll_append, QList.removeAll_cons_self,
      removeAll_of_not_mem fun hIn => hNot (List.mem_of_mem_take hIn),
      removeAll_of_not_mem fun hIn => hNot (List.mem_of_mem_drop hIn),
      removeAll_of_not_mem hBehind, insertIdx_eq (by rw [List.length_append]; omega),
      List.take_append_of_le_length hLe, List.drop_append_of_le_length hLe]

/-- A row that is put where it is. -/
theorem place_self (h : l.Nodup) (hMem : d ∈ l) : place l (l.idxOf d) d = l := by
  have hLt := List.idxOf_lt_length_of_mem hMem
  rw [place_moved h hMem (Nat.le_of_lt hLt), if_neg (Nat.lt_irrefl _)]
  have hSame := List.insertIdx_eraseIdx_getElem hLt
  rwa [List.getElem_idxOf hLt] at hSame

theorem map_removeAll {β : Type*} [DecidableEq β] {f : α → β}
    (hf : ∀ x ∈ l, f x = f d → x = d) : (removeAll l d).map f = removeAll (l.map f) (f d) := by
  rw [removeAll, removeAll, List.filter_map]
  refine congrArg (List.map f) (List.filter_congr fun x hx => ?_)
  by_cases hSame : x = d
  · simp [hSame]
  · simpa [hSame] using fun hImage : f x = f d => hSame (hf x hx hImage)

/-- Rows under other names. -/
theorem map_place {β : Type*} [DecidableEq β] {f : α → β} (hf : ∀ x ∈ l, f x = f d → x = d) :
    (place l j d).map f = place (l.map f) j (f d) := by
  rw [place, place, List.map_append, List.map_cons,
    map_removeAll fun x hx => hf x (List.mem_of_mem_take hx),
    map_removeAll fun x hx => hf x (List.mem_of_mem_drop hx), List.map_take, List.map_drop]

/-! ## Rows in order -/

/-- No row of `front` is at `j` or behind. -/
def Fits (l : List α) (j : ℕ) (front : List α) : Prop := ∀ x ∈ l.drop j, x ∉ front

/-- Every place fits, with what has been moved by then. -/
def AllFit : List α → List α → List (α × ℕ) → Prop
  | _, _, [] => True
  | l, front, m :: ms => Fits l m.2 front ∧ AllFit (place l m.2 m.1) (front ++ [m.1]) ms

/-- All of `front` is before the place. -/
theorem Fits.filter_take {front : List α} (h : Fits l j front) :
    (l.take j).filter (· ∈ front) = l.filter (· ∈ front) := by
  have hNone : (l.drop j).filter (· ∈ front) = [] :=
    List.filter_eq_nil_iff.mpr fun x hx => by simpa using h x hx
  calc (l.take j).filter (· ∈ front)
      = (l.take j).filter (· ∈ front) ++ (l.drop j).filter (· ∈ front) := by
        rw [hNone, List.append_nil]
    _ = l.filter (· ∈ front) := by rw [← List.filter_append, List.take_append_drop]

theorem nodup_placeAll (h : l.Nodup) (ms : List (α × ℕ)) : (placeAll l ms).Nodup := by
  induction ms generalizing l with
  | nil => exact h
  | cons m ms ih => exact ih (nodup_place h)

theorem filter_placeAll {p : α → Bool} {ms : List (α × ℕ)} (hp : ∀ m ∈ ms, p m.1 = false) :
    (placeAll l ms).filter p = l.filter p := by
  induction ms generalizing l with
  | nil => rfl
  | cons m ms ih =>
    exact (ih fun m' hm' => hp m' (List.mem_cons_of_mem _ hm')).trans
      (filter_place (hp m List.mem_cons_self))

theorem sublist_iff_filter {s : List α} : s.Sublist l ↔ s.Sublist (l.filter (· ∈ s)) := by
  refine ⟨fun h => ?_, fun h => h.trans List.filter_sublist⟩
  have hSelf : s.filter (· ∈ s) = s := List.filter_eq_self.mpr fun x hx => decide_eq_true hx
  have hBoth := h.filter fun x => decide (x ∈ s)
  rwa [hSelf] at hBoth

/-- Rows that are not moved keep their order. -/
theorem sublist_placeAll_iff {ms : List (α × ℕ)} {s : List α} (hStay : ∀ m ∈ ms, m.1 ∉ s) :
    s.Sublist (placeAll l ms) ↔ s.Sublist l := by
  have hKept : (placeAll l ms).filter (· ∈ s) = l.filter (· ∈ s) :=
    filter_placeAll fun m hm => decide_eq_false (hStay m hm)
  rw [sublist_iff_filter, hKept, ← sublist_iff_filter]

theorem filter_place_of_fits {front : List α} (hFront : l.filter (· ∈ front) = front)
    (hFits : Fits l j front) (hNew : d ∉ front) :
    (place l j d).filter (· ∈ front ++ [d]) = front ++ [d] := by
  have hDrop : (removeAll (l.drop j) d).filter (· ∈ front ++ [d]) = [] := by
    refine List.filter_eq_nil_iff.mpr fun x hx => ?_
    obtain ⟨hMem, hOther⟩ := mem_removeAll.mp hx
    simpa using ⟨hFits x hMem, hOther⟩
  have hTake : (removeAll (l.take j) d).filter (· ∈ front ++ [d]) = front := by
    calc (removeAll (l.take j) d).filter (· ∈ front ++ [d])
        = (removeAll (l.take j) d).filter (· ∈ front) := by
          refine List.filter_congr fun x hx => ?_
          simp [(mem_removeAll.mp hx).2]
      _ = (l.take j).filter (· ∈ front) := filter_removeAll (by simpa using hNew) _
      _ = front := hFits.filter_take.trans hFront
  rw [place, List.filter_append, List.filter_cons_of_pos (by simp), hDrop, hTake]

omit [DecidableEq α] in
/-- Two rows are in one order only. -/
theorem not_sublist_of_split {as bs : List α} (h : (as ++ bs).Nodup) {x y : α} (hx : x ∈ bs)
    (hy : y ∈ as) : ¬ [x, y].Sublist (as ++ bs) := by
  intro hSub
  have hOrder : (as ++ bs).Pairwise fun a b => b ∈ as → a ∈ as := by
    refine List.pairwise_append.mpr ⟨?_, ?_, fun a ha _ _ _ => ha⟩
    · exact List.pairwise_of_forall_mem_list fun a ha _ _ _ => ha
    · exact List.pairwise_of_forall_mem_list fun _ _ b hb hIn =>
        absurd rfl ((List.nodup_append.mp h).2.2 b hIn b hb)
  have hPair := List.pairwise_pair.mp (hOrder.sublist hSub)
  exact (List.nodup_append.mp h).2.2 x (hPair hy) x hx rfl

/-- **Rows in order.** What is to stay in front, and behind it the rows that are moved: they are
in order in the end just when every place fits. -/
theorem order_iff {front : List α} {ms : List (α × ℕ)} (h : l.Nodup)
    (hFront : l.filter (· ∈ front) = front) (hNodup : (front ++ ms.map Prod.fst).Nodup) :
    (placeAll l ms).filter (· ∈ front ++ ms.map Prod.fst) = front ++ ms.map Prod.fst ↔
      AllFit l front ms := by
  induction ms generalizing l front with
  | nil => simpa [placeAll, AllFit] using hFront
  | cons m ms ih =>
    have hSplit : front ++ (m :: ms).map Prod.fst = (front ++ [m.1]) ++ ms.map Prod.fst := by simp
    have hNew : m.1 ∉ front := by
      intro hMem
      exact (List.nodup_append.mp hNodup).2.2 m.1 hMem m.1 List.mem_cons_self rfl
    by_cases hFits : Fits l m.2 front
    · rw [hSplit] at hNodup ⊢
      rw [AllFit, and_iff_right hFits]
      exact ih (nodup_place h) (filter_place_of_fits hFront hFits hNew) hNodup
    · refine iff_of_false (fun hOrder => ?_) fun hAll => hFits hAll.1
      obtain ⟨x, hx, hIn⟩ : ∃ x ∈ l.drop m.2, x ∈ front := by
        simpa [Fits] using hFits
      -- the row that is moved comes before `x`, and both stay there
      have hNe : x ≠ m.1 := fun hSame => hNew (hSame ▸ hIn)
      have hPair : [m.1, x].Sublist (place l m.2 m.1) := by
        refine List.Sublist.trans ?_ (List.sublist_append_right _ _)
        exact (List.singleton_sublist.mpr (mem_removeAll.mpr ⟨hx, hNe⟩)).cons_cons m.1
      obtain ⟨-, hMoved, hApart⟩ := List.nodup_append.mp hNodup
      have hStay : ∀ m' ∈ ms, m'.1 ∉ [m.1, x] := by
        intro m' hm' hMem
        have hLater : m'.1 ∈ ms.map Prod.fst := List.mem_map_of_mem hm'
        rcases List.mem_pair.mp hMem with hSame | hSame
        · exact (List.nodup_cons.mp hMoved).1 (hSame ▸ hLater)
        · exact hApart x hIn m'.1 (List.mem_cons_of_mem _ hLater) hSame.symm
      have hLast := ((sublist_placeAll_iff hStay).mpr hPair).filter (· ∈ front ++ (m :: ms).map Prod.fst)
      rw [List.filter_eq_self.mpr (by simp [hIn])] at hLast
      refine not_sublist_of_split hNodup (x := m.1) List.mem_cons_self hIn ?_
      exact hOrder ▸ hLast

/-! ## Places that are counted up -/

/-- The places of rows that are counted up from `j`, but for rows from elsewhere, which are put at
`far`. -/
def moves (far : ℕ) : ℕ → List (α × Bool) → List (α × ℕ)
  | _, [] => []
  | j, x :: xs => (x.1, if x.2 then far else j) :: moves far (j + 1) xs

omit [DecidableEq α] in
theorem map_moves (far j : ℕ) (items : List (α × Bool)) :
    (moves far j items).map Prod.fst = items.map Prod.fst := by
  induction items generalizing j with
  | nil => rfl
  | cons x xs ih => rw [moves, List.map_cons, List.map_cons, ih]

/-- Where a row from elsewhere is followed by one from here, the place of that is past the end
already. -/
def EndsFit (l : List α) (r : ℕ) (items : List (α × Bool)) : Prop :=
  ∀ p x y s, items = p ++ x :: y :: s → x.2 = true → y.2 = false →
    l.length ≤ r + p.countP (·.1 ∈ l)

theorem endsFit_cons {x : α × Bool} {xs : List (α × Bool)} (h : l.Nodup)
    (hNodup : ((x :: xs).map Prod.fst).Nodup) (k : ℕ) :
    EndsFit l j (x :: xs) ↔
      (x.2 = true → ∀ y ∈ xs.head?, y.2 = false → l.length ≤ j) ∧
        EndsFit (place l k x.1) (j + 1) xs := by
  have hCount : ∀ p s : List (α × Bool), xs = p ++ s →
      ((place l k x.1).length ≤ j + 1 + p.countP (·.1 ∈ place l k x.1) ↔
        l.length ≤ j + (x :: p).countP (·.1 ∈ l)) := by
    intro p s hSplit
    have hSame : p.countP (·.1 ∈ place l k x.1) = p.countP (·.1 ∈ l) := by
      refine List.countP_congr fun y hy => ?_
      have hOther : y.1 ≠ x.1 := by
        intro hIs
        refine (List.nodup_cons.mp hNodup).1 (hIs ▸ List.mem_map_of_mem ?_)
        exact hSplit ▸ List.mem_append_left _ hy
      simp [mem_place, hOther]
    rw [hSame, length_place h, List.countP_cons]
    by_cases hMem : x.1 ∈ l
    · simp only [hMem, if_true, decide_true]
      omega
    · simp only [hMem, if_false, decide_false]
      simp
      omega
  constructor
  · intro hFit
    refine ⟨fun hx y hy hHere => ?_, fun p x' y s hSplit hx' hy => ?_⟩
    · obtain ⟨s, rfl⟩ := List.head?_eq_some_iff.mp hy
      simpa using hFit [] x y s rfl hx hHere
    · refine (hCount p (x' :: y :: s) hSplit).mpr ?_
      exact hFit (x :: p) x' y s (by rw [hSplit, List.cons_append]) hx' hy
  · rintro ⟨hFirst, hRest⟩ p x' y s hSplit hx' hy
    cases p with
    | nil =>
      obtain ⟨rfl, rfl⟩ := List.cons.inj hSplit
      simpa using hFirst hx' y rfl hy
    | cons z p =>
      obtain ⟨rfl, hTail⟩ := List.cons.inj hSplit
      exact (hCount p (x' :: y :: s) hTail).mp (hRest p x' y s hTail hx' hy)

variable {front : List α}

omit [DecidableEq α] in
theorem fits_of_length_le (hj : l.length ≤ j) : Fits l j front := by
  intro x hx
  rw [List.drop_of_length_le hj] at hx
  cases hx

/-- After a row that fits, the next place does. -/
theorem fits_place (hFits : Fits l j front) : Fits (place l j d) (j + 1) (front ++ [d]) := by
  intro x hx hIn
  have hShort : (removeAll (l.take j) d ++ [d]).length ≤ j + 1 := by
    rw [List.length_append, List.length_singleton]
    have hFilter : (removeAll (l.take j) d).length ≤ (l.take j).length := List.length_filter_le ..
    have hTake : (l.take j).length ≤ j := List.length_take_le ..
    omega
  rw [place, List.append_cons, List.drop_append, List.drop_of_length_le hShort,
    List.nil_append] at hx
  obtain ⟨hMem, hOther⟩ := mem_removeAll.mp (List.mem_of_mem_drop hx)
  rcases List.mem_append.mp hIn with hFront | hLast
  · exact hFits x hMem hFront
  · exact hOther (List.mem_singleton.mp hLast)

/-- After a row at the end, the next place does if it is behind that. -/
theorem fits_place_end (hNew : d ∉ l) {far : ℕ} (hFar : l.length ≤ far) :
    Fits (place l far d) (j + 1) (front ++ [d]) ↔ l.length ≤ j := by
  rw [place_of_length_le hFar, removeAll_of_not_mem hNew]
  constructor
  · intro hFits
    by_contra hShort
    refine hFits d ?_ (List.mem_append_right _ (List.mem_singleton_self d))
    rw [List.drop_append_of_le_length (by omega)]
    exact List.mem_append_right _ (List.mem_singleton_self d)
  · intro hLong
    exact fits_of_length_le (by rw [List.length_append, List.length_singleton]; omega)

/-- Rows that are counted up from a place that fits. -/
theorem allFit_moves_iff {items : List (α × Bool)} {far : ℕ} (h : l.Nodup)
    (hNodup : (items.map Prod.fst).Nodup) (hElse : ∀ x ∈ items, x.2 = true → x.1 ∉ l)
    (hFar : l.length + items.length ≤ far)
    (hHead : ∀ y ∈ items.head?, y.2 = false → Fits l j front) :
    AllFit l front (moves far j items) ↔ EndsFit l j items := by
  induction items generalizing l j front with
  | nil =>
    refine iff_of_true trivial fun p x y s hSplit => ?_
    cases p <;> cases hSplit
  | cons x xs ih =>
    obtain ⟨hNew, hRest⟩ := List.nodup_cons.mp hNodup
    have hElse' : ∀ k, ∀ y ∈ xs, y.2 = true → y.1 ∉ place l k x.1 := by
      intro k y hy hAway hMem
      rcases mem_place.mp hMem with hSame | hOld
      · exact hNew (hSame ▸ List.mem_map_of_mem hy)
      · exact hElse y (List.mem_cons_of_mem _ hy) hAway hOld
    have hFar' : ∀ k, (place l k x.1).length + xs.length ≤ far := by
      intro k
      rw [List.length_cons] at hFar
      have hPlaced := length_place_le (j := k) (d := x.1) h
      omega
    rw [moves, AllFit, endsFit_cons h hNodup (if x.2 then far else j)]
    cases hAway : x.2 with
    | false =>
      have hFits := hHead x rfl hAway
      simp only [Bool.false_eq_true, if_false, false_implies, true_and]
      rw [and_iff_right hFits]
      exact ih (nodup_place h) hRest (hElse' j) (hFar' j) fun _ _ _ => fits_place hFits
    | true =>
      have hLe : l.length ≤ far := by omega
      have hAfter : Fits (place l far x.1) (j + 1) (front ++ [x.1]) ↔ l.length ≤ j :=
        fits_place_end (hElse x List.mem_cons_self hAway) hLe
      simp only [if_true, true_implies]
      rw [and_iff_right (fits_of_length_le hLe)]
      by_cases hHere : ∀ y ∈ xs.head?, y.2 = false → l.length ≤ j
      · rw [and_iff_right hHere]
        exact ih (nodup_place h) hRest (hElse' far) (hFar' far) fun y hy hy' =>
          hAfter.mpr (hHere y hy hy')
      · refine iff_of_false (fun hAll => hHere fun y hy hy' => ?_) fun hBoth => hHere hBoth.1
        obtain ⟨s, rfl⟩ := List.head?_eq_some_iff.mp hy
        rw [moves, hy', AllFit] at hAll
        exact hAfter.mp hAll.1

/-- Rows that are counted up from a place in front of the first: they all have to come from
elsewhere. -/
theorem allFit_moves_short {items : List (α × Bool)} {far : ℕ} (h : l.Nodup)
    (hNodup : (front ++ items.map Prod.fst).Nodup) (hFar : l.length + items.length ≤ far)
    (hFront : l.filter (· ∈ front) = front) (hShort : j < front.length) :
    AllFit l front (moves far j items) ↔ ∀ x ∈ items, x.2 = true := by
  induction items generalizing l j front with
  | nil => exact iff_of_true trivial (List.forall_mem_nil _)
  | cons x xs ih =>
    have hNew : x.1 ∉ front := by
      intro hMem
      exact (List.nodup_append.mp hNodup).2.2 x.1 hMem x.1 List.mem_cons_self rfl
    have hLe : l.length ≤ far := by omega
    rw [moves, AllFit, List.forall_mem_cons]
    cases hAway : x.2 with
    | false =>
      refine iff_of_false (fun hAll => ?_) (by simp)
      -- all of `front` is before `j`
      have hTake : front.Sublist (l.take j) := by
        have hFits : Fits l j front := hAll.1
        rw [← hFits.filter_take] at hFront
        exact hFront ▸ List.filter_sublist
      have hLength := hTake.length_le
      have hTaken : (l.take j).length ≤ j := List.length_take_le ..
      omega
    | true =>
      have hFits : Fits l far front := fits_of_length_le hLe
      have hSplit : (front ++ [x.1]) ++ xs.map Prod.fst = front ++ (x :: xs).map Prod.fst := by
        simp
      simp only [if_true, true_and]
      rw [and_iff_right hFits]
      refine ih (nodup_place h) (hSplit ▸ hNodup) ?_ (filter_place_of_fits hFront hFits hNew) ?_
      · have hPlaced := length_place_le (j := far) (d := x.1) h
        rw [List.length_cons] at hFar
        omega
      · rw [List.length_append, List.length_singleton]
        omega

/-! ## Rows that are dropped -/

theorem mem_placeAll {ms : List (α × ℕ)} {x : α} :
    x ∈ placeAll l ms ↔ x ∈ ms.map Prod.fst ∨ x ∈ l := by
  induction ms generalizing l with
  | nil => simp [placeAll]
  | cons m ms ih =>
    refine ih.trans ?_
    rw [mem_place, List.map_cons, List.mem_cons]
    tauto

theorem filter_mem_of_sublist (h : l.Nodup) {s : List α} (hs : s.Sublist l) :
    l.filter (· ∈ s) = s := by
  have hSub : s.Sublist (l.filter (· ∈ s)) := sublist_iff_filter.mp hs
  refine (hSub.eq_of_length ?_).symm
  refine ((List.perm_ext_iff_of_nodup (h.sublist hs) (h.filter _)).mpr fun x => ?_).length_eq
  rw [List.mem_filter, decide_eq_true_eq]
  exact ⟨fun hx => ⟨hs.subset hx, hx⟩, And.right⟩

variable {r : ℕ} {ms : List (α × ℕ)}

/-- The rows that stay in front of `r`. -/
theorem filter_front (h : l.Nodup) (ds : List α) :
    l.filter (· ∈ (l.take r).filter (· ∉ ds)) = (l.take r).filter (· ∉ ds) :=
  filter_mem_of_sublist h (List.filter_sublist.trans (List.take_sublist ..))

theorem nodup_front (h : l.Nodup) {ds : List α} (hNodup : ds.Nodup) :
    ((l.take r).filter (· ∉ ds) ++ ds).Nodup := by
  refine List.nodup_append.mpr ⟨(h.sublist (List.take_sublist ..)).filter _, hNodup, ?_⟩
  rintro x hx y hy rfl
  simpa [hy] using (List.mem_filter.mp hx).2

/-- The rows behind `r` that stay are not among those before it, nor dropped ones. -/
theorem filter_behind (h : l.Nodup) (ds : List α) :
    ((l.drop r).filter (· ∉ ds)).filter (· ∈ (l.take r).filter (· ∉ ds) ++ ds) = [] := by
  refine List.filter_eq_nil_iff.mpr fun x hx => ?_
  obtain ⟨hBehind, hStays⟩ := List.mem_filter.mp hx
  have hApart : x ∉ l.take r := by
    intro hBefore
    rw [← List.take_append_drop r l] at h
    exact (List.nodup_append.mp h).2.2 x hBefore x hBehind rfl
  have hNot : x ∉ ds := by simpa using hStays
  simp [hApart, hNot]

/-- Rows that have been dropped have been in order. -/
theorem allFit_of_eq (h : l.Nodup) (hNodup : (ms.map Prod.fst).Nodup)
    (hDropped : placeAll l ms = dropped l r (ms.map Prod.fst)) :
    AllFit l ((l.take r).filter (· ∉ ms.map Prod.fst)) ms := by
  refine (order_iff h (filter_front h _) (nodup_front h hNodup)).mp ?_
  rw [hDropped, dropped, List.filter_append, filter_behind h, List.append_nil]
  exact List.filter_eq_self.mpr fun x hx => decide_eq_true hx

/-- **Nothing stays behind** the place: the rows are dropped if they come to be in order. -/
theorem placeAll_eq_iff_of_nil (h : l.Nodup) (hNodup : (ms.map Prod.fst).Nodup)
    (hNil : (l.drop r).filter (· ∉ ms.map Prod.fst) = []) :
    placeAll l ms = dropped l r (ms.map Prod.fst) ↔
      AllFit l ((l.take r).filter (· ∉ ms.map Prod.fst)) ms := by
  refine ⟨allFit_of_eq h hNodup, fun hAll => ?_⟩
  have hOrder := (order_iff h (filter_front h _) (nodup_front h hNodup)).mpr hAll
  rw [dropped, hNil, List.append_nil, ← hOrder]
  refine (List.filter_eq_self.mpr fun x hx => decide_eq_true ?_).symm
  rw [List.mem_append]
  by_cases hMoved : x ∈ ms.map Prod.fst
  · exact .inr hMoved
  · have hOld := (mem_placeAll.mp hx).resolve_left hMoved
    rw [← List.take_append_drop r l, List.mem_append] at hOld
    rcases hOld with hBefore | hBehind
    · exact .inl (List.mem_filter.mpr ⟨hBefore, by simpa using hMoved⟩)
    · have hStays : x ∈ (l.drop r).filter (· ∉ ms.map Prod.fst) :=
        List.mem_filter.mpr ⟨hBehind, by simpa using hMoved⟩
      rw [hNil] at hStays
      cases hStays

theorem allFit_append (ms ms' : List (α × ℕ)) :
    AllFit l front (ms ++ ms') ↔
      AllFit l front ms ∧ AllFit (placeAll l ms) (front ++ ms.map Prod.fst) ms' := by
  induction ms generalizing l front with
  | nil => simp [AllFit, placeAll]
  | cons m ms ih =>
    rw [List.cons_append, AllFit, AllFit, ih, and_assoc, List.append_assoc]
    rfl

/-- A row is put between two lists that the others are from: none of the second one may be before
its place. -/
theorem place_eq_iff {behind : List α} (hFront : l.filter (· ∈ front) = front)
    (hBehind : l.filter (· ∈ behind) = behind) (hFits : Fits l j front) (hNew : d ∉ front)
    (hNewBehind : d ∉ behind) (hApart : ∀ x ∈ behind, x ∉ front)
    (hMem : ∀ x ∈ l, x ≠ d → x ∈ front ∨ x ∈ behind) :
    place l j d = front ++ d :: behind ↔ ∀ x ∈ behind, x ∉ l.take j := by
  have hNot : ∀ as : List α, d ∉ removeAll as d := fun as hIn => (mem_removeAll.mp hIn).2 rfl
  rw [place, List.append_cons_inj_of_notMem (hNot _) (hNot _)]
  constructor
  · rintro ⟨hTake, -, -⟩ x hx hIn
    have hNe : x ≠ d := fun hSame => hNewBehind (hSame ▸ hx)
    exact hApart x hx (hTake ▸ mem_removeAll.mpr ⟨hIn, hNe⟩)
  · intro hNone
    -- of the rows in front of the place none is of the second list, of those behind none of the
    -- first
    have hTake : removeAll (l.take j) d = front := by
      calc removeAll (l.take j) d = (removeAll (l.take j) d).filter (· ∈ front) := by
            refine (List.filter_eq_self.mpr fun x hx => decide_eq_true ?_).symm
            obtain ⟨hIn, hNe⟩ := mem_removeAll.mp hx
            exact (hMem x (List.mem_of_mem_take hIn) hNe).resolve_right fun hx' => hNone x hx' hIn
        _ = (l.take j).filter (· ∈ front) := filter_removeAll (by simpa using hNew) _
        _ = front := hFits.filter_take.trans hFront
    have hDrop : removeAll (l.drop j) d = behind := by
      calc removeAll (l.drop j) d = (removeAll (l.drop j) d).filter (· ∈ behind) := by
            refine (List.filter_eq_self.mpr fun x hx => decide_eq_true ?_).symm
            obtain ⟨hIn, hNe⟩ := mem_removeAll.mp hx
            exact (hMem x (List.mem_of_mem_drop hIn) hNe).resolve_left (hFits x hIn)
        _ = (l.drop j).filter (· ∈ behind) := filter_removeAll (by simpa using hNewBehind) _
        _ = (l.take j).filter (· ∈ behind) ++ (l.drop j).filter (· ∈ behind) := by
            rw [List.filter_eq_nil_iff.mpr fun x hx hIn => hNone x (by simpa using hIn) hx,
              List.nil_append]
        _ = behind := by rw [← List.filter_append, List.take_append_drop, hBehind]
    exact ⟨hTake, rfl, hDrop⟩

/-- Whatever is there before the last row is moved is a row that stays, or has been moved. -/
theorem mem_before_last {d : α} {ds : List α} (hSplit : ds = ms.map Prod.fst ++ [d]) {x : α}
    (hx : x ∈ placeAll l ms) (hNe : x ≠ d) :
    x ∈ (l.take r).filter (· ∉ ds) ++ ms.map Prod.fst ∨ x ∈ (l.drop r).filter (· ∉ ds) := by
  by_cases hMoved : x ∈ ms.map Prod.fst
  · exact .inl (List.mem_append_right _ hMoved)
  have hOld := (mem_placeAll.mp hx).resolve_left hMoved
  have hNot : x ∉ ds := by
    rw [hSplit, List.mem_append, List.mem_singleton, not_or]
    exact ⟨hMoved, hNe⟩
  rw [← List.take_append_drop r l, List.mem_append] at hOld
  refine hOld.imp (fun hFirst => List.mem_append_left _ ?_) fun hLater => ?_
  · exact List.mem_filter.mpr ⟨hFirst, by simpa using hNot⟩
  · exact List.mem_filter.mpr ⟨hLater, by simpa using hNot⟩

/-- **The last row** comes to be right behind what is to be in front of it, unless something that
stays behind it is before its place. -/
theorem placeAll_snoc_eq_iff {m : α × ℕ} {ds : List α} (hDs : ds = (ms ++ [m]).map Prod.fst)
    (h : l.Nodup) (hNodup : ds.Nodup)
    (hAll : AllFit l ((l.take r).filter (· ∉ ds)) (ms ++ [m])) :
    placeAll l (ms ++ [m]) = dropped l r ds ↔
      ∀ x ∈ (l.drop r).filter (· ∉ ds), x ∉ (placeAll l ms).take m.2 := by
  obtain ⟨hBefore, hFits, -⟩ := (allFit_append ms [m]).mp hAll
  have hSplit : ds = ms.map Prod.fst ++ [m.1] := by rw [hDs, List.map_append]; rfl
  have hWhole : ((l.take r).filter (· ∉ ds) ++ ms.map Prod.fst ++ [m.1]).Nodup := by
    rw [List.append_assoc, ← hSplit]
    exact nodup_front h hNodup
  obtain ⟨hInFront, -, hApart⟩ := List.nodup_append.mp hWhole
  have hBehind : ∀ x ∈ (l.drop r).filter (· ∉ ds), x ∉ (l.take r).filter (· ∉ ds) ++ ds := by
    intro x hx hIn
    exact List.filter_eq_nil_iff.mp (filter_behind h ds) x hx (decide_eq_true hIn)
  have hStays : ∀ x ∈ (l.drop r).filter (· ∉ ds), x ∉ ds := fun x hx hIn =>
    hBehind x hx (List.mem_append_right _ hIn)
  have hRight : dropped l r ds = ((l.take r).filter (· ∉ ds) ++ ms.map Prod.fst) ++
      m.1 :: (l.drop r).filter (· ∉ ds) := by
    rw [dropped, List.append_cons, List.append_assoc _ _ [m.1], ← hSplit]
  have hLeft : placeAll l (ms ++ [m]) = place (placeAll l ms) m.2 m.1 := by
    rw [placeAll, List.foldl_append]
    rfl
  rw [hLeft, hRight]
  refine place_eq_iff ((order_iff h (filter_front h ds) hInFront).mpr hBefore) ?_ hFits
    (fun hIn => hApart m.1 hIn m.1 (List.mem_singleton_self _) rfl)
    (fun hIn => hStays m.1 hIn ?_) (fun x hx hIn => hBehind x hx ?_) fun x hx hNe => ?_
  · have hKept : (placeAll l ms).filter (· ∈ (l.drop r).filter (· ∉ ds)) =
        l.filter (· ∈ (l.drop r).filter (· ∉ ds)) := by
      refine filter_placeAll fun m' hm' => ?_
      have hMoved : m'.1 ∈ ds := by
        rw [hSplit]
        exact List.mem_append_left _ (List.mem_map_of_mem hm')
      simpa using fun _ => hMoved
    exact hKept.trans (filter_mem_of_sublist h (List.filter_sublist.trans (List.drop_sublist ..)))
  · exact hSplit ▸ List.mem_append_right _ (List.mem_singleton_self _)
  · have hFrontDs := List.mem_append_left [m.1] hIn
    rwa [List.append_assoc, ← hSplit] at hFrontDs
  · exact mem_before_last hSplit hx hNe

/-! ## When places that are counted up do -/

omit [DecidableEq α] in
theorem moves_append (far j : ℕ) (as bs : List (α × Bool)) :
    moves far j (as ++ bs) = moves far j as ++ moves far (j + as.length) bs := by
  induction as generalizing j with
  | nil => rfl
  | cons x xs ih =>
    rw [List.cons_append, moves, moves, ih, List.cons_append, List.length_cons, Nat.add_assoc,
      Nat.add_comm 1]

/-- No more than one of the rows comes from before `r`. If one does, the last of them was there in
front of all that stays behind. -/
def FewBefore (l : List α) (r : ℕ) (ds : List α) : Prop :=
  (l.take r).filter (· ∈ ds) = [] ∨
    ((l.take r).filter (· ∈ ds)).length = 1 ∧
      ∀ d ∈ ds.getLast?, ∀ x ∈ (l.drop r).filter (· ∉ ds), [d, x].Sublist l

/-- The places of the rows are what they should be. -/
def Fitting (l : List α) (r : ℕ) (items : List (α × Bool)) : Prop :=
  EndsFit l r items ∧
    ((l.drop r).filter (· ∉ items.map Prod.fst) = [] ∨
      (∀ x ∈ items, x.2 = false) ∧ FewBefore l r (items.map Prod.fst))

omit [DecidableEq α] in
theorem length_le_of_subset {s t : List α} (h : s.Nodup) (hSub : ∀ x ∈ s, x ∈ t) :
    s.length ≤ t.length :=
  (List.subperm_of_subset h hSub).length_le

/-- **What is before the place** of the last row, where something stays behind it: nothing of that
if the places before are taken up, by the row itself if need be. -/
theorem behind_not_taken_iff {behind : List α} {m : ℕ} (h : l.Nodup)
    (hFrontNodup : (front ++ [d]).Nodup) (hFront : ∀ x ∈ front, x ∈ l.take j)
    (hMem : ∀ x ∈ l, x ≠ d → x ∈ front ∨ x ∈ behind)
    (hBehind : ∀ x ∈ behind, x ∈ l ∧ x ∉ front ++ [d]) (hSome : behind ≠ [])
    (hLength : front.length + m = j) :
    (∀ x ∈ behind, x ∉ l.take j) ↔ m = 0 ∨ m = 1 ∧ ∀ x ∈ behind, [d, x].Sublist l := by
  have hTake : (l.take j).length ≤ j := List.length_take_le ..
  constructor
  · intro hNone
    have hIn : ∀ x ∈ l.take j, x ∈ front ++ [d] := by
      intro x hx
      by_cases hIs : x = d
      · exact List.mem_append_right _ (List.mem_singleton.mpr hIs)
      · exact List.mem_append_left _ <| (hMem x (List.mem_of_mem_take hx) hIs).resolve_right
          fun hx' => hNone x hx' hx
    obtain ⟨x, hx⟩ := List.exists_mem_of_ne_nil _ hSome
    have hLong : j ≤ l.length := by
      by_contra hShort
      rw [List.take_of_length_le (by omega)] at hNone
      exact hNone x hx (hBehind x hx).1
    have hFew := length_le_of_subset (h.sublist (List.take_sublist ..)) hIn
    rw [List.length_take_of_le hLong, List.length_append, List.length_singleton] at hFew
    by_cases hZero : m = 0
    · exact .inl hZero
    refine .inr ⟨by omega, fun y hy => ?_⟩
    have hd : d ∈ l.take j := by
      by_contra hNot
      have hFront' := length_le_of_subset (h.sublist (List.take_sublist j l)) fun x hx =>
        (List.mem_append.mp (hIn x hx)).resolve_right fun hIs =>
          hNot (List.mem_singleton.mp hIs ▸ hx)
      rw [List.length_take_of_le hLong] at hFront'
      omega
    have hyDrop : y ∈ l.drop j := by
      have hyl := (hBehind y hy).1
      rw [← List.take_append_drop j l, List.mem_append] at hyl
      exact hyl.resolve_left (hNone y hy)
    rw [← List.take_append_drop j l]
    exact (List.singleton_sublist.mpr hd).append (List.singleton_sublist.mpr hyDrop)
  · intro hFew x hx hTaken
    obtain ⟨hxl, hxFront⟩ := hBehind x hx
    rcases hFew with hZero | ⟨hOne, hBefore⟩
    · have hFits := length_le_of_subset (s := x :: front) (t := l.take j)
        (List.nodup_cons.mpr ⟨fun hIn => hxFront (List.mem_append_left _ hIn),
          (List.nodup_append.mp hFrontNodup).1⟩)
        (List.forall_mem_cons.mpr ⟨hTaken, hFront⟩)
      rw [List.length_cons] at hFits
      omega
    · have hd : d ∈ l.take j := by
        by_contra hNot
        have hdl : d ∈ l := (hBefore x hx).subset List.mem_cons_self
        have hPair := hBefore x hx
        rw [← List.take_append_drop j l] at hdl hPair h
        exact not_sublist_of_split h ((List.mem_append.mp hdl).resolve_left hNot) hTaken hPair
      have hFits := length_le_of_subset (s := x :: (front ++ [d])) (t := l.take j)
        (List.nodup_cons.mpr ⟨hxFront, hFrontNodup⟩)
        (List.forall_mem_cons.mpr ⟨hTaken, fun y hy => (List.mem_append.mp hy).elim (hFront y)
          fun hIs => List.mem_singleton.mp hIs ▸ hd⟩)
      rw [List.length_cons, List.length_append, List.length_singleton] at hFits
      omega

theorem fits_front (h : l.Nodup) (ds : List α) : Fits l r ((l.take r).filter (· ∉ ds)) := by
  intro x hBehind hIn
  rw [← List.take_append_drop r l] at h
  exact (List.nodup_append.mp h).2.2 x (List.mem_filter.mp hIn).1 x hBehind rfl

theorem length_placeAll_le (h : l.Nodup) (ms : List (α × ℕ)) :
    (placeAll l ms).length ≤ l.length + ms.length := by
  induction ms generalizing l with
  | nil => exact Nat.le_refl _
  | cons m ms ih =>
    have hPlaced := length_place_le (j := m.2) (d := m.1) h
    have hRest : (placeAll l (m :: ms)).length ≤ (place l m.2 m.1).length + ms.length :=
      ih (nodup_place h)
    rw [List.length_cons]
    omega

/-- A row from elsewhere comes to be behind all that stays. -/
theorem nil_of_elsewhere {items : List (α × Bool)} {far : ℕ} (h : l.Nodup)
    (hNodup : (items.map Prod.fst).Nodup) (hFar : l.length + items.length ≤ far)
    (hDropped : placeAll l (moves far r items) = dropped l r (items.map Prod.fst))
    {x : α × Bool} (hx : x ∈ items) (hAway : x.2 = true) :
    (l.drop r).filter (· ∉ items.map Prod.fst) = [] := by
  refine List.eq_nil_iff_forall_not_mem.mpr fun v hv => ?_
  obtain ⟨hvl, hvStays⟩ := List.mem_filter.mp hv
  have hvNot : v ∉ items.map Prod.fst := by simpa using hvStays
  have hFinal := nodup_placeAll h (moves far r items)
  rw [hDropped, dropped] at hFinal
  obtain ⟨p, s, rfl⟩ := List.append_of_mem hx
  have hMoves : moves far r (p ++ x :: s) =
      moves far r p ++ (x.1, far) :: moves far (r + p.length + 1) s := by
    rw [moves_append, moves, hAway]
    rfl
  have hLength : (placeAll l (moves far r p)).length ≤ far := by
    have hPlaced := length_placeAll_le h (moves far r p)
    have hMapped := congrArg List.length (map_moves far r p)
    rw [List.length_map, List.length_map] at hMapped
    rw [List.length_append, List.length_cons] at hFar
    omega
  have hNe : v ≠ x.1 := fun hSame => hvNot (hSame ▸ List.mem_map_of_mem hx)
  have hPair : [v, x.1].Sublist (place (placeAll l (moves far r p)) far x.1) := by
    rw [place_of_length_le hLength]
    have hvBefore : [v].Sublist (removeAll (placeAll l (moves far r p)) x.1) :=
      List.singleton_sublist.mpr
        (mem_removeAll.mpr ⟨mem_placeAll.mpr (.inr (List.mem_of_mem_drop hvl)), hNe⟩)
    exact hvBefore.append (List.Sublist.refl [x.1])
  have hStay : ∀ m ∈ moves far (r + p.length + 1) s, m.1 ∉ [v, x.1] := by
    intro m hm hIn
    have hMem : m.1 ∈ s.map Prod.fst := map_moves far _ s ▸ List.mem_map_of_mem hm
    rw [List.map_append, List.map_cons] at hNodup hvNot
    rcases List.mem_pair.mp hIn with hSame | hSame
    · exact hvNot (List.mem_append_right _ (List.mem_cons_of_mem _ (hSame ▸ hMem)))
    · exact (List.nodup_cons.mp (List.nodup_append.mp hNodup).2.1).1 (hSame ▸ hMem)
  have hLast := (sublist_placeAll_iff hStay).mpr hPair
  have hSplit : placeAll l (moves far r (p ++ x :: s)) =
      placeAll (place (placeAll l (moves far r p)) far x.1) (moves far (r + p.length + 1) s) := by
    rw [hMoves, placeAll, List.foldl_append]
    rfl
  rw [← hSplit, hDropped, dropped] at hLast
  exact not_sublist_of_split hFinal hv (List.mem_append_right _ (List.mem_map_of_mem hx)) hLast

omit [DecidableEq α] in
theorem length_filter_not (p : α → Bool) (as : List α) :
    (as.filter fun x => !p x).length + (as.filter p).length = as.length := by
  rw [Nat.add_comm]
  exact (List.length_eq_length_filter_add p).symm

/-- The last of the rows is counted up from `r`, and something stays behind it. -/
theorem placeAll_last_iff {m : α × ℕ} {ds : List α} (hDs : ds = (ms ++ [m]).map Prod.fst)
    (h : l.Nodup) (hNodup : ds.Nodup)
    (hAll : AllFit l ((l.take r).filter (· ∉ ds)) (ms ++ [m])) (hPlace : m.2 = r + ms.length)
    (hSome : (l.drop r).filter (· ∉ ds) ≠ []) :
    placeAll l (ms ++ [m]) = dropped l r ds ↔ FewBefore l r ds := by
  have hSplit : ds = ms.map Prod.fst ++ [m.1] := by rw [hDs, List.map_append]; rfl
  have hWhole : ((l.take r).filter (· ∉ ds) ++ ms.map Prod.fst ++ [m.1]).Nodup := by
    rw [List.append_assoc, ← hSplit]
    exact nodup_front h hNodup
  obtain ⟨hBefore, hFits, -⟩ := (allFit_append ms [m]).mp hAll
  have hOrder := (order_iff h (filter_front h ds) (List.nodup_append.mp hWhole).1).mpr hBefore
  have hLong : r ≤ l.length := by
    by_contra hShort
    rw [List.drop_of_length_le (by omega)] at hSome
    exact hSome rfl
  have hLength : ((l.take r).filter (· ∉ ds) ++ ms.map Prod.fst).length +
      ((l.take r).filter (· ∈ ds)).length = m.2 := by
    have hParts := length_filter_not (· ∈ ds) (l.take r)
    rw [List.length_take_of_le hLong] at hParts
    rw [List.length_append, List.length_map, hPlace]
    simp only [decide_not]
    omega
  have hBehind : ∀ x ∈ (l.drop r).filter (· ∉ ds), x ∈ placeAll l ms ∧
      x ∉ (l.take r).filter (· ∉ ds) ++ ms.map Prod.fst ++ [m.1] := by
    intro x hx
    refine ⟨mem_placeAll.mpr (.inr (List.mem_of_mem_drop (List.mem_filter.mp hx).1)), ?_⟩
    rw [List.append_assoc, ← hSplit]
    exact fun hIn => List.filter_eq_nil_iff.mp (filter_behind h ds) x hx (decide_eq_true hIn)
  have hFront : ∀ x ∈ (l.take r).filter (· ∉ ds) ++ ms.map Prod.fst,
      x ∈ (placeAll l ms).take m.2 := by
    intro x hx
    rw [← hOrder, ← hFits.filter_take] at hx
    exact (List.mem_filter.mp hx).1
  have hStill : ∀ x ∈ (l.drop r).filter (· ∉ ds),
      ([m.1, x].Sublist (placeAll l ms) ↔ [m.1, x].Sublist l) := by
    intro x hx
    have hStays : x ∉ ds := by simpa using (List.mem_filter.mp hx).2
    have hUnmoved : ∀ m' ∈ ms, m'.1 ∉ [m.1, x] := by
      intro m' hm' hIn
      have hMem : m'.1 ∈ ms.map Prod.fst := List.mem_map_of_mem hm'
      rcases List.mem_pair.mp hIn with hSame | hSame
      · rw [hSplit] at hNodup
        exact (List.nodup_append.mp hNodup).2.2 m'.1 hMem m.1 (List.mem_singleton_self _) hSame
      · exact hStays (hSplit ▸ List.mem_append_left _ (hSame ▸ hMem))
    exact sublist_placeAll_iff hUnmoved
  rw [placeAll_snoc_eq_iff hDs h hNodup hAll,
    behind_not_taken_iff (nodup_placeAll h ms) hWhole hFront
      (fun x hx hNe => mem_before_last hSplit hx hNe) hBehind hSome hLength,
    FewBefore, List.length_eq_zero_iff, hSplit, List.getLast?_concat, ← hSplit]
  simp only [Option.mem_def, Option.some.injEq, forall_eq']
  refine or_congr_right (and_congr_right fun _ => ?_)
  exact forall₂_congr hStill

/-- Rows from here, with something that stays behind. -/
theorem placeAll_here_iff {items : List (α × Bool)} {far : ℕ} (h : l.Nodup)
    (hNodup : (items.map Prod.fst).Nodup) (hHere : ∀ x ∈ items, x.2 = false)
    (hFar : l.length + items.length ≤ far)
    (hSome : (l.drop r).filter (· ∉ items.map Prod.fst) ≠ []) :
    placeAll l (moves far r items) = dropped l r (items.map Prod.fst) ↔
      FewBefore l r (items.map Prod.fst) := by
  have hAll : AllFit l ((l.take r).filter (· ∉ items.map Prod.fst)) (moves far r items) := by
    refine (allFit_moves_iff h hNodup (fun x hx hAway => ?_) hFar fun _ _ _ =>
      fits_front h _).mpr fun p x y s hSplit hAway => ?_
    · rw [hHere x hx] at hAway
      cases hAway
    · rw [hHere x (by rw [hSplit]; simp)] at hAway
      cases hAway
  rcases List.eq_nil_or_concat' items with rfl | ⟨init, last, rfl⟩
  · refine iff_of_true ?_ (.inl (by simp))
    simp [moves, placeAll, dropped]
  · have hMoves : moves far r (init ++ [last]) =
        moves far r init ++ [(last.1, r + init.length)] := by
      rw [moves_append, moves, hHere last (by simp)]
      rfl
    have hDs := (map_moves far r (init ++ [last])).symm
    have hLength := congrArg List.length (map_moves far r init)
    rw [List.length_map, List.length_map] at hLength
    rw [hMoves] at hAll hDs ⊢
    exact placeAll_last_iff hDs h hNodup hAll (by rw [hLength]) hSome

/-- **Rows that are counted up from `r`**, with rows from elsewhere at the end. -/
theorem placeAll_rows_iff {items : List (α × Bool)} {far : ℕ} (h : l.Nodup)
    (hNodup : (items.map Prod.fst).Nodup) (hElse : ∀ x ∈ items, x.2 = true → x.1 ∉ l)
    (hFar : l.length + items.length ≤ far) :
    placeAll l (moves far r items) = dropped l r (items.map Prod.fst) ↔ Fitting l r items := by
  have hAll : AllFit l ((l.take r).filter (· ∉ items.map Prod.fst)) (moves far r items) ↔
      EndsFit l r items :=
    allFit_moves_iff h hNodup hElse hFar fun _ _ _ => fits_front h _
  have hDs := map_moves far r items
  by_cases hNil : (l.drop r).filter (· ∉ items.map Prod.fst) = []
  · rw [Fitting, and_iff_left (.inl hNil), ← hAll]
    rw [← hDs] at hNodup hNil ⊢
    exact placeAll_eq_iff_of_nil h hNodup hNil
  · rw [Fitting, or_iff_right hNil]
    constructor
    · intro hDropped
      have hHere : ∀ x ∈ items, x.2 = false := by
        intro x hx
        rw [← Bool.not_eq_true]
        exact fun hAway => hNil (nil_of_elsewhere h hNodup hFar hDropped hx hAway)
      refine ⟨hAll.mp ?_, hHere, (placeAll_here_iff h hNodup hHere hFar hNil).mp hDropped⟩
      rw [← hDs] at hNodup hDropped ⊢
      exact allFit_of_eq h hNodup hDropped
    · rintro ⟨-, hHere, hFew⟩
      exact (placeAll_here_iff h hNodup hHere hFar hNil).mpr hFew

/-- **Rows that are dropped at the end**, the first of them there, and the others at places that are
counted up from the first row. -/
theorem placeAll_end_iff {x : α × Bool} {xs : List (α × Bool)} {far : ℕ} (h : l.Nodup)
    (hNodup : ((x :: xs).map Prod.fst).Nodup) (hFar : l.length + (x :: xs).length ≤ far) :
    placeAll l ((x.1, far) :: moves far 0 xs) = dropped l l.length ((x :: xs).map Prod.fst) ↔
      ∀ y ∈ xs, y.2 = true := by
  have hDs : (x :: xs).map Prod.fst = ((x.1, far) :: moves far 0 xs).map Prod.fst := by
    rw [List.map_cons, List.map_cons, map_moves]
  have hWhole := nodup_front (r := l.length) h hNodup
  have hNil : (l.drop l.length).filter (· ∉ (x :: xs).map Prod.fst) = [] := by
    rw [List.drop_length]
    rfl
  rw [hDs] at hNil
  have hAll := placeAll_eq_iff_of_nil h (hDs ▸ hNodup) hNil
  rw [← hDs] at hAll
  rw [List.length_cons] at hFar
  have hLe : l.length ≤ far := by omega
  rw [hAll, AllFit, and_iff_right (fits_of_length_le hLe)]
  rw [List.map_cons, List.append_cons] at hWhole
  refine allFit_moves_short (nodup_place h) hWhole ?_ ?_ ?_
  · have hPlaced : (place l far x.1).length ≤ l.length + 1 := length_place_le h
    change (place l far x.1).length + xs.length ≤ far
    omega
  · refine filter_place_of_fits (filter_front h _) (fits_of_length_le hLe) fun hIn => ?_
    simpa using (List.mem_filter.mp hIn).2
  · rw [List.length_append, List.length_singleton]
    omega

/-- One row that is dropped in front of all. -/
theorem placeAll_front (d : α) : placeAll l [(d, 0)] = dropped l 0 [d] := by
  simp [placeAll, place, dropped, removeAll]

/-- Two that are both put in front of all come to be in the other order. -/
theorem placeAll_front_ne {d d' : α} {ms : List (α × ℕ)} {ds : List α}
    (hDs : ds = ((d, 0) :: (d', 0) :: ms).map Prod.fst) (h : l.Nodup) (hNodup : ds.Nodup) :
    placeAll l ((d, 0) :: (d', 0) :: ms) ≠ dropped l r ds := by
  intro hDropped
  rw [hDs] at hNodup hDropped
  obtain ⟨-, hFits, -⟩ := allFit_of_eq h hNodup hDropped
  exact hFits d (mem_place.mpr (.inl rfl)) (List.mem_append_right _ (List.mem_singleton_self d))

/-! ## Rows that may be −1 -/

/-- The places of rows that are counted up from `row`: those below 0 are at the end. -/
def movesAt (far : ℕ) : Int → List (α × Bool) → List (α × ℕ)
  | _, [] => []
  | row, x :: xs => (x.1, if x.2 ∨ row < 0 then far else row.toNat) :: movesAt far (row + 1) xs

/-- The rows with `ds` dropped before `row`, where −1 is the end. -/
def droppedAt (l : List α) (row : Int) (ds : List α) : List α :=
  dropped l (if row = -1 then l.length else row.toNat) ds

/-- The places of the rows are what they should be, also for −1. -/
def FittingAt (l : List α) (row : Int) (items : List (α × Bool)) : Prop :=
  if row = -1 then ∀ x ∈ items.tail, x.2 = true else Fitting l row.toNat items

omit [DecidableEq α] in
theorem movesAt_natCast (far j : ℕ) (items : List (α × Bool)) :
    movesAt far j items = moves far j items := by
  induction items generalizing j with
  | nil => rfl
  | cons x xs ih =>
    have hHere : ¬ ((j : Int) < 0) := by omega
    have hNext : (j : Int) + 1 = ((j + 1 : ℕ) : Int) := rfl
    rw [movesAt, moves, hNext, ih]
    simp only [hHere, or_false, Int.toNat_natCast]

/-- **Rows that are dropped one by one**: they come to be where they are dropped just when their
places fit. -/
theorem placeAll_movesAt_iff {items : List (α × Bool)} {far : ℕ} {row : Int} (h : l.Nodup)
    (hNodup : (items.map Prod.fst).Nodup) (hElse : ∀ x ∈ items, x.2 = true → x.1 ∉ l)
    (hFar : l.length + items.length ≤ far) (hRow : -1 ≤ row) :
    placeAll l (movesAt far row items) = droppedAt l row (items.map Prod.fst) ↔
      FittingAt l row items := by
  by_cases hEnd : row = -1
  · subst hEnd
    rw [droppedAt, FittingAt, if_pos rfl, if_pos rfl]
    cases items with
    | nil => simp [movesAt, placeAll, dropped]
    | cons x xs =>
      have hMoves : movesAt far (-1) (x :: xs) = (x.1, far) :: moves far 0 xs := by
        rw [movesAt, if_pos (.inr (by decide)), ← movesAt_natCast]
        rfl
      rw [hMoves]
      exact placeAll_end_iff h hNodup hFar
  · obtain ⟨r, rfl⟩ := Int.eq_ofNat_of_zero_le (show 0 ≤ row by omega)
    rw [droppedAt, FittingAt, if_neg hEnd, if_neg hEnd, movesAt_natCast]
    exact placeAll_rows_iff h hNodup hElse hFar

/-- The place of a row that is asked for by `position`, among the `count` rows there are. -/
theorem place_position {position : Int} {far : ℕ} (hFar : l.length ≤ far) :
    ∃ n : ℕ, n ≤ l.length ∧
      (if position < 0 ∨ (l.length : Int) < position then (l.length : Int) else position) = n ∧
      place l (if position < 0 then far else position.toNat) d = place l n d := by
  by_cases hNegative : position < 0
  · refine ⟨l.length, Nat.le_refl _, if_pos (.inl hNegative), ?_⟩
    rw [if_pos hNegative, place_of_length_le hFar, place_of_length_le (Nat.le_refl _)]
  · rw [if_neg hNegative]
    by_cases hLong : (l.length : Int) < position
    · refine ⟨l.length, Nat.le_refl _, if_pos (.inr hLong), ?_⟩
      rw [place_of_length_le (by omega), place_of_length_le (Nat.le_refl _)]
    · refine ⟨position.toNat, by omega, ?_, rfl⟩
      rw [if_neg (by omega)]
      omega

end RowDrop
