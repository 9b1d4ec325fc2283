import Mathlib

/-!
# Orders that are saved

The order of a list is saved as the position of each of its elements, and another list is put into
that order by a stable sort. What has no position comes first.

Main results:

* `insertAll_of_mem`, `insertAll_of_not_mem` — a hash that is filled in a loop;
* `insertionSort_position` — a list that is put into a saved order;
* `insertionSort_ne_arranged` — what is sorted like something that is not known to it;
* `insertionSort_append` — a list of two kinds, of which one always comes first.
-/

namespace SavedOrder

/-! ## A hash that is filled -/

section Hash

variable {ε κ ν : Type*} [DecidableEq κ]

/-- `QHash::insert`, for an element that has a key. -/
def insertOne (key : ε → Option κ) (value : ε → ν) (h : κ → Option ν) (e : ε) : κ → Option ν :=
  match key e with
  | none => h
  | some k => Function.update h k (some (value e))

/-- The loop that inserts a value for each element that has a key. -/
def insertAll (key : ε → Option κ) (value : ε → ν) (l : List ε) (h : κ → Option ν) :
    κ → Option ν :=
  l.foldl (insertOne key value) h

variable {key : ε → Option κ} {value : ε → ν} {l : List ε} {h : κ → Option ν} {k : κ}

theorem insertOne_of_ne {e : ε} (hKey : key e ≠ some k) : insertOne key value h e k = h k := by
  cases hIs : key e with
  | none => simp [insertOne, hIs]
  | some k' =>
    have hOther : k ≠ k' := by
      rintro rfl
      exact hKey hIs
    simp [insertOne, hIs, hOther]

theorem insertOne_of_eq {e : ε} (hKey : key e = some k) :
    insertOne key value h e k = some (value e) := by
  simp [insertOne, hKey]

/-- A key that no element has. -/
theorem insertAll_of_not_mem (hNone : ∀ e ∈ l, key e ≠ some k) :
    insertAll key value l h k = h k := by
  induction l generalizing h with
  | nil => rfl
  | cons e l ih =>
    refine (ih fun e' he' => hNone e' (List.mem_cons_of_mem _ he')).trans ?_
    exact insertOne_of_ne (hNone e List.mem_cons_self)

/-- A key that some element has, and whoever else has it has the same value. -/
theorem insertAll_of_mem {e : ε} (he : e ∈ l) (hKey : key e = some k)
    (hSame : ∀ e' ∈ l, key e' = some k → value e' = value e) :
    insertAll key value l h k = some (value e) := by
  induction l generalizing h e with
  | nil => cases he
  | cons e' l ih =>
    have hTail : ∀ x ∈ l, key x = some k → value x = value e :=
      fun x hx => hSame x (List.mem_cons_of_mem _ hx)
    by_cases hLater : ∃ x ∈ l, key x = some k
    · obtain ⟨x, hx, hKey'⟩ := hLater
      have hRest := ih (h := insertOne key value h e') hx hKey' fun y hy hKeyY =>
        (hTail y hy hKeyY).trans (hTail x hx hKey').symm
      exact hRest.trans (congrArg some (hTail x hx hKey'))
    · have hNone : ∀ x ∈ l, key x ≠ some k := fun x hx hIs => hLater ⟨x, hx, hIs⟩
      obtain rfl : e = e' := (List.mem_cons.mp he).resolve_right fun hIn => hNone e hIn hKey
      exact (insertAll_of_not_mem hNone).trans (insertOne_of_eq hKey)

/-- A hash of elements by their keys, of which no two have the same. -/
theorem insertAll_id_iff {f : ε → κ} {a : ε}
    (hDistinct : ∀ x ∈ l, ∀ y ∈ l, f x = f y → x = y) :
    insertAll (fun e => some (f e)) id l (fun _ => none) k = some a ↔ a ∈ l ∧ f a = k := by
  constructor
  · intro hFound
    by_cases hSome : ∃ x ∈ l, f x = k
    · obtain ⟨x, hx, rfl⟩ := hSome
      have hIs : insertAll (fun e => some (f e)) id l (fun _ => none) (f x) = some x :=
        insertAll_of_mem hx rfl fun y hy hSame => hDistinct y hy x hx (Option.some.inj hSame)
      obtain rfl : x = a := Option.some.inj (hIs.symm.trans hFound)
      exact ⟨hx, rfl⟩
    · rw [insertAll_of_not_mem fun x hx hSame => hSome ⟨x, hx, Option.some.inj hSame⟩] at hFound
      cases hFound
  · rintro ⟨ha, rfl⟩
    exact insertAll_of_mem ha rfl fun y hy hSame => hDistinct y hy a ha (Option.some.inj hSame)

omit [DecidableEq κ] in
/-- A loop of which no round is about the key. -/
theorem foldl_of_forall {step : (κ → Option ν) → ε → κ → Option ν}
    (hElse : ∀ h, ∀ x ∈ l, step h x k = h k) : l.foldl step h k = h k := by
  induction l generalizing h with
  | nil => rfl
  | cons x l ih =>
    rw [List.foldl_cons, ih fun h y hy => hElse h y (List.mem_cons_of_mem _ hy)]
    exact hElse h x List.mem_cons_self

omit [DecidableEq κ] in
/-- A loop of which one round is about the key. -/
theorem foldl_once [DecidableEq ε] {step : (κ → Option ν) → ε → κ → Option ν} {e : ε}
    (hNodup : l.Nodup) (hElse : ∀ h, ∀ x ∈ l, x ≠ e → step h x k = h k)
    {f : Option ν → Option ν} (hHere : ∀ h, step h e k = f (h k)) :
    l.foldl step h k = if e ∈ l then f (h k) else h k := by
  induction l generalizing h with
  | nil => rfl
  | cons x l ih =>
    obtain ⟨hNot, hNodup⟩ := List.nodup_cons.mp hNodup
    rw [List.foldl_cons, ih hNodup fun h y hy => hElse h y (List.mem_cons_of_mem _ hy)]
    by_cases hIs : x = e
    · subst hIs
      rw [if_neg hNot, if_pos List.mem_cons_self, hHere]
    · rw [hElse h x List.mem_cons_self hIs]
      simp [Ne.symm hIs]

end Hash

/-! ## A stable sort -/

section Sorting

variable {α : Type*} {r : α → α → Prop} [DecidableRel r]

theorem orderedInsert_of_rel {a : α} {bs : List α} (h : ∀ b ∈ bs, r a b) :
    bs.orderedInsert r a = a :: bs := by
  cases bs with
  | nil => rfl
  | cons b bs => exact List.orderedInsert_cons_of_le r bs (h b List.mem_cons_self)

theorem orderedInsert_append_of_rel {a : α} (as : List α) {bs : List α} (h : ∀ b ∈ bs, r a b) :
    (as ++ bs).orderedInsert r a = as.orderedInsert r a ++ bs := by
  induction as with
  | nil => exact orderedInsert_of_rel h
  | cons x as ih =>
    rw [List.cons_append, List.orderedInsert_cons, List.orderedInsert_cons, ih]
    split <;> rfl

theorem orderedInsert_append_of_not_rel {a : α} {as : List α} (bs : List α)
    (h : ∀ b ∈ as, ¬ r a b) : (as ++ bs).orderedInsert r a = as ++ bs.orderedInsert r a := by
  induction as with
  | nil => rfl
  | cons x as ih =>
    rw [List.cons_append, List.orderedInsert_cons, if_neg (h x List.mem_cons_self),
      ih fun b hb => h b (List.mem_cons_of_mem _ hb)]
    rfl

/-- **Two kinds**, of which one always comes first. -/
theorem insertionSort_append {as bs : List α} (h : ∀ a ∈ as, ∀ b ∈ bs, r a b) :
    (as ++ bs).insertionSort r = as.insertionSort r ++ bs.insertionSort r := by
  induction as with
  | nil => rfl
  | cons a as ih =>
    rw [List.cons_append, List.insertionSort_cons, List.insertionSort_cons,
      ih fun x hx => h x (List.mem_cons_of_mem _ hx)]
    exact orderedInsert_append_of_rel _ fun b hb =>
      h a List.mem_cons_self b ((List.mem_insertionSort r).mp hb)

/-- Only how the elements of the list compare is asked for. -/
theorem insertionSort_congr {r' : α → α → Prop} [DecidableRel r'] {l : List α}
    (h : ∀ a ∈ l, ∀ b ∈ l, r a b ↔ r' a b) : l.insertionSort r = l.insertionSort r' := by
  have hMap := List.map_insertionSort r r' id l h
  rwa [List.map_id, List.map_id] at hMap

variable [DecidableEq α]

/-- The saved position, or −1. -/
def position (saved : List α) (a : α) : Int := if a ∈ saved then saved.idxOf a else -1

/-- An element of the saved order is put among others of it. -/
theorem orderedInsert_position {l saved : List α} (hSaved : saved.Nodup) {a : α}
    (ha : a ∈ saved) (hNew : a ∉ l) :
    (saved.filter (· ∈ l)).orderedInsert (fun x y => position saved x ≤ position saved y) a =
      saved.filter (· ∈ a :: l) := by
  obtain ⟨front, behind, rfl, hNot⟩ := List.eq_append_cons_of_mem ha
  obtain ⟨-, hBehind, hApart⟩ := List.nodup_append.mp hSaved
  obtain ⟨hNot', -⟩ := List.nodup_cons.mp hBehind
  have hPosition : position (front ++ a :: behind) a = front.length := by
    rw [position, if_pos ha, List.idxOf_append_of_notMem hNot, List.idxOf_cons_self, Nat.add_zero]
  have hFront : ∀ x ∈ front, position (front ++ a :: behind) x < front.length := by
    intro x hx
    have hLt := List.idxOf_lt_length_of_mem hx
    rw [position, if_pos (List.mem_append_left _ hx), List.idxOf_append_of_mem hx]
    omega
  have hAfter : ∀ x ∈ behind, (front.length : Int) ≤ position (front ++ a :: behind) x := by
    intro x hx
    have hOut : x ∉ front := fun hIn => hApart x hIn x (List.mem_cons_of_mem _ hx) rfl
    rw [position, if_pos (List.mem_append_right _ (List.mem_cons_of_mem _ hx)),
      List.idxOf_append_of_notMem hOut]
    omega
  have hSplit : (front ++ a :: behind).filter (· ∈ l) =
      front.filter (· ∈ l) ++ behind.filter (· ∈ l) := by
    simp [hNew]
  have hSame : ∀ xs : List α, a ∉ xs → xs.filter (· ∈ a :: l) = xs.filter (· ∈ l) := by
    intro xs hIn
    refine List.filter_congr fun x hx => ?_
    have hOther : x ≠ a := fun hIs => hIn (hIs ▸ hx)
    simp [hOther]
  rw [hSplit, orderedInsert_append_of_not_rel, List.filter_append, hSame front hNot,
    List.filter_cons_of_pos (by simp), hSame behind hNot']
  · rw [orderedInsert_of_rel]
    intro b hb
    rw [hPosition]
    exact hAfter b (List.mem_filter.mp hb).1
  · intro b hb
    have hBefore := hFront b (List.mem_filter.mp hb).1
    rw [hPosition]
    omega

/-- **A list that is put into a saved order.** What is not in that comes first, as it was. -/
theorem insertionSort_position {l saved : List α} (hNodup : l.Nodup) (hSaved : saved.Nodup) :
    l.insertionSort (fun a b => position saved a ≤ position saved b) =
      l.filter (· ∉ saved) ++ saved.filter (· ∈ l) := by
  induction l with
  | nil => simp
  | cons a l ih =>
    obtain ⟨hNew, hNodup⟩ := List.nodup_cons.mp hNodup
    rw [List.insertionSort_cons, ih hNodup]
    by_cases ha : a ∈ saved
    · have hBehind : ∀ b ∈ l.filter (· ∉ saved), ¬ position saved a ≤ position saved b := by
        intro b hb
        have hOut : b ∉ saved := by simpa using (List.mem_filter.mp hb).2
        rw [position, position, if_pos ha, if_neg hOut]
        omega
      rw [orderedInsert_append_of_not_rel _ hBehind, orderedInsert_position hSaved ha hNew]
      simp [ha]
    · have hFirst : ∀ b ∈ l.filter (· ∉ saved) ++ saved.filter (· ∈ l),
          position saved a ≤ position saved b := by
        intro b _
        rw [position, if_neg ha, position]
        split <;> omega
      have hSame : saved.filter (· ∈ a :: l) = saved.filter (· ∈ l) := by
        refine List.filter_congr fun x hx => ?_
        have hOther : x ≠ a := fun hIs => ha (hIs ▸ hx)
        simp [hOther]
      rw [orderedInsert_of_rel hFirst, List.filter_cons_of_pos (by simpa using ha), hSame]
      rfl

/-- A list in the saved order: what that does not know comes first, as it was. -/
def arranged (saved l : List α) : List α := l.filter (· ∉ saved) ++ saved.filter (· ∈ l)

theorem arranged_append_new {l : List α} {u : α} (hu : u ∉ l) : arranged l (l ++ [u]) = u :: l := by
  have hOld : l.filter (· ∉ l) = [] := by simp
  have hAll : l.filter (· ∈ l ++ [u]) = l :=
    List.filter_eq_self.mpr fun x hx => decide_eq_true (List.mem_append_left _ hx)
  rw [arranged, hAll, List.filter_append, hOld, List.filter_cons_of_pos (by simpa using hu)]
  rfl

/-- One that the saved order knows, but that is sorted like one that it does not know, does not come
behind it. -/
theorem insertionSort_ne_arranged {l : List α} {a u : α} (ha : a ∈ l) (hu : u ∉ l) (h : r a u) :
    (l ++ [u]).insertionSort r ≠ arranged l (l ++ [u]) := by
  intro hSame
  have hPair : [a, u].Sublist (l ++ [u]) :=
    (List.singleton_sublist.mpr ha).append (List.Sublist.refl [u])
  have hStays := List.pair_sublist_insertionSort h hPair
  rw [hSame, arranged_append_new hu] at hStays
  have hOther : a ≠ u := fun hIs => hu (hIs ▸ ha)
  have hBehind : [a, u].Sublist l := by
    cases hStays with
    | cons _ hRest => exact hRest
    | cons_cons _ _ => exact absurd rfl hOther
  exact hu (hBehind.subset (by simp))

/-! ## Positions that are read back -/

theorem idxOf_of_mem_zipIdx {saved : List α} (hSaved : saved.Nodup) {x : α × ℕ}
    (hx : x ∈ saved.zipIdx) : saved.idxOf x.1 = x.2 := by
  obtain ⟨hLt, hIs⟩ := List.mem_zipIdx' hx
  rw [hIs, hSaved.idxOf_getElem]

/-- Each element of the saved order has been written with its position, and is looked up by what
has been written: the hash has the saved position of what is found. -/
theorem insertAll_zipIdx {ε κ : Type*} [DecidableEq κ] {key : ε → Option κ} {value : ε → Int}
    {h : κ → Option Int} {k : κ} {saved : List α} (hSaved : saved.Nodup) {write : α × ℕ → ε} {a : α}
    (hKey : ∀ x ∈ saved.zipIdx, key (write x) = some k ↔ x.1 = a)
    (hValue : ∀ x ∈ saved.zipIdx, value (write x) = x.2) :
    insertAll key value (saved.zipIdx.map write) h k =
      if a ∈ saved then some (saved.idxOf a : Int) else h k := by
  split
  · next ha =>
    have hMem : (a, saved.idxOf a) ∈ saved.zipIdx := by
      rw [List.mem_zipIdx_iff_getElem?]
      exact List.getElem?_idxOf ha
    refine (insertAll_of_mem (List.mem_map_of_mem hMem) ((hKey _ hMem).mpr rfl) ?_).trans
      (congrArg some (hValue _ hMem))
    intro e he hIs
    obtain ⟨x, hx, rfl⟩ := List.mem_map.mp he
    have hIdx := idxOf_of_mem_zipIdx hSaved hx
    rw [(hKey x hx).mp hIs] at hIdx
    rw [hValue x hx, hValue _ hMem, hIdx]
  · next ha =>
    refine insertAll_of_not_mem fun e he hIs => ha ?_
    obtain ⟨x, hx, rfl⟩ := List.mem_map.mp he
    exact (hKey x hx).mp hIs ▸ List.fst_mem_of_mem_zipIdx hx

end Sorting

end SavedOrder
