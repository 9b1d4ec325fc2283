import Mathlib

/-!
# Maps kept in the order of their keys

A map is a list of entries whose keys go up; inserting a key replaces its entry or puts
one where it belongs. Texts are ordered by their UTF-16 units.

Main results:

* `find?_insert` — what is found after an insertion;
* `mem_entries_iff` — the entries are what is found;
* `ext_find?` — maps in which the same is found are equal;
* `ofList_entries` — a map is rebuilt from its entries.
-/

instance linearOrderUInt16 : LinearOrder UInt16 where
  le_refl _ := UInt16.le_refl _
  le_trans _ _ _ := UInt16.le_trans
  le_antisymm _ _ := UInt16.le_antisymm
  le_total := UInt16.le_total
  lt_iff_le_not_ge a b := by
    rw [UInt16.lt_iff_toNat_lt, UInt16.le_iff_toNat_le, UInt16.le_iff_toNat_le]
    omega
  toDecidableLE := inferInstance

/-- `QMap`. -/
structure QMap (κ ν : Type*) [LinearOrder κ] where
  entries : List (κ × ν)
  sorted : entries.Pairwise fun e e' => e.1 < e'.1

namespace QMap

variable {κ ν : Type*} [LinearOrder κ]

/-- The list with an entry put where it belongs. -/
def insertEntry (k : κ) (v : ν) : List (κ × ν) → List (κ × ν)
  | [] => [(k, v)]
  | (k', v') :: es =>
    if k < k' then (k, v) :: (k', v') :: es
    else if k = k' then (k, v) :: es
    else (k', v') :: insertEntry k v es

theorem mem_insertEntry {k : κ} {v : ν} {es : List (κ × ν)} {e : κ × ν}
    (h : e ∈ insertEntry k v es) : e = (k, v) ∨ e ∈ es := by
  induction es with
  | nil => exact Or.inl (List.mem_singleton.1 h)
  | cons e' es ih =>
    unfold insertEntry at h
    split at h
    · exact List.mem_cons.1 h
    · split at h
      · rcases List.mem_cons.1 h with h | h
        · exact Or.inl h
        · exact Or.inr (List.mem_cons_of_mem _ h)
      · rcases List.mem_cons.1 h with h | h
        · exact Or.inr (h ▸ List.mem_cons_self)
        · rcases ih h with h | h
          · exact Or.inl h
          · exact Or.inr (List.mem_cons_of_mem _ h)

theorem sorted_insertEntry {k : κ} {v : ν} {es : List (κ × ν)}
    (h : es.Pairwise fun e e' => e.1 < e'.1) :
    (insertEntry k v es).Pairwise fun e e' => e.1 < e'.1 := by
  induction es with
  | nil => exact List.pairwise_singleton _ _
  | cons e es ih =>
    obtain ⟨hFirst, hRest⟩ := List.pairwise_cons.1 h
    unfold insertEntry
    split
    · next hLess =>
      refine List.pairwise_cons.2 ⟨?_, h⟩
      intro e' he'
      rcases List.mem_cons.1 he' with rfl | he'
      · exact hLess
      · exact hLess.trans (hFirst e' he')
    · next hNotLess =>
      split
      · next hSame =>
        refine List.pairwise_cons.2 ⟨?_, hRest⟩
        intro e' he'
        rw [hSame]
        exact hFirst e' he'
      · next hOther =>
        refine List.pairwise_cons.2 ⟨?_, ih hRest⟩
        intro e' he'
        rcases mem_insertEntry he' with rfl | he'
        · exact lt_of_le_of_ne (not_lt.1 hNotLess) (Ne.symm hOther)
        · exact hFirst e' he'

/-- `QMap()`. -/
def empty : QMap κ ν := ⟨[], List.Pairwise.nil⟩

instance : EmptyCollection (QMap κ ν) := ⟨empty⟩

variable (m : QMap κ ν)

/-- `QMap::insert`. -/
def insert (k : κ) (v : ν) : QMap κ ν := ⟨insertEntry k v m.entries, sorted_insertEntry m.sorted⟩

/-- `QMap::find`. -/
def find? (k : κ) : Option ν := (m.entries.find? fun e => e.1 = k).map (·.2)

/-- `QMap::remove`. -/
def erase (k : κ) : QMap κ ν := ⟨m.entries.filter (·.1 ≠ k), m.sorted.filter _⟩

/-- `QMap::isEmpty`. -/
def isEmpty : Bool := m.entries.isEmpty

/-- The entries, one after the other, put into an empty map. -/
def ofList (es : List (κ × ν)) : QMap κ ν := es.foldl (fun m e => m.insert e.1 e.2) empty

variable {m}

/-- Two entries of one key are one. -/
theorem entry_unique {k : κ} {v v' : ν} (h : (k, v) ∈ m.entries) (h' : (k, v') ∈ m.entries) :
    v = v' := by
  have hSorted := m.sorted
  generalize m.entries = es at h h' hSorted
  induction es with
  | nil => cases h
  | cons e es ih =>
    obtain ⟨hFirst, hRest⟩ := List.pairwise_cons.1 hSorted
    rcases List.mem_cons.1 h with hHere | hLater
    · rcases List.mem_cons.1 h' with hHere' | hLater'
      · exact (Prod.mk.inj (hHere.trans hHere'.symm)).2
      · have hLess := hFirst _ hLater'
        rw [← hHere] at hLess
        exact absurd hLess (lt_irrefl k)
    · rcases List.mem_cons.1 h' with hHere' | hLater'
      · have hLess := hFirst _ hLater
        rw [← hHere'] at hLess
        exact absurd hLess (lt_irrefl k)
      · exact ih hLater hLater' hRest

/-- What is found is the entry of the key. -/
theorem find?_eq {k : κ} {p : κ × ν → Bool} (hp : ∀ e, p e = true ↔ e.1 = k) :
    m.find? k = (m.entries.find? p).map (·.2) := by
  have hSame : p = fun e => decide (e.1 = k) := by
    funext e
    exact Bool.eq_iff_iff.2 ((hp e).trans decide_eq_true_iff.symm)
  rw [hSame]
  rfl

/-- **The entries are what is found.** -/
theorem mem_entries_iff {k : κ} {v : ν} : (k, v) ∈ m.entries ↔ m.find? k = some v := by
  unfold find?
  constructor
  · intro h
    cases hFind : m.entries.find? fun e => e.1 = k with
    | none =>
      have hNone := List.find?_eq_none.1 hFind (k, v) h
      simp at hNone
    | some e =>
      have hKey := List.find?_some hFind
      have hMem := List.mem_of_find?_eq_some hFind
      obtain ⟨k', v'⟩ := e
      obtain rfl : k' = k := by simpa using hKey
      rw [Option.map_some, entry_unique hMem h]
  · intro h
    obtain ⟨e, hFind, rfl⟩ := Option.map_eq_some_iff.1 h
    have hKey := List.find?_some hFind
    have hMem := List.mem_of_find?_eq_some hFind
    obtain ⟨k', v'⟩ := e
    obtain rfl : k' = k := by simpa using hKey
    exact hMem

/-- What is found in the order of the keys comes from the least key that has any. -/
theorem exists_of_findSome? {β : Type*} {f : κ × ν → Option β} {b : β}
    (h : m.entries.findSome? f = some b) :
    ∃ k v, m.find? k = some v ∧ f (k, v) = some b ∧
      ∀ k' v', m.find? k' = some v' → f (k', v') ≠ none → k ≤ k' := by
  obtain ⟨before, ⟨k, v⟩, after, hEntries, hHere, hBefore⟩ := List.findSome?_eq_some_iff.1 h
  refine ⟨k, v, m.mem_entries_iff.1 ?_, hHere, fun k' v' hFind hSome => ?_⟩
  · rw [hEntries]
    exact List.mem_append_right _ List.mem_cons_self
  · have hMem := m.mem_entries_iff.2 hFind
    have hSorted := m.sorted
    rw [hEntries] at hMem hSorted
    rcases List.mem_append.1 hMem with hMem | hMem
    · exact absurd (hBefore _ hMem) hSome
    · rcases List.mem_cons.1 hMem with hSame | hMem
      · cases hSame
        exact le_rfl
      · exact ((List.pairwise_cons.1 (List.pairwise_append.1 hSorted).2.1).1 _ hMem).le

@[simp] theorem find?_empty (k : κ) : (empty : QMap κ ν).find? k = none := rfl

theorem find?_insertEntry (k : κ) (v : ν) (es : List (κ × ν)) (k' : κ) :
    ((insertEntry k v es).find? fun e => e.1 = k') =
      if k' = k then some (k, v) else es.find? fun e => e.1 = k' := by
  induction es with
  | nil =>
    by_cases hSame : k' = k
    · simp [insertEntry, hSame]
    · simp [insertEntry, hSame, Ne.symm hSame]
  | cons e es ih =>
    unfold insertEntry
    split
    · by_cases hSame : k' = k
      · simp [hSame]
      · simp [hSame, Ne.symm hSame]
    · split
      · next hKey =>
        by_cases hSame : k' = k
        · simp [hSame]
        · simp [hSame, Ne.symm hSame, ← hKey]
      · next hOther =>
        rw [List.find?_cons, List.find?_cons, ih]
        by_cases hSame : k' = k
        · subst hSame
          simp [Ne.symm hOther]
        · simp [hSame]

/-- **Inserting and finding.** -/
@[simp] theorem find?_insert (k : κ) (v : ν) (k' : κ) :
    (m.insert k v).find? k' = if k' = k then some v else m.find? k' := by
  unfold find? insert
  simp only [find?_insertEntry]
  split <;> rfl

@[simp] theorem find?_erase (k k' : κ) :
    (m.erase k).find? k' = if k' = k then none else m.find? k' := by
  unfold find? erase
  rw [List.find?_filter]
  by_cases hSame : k' = k
  · rw [if_pos hSame, List.find?_eq_none.2]
    · rfl
    · intro e _
      simp [hSame]
  · rw [if_neg hSame]
    have hBoth : (fun e : κ × ν => decide (decide (e.1 ≠ k) = true ∧ decide (e.1 = k') = true)) =
        fun e => decide (e.1 = k') := by
      funext e
      by_cases hKey : e.1 = k'
      · simp [hKey, hSame]
      · simp [hKey]
    rw [hBoth]

theorem isEmpty_iff : m.isEmpty = true ↔ m = empty := by
  unfold isEmpty
  rw [List.isEmpty_iff]
  constructor
  · intro hNone
    cases m
    cases hNone
    rfl
  · rintro rfl
    rfl

/-- **Maps by what is found in them.** -/
theorem ext_find? {m m' : QMap κ ν} (h : ∀ k, m.find? k = m'.find? k) : m = m' := by
  have hMem : ∀ e, e ∈ m.entries ↔ e ∈ m'.entries := by
    rintro ⟨k, v⟩
    rw [mem_entries_iff, mem_entries_iff, h]
  have hAnti : ∀ e e' : κ × ν, e ∈ m.entries → e' ∈ m'.entries → e.1 < e'.1 → e'.1 < e.1 →
      e = e' := fun _ _ _ _ hLess hMore => absurd (hLess.trans hMore) (lt_irrefl _)
  have hEntries : m.entries = m'.entries := by
    have hNodup : ∀ n : QMap κ ν, n.entries.Nodup := by
      intro n
      refine n.sorted.imp ?_
      rintro e e' hLess rfl
      exact lt_irrefl _ hLess
    refine List.Perm.eq_of_pairwise hAnti m.sorted m'.sorted ?_
    exact (List.perm_ext_iff_of_nodup (hNodup m) (hNodup m')).2 hMem
  cases m
  cases m'
  cases hEntries
  rfl

theorem find?_foldl_insert (es : List (κ × ν)) (m : QMap κ ν) (k : κ) :
    (es.foldl (fun m e => m.insert e.1 e.2) m).find? k =
      ((es.reverse.find? fun e => e.1 = k).map (·.2)).or (m.find? k) := by
  induction es generalizing m with
  | nil => rfl
  | cons e es ih =>
    rw [List.foldl_cons, ih, find?_insert, List.reverse_cons, List.find?_append]
    cases es.reverse.find? fun e => e.1 = k with
    | some e' => rfl
    | none =>
      by_cases hSame : k = e.1
      · simp [hSame]
      · simp [hSame, Ne.symm hSame]

/-- The last entry of a key counts. -/
theorem find?_ofList (es : List (κ × ν)) {k : κ} {p : κ × ν → Bool}
    (hp : ∀ e, p e = true ↔ e.1 = k) : (ofList es).find? k = (es.reverse.find? p).map (·.2) := by
  have hSame : p = fun e => decide (e.1 = k) := by
    funext e
    exact Bool.eq_iff_iff.2 ((hp e).trans decide_eq_true_iff.symm)
  rw [hSame]
  unfold ofList
  rw [find?_foldl_insert, find?_empty, Option.or_none]

/-- **A map is rebuilt from its entries.** -/
theorem ofList_entries (m : QMap κ ν) : ofList m.entries = m := by
  refine ext_find? ?_
  intro k
  rw [find?_ofList m.entries fun e => decide_eq_true_iff]
  cases hFind : m.entries.reverse.find? fun e => e.1 = k with
  | none =>
    cases hFound : m.find? k with
    | none => rfl
    | some v =>
      have hMem := mem_entries_iff.2 hFound
      have hNone := List.find?_eq_none.1 hFind (k, v) (List.mem_reverse.2 hMem)
      simp at hNone
  | some e =>
    have hKey := List.find?_some hFind
    have hMem := List.mem_reverse.1 (List.mem_of_find?_eq_some hFind)
    obtain ⟨k', v⟩ := e
    obtain rfl : k' = k := by simpa using hKey
    exact (mem_entries_iff.1 hMem).symm

/-- Entries in the order of their keys are the entries of their map. -/
theorem entries_ofList {es : List (κ × ν)} (h : es.Pairwise fun e e' => e.1 < e'.1) :
    (ofList es).entries = es :=
  congrArg entries (ofList_entries ⟨es, h⟩)

/-- No key has two entries. -/
theorem nodup_keys (m : QMap κ ν) : (m.entries.map (·.1)).Nodup := by
  rw [List.Nodup, List.pairwise_map]
  exact m.sorted.imp fun hLess => ne_of_lt hLess

/-! ## Lists by key -/

section Buckets

variable {β : Type*} (b : QMap κ (List β))

/-- `m[k].append(v)`. -/
def append (k : κ) (v : β) : QMap κ (List β) := b.insert k ((b.find? k).getD [] ++ [v])

/-- What is in the lists, list after list, each with its key. -/
def flatten : List (κ × β) := b.entries.flatMap fun e => e.2.map (Prod.mk e.1)

theorem getD_find?_append (k : κ) (v : β) (k' : κ) :
    ((b.append k v).find? k').getD [] =
      if k' = k then (b.find? k).getD [] ++ [v] else (b.find? k').getD [] := by
  rw [append, find?_insert]
  split <;> rfl

/-- The keys do not go down. -/
theorem pairwise_flatten : b.flatten.Pairwise fun e e' => e.1 ≤ e'.1 := by
  refine List.pairwise_flatMap.2 ⟨?_, ?_⟩
  · rintro ⟨k, vs⟩ -
    exact List.pairwise_map.2 (List.pairwise_of_forall fun _ _ => le_refl k)
  · refine b.sorted.imp fun hLess => ?_
    intro x hx y hy
    obtain ⟨_, _, rfl⟩ := List.mem_map.1 hx
    obtain ⟨_, _, rfl⟩ := List.mem_map.1 hy
    exact le_of_lt hLess

/-- What is there with a key is the list of the key, in its order. -/
theorem filter_flatten (k : κ) :
    b.flatten.filter (fun e => e.1 = k) = ((b.find? k).getD []).map (Prod.mk k) := by
  have hSorted := b.sorted
  unfold flatten find?
  generalize b.entries = es at hSorted
  induction es with
  | nil => rfl
  | cons e es ih =>
    obtain ⟨hFirst, hRest⟩ := List.pairwise_cons.1 hSorted
    rw [List.flatMap_cons, List.filter_append, ih hRest, List.find?_cons, List.filter_map]
    by_cases hSame : e.1 = k
    · -- the key is here, and not again
      have hNone : es.find? (fun e => e.1 = k) = none := by
        refine List.find?_eq_none.2 fun e' he' hAgain => ?_
        have hLess := hFirst e' he'
        rw [hSame, of_decide_eq_true hAgain] at hLess
        exact lt_irrefl k hLess
      simp [hNone, hSame, Function.comp_def]
    · simp [hSame, Function.comp_def]

end Buckets

end QMap
