import Mathlib

/-!
# Document trees

Elements with attributes and children, and texts. The elements of a tag below a node are
listed in document order with their places; a loop over that list that rewrites each
element looks at the list anew in every round.

Main results:

* `elementsByTagName_flat` — the list where the elements of a tag are children;
* `editEach_flat` — such a loop rewrites those children, each once;
* `removeChildren_flat` — taking some of them out.
-/

namespace Dom

/-- `QDomNode`: an element, or a text. -/
inductive Node (α : Type*) where
  | element (tag : String) (attributes : List (String × List α)) (children : List (Node α))
  | text (s : List α)

/-- The indices of the children that lead to a node. -/
abbrev Path := List Nat

variable {α : Type*}

namespace Node

/-- `QDomElement::tagName`, empty for what is no element. -/
def tagName : Node α → String
  | .element tag _ _ => tag
  | .text _ => ""

/-- `QDomNode::isElement`. -/
def isElement : Node α → Bool
  | .element _ _ _ => true
  | .text _ => false

def attributes : Node α → List (String × List α)
  | .element _ attributes _ => attributes
  | .text _ => []

def children : Node α → List (Node α)
  | .element _ _ children => children
  | .text _ => []

/-- `QDomElement::hasAttribute`. -/
def hasAttribute (n : Node α) (name : String) : Bool := n.attributes.any (·.1 = name)

/-- `QDomElement::attribute`. -/
def attr (n : Node α) (name : String) (defValue : List α) : List α :=
  ((n.attributes.find? (·.1 = name)).map (·.2)).getD defValue

/-- `QDomElement::setAttribute`. -/
def setAttribute (n : Node α) (name : String) (value : List α) : Node α :=
  match n with
  | .element tag attributes children =>
    .element tag (attributes.filter (·.1 ≠ name) ++ [(name, value)]) children
  | .text s => .text s

/-- `QDomNode::appendChild`. -/
def appendChild (n : Node α) (c : Node α) : Node α :=
  match n with
  | .element tag attributes children => .element tag attributes (children ++ [c])
  | .text s => .text s

def withChildren (n : Node α) (cs : List (Node α)) : Node α :=
  match n with
  | .element tag attributes _ => .element tag attributes cs
  | .text s => .text s

end Node

mutual

/-- `QDomElement::text`: the texts below a node. -/
def textOf : Node α → List α
  | .element _ _ children => textOfAll children
  | .text s => s

def textOfAll : List (Node α) → List α
  | [] => []
  | c :: cs => textOf c ++ textOfAll cs

end

mutual

/-- `QDomElement::elementsByTagName`: the elements of a tag below a node, and where. -/
def elementsByTagName (tag : String) : Node α → List (Path × Node α)
  | .element _ _ children => elementsOfAll tag 0 children
  | .text _ => []

/-- The elements of a tag among and below children, the first of which has the index `k`. -/
def elementsOfAll (tag : String) (k : Nat) : List (Node α) → List (Path × Node α)
  | [] => []
  | c :: cs =>
    (if c.tagName = tag then [([k], c)] else []) ++
      (elementsByTagName tag c).map (fun e => (k :: e.1, e.2)) ++ elementsOfAll tag (k + 1) cs

end

/-- The node at a place is rewritten. -/
def modify (f : Node α → Node α) : Path → Node α → Node α
  | [], n => f n
  | _ :: _, .text s => .text s
  | k :: p, .element tag attributes children =>
    .element tag attributes (children.modify k (modify f p))

/-- The loop that rewrites the elements of a tag, from the `i`-th one of the list as it is in
that round; `none` when the fuel runs out. -/
def editEach (tag : String) (f : Node α → Node α) : Nat → Nat → Node α → Option (Node α)
  | 0, _, _ => none
  | fuel + 1, i, n =>
    match (elementsByTagName tag n)[i]? with
    | none => some n
    | some e => editEach tag f fuel (i + 1) (modify f e.1 n)

/-- `QDomNode::removeChild` for each of some nodes, given by their places: those that are
children go. -/
def removeChildren (ps : List Path) (n : Node α) : Node α :=
  n.withChildren ((n.children.zipIdx.filter fun c => [c.2] ∉ ps).map (·.1))

/-! ## Elements that are children -/

/-- No element of the tag is further down than the children. -/
def Flat (tag : String) (cs : List (Node α)) : Prop := ∀ c ∈ cs, elementsByTagName tag c = []

theorem Flat.tail {tag : String} {c : Node α} {cs : List (Node α)} (h : Flat tag (c :: cs)) :
    Flat tag cs := fun c' hc' => h c' (List.mem_cons_of_mem _ hc')

theorem elementsOfAll_flat {tag : String} {cs : List (Node α)} (h : Flat tag cs) (k : Nat) :
    elementsOfAll tag k cs =
      ((cs.zipIdx k).filter (·.1.tagName = tag)).map fun c => ([c.2], c.1) := by
  induction cs generalizing k with
  | nil => rfl
  | cons c cs ih =>
    rw [elementsOfAll, h c List.mem_cons_self, ih h.tail, List.zipIdx_cons, List.filter_cons]
    by_cases hTag : c.tagName = tag <;> simp [hTag]

/-- **The list** is the children of the tag. -/
theorem elementsByTagName_flat {tag : String} {n : Node α} (h : Flat tag n.children) :
    elementsByTagName tag n =
      (n.children.zipIdx.filter (·.1.tagName = tag)).map fun c => ([c.2], c.1) := by
  cases n with
  | element t a cs => exact elementsOfAll_flat h 0
  | text s => rfl

/-- Those of them that a condition holds of. -/
theorem filter_elementsByTagName {tag : String} {n : Node α} (h : Flat tag n.children)
    (p : Node α → Bool) : ((elementsByTagName tag n).filter fun e => p e.2).map (·.2) =
      n.children.filter fun c => c.tagName = tag ∧ p c = true := by
  have hBoth : ∀ c : Node α, (decide (c.tagName = tag) && p c) =
      decide (c.tagName = tag ∧ p c = true) := by
    intro c
    by_cases hTag : c.tagName = tag <;> simp [hTag]
  calc ((elementsByTagName tag n).filter fun e => p e.2).map (·.2)
      = (n.children.zipIdx.map (·.1)).filter fun c => p c && decide (c.tagName = tag) := by
        rw [elementsByTagName_flat h, List.filter_map, List.filter_filter, List.map_map,
          List.filter_map]
        rfl
    _ = n.children.filter fun c => c.tagName = tag ∧ p c = true := by
        rw [List.zipIdx_map_fst]
        refine List.filter_congr ?_
        intro c _
        rw [Bool.and_comm, hBoth]

theorem elementsOfAll_eq_nil {tag : String} {cs : List (Node α)} {k : Nat} :
    elementsOfAll tag k cs = [] ↔ ∀ c ∈ cs, c.tagName ≠ tag ∧ elementsByTagName tag c = [] := by
  induction cs generalizing k with
  | nil => simp [elementsOfAll]
  | cons c cs ih => simp [elementsOfAll, ih, and_assoc]

theorem elementsOfAll_append (tag : String) (k : Nat) (cs ds : List (Node α)) :
    elementsOfAll tag k (cs ++ ds) =
      elementsOfAll tag k cs ++ elementsOfAll tag (k + cs.length) ds := by
  induction cs generalizing k with
  | nil => simp [elementsOfAll]
  | cons c cs ih =>
    have hNext : k + 1 + cs.length = k + (c :: cs).length := by
      rw [List.length_cons]
      omega
    rw [List.cons_append, elementsOfAll, elementsOfAll, ih, hNext, List.append_assoc,
      List.append_assoc, List.append_assoc]

theorem length_elementsOfAll {tag : String} {cs : List (Node α)} (h : Flat tag cs) (k : Nat) :
    (elementsOfAll tag k cs).length = cs.countP (·.tagName = tag) := by
  induction cs generalizing k with
  | nil => rfl
  | cons c cs ih =>
    rw [elementsOfAll, h c List.mem_cons_self, List.map_nil, List.append_nil, List.length_append,
      ih h.tail, List.countP_cons]
    by_cases hTag : c.tagName = tag
    · simp only [hTag, if_true, List.length_singleton, decide_true]
      omega
    · simp [hTag]

/-- An element of the tag is rewritten, another child stays. -/
def edit (tag : String) (f : Node α → Node α) (c : Node α) : Node α :=
  if c.tagName = tag then f c else c

section Edit

variable {tag : String} {f : Node α → Node α}

theorem flat_map_edit {cs : List (Node α)} (hFlat : Flat tag cs)
    (hf : ∀ c, c.tagName = tag → elementsByTagName tag c = [] → elementsByTagName tag (f c) = []) :
    Flat tag (cs.map (edit tag f)) := by
  intro c hc
  obtain ⟨c', hc', rfl⟩ := List.mem_map.1 hc
  unfold edit
  split
  · next hTag => exact hf c' hTag (hFlat c' hc')
  · exact hFlat c' hc'

theorem countP_map_edit (cs : List (Node α)) (hTag : ∀ c, c.tagName = tag → (f c).tagName = tag) :
    (cs.map (edit tag f)).countP (·.tagName = tag) = cs.countP (·.tagName = tag) := by
  rw [List.countP_map]
  refine List.countP_congr ?_
  intro c _
  simp only [Function.comp_apply, decide_eq_true_eq]
  unfold edit
  split
  · next hHere => exact iff_of_true (hTag c hHere) hHere
  · rfl

theorem modify_middle {β : Type*} (g : β → β) (xs : List β) (y : β) (ys : List β) :
    (xs ++ y :: ys).modify xs.length g = xs ++ g y :: ys := by
  induction xs with
  | nil => rfl
  | cons x xs ih => simp [ih]

/-- The loop, where the children `xs` have been rewritten already. -/
theorem editEach_append (hTag : ∀ c, c.tagName = tag → (f c).tagName = tag)
    (hf : ∀ c, c.tagName = tag → elementsByTagName tag c = [] → elementsByTagName tag (f c) = [])
    (t : String) (a : List (String × List α)) (xs ys : List (Node α)) (hxs : Flat tag xs)
    (hys : Flat tag ys) (fuel : Nat) (hFuel : ys.length < fuel) :
    editEach tag f fuel (xs.countP (·.tagName = tag)) (.element t a (xs.map (edit tag f) ++ ys)) =
      some (.element t a ((xs ++ ys).map (edit tag f))) := by
  have hLength : ∀ zs : List (Node α), Flat tag zs → (elementsOfAll tag 0
      (zs.map (edit tag f))).length = zs.countP (·.tagName = tag) := fun zs hzs =>
    (length_elementsOfAll (flat_map_edit hzs hf) 0).trans (countP_map_edit zs hTag)
  induction ys generalizing xs fuel with
  | nil =>
    obtain ⟨fuel, rfl⟩ : ∃ n, fuel = n + 1 := ⟨fuel - 1, by omega⟩
    have hEnd : (elementsByTagName tag (.element t a (xs.map (edit tag f) ++ [])))[
        xs.countP (·.tagName = tag)]? = none := by
      rw [List.append_nil, elementsByTagName]
      exact List.getElem?_eq_none (Nat.le_of_eq (hLength xs hxs))
    rw [editEach, hEnd, List.append_nil, List.append_nil]
  | cons y ys ih =>
    have hStart : Flat tag (xs ++ [y]) := by
      intro c hc
      rcases List.mem_append.1 hc with hc | hc
      · exact hxs c hc
      · rw [List.mem_singleton.1 hc]
        exact hys y List.mem_cons_self
    rw [List.length_cons] at hFuel
    by_cases hHere : y.tagName = tag
    · obtain ⟨fuel, rfl⟩ : ∃ n, fuel = n + 1 := ⟨fuel - 1, by omega⟩
      have hElement : (elementsByTagName tag (.element t a (xs.map (edit tag f) ++ y :: ys)))[
          xs.countP (·.tagName = tag)]? = some ([xs.length], y) := by
        rw [elementsByTagName, elementsOfAll_append,
          List.getElem?_append_right (Nat.le_of_eq (hLength xs hxs)), hLength xs hxs,
          elementsOfAll, if_pos hHere]
        simp
      have hModify : modify f [xs.length] (.element t a (xs.map (edit tag f) ++ y :: ys)) =
          .element t a ((xs ++ [y]).map (edit tag f) ++ ys) := by
        have hLength : (xs.map (edit tag f)).length = xs.length := List.length_map _
        rw [modify, ← hLength, modify_middle]
        simp [modify, edit, hHere]
      have hCount : (xs ++ [y]).countP (·.tagName = tag) = xs.countP (·.tagName = tag) + 1 := by
        simp [List.countP_append, hHere]
      have hNext := ih (xs ++ [y]) hStart hys.tail fuel (by omega)
      rw [hCount, List.append_assoc, List.singleton_append] at hNext
      rw [editEach, hElement]
      simp only
      rw [hModify, hNext]
    · have hSame : xs.map (edit tag f) ++ y :: ys = (xs ++ [y]).map (edit tag f) ++ ys := by
        simp [edit, hHere]
      have hCount : (xs ++ [y]).countP (·.tagName = tag) = xs.countP (·.tagName = tag) := by
        simp [List.countP_append, hHere]
      have hNext := ih (xs ++ [y]) hStart hys.tail fuel (by omega)
      rw [hCount, List.append_assoc, List.singleton_append] at hNext
      rw [hSame, hNext]

/-- **A loop over the list** rewrites each of the children of the tag. -/
theorem editEach_flat (hTag : ∀ c, c.tagName = tag → (f c).tagName = tag)
    (hf : ∀ c, c.tagName = tag → elementsByTagName tag c = [] → elementsByTagName tag (f c) = [])
    {n : Node α} (hFlat : Flat tag n.children) {fuel : Nat} (hFuel : n.children.length < fuel) :
    editEach tag f fuel 0 n = some (n.withChildren (n.children.map (edit tag f))) := by
  cases n with
  | element t a cs =>
    have hNone : Flat tag ([] : List (Node α)) := by
      intro c hc
      cases hc
    exact editEach_append hTag hf t a [] cs hNone hFlat fuel hFuel
  | text s =>
    obtain ⟨fuel, rfl⟩ : ∃ n, fuel = n + 1 := ⟨fuel - 1, by omega⟩
    rfl

end Edit

/-- **Taking children out**, by the places of those of a tag that a condition holds of. -/
theorem removeChildren_flat {tag : String} {n : Node α} (h : Flat tag n.children)
    (p : Node α → Bool) :
    removeChildren (((elementsByTagName tag n).filter fun e => p e.2).map (·.1)) n =
      n.withChildren (n.children.filter fun c => ¬(c.tagName = tag ∧ p c = true)) := by
  unfold removeChildren
  rw [elementsByTagName_flat h]
  have hIndex : ∀ c ∈ n.children.zipIdx,
      ([c.2] ∈ (((n.children.zipIdx.filter (·.1.tagName = tag)).map fun c => ([c.2], c.1)).filter
        fun e => p e.2).map (·.1) ↔ c.1.tagName = tag ∧ p c.1 = true) := by
    rintro ⟨c, k⟩ hc
    simp only [List.mem_map, List.mem_filter, decide_eq_true_eq]
    constructor
    · rintro ⟨e, ⟨⟨⟨c', k'⟩, ⟨hc', hTag⟩, rfl⟩, hp⟩, hEq⟩
      obtain rfl : k' = k := by simpa using hEq
      -- an index has one child
      have hSame : c' = c := by
        have hFirst := List.mk_mem_zipIdx_iff_getElem?.1 hc
        rw [List.mk_mem_zipIdx_iff_getElem?.1 hc'] at hFirst
        exact Option.some.inj hFirst
      rw [← hSame]
      exact ⟨hTag, hp⟩
    · rintro ⟨hTag, hp⟩
      exact ⟨([k], c), ⟨⟨(c, k), ⟨hc, hTag⟩, rfl⟩, hp⟩, rfl⟩
  have hFilter := List.filter_congr (p := fun c : Node α × Nat => decide ([c.2] ∉
      (((n.children.zipIdx.filter (·.1.tagName = tag)).map fun c => ([c.2], c.1)).filter
        fun e => p e.2).map (·.1))) (q := fun c => decide ¬(c.1.tagName = tag ∧ p c.1 = true))
    fun c hc => decide_eq_decide.2 (not_congr (hIndex c hc))
  rw [hFilter]
  have hMap : (n.children.zipIdx.filter
      fun c => decide ¬(c.1.tagName = tag ∧ p c.1 = true)).map (·.1) =
        (n.children.zipIdx.map (·.1)).filter fun c => decide ¬(c.tagName = tag ∧ p c = true) := by
    rw [List.filter_map]
    rfl
  rw [hMap, List.zipIdx_map_fst]

end Dom
