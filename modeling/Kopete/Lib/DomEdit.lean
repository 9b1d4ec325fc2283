import Kopete.Lib.Dom

/-!
# Document trees that are edited in place

The first child of a tag is looked for, made when there is none, or put in place of the old one; an
element that is found further down is edited where it is.

Main results:

* `firstChild_editFirstChild` — what is looked for is found again, edited;
* `firstChild_replaceChild` — what has been put in place of the old one is found;
* `elementsByTagName_children` — the elements of a tag, where these are the children;
* `find?_modify` — what has been edited is found again by its tag and attributes, anywhere.
-/

namespace Dom

variable {α : Type*}

/-- `QDomNode::firstChildElement`. -/
def firstChild (tag : String) (n : Node α) : Option (Node α) :=
  n.children.find? fun c => c.tagName = tag

def editAmong (tag : String) (f : Node α → Node α) : List (Node α) → List (Node α)
  | [] => [f (.element tag [] [])]
  | c :: cs => if c.tagName = tag then f c :: cs else c :: editAmong tag f cs

/-- The first child of a tag is edited; there is a new one for it when there was none. -/
def editFirstChild (tag : String) (f : Node α → Node α) (n : Node α) : Node α :=
  n.withChildren (editAmong tag f n.children)

/-- `QDomNode::removeChild` for the first child of the same tag, and `appendChild`. -/
def replaceChild (c n : Node α) : Node α :=
  (n.withChildren (n.children.eraseP fun c' => c'.tagName = c.tagName)).appendChild c

/-! ## Children -/

theorem isElement_of_tagName {n : Node α} (h : n.tagName ≠ "") : n.isElement = true := by
  cases n with
  | element t a cs => rfl
  | text s => exact absurd rfl h

@[simp] theorem tagName_replaceChild (c n : Node α) : (replaceChild c n).tagName = n.tagName := by
  cases n <;> rfl

@[simp] theorem attributes_replaceChild (c n : Node α) :
    (replaceChild c n).attributes = n.attributes := by
  cases n <;> rfl

theorem children_replaceChild (c : Node α) {n : Node α} (hn : n.isElement = true) :
    (replaceChild c n).children =
      n.children.eraseP (fun c' => c'.tagName = c.tagName) ++ [c] := by
  cases n with
  | element t a cs => rfl
  | text s => cases hn

/-- **What is looked for** is found again, edited. -/
theorem firstChild_editFirstChild {tag : String} {f : Node α → Node α} {n : Node α}
    (hTag : ∀ c, (f c).tagName = c.tagName) (hn : n.isElement = true) :
    firstChild tag (editFirstChild tag f n) =
      some (f ((firstChild tag n).getD (.element tag [] []))) := by
  have hAmong : ∀ cs : List (Node α), (editAmong tag f cs).find? (fun c => c.tagName = tag) =
      some (f ((cs.find? fun c => c.tagName = tag).getD (.element tag [] []))) := by
    intro cs
    induction cs with
    | nil =>
      have hNew : (f (.element tag [] [])).tagName = tag := hTag _
      simp [editAmong, hNew]
    | cons c cs ih =>
      rw [editAmong]
      split
      · next hIs => simp [hTag, hIs]
      · next hOther => simp [hOther, ih]
  cases n with
  | element t a cs => exact hAmong cs
  | text s => cases hn

theorem countP_eraseP {p : Node α → Bool} (cs : List (Node α)) :
    (cs.eraseP p).countP p = cs.countP p - 1 := by
  induction cs with
  | nil => rfl
  | cons c cs ih =>
    cases hp : p c with
    | true => simp [hp]
    | false => simp [hp, ih]

theorem find?_eraseP {p q : Node α → Bool} (h : ∀ c, p c = true → q c = false)
    (cs : List (Node α)) : (cs.eraseP p).find? q = cs.find? q := by
  induction cs with
  | nil => rfl
  | cons c cs ih =>
    cases hp : p c with
    | true => simp [hp, h c hp]
    | false => simp [hp, List.find?_cons, ih]

theorem countP_eraseP_of_apart {p q : Node α → Bool} (h : ∀ c, p c = true → q c = false)
    (cs : List (Node α)) : (cs.eraseP p).countP q = cs.countP q := by
  induction cs with
  | nil => rfl
  | cons c cs ih =>
    cases hp : p c with
    | true => simp [hp, h c hp]
    | false => simp [hp, List.countP_cons, ih]

theorem isElement_replaceChild (c : Node α) {n : Node α} (hn : n.isElement = true) :
    (replaceChild c n).isElement = true := by
  cases n with
  | element t a cs => rfl
  | text s => cases hn

/-- **What has been put in place** of the only child of its tag is the one that is found. -/
theorem firstChild_replaceChild {c n : Node α} (hn : n.isElement = true)
    (hOne : n.children.countP (fun c' => c'.tagName = c.tagName) ≤ 1) :
    firstChild c.tagName (replaceChild c n) = some c := by
  have hNone : (n.children.eraseP fun c' => c'.tagName = c.tagName).countP
      (fun c' => c'.tagName = c.tagName) = 0 := by
    rw [countP_eraseP]
    omega
  have hNotFound : (n.children.eraseP fun c' => c'.tagName = c.tagName).find?
      (fun c' => c'.tagName = c.tagName) = none :=
    List.find?_eq_none.mpr (List.countP_eq_zero.mp hNone)
  rw [firstChild, children_replaceChild c hn, List.find?_append, hNotFound]
  simp

theorem apart_of_ne {c : Node α} {tag : String} (hOther : c.tagName ≠ tag) (c' : Node α)
    (hSame : decide (c'.tagName = c.tagName) = true) : decide (c'.tagName = tag) = false := by
  rw [of_decide_eq_true hSame]
  exact decide_eq_false hOther

theorem firstChild_replaceChild_ne {c n : Node α} {tag : String} (hOther : c.tagName ≠ tag)
    (hn : n.isElement = true) : firstChild tag (replaceChild c n) = firstChild tag n := by
  rw [firstChild, firstChild, children_replaceChild c hn, List.find?_append,
    find?_eraseP (apart_of_ne hOther)]
  simp [hOther]

theorem countP_replaceChild_ne {c n : Node α} {tag : String} (hOther : c.tagName ≠ tag)
    (hn : n.isElement = true) : (replaceChild c n).children.countP (fun c' => c'.tagName = tag) =
      n.children.countP fun c' => c'.tagName = tag := by
  rw [children_replaceChild c hn, List.countP_append, countP_eraseP_of_apart (apart_of_ne hOther)]
  simp [hOther]

/-! ## Elements anywhere -/

/-- The elements of a tag, where all children are of it and none is further down. -/
theorem elementsByTagName_children {tag : String} {n : Node α} (hFlat : Flat tag n.children)
    (hTag : ∀ c ∈ n.children, c.tagName = tag) :
    (elementsByTagName tag n).map (·.2) = n.children := by
  have hList := filter_elementsByTagName hFlat fun _ => true
  rw [List.filter_true] at hList
  rw [hList, List.filter_eq_self]
  intro c hc
  simp [hTag c hc]

section Find

variable {tag : String} {f : Node α → Node α} {p : Node α → Bool}

/-- Below a node: its tag and its attributes stay. -/
theorem modify_cons (i : ℕ) (path : Path) (n : Node α) :
    (modify f (i :: path) n).tagName = n.tagName ∧
      (modify f (i :: path) n).attributes = n.attributes := by
  cases n with
  | element t a cs => exact ⟨rfl, rfl⟩
  | text s => exact ⟨rfl, rfl⟩

mutual

/-- **The first element that is found**, by its tag and its attributes, is found again after it has
been edited where it is. -/
theorem find?_modify (hTag : ∀ c, (f c).tagName = c.tagName)
    (hAttributes : ∀ c, (f c).attributes = c.attributes)
    (hp : ∀ c c' : Node α, c.attributes = c'.attributes → p c = p c') :
    ∀ (n : Node α) {e : Path × Node α},
      (elementsByTagName tag n).find? (fun e => p e.2) = some e →
      (∃ i path, e.1 = i :: path) ∧
        (elementsByTagName tag (modify f e.1 n)).find? (fun e => p e.2) = some (e.1, f e.2)
  | .element t a cs, e, h => by
    obtain ⟨i, path, hPath, hFound⟩ := find?_modifyAll hTag hAttributes hp cs 0 h
    rw [Nat.zero_add] at hPath
    refine ⟨⟨i, path, hPath⟩, ?_⟩
    rw [hPath] at hFound ⊢
    exact hFound
  | .text s, e, h => by cases h

theorem find?_modifyAll (hTag : ∀ c, (f c).tagName = c.tagName)
    (hAttributes : ∀ c, (f c).attributes = c.attributes)
    (hp : ∀ c c' : Node α, c.attributes = c'.attributes → p c = p c') :
    ∀ (cs : List (Node α)) (k : ℕ) {e : Path × Node α},
      (elementsOfAll tag k cs).find? (fun e => p e.2) = some e →
      ∃ i path, e.1 = (k + i) :: path ∧
        (elementsOfAll tag k (cs.modify i (modify f path))).find? (fun e => p e.2) =
          some (e.1, f e.2)
  | [], _, _, h => by cases h
  | c :: cs, k, e, h => by
    rw [elementsOfAll, List.find?_append, List.find?_append] at h
    by_cases hHere : c.tagName = tag ∧ p c = true
    · -- it is this child itself
      have hIs : (if c.tagName = tag then [([k], c)] else []).find? (fun e => p e.2) =
          some ([k], c) := by
        rw [if_pos hHere.1]
        simp [hHere.2]
      rw [hIs, Option.some_or, Option.some_or] at h
      obtain rfl := Option.some.inj h
      refine ⟨0, [], rfl, ?_⟩
      rw [List.modify_zero_cons, modify, elementsOfAll, hTag, if_pos hHere.1, List.append_assoc,
        List.singleton_append, List.find?_cons_of_pos]
      exact (hp _ _ (hAttributes c)).trans hHere.2
    · have hNotHere : ∀ c' : Node α, c'.tagName = c.tagName → c'.attributes = c.attributes →
          (if c'.tagName = tag then [([k], c')] else []).find? (fun e => p e.2) = none := by
        intro c' hSameTag hSame
        rw [hSameTag]
        split
        · next hIs =>
          have hNot : p c' = false := by
            rw [hp c' c hSame, ← Bool.not_eq_true]
            exact fun hPc => hHere ⟨hIs, hPc⟩
          simp [hNot]
        · rfl
      rw [hNotHere c rfl rfl, Option.none_or, List.find?_map] at h
      cases hBelow : (elementsByTagName tag c).find? (fun e => p e.2) with
      | some e' =>
        -- it is further down
        obtain ⟨⟨i, path, hPath⟩, hFound⟩ := find?_modify hTag hAttributes hp c hBelow
        have hComp : (elementsByTagName tag c).find?
            ((fun e => p e.2) ∘ fun e => (k :: e.1, e.2)) = some e' := hBelow
        rw [hComp, Option.map_some, Option.some_or] at h
        obtain rfl := Option.some.inj h
        refine ⟨0, e'.1, rfl, ?_⟩
        obtain ⟨hSameTag, hSame⟩ := modify_cons (f := f) i path c
        rw [← hPath] at hSameTag hSame
        have hFound' : (elementsByTagName tag (modify f e'.1 c)).find?
            ((fun e => p e.2) ∘ fun e => (k :: e.1, e.2)) = some (e'.1, f e'.2) := hFound
        rw [List.modify_zero_cons, elementsOfAll, List.find?_append, List.find?_append,
          hNotHere _ hSameTag hSame, Option.none_or, List.find?_map, hFound', Option.map_some,
          Option.some_or]
      | none =>
        have hComp : (elementsByTagName tag c).find?
            ((fun e => p e.2) ∘ fun e => (k :: e.1, e.2)) = none := hBelow
        rw [hComp, Option.map_none, Option.none_or] at h
        obtain ⟨i, path, hPath, hFound⟩ := find?_modifyAll hTag hAttributes hp cs (k + 1) h
        refine ⟨i + 1, path, ?_, ?_⟩
        · rw [hPath, Nat.add_assoc, Nat.add_comm 1]
        · rw [List.modify_succ_cons, elementsOfAll, List.find?_append, List.find?_append,
            hNotHere c rfl rfl, Option.none_or, List.find?_map, hComp, Option.map_none,
            Option.none_or, hFound]

end

end Find

end Dom
