import Kopete.Oscar.ContactManager

/-!
# Oscar — updates of single items

`updateGroup`, `updateContact` and `updateItem` look for the old version of an item by its
name, take it off the list, and only then see whether the new one is in the list already.
Ids do not count in that search, and names need not be unique: contacts of one name may be
in several groups.

Main results:

* `replace_local_iff` — when the body of the three changes nothing but the item;
* `updates_local_iff` — the same for each of them.
-/

namespace Oscar

namespace ContactManager

variable {toLower : String → String} {oldItem x : OContact} {d : ContactManagerPrivate}

/-- Two versions of one item of the server. -/
def Versions (i j : OContact) : Prop := i.type = j.type ∧ i.gid = j.gid ∧ i.bid = j.bid

instance (i j : OContact) : Decidable (Versions i j) :=
  inferInstanceAs (Decidable (i.type = j.type ∧ i.gid = j.gid ∧ i.bid = j.bid))

/-- An update that is all or nothing, and about `x` only. -/
structure Local (x : OContact) (d : ContactManagerPrivate) (r : Bool × ContactManagerPrivate) :
    Prop where
  refused : r.1 = false → r.2.contactList = d.contactList ∧
    r.2.itemIdSet = d.itemIdSet ∧ r.2.groupIdSet = d.groupIdSet
  accepted : r.1 = true → x ∈ r.2.contactList ∧
    ∀ i ∈ d.contactList, ¬ Versions i x → i ∈ r.2.contactList

/-- The item that is found is a version of the new one, and nothing else is equal to that. -/
def Replaceable (x : OContact) (d : ContactManagerPrivate) (oldItem : OContact) : Prop :=
  oldItem.isValid → Versions oldItem x ∧ ∀ i ∈ d.contactList, i.same x → i.same oldItem

theorem local_appendNew (x : OContact) (d : ContactManagerPrivate) :
    Local x d (appendNew x d) := by
  unfold appendNew
  split
  · exact ⟨fun _ => ⟨rfl, rfl, rfl⟩, fun h => absurd h Bool.false_ne_true⟩
  · refine ⟨fun h => absurd h.symm Bool.false_ne_true, fun _ => ?_⟩
    rw [append_contactList]
    exact ⟨by simp, fun i hi _ => List.mem_append_left _ hi⟩

/-- What is left once the old item is gone has one equal to `x`. -/
theorem contains_removeAll_iff :
    contains x (removeAll oldItem d.contactList) ↔
      ∃ i ∈ d.contactList, i.same x ∧ ¬ i.same oldItem := by
  rw [contains_iff]
  constructor
  · rintro ⟨i, hi, hSame⟩
    obtain ⟨hMem, hNot⟩ := mem_removeAll.1 hi
    exact ⟨i, hMem, hSame, hNot⟩
  · rintro ⟨i, hMem, hSame, hNot⟩
    exact ⟨i, mem_removeAll.2 ⟨hMem, hNot⟩, hSame⟩

/-- **The body of the updates**, for an old item of the list. -/
theorem replace_local_iff (hOld : oldItem.isValid → oldItem ∈ d.contactList) :
    Local x d (replace oldItem x d) ↔ Replaceable x d oldItem := by
  unfold replace
  split
  case isFalse hInvalid =>
    exact iff_of_true (local_appendNew x d) fun hValid => absurd hValid hInvalid
  case isTrue hValid =>
    have hMem := hOld hValid
    unfold appendNew
    rw [drop_contactList]
    split
    case isTrue hContains =>
      -- Refused, with the old item gone.
      obtain ⟨i, hi, hSame, hNot⟩ := contains_removeAll_iff.1 hContains
      refine iff_of_false (fun hLocal => ?_) fun hOk => hNot ((hOk hValid).2 i hi hSame)
      have hKept : removeAll oldItem d.contactList = d.contactList := by
        rw [← drop_contactList]
        exact (hLocal.refused rfl).1
      rw [← hKept] at hMem
      exact (mem_removeAll.1 hMem).2 oldItem.same_refl
    case isFalse hNew =>
      have hOthers : ∀ i ∈ d.contactList, i.same x → i.same oldItem := by
        intro i hi hSame
        by_contra hNot
        exact hNew (contains_removeAll_iff.2 ⟨i, hi, hSame, hNot⟩)
      constructor
      · intro hLocal _
        refine ⟨?_, hOthers⟩
        by_contra hNot
        have hKept := (hLocal.accepted rfl).2 oldItem hMem hNot
        rw [append_contactList, drop_contactList] at hKept
        rcases List.mem_append.1 hKept with h | h
        · exact (mem_removeAll.1 h).2 oldItem.same_refl
        · rw [List.mem_singleton.1 h] at hNot
          exact hNot ⟨rfl, rfl, rfl⟩
      · intro hOk
        refine ⟨fun h => absurd h.symm Bool.false_ne_true, fun _ => ?_⟩
        rw [append_contactList, drop_contactList]
        refine ⟨by simp, fun i hi hNot => List.mem_append_left _ (mem_removeAll.2 ⟨hi, ?_⟩)⟩
        intro hSame
        obtain ⟨-, hGid, hBid, hType⟩ := OContact.same_iff.1 hSame
        obtain ⟨hType', hGid', hBid'⟩ := (hOk hValid).1
        exact hNot ⟨hType.trans hType', hGid.trans hGid', hBid.trans hBid'⟩

/-- A lookup that returns a valid item found it in the list. -/
theorem mem_of_isValid {p : OContact → Bool} (h : (findFirst p d).isValid) :
    findFirst p d ∈ d.contactList ∧ p (findFirst p d) := by
  rcases findFirst_cases p d with hFound | ⟨hNone, -⟩
  · exact hFound
  · rw [hNone] at h
    exact absurd h (by decide)

/-- An old item that has the name of the new one. -/
theorem replaceable_iff (hName : oldItem.isValid → oldItem.name = x.name) :
    Replaceable x d oldItem ↔ (oldItem.isValid → Versions oldItem x) := by
  refine forall_congr' fun hValid => ⟨fun h => h.1, fun h => ⟨h, fun i _ hSame => ?_⟩⟩
  obtain ⟨hType, hGid, hBid⟩ := h
  obtain ⟨hName', hGid', hBid', hType'⟩ := OContact.same_iff.1 hSame
  exact OContact.same_iff.2 ⟨hName'.trans (hName hValid).symm, hGid'.trans hGid.symm,
    hBid'.trans hBid.symm, hType'.trans hType.symm⟩

/-- **The three updates** are all or nothing, and touch no other item, exactly if what they
find by the name is a version of the item, or nothing. -/
theorem updates_local_iff (toLower : String → String) (x : OContact) (d : ContactManagerPrivate) :
    (Local x d (updateGroup toLower x d) ↔ Replaceable x d (findGroup toLower x.name d)) ∧
    (Local x d (updateContact x d) ↔
      ((findContact x.name d).isValid → Versions (findContact x.name d) x)) ∧
    (Local x d (updateItem x d) ↔
      ((findItem x.name x.type d).isValid → Versions (findItem x.name x.type d) x)) := by
  refine ⟨replace_local_iff fun h => (mem_of_isValid h).1, ?_, ?_⟩
  · refine (replace_local_iff fun h => (mem_of_isValid h).1).trans (replaceable_iff fun h => ?_)
    have hFound := (mem_of_isValid h).2
    rw [Bool.and_eq_true] at hFound
    exact eq_of_beq hFound.2
  · refine (replace_local_iff fun h => (mem_of_isValid h).1).trans (replaceable_iff fun h => ?_)
    have hFound := (mem_of_isValid h).2
    rw [Bool.and_eq_true] at hFound
    exact eq_of_beq hFound.2

/-- One name in two groups. -/
def inTwoGroups : ContactManagerPrivate :=
  { init with
    contactList := [⟨"a", 1, 1, ROSTER_CONTACT, []⟩, ⟨"a", 2, 2, ROSTER_CONTACT, []⟩]
    itemIdSet := {1, 2} }

theorem updateContact_inTwoGroups :
    ¬ Local ⟨"a", 2, 2, ROSTER_CONTACT, [⟨0x0131, 1, [98]⟩]⟩ inTwoGroups
      (updateContact ⟨"a", 2, 2, ROSTER_CONTACT, [⟨0x0131, 1, [98]⟩]⟩ inTwoGroups) := by
  intro h
  have hKept := (h.refused (by decide)).1
  exact absurd hKept (by decide)

end ContactManager

end Oscar
