import Kopete.Oscar.ContactMoves

/-!
# Oscar — the member lists in the packets of a move

A move sends both group items anew. The member list of each is replaced by one that is
computed from it; what is taken off the new group, though, is any TLV like the list of the
*old* group, of which only the type and the length count.

Main results:

* `carries_withoutId` — the item of the old group;
* `carries_withId_iff` — that of the new group, which is right if the two lists are of one
  length;
* `movedLists_iff` — both.
-/

namespace Oscar.ContactMoves

open ContactManager

/-- A group item with one member list, of any number of bytes. -/
structure OneTLV (g : OContact) (t : TLV) : Prop where
  only : memberLists g = [t]
  length : t.length = t.data.length
  word : t.length < 2 ^ 16

/-- The TLVs of an item that are no member lists. -/
def others (g : OContact) : List TLV := g.tlvList.filter fun t => t.type != 0x00C8

/-- What is sent for a group has one member list, of these ids, and the other TLVs of the
group. -/
def Carries (sent g : OContact) (members : List Nat) : Prop :=
  (∃ t, memberLists sent = [t] ∧ ids t = members) ∧ others sent = others g

variable {g : OContact} {t : TLV}

theorem OneTLV.ids (h : OneTLV g t) : ids t = words t.data := by
  rw [ContactMoves.ids, h.length, List.take_length]

/-- Putting a member list in the place of another leaves the other TLVs alone. -/
theorem others_remove {oldIds list : TLV} (hOld : oldIds.type = 0x00C8)
    (hList : list.type = 0x00C8) :
    others { g with tlvList := removeTLV oldIds g.tlvList ++ [list] } = others g := by
  have hRest : (removeTLV oldIds g.tlvList).filter (fun t => t.type != 0x00C8) = others g := by
    unfold removeTLV others
    rw [List.filter_filter]
    refine List.filter_congr fun u _ => ?_
    rw [TLV.same, hOld]
    by_cases hType : u.type = 0x00C8 <;> simp [hType]
  show (removeTLV oldIds g.tlvList ++ [list]).filter (fun t => t.type != 0x00C8) = others g
  rw [List.filter_append, hRest]
  simp [hList]

/-! ## The old group -/

theorem length_words_le : ∀ data : List UInt8, 2 * (words data).length ≤ data.length + 1
  | [] => Nat.zero_le _
  | [_] => Nat.le_refl _
  | _ :: _ :: data => by
    have hRest := length_words_le data
    simp only [words, List.length_cons]
    omega

/-- **The old group** is sent without the moved id, if its list is not of the greatest length
there is. -/
theorem carries_withoutId (h : OneTLV g t) (hRoom : t.length + 1 < 2 ^ 16) (bid : Nat) :
    Carries (SSIModifyTask.withoutId bid g) g ((ids t).filter (· ≠ bid)) := by
  have hFind := find_of_only h.only
  have hWords : (((words t.data).filter (· ≠ bid)).flatMap wordBytes).length < 2 ^ 16 := by
    have hFewer : ((words t.data).filter (· ≠ bid)).length ≤ (words t.data).length :=
      List.length_filter_le _ _
    have hLe := length_words_le t.data
    rw [← h.length] at hLe
    rw [flatMap_wordBytes_length]
    omega
  unfold SSIModifyTask.withoutId
  rw [hFind]
  dsimp only
  rw [if_pos (type_of_only h.only)]
  refine ⟨⟨_, (memberLists_remove h.only (type_of_only h.only) _ rfl).trans
    (by rw [if_pos rfl, List.nil_append]), ?_⟩, others_remove (type_of_only h.only) rfl⟩
  rw [h.ids, ids]
  show words (List.take (_ % 2 ^ 16) _) = _
  rw [Nat.mod_eq_of_lt hWords, List.take_length]
  exact words_flatMap fun w hw => words_lt _ w (List.mem_of_mem_filter hw)

/-! ## The new group -/

/-- One id behind a list of bytes comes out behind its ids, unless it is torn apart by a single
last byte. -/
theorem words_append_wordBytes {bid : Nat} (hbid : bid < 2 ^ 16) : ∀ data : List UInt8,
    words (data ++ wordBytes bid) = words data ++ [bid] ↔ data.length % 2 = 0 ∨ bid = 0
  | [] => by
    simp [words_wordBytes hbid, words]
  | [x] => by
    have hx := x.toNat_lt
    have hHigh : (UInt8.ofNat (bid / 2 ^ 8)).toNat = bid / 2 ^ 8 := by
      rw [UInt8.toNat_ofNat']
      omega
    have hLow : (UInt8.ofNat bid).toNat = bid % 2 ^ 8 := by
      rw [UInt8.toNat_ofNat']
    simp only [wordBytes, List.cons_append, List.nil_append, words, hHigh, hLow, List.cons.injEq,
      List.length_singleton, and_true]
    omega
  | x :: y :: data => by
    have hRest := words_append_wordBytes hbid data
    simp only [List.cons_append, words, List.cons.injEq, true_and, hRest, List.length_cons]
    omega

theorem length_words : ∀ data : List UInt8, (words data).length = (data.length + 1) / 2
  | [] => rfl
  | [_] => by simp [words]
  | _ :: _ :: data => by
    have hRest := length_words data
    simp only [words, List.length_cons]
    omega

/-- **The new group** is sent with the moved id exactly if its list is as long as that of the
old group, there is room for the id, and it is not torn apart. -/
theorem carries_withId_iff (h : OneTLV g t) {oldIds : TLV} (hOld : oldIds.type = 0x00C8)
    {bid : Nat} (hbid : bid < 2 ^ 16) :
    Carries (SSIModifyTask.withId bid oldIds g) g (ids t ++ [bid]) ↔
      oldIds.length = t.length ∧ t.length + 2 < 2 ^ 16 ∧ (t.length % 2 = 0 ∨ bid = 0) := by
  have hSize : (t.data ++ wordBytes bid).length = t.length + 2 := by
    rw [List.length_append, ← h.length]
    rfl
  have hSent : SSIModifyTask.withId bid oldIds g = { g with
      tlvList := removeTLV oldIds g.tlvList ++
        [⟨0x00C8, (t.length + 2) % 2 ^ 16, t.data ++ wordBytes bid⟩] } := by
    unfold SSIModifyTask.withId
    rw [find_of_only h.only]
    dsimp only
    rw [if_pos (type_of_only h.only), hSize]
  have hLists := memberLists_remove h.only hOld
    ⟨0x00C8, (t.length + 2) % 2 ^ 16, t.data ++ wordBytes bid⟩ rfl
  rw [hSent]
  by_cases hSame : t.length = oldIds.length
  · rw [if_pos hSame, List.nil_append] at hLists
    unfold Carries
    rw [and_iff_left (others_remove hOld rfl), hLists]
    have hIds : (∃ u : TLV, [(⟨0x00C8, (t.length + 2) % 2 ^ 16, t.data ++ wordBytes bid⟩ : TLV)] =
        [u] ∧ ids u = ids t ++ [bid]) ↔
          words ((t.data ++ wordBytes bid).take ((t.length + 2) % 2 ^ 16)) =
            words t.data ++ [bid] := by
      rw [h.ids]
      constructor
      · rintro ⟨u, hu, hWords⟩
        rw [← List.singleton_inj.mp hu] at hWords
        exact hWords
      · exact fun hWords => ⟨_, rfl, hWords⟩
    rw [hIds]
    by_cases hRoom : t.length + 2 < 2 ^ 16
    · rw [Nat.mod_eq_of_lt hRoom, ← hSize, List.take_length, words_append_wordBytes hbid,
        ← h.length]
      exact ⟨fun hEven => ⟨hSame.symm, by omega, hEven⟩, fun hAll => hAll.2.2⟩
    · -- The length wraps, and only the first bytes are left.
      refine iff_of_false (fun hWords => ?_) fun hAll => hRoom hAll.2.1
      have hLength := congrArg List.length hWords
      have hWord := h.word
      rw [List.length_append, length_words, length_words, List.length_take, ← h.length] at hLength
      simp only [List.length_singleton] at hLength
      omega
  · rw [if_neg hSame] at hLists
    refine iff_of_false ?_ fun hAll => hSame hAll.1.symm
    rintro ⟨⟨u, hu, -⟩, -⟩
    have hLength := congrArg List.length (hLists.symm.trans hu)
    simp at hLength

/-! ## Both groups -/

/-- **The two group items of a move** have the right member lists, and their other TLVs, exactly
if the two lists are of one length, of whole words unless the id is 0, with room for one more. -/
theorem movedLists_iff (task : SSIModifyTask) (d : ContactManagerPrivate) (oldIds newIds : TLV)
    (hOld : OneTLV (findGroupOfId task.oldItem.gid d) oldIds) (hNew : OneTLV task.groupItem newIds)
    (hbid : task.newItem.bid < 2 ^ 16) :
    (Carries (task.changeGroupOnServer d).oldGroup (findGroupOfId task.oldItem.gid d)
        ((ids oldIds).filter (· ≠ task.oldItem.bid)) ∧
      Carries (task.changeGroupOnServer d).newGroup task.groupItem
        (ids newIds ++ [task.newItem.bid])) ↔
      oldIds.length = newIds.length ∧ newIds.length + 2 < 2 ^ 16 ∧
        (newIds.length % 2 = 0 ∨ task.newItem.bid = 0) := by
  have hNewIff : Carries (task.changeGroupOnServer d).newGroup task.groupItem
      (ids newIds ++ [task.newItem.bid]) ↔ oldIds.length = newIds.length ∧
        newIds.length + 2 < 2 ^ 16 ∧ (newIds.length % 2 = 0 ∨ task.newItem.bid = 0) := by
    show Carries (SSIModifyTask.withId _ (findTLV _ _) _) _ _ ↔ _
    rw [find_of_only hOld.only]
    exact carries_withId_iff hNew (type_of_only hOld.only) hbid
  rw [hNewIff]
  refine and_iff_right_of_imp fun hRoom => ?_
  exact carries_withoutId hOld (by omega) task.oldItem.bid

/-- Two groups of two members, and a task that moves a member of the first. -/
def movesTo (list : TLV) : SSIModifyTask :=
  ⟨.Change, .Group, ⟨"p", 1, 1, ROSTER_CONTACT, []⟩, ⟨"p", 2, 1, ROSTER_CONTACT, []⟩,
    ⟨"b", 2, 0, ROSTER_GROUP, [list]⟩⟩

theorem oneTLV_old (list : TLV) :
    OneTLV (findGroupOfId (movesTo list).oldItem.gid twoGroups) ⟨0x00C8, 4, [0, 1, 0, 2]⟩ :=
  ⟨rfl, rfl, by decide⟩

theorem movedLists_iff_equal :
    Carries ((movesTo ⟨0x00C8, 4, [0, 3, 0, 4]⟩).changeGroupOnServer twoGroups).newGroup
      (movesTo ⟨0x00C8, 4, [0, 3, 0, 4]⟩).groupItem [3, 4, 1] :=
  ((movedLists_iff (movesTo ⟨0x00C8, 4, [0, 3, 0, 4]⟩) twoGroups _ ⟨0x00C8, 4, [0, 3, 0, 4]⟩
    (oneTLV_old _) ⟨rfl, rfl, by decide⟩ (by decide)).2 (by decide)).2

/-- A new group with a list of another length keeps it beside the new one. -/
theorem movedLists_unequal :
    ¬ ∀ (task : SSIModifyTask) (d : ContactManagerPrivate) (oldIds newIds : TLV),
      OneTLV (findGroupOfId task.oldItem.gid d) oldIds → OneTLV task.groupItem newIds →
      task.newItem.bid < 2 ^ 16 →
      Carries (task.changeGroupOnServer d).oldGroup (findGroupOfId task.oldItem.gid d)
          ((ids oldIds).filter (· ≠ task.oldItem.bid)) ∧
        Carries (task.changeGroupOnServer d).newGroup task.groupItem
          (ids newIds ++ [task.newItem.bid]) := by
  intro h
  obtain ⟨-, ⟨t, ht, -⟩, -⟩ := h (movesTo ⟨0x00C8, 2, [0, 3]⟩) twoGroups _ ⟨0x00C8, 2, [0, 3]⟩
    (oneTLV_old _) ⟨rfl, rfl, by decide⟩ (by decide)
  have hTwo : (memberLists ((movesTo ⟨0x00C8, 2, [0, 3]⟩).changeGroupOnServer
      twoGroups).newGroup).length = 2 := rfl
  rw [ht, List.length_singleton] at hTwo
  exact absurd hTwo (by decide)

end Oscar.ContactMoves
