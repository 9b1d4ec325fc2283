import Kopete.Lib.Run
import Kopete.Oscar.SSIModifyTask

/-!
# Oscar — moving contacts between groups

A move sends the server new member lists (TLV `0x00C8`) for the two groups. They
are computed from the group items in the local list, which no acknowledgement of
a move brings up to date; and the old list of the new group is taken off by the
type and *length* of the old group's.

Main results:

* `sendsMembers_iff` — for one move, the lists that are sent are right exactly
  when the two cached lists are of one length and agree with the contacts, the
  moved one apart;
* `moves_iff` — the same for whole runs of acknowledged moves.
-/

namespace Oscar.ContactMoves

open ContactManager

/-! ## Lists of ids -/

theorem words_wordBytes {w : Nat} (h : w < 2 ^ 16) : words (wordBytes w) = [w] := by
  simp only [wordBytes, words, UInt8.toNat_ofNat', List.cons.injEq, and_true]
  omega

/-- Words behind whole words. -/
theorem words_append : ∀ (a b : List UInt8), a.length % 2 = 0 → words (a ++ b) = words a ++ words b
  | [], _, _ => rfl
  | [_], _, h => by simp at h
  | x :: y :: a, b, h => by
    have hrest : a.length % 2 = 0 := by
      simp only [List.length_cons] at h
      omega
    simp only [List.cons_append, words, words_append a b hrest]

theorem words_flatMap {ids : List Nat} (h : ∀ id ∈ ids, id < 2 ^ 16) :
    words (ids.flatMap wordBytes) = ids := by
  induction ids with
  | nil => rfl
  | cons id ids ih =>
    rw [List.flatMap_cons, words_append _ _ (by simp [wordBytes]), words_wordBytes (h id List.mem_cons_self),
      ih fun i hi => h i (List.mem_cons_of_mem _ hi), List.singleton_append]

theorem words_lt : ∀ (a : List UInt8), ∀ w ∈ words a, w < 2 ^ 16
  | [], _, h => by simp [words] at h
  | [x], w, h => by
    have := x.toNat_lt
    simp only [words, List.mem_singleton] at h
    omega
  | x :: y :: a, w, h => by
    have := x.toNat_lt
    have := y.toNat_lt
    simp only [words, List.mem_cons] at h
    rcases h with rfl | h
    · omega
    · exact words_lt a w h

theorem words_length : ∀ (a : List UInt8), a.length % 2 = 0 → 2 * (words a).length = a.length
  | [], _ => rfl
  | [_], h => by simp at h
  | x :: y :: a, h => by
    have hrest : a.length % 2 = 0 := by
      simp only [List.length_cons] at h
      omega
    have := words_length a hrest
    simp only [words, List.length_cons]
    omega

theorem flatMap_wordBytes_length (ids : List Nat) :
    (ids.flatMap wordBytes).length = 2 * ids.length := by
  induction ids with
  | nil => rfl
  | cons id ids ih =>
    rw [List.flatMap_cons, List.length_append, ih, List.length_cons]
    simp only [wordBytes, List.length_cons, List.length_nil]
    omega

/-! ## Groups and their members -/

/-- A listed contact of the group has the id. -/
def Member (d : ContactManagerPrivate) (gid id : Nat) : Prop :=
  ∃ c ∈ d.contactList, c.type = ROSTER_CONTACT ∧ c.gid = gid ∧ c.bid = id

/-- The member list TLVs of an item. -/
def memberLists (g : OContact) : List TLV := g.tlvList.filter fun t => t.type == 0x00C8

/-- The ids in a TLV. -/
def ids (t : TLV) : List Nat := words (t.data.take t.length)

/-- A group item with one member list, of whole words. -/
structure OneList (g : OContact) (t : TLV) : Prop where
  only : memberLists g = [t]
  length : t.length = t.data.length
  even : t.length % 2 = 0
  word : t.length < 2 ^ 16

/-- What the claims of the members rest on: every group has one member list,
every contact is in a group and every item id is a `WORD`. -/
structure Prepared (d : ContactManagerPrivate) : Prop where
  groups : ∀ g ∈ d.contactList, g.type = ROSTER_GROUP → ∃ t, OneList g t
  contacts : ∀ c ∈ d.contactList, c.type = ROSTER_CONTACT →
    ∃ g ∈ d.contactList, g.type = ROSTER_GROUP ∧ g.gid = c.gid
  ids : ∀ c ∈ d.contactList, c.bid < 2 ^ 16

/-- Every group's list is that of its contacts. -/
def ListsMembers (d : ContactManagerPrivate) : Prop :=
  ∀ g ∈ d.contactList, g.type = ROSTER_GROUP → ∃ t, memberLists g = [t] ∧
    ∀ id, id ∈ ids t ↔ Member d g.gid id

/-! ## Moves -/

/-- A call of `changeGroup`. -/
structure MoveTo where
  contact : String
  newGroup : String

/-- The task of a move, if it is not refused. -/
def task (toLower : String → String) (d : ContactManagerPrivate) (m : MoveTo) :
    Option SSIModifyTask :=
  (SSIModifyTask.init.changeGroup toLower m.contact m.newGroup d).1

/-- The local list after a move was acknowledged with code 0. -/
def step (toLower : String → String) (d : ContactManagerPrivate) (m : MoveTo) :
    ContactManagerPrivate :=
  match task toLower d m with
  | none => d
  | some t => t.updateContactManager toLower d

/-- The item that is sent for a group has one member list, of exactly the
contacts that are in the group after the move. -/
def Sends (d' : ContactManagerPrivate) (gid : Nat) (sent : OContact) : Prop :=
  ∃ t, memberLists sent = [t] ∧ ∀ id, id ∈ ids t ↔ Member d' gid id

/-- What is asked of a move. -/
def SendsMembers (toLower : String → String) (d : ContactManagerPrivate) (m : MoveTo) : Prop :=
  ∀ t ∈ task toLower d m,
    Sends (step toLower d m) t.oldItem.gid (t.changeGroupOnServer d).oldGroup ∧
      Sends (step toLower d m) t.newItem.gid (t.changeGroupOnServer d).newGroup

/-- The cached list of a group is that of its contacts, the moved id apart. -/
def Agrees (d : ContactManagerPrivate) (gid moved : Nat) (t : TLV) : Prop :=
  ∀ id, id ≠ moved → (id ∈ words t.data ↔ Member d gid id)

/-- The lists in the two group items are of one length, with room for one id,
and agree with the contacts, and the moved contact is the only one of its group
with its id. -/
def StepOk (toLower : String → String) (d : ContactManagerPrivate) (m : MoveTo) : Prop :=
  ∀ t ∈ task toLower d m,
    let oldIds := findTLV (findGroupOfId t.oldItem.gid d).tlvList 0x00C8
    let oldIds2 := findTLV t.groupItem.tlvList 0x00C8
    oldIds.length = oldIds2.length ∧ oldIds2.length + 2 < 2 ^ 16 ∧
      Agrees d t.oldItem.gid t.oldItem.bid oldIds ∧
      Agrees d t.newItem.gid t.oldItem.bid oldIds2 ∧
      ∀ c ∈ d.contactList, c.type = ROSTER_CONTACT → c.gid = t.oldItem.gid →
        c.bid = t.oldItem.bid → c.same t.oldItem

/-! ## One move -/

variable {toLower : String → String} {d : ContactManagerPrivate} {m : MoveTo} {t : SSIModifyTask}

/-- A task that moves a listed contact into another listed group. -/
structure Moving (d : ContactManagerPrivate) (t : SSIModifyTask) : Prop where
  oldListed : t.oldItem ∈ d.contactList
  oldContact : t.oldItem.type = ROSTER_CONTACT
  oldFound : findContact t.oldItem.name d = t.oldItem
  groupListed : t.groupItem ∈ d.contactList
  group : t.groupItem.type = ROSTER_GROUP
  newItem : t.newItem =
    ⟨t.oldItem.name, t.groupItem.gid, t.oldItem.bid, ROSTER_CONTACT, t.oldItem.tlvList⟩
  other : t.oldItem.gid ≠ t.groupItem.gid
  subject : t.opSubject = .Group
  type : t.opType = .Change

theorem moving_of_task (h : task toLower d m = some t) : Moving d t := by
  simp only [task, SSIModifyTask.changeGroup] at h
  set old := findContact (normalize toLower m.contact) d with hold
  set group := findGroup toLower m.newGroup d with hgroup
  by_cases hvalid : old.isValid = true
  swap
  · simp [hvalid] at h
  by_cases hgid : old.gid = group.gid
  · simp [hvalid, hgid] at h
  by_cases hgvalid : group.isValid = true
  swap
  · simp [hvalid, hgid, hgvalid] at h
  simp only [hvalid, hgid, hgvalid, Bool.not_true, Bool.false_eq_true, if_false,
    Option.some.injEq] at h
  have hfound : old ∈ d.contactList ∧
      (old.type == ROSTER_CONTACT && old.name == normalize toLower m.contact) = true := by
    rcases findFirst_cases (fun i => i.type == ROSTER_CONTACT &&
      i.name == normalize toLower m.contact) d with hf | ⟨hinv, -⟩
    · exact hf
    · rw [hold, findContact, hinv] at hvalid
      exact absurd hvalid (by decide)
  have hgfound : group ∈ d.contactList ∧
      (group.type == ROSTER_GROUP && toLower group.name == toLower m.newGroup) = true := by
    rcases findFirst_cases (fun i => i.type == ROSTER_GROUP &&
      toLower i.name == toLower m.newGroup) d with hf | ⟨hinv, -⟩
    · exact hf
    · rw [hgroup, findGroup, hinv] at hgvalid
      exact absurd hgvalid (by decide)
  simp only [Bool.and_eq_true, beq_iff_eq] at hfound hgfound
  have hname : findContact old.name d = old := by rw [hfound.2.2]
  rw [← h]
  exact ⟨hfound.1, hfound.2.1, hname, hgfound.1, hgfound.2.1, rfl, hgid, rfl, rfl⟩

/-- After the acknowledgement the contact is in its new group. -/
theorem step_of_task (h : task toLower d m = some t) :
    step toLower d m = (appendNew t.newItem (drop t.oldItem d)).2 := by
  have hm := moving_of_task h
  have hold : t.oldItem.isValid = true := isValid_of_contact hm.oldContact
  have hnew : t.newItem.isValid = true := by
    rw [hm.newItem]
    rfl
  have hname : t.newItem.name = t.oldItem.name := by rw [hm.newItem]
  simp only [step, h, SSIModifyTask.updateContactManager, hold, hnew, Bool.and_self, if_true,
    hm.subject, hm.type, updateContact, replace, hname, hm.oldFound]

/-- The contacts of a group after a move. -/
theorem member_step (h : task toLower d m = some t) (gid id : Nat) :
    Member (step toLower d m) gid id ↔
      (∃ c ∈ d.contactList, c.type = ROSTER_CONTACT ∧ c.gid = gid ∧ c.bid = id ∧
        ¬ c.same t.oldItem) ∨ (gid = t.newItem.gid ∧ id = t.oldItem.bid) := by
  have hm := moving_of_task h
  have hbid : t.newItem.bid = t.oldItem.bid := by rw [hm.newItem]
  have htype : t.newItem.type = ROSTER_CONTACT := by rw [hm.newItem]
  rw [step_of_task h, Member, appendNew]
  split
  · next hlisted =>
    obtain ⟨i, hi, hsame⟩ := contains_iff.mp hlisted
    obtain ⟨-, higid, hibid, hitype⟩ := OContact.same_iff.mp hsame
    simp only [drop_contactList, mem_removeAll] at hi ⊢
    constructor
    · rintro ⟨c, ⟨hc, hne⟩, hctype, hcgid, hcbid⟩
      exact Or.inl ⟨c, hc, hctype, hcgid, hcbid, hne⟩
    · rintro (⟨c, hc, hctype, hcgid, hcbid, hne⟩ | ⟨rfl, rfl⟩)
      · exact ⟨c, ⟨hc, hne⟩, hctype, hcgid, hcbid⟩
      · exact ⟨i, hi, hitype.trans htype, higid, hibid.trans hbid⟩
  · simp only [append_contactList, drop_contactList, List.mem_append, mem_removeAll,
      List.mem_singleton]
    constructor
    · rintro ⟨c, ⟨hc, hne⟩ | rfl, hctype, hcgid, hcbid⟩
      · exact Or.inl ⟨c, hc, hctype, hcgid, hcbid, hne⟩
      · exact Or.inr ⟨hcgid.symm, hcbid.symm.trans hbid⟩
    · rintro (⟨c, hc, hctype, hcgid, hcbid, hne⟩ | ⟨rfl, rfl⟩)
      · exact ⟨c, Or.inl ⟨hc, hne⟩, hctype, hcgid, hcbid⟩
      · exact ⟨t.newItem, Or.inr rfl, htype, rfl, hbid⟩

/-- A group other than the two keeps its contacts, and these two all but the
moved one. -/
theorem member_step_of_ne (h : task toLower d m = some t) {id : Nat} (hid : id ≠ t.oldItem.bid)
    (gid : Nat) : Member (step toLower d m) gid id ↔ Member d gid id := by
  rw [member_step h, Member]
  constructor
  · rintro (⟨c, hc, hctype, hcgid, hcbid, -⟩ | ⟨-, rfl⟩)
    · exact ⟨c, hc, hctype, hcgid, hcbid⟩
    · exact absurd rfl hid
  · rintro ⟨c, hc, hctype, hcgid, hcbid⟩
    refine Or.inl ⟨c, hc, hctype, hcgid, hcbid, fun hsame => hid ?_⟩
    exact hcbid.symm.trans (OContact.same_iff.mp hsame).2.2.1

/-- The old group keeps the moved id only if another of its contacts has it. -/
theorem member_step_old (h : task toLower d m = some t) :
    ¬ Member (step toLower d m) t.oldItem.gid t.oldItem.bid ↔
      ∀ c ∈ d.contactList, c.type = ROSTER_CONTACT → c.gid = t.oldItem.gid →
        c.bid = t.oldItem.bid → c.same t.oldItem := by
  have hm := moving_of_task h
  have hgid : t.oldItem.gid ≠ t.newItem.gid := by
    rw [hm.newItem]
    exact hm.other
  rw [member_step h]
  constructor
  · intro hnone c hc hctype hcgid hcbid
    by_contra hne
    exact hnone (Or.inl ⟨c, hc, hctype, hcgid, hcbid, hne⟩)
  · rintro hall (⟨c, hc, hctype, hcgid, hcbid, hne⟩ | ⟨heq, -⟩)
    · exact hne (hall c hc hctype hcgid hcbid)
    · exact hgid heq

theorem member_step_new (h : task toLower d m = some t) :
    Member (step toLower d m) t.newItem.gid t.oldItem.bid :=
  (member_step h _ _).mpr (Or.inr ⟨rfl, rfl⟩)

/-! ## What a move sends -/

variable {g : OContact} {tlv : TLV}

theorem find_of_only (h : memberLists g = [tlv]) : findTLV g.tlvList 0x00C8 = tlv := by
  have hhead : g.tlvList.find? (fun t => t.type == 0x00C8) = some tlv := by
    rw [← List.head?_filter]
    exact congrArg List.head? h
  rw [findTLV, hhead]
  rfl

theorem type_of_only (h : memberLists g = [tlv]) : tlv.type = 0x00C8 := by
  have hmem : tlv ∈ memberLists g := by
    rw [h]
    exact List.mem_singleton_self tlv
  simpa using (List.mem_filter.mp hmem).2

theorem OneList.find (h : OneList g tlv) : findTLV g.tlvList 0x00C8 = tlv := find_of_only h.only

theorem OneList.type (h : OneList g tlv) : tlv.type = 0x00C8 := type_of_only h.only

theorem OneList.data (h : OneList g tlv) : tlv.data.length % 2 = 0 := h.length ▸ h.even

/-- Taking a member list off removes the group's own if the lengths agree. -/
theorem memberLists_remove (h : memberLists g = [tlv]) {oldIds : TLV} (hold : oldIds.type = 0x00C8)
    (list : TLV) (hlist : list.type = 0x00C8) :
    memberLists { g with tlvList := removeTLV oldIds g.tlvList ++ [list] } =
      (if tlv.length = oldIds.length then [] else [tlv]) ++ [list] := by
  have hrest : (removeTLV oldIds g.tlvList).filter (fun t => t.type == 0x00C8) =
      removeTLV oldIds (memberLists g) := by
    simp only [removeTLV, memberLists, List.filter_filter, Bool.and_comm]
  rw [memberLists, List.filter_append, hrest, h]
  simp only [removeTLV, TLV.same, List.filter_cons, List.filter_nil, type_of_only h, hold, hlist]
  by_cases hlen : tlv.length = oldIds.length <;> simp [hlen]

/-- The list of the old group, with the moved id taken off. -/
theorem sends_withoutId_iff (h : OneList g tlv) (d' : ContactManagerPrivate) (gid bid : Nat) :
    Sends d' gid (SSIModifyTask.withoutId bid g) ↔
      ∀ id, (id ∈ words tlv.data ∧ id ≠ bid) ↔ Member d' gid id := by
  set sent := (words tlv.data).filter (· ≠ bid) with hsent
  have hshort : (sent.flatMap wordBytes).length < 2 ^ 16 := by
    have hle : sent.length ≤ (words tlv.data).length := List.length_filter_le _ _
    have hlen := words_length tlv.data h.data
    have hword := h.word
    rw [h.length] at hword
    rw [flatMap_wordBytes_length]
    omega
  have hids : ids ⟨0x00C8, (sent.flatMap wordBytes).length % 2 ^ 16, sent.flatMap wordBytes⟩ =
      sent := by
    rw [ids]
    simp only [Nat.mod_eq_of_lt hshort, List.take_length]
    exact words_flatMap fun w hw => words_lt _ w (List.mem_of_mem_filter hw)
  have hlists : memberLists (SSIModifyTask.withoutId bid g) =
      [⟨0x00C8, (sent.flatMap wordBytes).length % 2 ^ 16, sent.flatMap wordBytes⟩] := by
    simp only [SSIModifyTask.withoutId, h.find, h.type, if_true]
    rw [memberLists_remove h.only h.type _ rfl, if_pos rfl, List.nil_append]
  rw [Sends, hlists]
  constructor
  · rintro ⟨t, ht, hmem⟩ id
    rw [← hmem, ← List.singleton_inj.mp ht, hids, hsent, List.mem_filter, decide_eq_true_eq]
  · intro hall
    refine ⟨_, rfl, fun id => ?_⟩
    rw [hids, hsent, List.mem_filter, decide_eq_true_eq, hall]

/-- The list of the new group, with the moved id added. -/
theorem sends_withId_iff (h : OneList g tlv) {oldIds : TLV} (hold : oldIds.type = 0x00C8)
    {d' : ContactManagerPrivate} {gid bid : Nat} (hbid : bid < 2 ^ 16)
    (hmember : Member d' gid bid) :
    Sends d' gid (SSIModifyTask.withId bid oldIds g) ↔
      tlv.length = oldIds.length ∧ tlv.length + 2 < 2 ^ 16 ∧
        ∀ id, (id ∈ words tlv.data ∨ id = bid) ↔ Member d' gid id := by
  have hword := h.word
  have heven := h.even
  have hlen := h.length
  have hsize : (tlv.data ++ wordBytes bid).length = tlv.length + 2 := by
    rw [List.length_append, ← hlen]
    rfl
  have hlists : memberLists (SSIModifyTask.withId bid oldIds g) =
      (if tlv.length = oldIds.length then [] else [tlv]) ++
        [⟨0x00C8, (tlv.length + 2) % 2 ^ 16, tlv.data ++ wordBytes bid⟩] := by
    simp only [SSIModifyTask.withId, h.find, h.type, if_true, hsize]
    exact memberLists_remove h.only hold _ rfl
  rw [Sends, hlists]
  by_cases hsame : tlv.length = oldIds.length
  · rw [if_pos hsame, List.nil_append]
    by_cases hroom : tlv.length + 2 < 2 ^ 16
    · have hids : ids ⟨0x00C8, (tlv.length + 2) % 2 ^ 16, tlv.data ++ wordBytes bid⟩ =
          words tlv.data ++ [bid] := by
        rw [ids]
        simp only [Nat.mod_eq_of_lt hroom]
        rw [← hsize, List.take_length, words_append _ _ h.data, words_wordBytes hbid]
      constructor
      · rintro ⟨t, ht, hmem⟩
        refine ⟨hsame, hroom, fun id => ?_⟩
        rw [← hmem, ← List.singleton_inj.mp ht, hids, List.mem_append, List.mem_singleton]
      · rintro ⟨-, -, hall⟩
        refine ⟨_, rfl, fun id => ?_⟩
        rw [hids, List.mem_append, List.mem_singleton, hall]
    · -- one id too many: the length wraps to 0 and the list is empty
      refine iff_of_false ?_ fun hh => hroom hh.2.1
      rintro ⟨t, ht, hmem⟩
      have hwrap : (tlv.length + 2) % 2 ^ 16 = 0 := by omega
      have hin := (hmem bid).mpr hmember
      rw [← List.singleton_inj.mp ht, ids, hwrap] at hin
      simp [words] at hin
  · refine iff_of_false ?_ fun hh => hsame hh.1
    rw [if_neg hsame]
    rintro ⟨t, ht, -⟩
    simp at ht

theorem findGroupOfId_spec {gid : Nat}
    (h : ∃ g ∈ d.contactList, g.type = ROSTER_GROUP ∧ g.gid = gid) :
    findGroupOfId gid d ∈ d.contactList ∧ (findGroupOfId gid d).type = ROSTER_GROUP := by
  rcases findFirst_cases (fun i => i.type == ROSTER_GROUP && i.gid == gid) d with
    ⟨hmem, hp⟩ | ⟨-, hnone⟩
  · simp only [Bool.and_eq_true, beq_iff_eq] at hp
    exact ⟨hmem, hp.1⟩
  · obtain ⟨g, hg, htype, hgid⟩ := h
    exact absurd (by simp [htype, hgid]) (hnone g hg)

/-- **One move.** The lists it sends are those of the contacts after it exactly
when the cached ones are of one length and agree with the contacts, the moved
one apart. -/
theorem sendsMembers_iff (m : MoveTo) (h : Prepared d) :
    SendsMembers toLower d m ↔ StepOk toLower d m := by
  refine forall₂_congr fun t htask => ?_
  have hm := moving_of_task htask
  obtain ⟨hold, holdType⟩ := findGroupOfId_spec (h.contacts _ hm.oldListed hm.oldContact)
  obtain ⟨tOld, hOld⟩ := h.groups _ hold holdType
  obtain ⟨tNew, hNew⟩ := h.groups _ hm.groupListed hm.group
  have hbid : t.newItem.bid = t.oldItem.bid := by rw [hm.newItem]
  have hmember := member_step_new htask
  have hOldSends := sends_withoutId_iff hOld (step toLower d m) t.oldItem.gid t.oldItem.bid
  have hNewSends := sends_withId_iff hNew hOld.type (h.ids _ hm.oldListed) hmember
  simp only [SSIModifyTask.changeGroupOnServer, hOldSends, hbid, hOld.find, hNewSends, hNew.find]
  -- what the two lists have to agree with, for the moved id and for the others
  have hOldAgrees : (∀ id, (id ∈ words tOld.data ∧ id ≠ t.oldItem.bid) ↔
      Member (step toLower d m) t.oldItem.gid id) ↔
      Agrees d t.oldItem.gid t.oldItem.bid tOld ∧
        ¬ Member (step toLower d m) t.oldItem.gid t.oldItem.bid := by
    constructor
    · intro hall
      refine ⟨fun id hid => ?_, fun hin => ((hall _).mpr hin).2 rfl⟩
      rw [← member_step_of_ne htask hid, ← hall]
      exact ⟨fun hin => ⟨hin, hid⟩, fun hin => hin.1⟩
    · rintro ⟨hagrees, hnone⟩ id
      by_cases hid : id = t.oldItem.bid
      · subst hid
        exact iff_of_false (fun hin => hin.2 rfl) hnone
      · rw [member_step_of_ne htask hid, ← hagrees id hid]
        exact ⟨fun hin => hin.1, fun hin => ⟨hin, hid⟩⟩
  have hNewAgrees : (∀ id, (id ∈ words tNew.data ∨ id = t.oldItem.bid) ↔
      Member (step toLower d m) t.newItem.gid id) ↔
      Agrees d t.newItem.gid t.oldItem.bid tNew := by
    constructor
    · intro hall id hid
      rw [← member_step_of_ne htask hid, ← hall, or_iff_left hid]
    · intro hagrees id
      by_cases hid : id = t.oldItem.bid
      · subst hid
        exact iff_of_true (Or.inr rfl) hmember
      · rw [member_step_of_ne htask hid, ← hagrees id hid, or_iff_left hid]
  rw [hOldAgrees, hNewAgrees, member_step_old htask, eq_comm (a := tNew.length)]
  tauto

/-- A move leaves the group items as they are, and puts the contact into one of
them. -/
theorem prepared_step (m : MoveTo) (h : Prepared d) : Prepared (step toLower d m) := by
  cases htask : task toLower d m with
  | none =>
    simp only [step, htask]
    exact h
  | some t =>
    have hm := moving_of_task htask
    have hgroup : ∀ g, g.type = ROSTER_GROUP →
        (g ∈ (step toLower d m).contactList ↔ g ∈ d.contactList) := by
      intro g hg
      have hne : ¬ g.same t.oldItem := by
        intro hsame
        have htype := (OContact.same_iff.mp hsame).2.2.2
        rw [hg, hm.oldContact] at htype
        exact absurd htype (by decide)
      have hnew : g ≠ t.newItem := by
        rintro rfl
        rw [hm.newItem] at hg
        exact absurd (show ROSTER_CONTACT = ROSTER_GROUP from hg) (by decide)
      rw [step_of_task htask, appendNew]
      split <;> simp [mem_removeAll, hne, hnew]
    have hmem : ∀ c ∈ (step toLower d m).contactList, c ∈ d.contactList ∨ c = t.newItem := by
      intro c hc
      rw [step_of_task htask, appendNew] at hc
      split at hc
      · rw [drop_contactList, mem_removeAll] at hc
        exact Or.inl hc.1
      · rw [append_contactList, drop_contactList, List.mem_append, mem_removeAll,
          List.mem_singleton] at hc
        exact hc.imp_left fun hin => hin.1
    refine ⟨fun g hg htype => h.groups g ((hgroup g htype).mp hg) htype, fun c hc htype => ?_,
      fun c hc => ?_⟩
    · have hlisted : ∃ g ∈ d.contactList, g.type = ROSTER_GROUP ∧ g.gid = c.gid := by
        rcases hmem c hc with hin | rfl
        · exact h.contacts c hin htype
        · exact ⟨t.groupItem, hm.groupListed, hm.group, by rw [hm.newItem]⟩
      obtain ⟨g, hg, hgtype, hgid⟩ := hlisted
      exact ⟨g, (hgroup g hgtype).mpr hg, hgtype, hgid⟩
    · rcases hmem c hc with hin | rfl
      · exact h.ids c hin
      · rw [hm.newItem]
        exact h.ids t.oldItem hm.oldListed

/-! ## Runs -/

/--
**Moves one after the other.** From a list whose groups have one member list
each, every move of a run of acknowledged moves sends the member lists of the
contacts after it, if and only if at every move the two cached lists are of one
length (with room for one id) and agree with the contacts of their groups, the
moved one apart, and no other contact of the old group has its id.
-/
theorem moves_iff (toLower : String → String) (d : ContactManagerPrivate) (moves : List MoveTo)
    (h : Prepared d) :
    Run.StepsMeet (step toLower) (SendsMembers toLower) d moves ↔
      Run.StepsMeet (step toLower) (StepOk toLower) d moves := by
  have hExact : ∀ d m, Prepared d → True → (SendsMembers toLower d m ↔ StepOk toLower d m) :=
    fun _ m hd _ => sendsMembers_iff m hd
  have hKeep : ∀ d m, Prepared d → True → StepOk toLower d m → Prepared (step toLower d m) :=
    fun _ m hd _ _ => prepared_step m hd
  exact Run.stepsMeet_iff hExact hKeep h (Run.stepsMeet_of_forall (fun _ _ => trivial) d moves)

/-- Two groups of two contacts each. -/
def twoGroups : ContactManagerPrivate :=
  { init with
    contactList := [⟨"a", 1, 0, ROSTER_GROUP, [⟨0x00C8, 4, [0, 1, 0, 2]⟩]⟩,
      ⟨"b", 2, 0, ROSTER_GROUP, [⟨0x00C8, 4, [0, 3, 0, 4]⟩]⟩,
      ⟨"p", 1, 1, ROSTER_CONTACT, []⟩, ⟨"q", 1, 2, ROSTER_CONTACT, []⟩,
      ⟨"r", 2, 3, ROSTER_CONTACT, []⟩, ⟨"s", 2, 4, ROSTER_CONTACT, []⟩] }

theorem prepared_twoGroups : Prepared twoGroups := by
  refine ⟨fun g hg htype => ?_, by decide, by decide⟩
  simp only [twoGroups, List.mem_cons, List.not_mem_nil, or_false] at hg
  rcases hg with rfl | rfl | rfl | rfl | rfl | rfl
  · exact ⟨_, rfl, rfl, rfl, by decide⟩
  · exact ⟨_, rfl, rfl, rfl, by decide⟩
  all_goals exact absurd htype (by decide)

theorem listsMembers_twoGroups : ListsMembers twoGroups := by
  have hmember : ∀ gid id, Member twoGroups gid id ↔
      gid = 1 ∧ (id = 1 ∨ id = 2) ∨ gid = 2 ∧ (id = 3 ∨ id = 4) := by
    intro gid id
    simp [Member, twoGroups, ROSTER_CONTACT, ROSTER_GROUP]
    omega
  intro g hg htype
  simp only [twoGroups, List.mem_cons, List.not_mem_nil, or_false] at hg
  rcases hg with rfl | rfl | rfl | rfl | rfl | rfl
  · refine ⟨_, rfl, fun id => ?_⟩
    rw [hmember]
    simp [ids, words]
  · refine ⟨_, rfl, fun id => ?_⟩
    rw [hmember]
    simp [ids, words]
  all_goals exact absurd htype (by decide)

theorem moves_iff_once :
    Run.StepsMeet (step id) (SendsMembers id) twoGroups [⟨"p", "b"⟩] ↔
      Run.StepsMeet (step id) (StepOk id) twoGroups [⟨"p", "b"⟩] :=
  moves_iff id twoGroups _ prepared_twoGroups

/-- The second of two moves between the same groups sends the first contact back
into its old group. -/
theorem second_move_undoes_first :
    ¬ ∀ (toLower : String → String) (d : ContactManagerPrivate) (moves : List MoveTo),
      Prepared d → ListsMembers d → Run.StepsMeet (step toLower) (SendsMembers toLower) d moves := by
  intro h
  have hsecond := (h id twoGroups [⟨"p", "b"⟩, ⟨"q", "b"⟩] prepared_twoGroups
    listsMembers_twoGroups).2.1
  obtain ⟨⟨tlv, hlist, hids⟩, -⟩ := hsecond _ rfl
  have htlv : tlv = ⟨0x00C8, 2, [0, 1]⟩ := (List.singleton_inj.mp hlist).symm
  have hmember := (hids 1).mp (by rw [htlv]; decide)
  revert hmember
  unfold Member
  decide

end Oscar.ContactMoves
