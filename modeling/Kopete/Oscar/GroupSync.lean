import Kopete.Lib.Run
import Kopete.Oscar.SSIModifyTask

/-!
# Oscar — the local groups against the server's

The server's list and the local one change together: a task sends a change, the
server makes it and acknowledges it, and the local list follows; or the server
changes its list itself and pushes the item. The server identifies an item by
its type, group id and item id. The local list looks groups up by name, so when
a name changes the old group is not found and stays.

Main results:

* `InSync` — every local group is the server's group of that id, and no two
  local groups have one name;
* `keepsGroups_iff` — a step leaves the group ids distinct exactly when it
  changes no group's name beyond upper and lower case, and then keeps `InSync`;
* `groupIds_iff` — the same for whole runs.
-/

namespace Oscar

open ContactManager

/-- `groupList`, of any list of items. -/
def groupList (l : List OContact) : List OContact := l.filter fun i => i.type == ROSTER_GROUP

namespace GroupSync

/-- The server's list and the local one. -/
structure Roster where
  server : List OContact
  manager : ContactManagerPrivate

/-- The groups of the local list. -/
def Roster.groups (r : Roster) : List OContact := groupList r.manager.contactList

/-! ## The server -/

/-- The identity of an item on the server. -/
def sameId (i j : OContact) : Bool := i.type == j.type && i.gid == j.gid && i.bid == j.bid

/-- A changed item takes the place of the one with its identity. -/
def serverModify (item : OContact) (l : List OContact) : List OContact :=
  l.map fun i => if sameId i item then item else i

def serverRemove (item : OContact) (l : List OContact) : List OContact :=
  l.filter fun i => !sameId i item

/-- What the packets of `sendContactUpdate` do to the server's list. -/
def perform (t : SSIModifyTask) (d : ContactManagerPrivate) (l : List OContact) : List OContact :=
  match t.opType with
  | .Add => l ++ [t.newItem]
  | .Remove => serverRemove t.oldItem l
  | .Rename => serverModify t.newItem l
  | .Change =>
    let move := t.changeGroupOnServer d
    serverModify move.newGroup
      (serverModify move.oldGroup (serverRemove move.removed l ++ [move.added]))
  | .NoType => l

/-! ## Runs -/

/-- The tasks, acknowledged with code 0, and the items the server pushes. -/
inductive Op
  | addGroup (groupName : String)
  | removeGroup (groupName : String)
  | renameGroup (oldName newName : String)
  | addContact (contact group : String) (requiresAuth : Bool)
  | removeContact (contact : String)
  | changeGroup (contact newGroup : String)
  | pushAdd (item : OContact)
  | pushUpdate (item : OContact)
  | pushRemove (item : OContact)

/-- A task that was set up is sent, performed and acknowledged. -/
def acknowledged (toLower : String → String) (server : List OContact) :
    Option SSIModifyTask × ContactManagerPrivate → Roster
  | (none, d) => ⟨server, d⟩
  | (some t, d) => ⟨perform t d server, t.updateContactManager toLower d⟩

/-- The lists after an operation. -/
def step (toLower : String → String) (r : Roster) : Op → Roster
  | .addGroup groupName =>
    acknowledged toLower r.server (SSIModifyTask.init.addGroup groupName r.manager)
  | .removeGroup groupName =>
    acknowledged toLower r.server (SSIModifyTask.init.removeGroup toLower groupName r.manager)
  | .renameGroup oldName newName =>
    acknowledged toLower r.server (SSIModifyTask.init.renameGroup toLower oldName newName r.manager)
  | .addContact contact group requiresAuth =>
    acknowledged toLower r.server
      (SSIModifyTask.init.addContact toLower contact group requiresAuth r.manager)
  | .removeContact contact =>
    acknowledged toLower r.server (SSIModifyTask.init.removeContact toLower contact r.manager)
  | .changeGroup contact newGroup =>
    acknowledged toLower r.server (SSIModifyTask.init.changeGroup toLower contact newGroup r.manager)
  | .pushAdd item =>
    ⟨r.server ++ [item], SSIModifyTask.handleContactAdd toLower item r.manager⟩
  | .pushUpdate item =>
    ⟨serverModify item r.server, SSIModifyTask.handleContactUpdate toLower item r.manager⟩
  | .pushRemove item =>
    ⟨serverRemove item r.server, SSIModifyTask.handleContactRemove item r.manager⟩

/-- The lists once the server's list has been received. -/
def load (toLower : String → String) (server : List OContact) : Roster :=
  ⟨server, server.foldl (fun d item => SSIModifyTask.handleContactAdd toLower item d) init⟩

/-- No two groups of a list share a group id. -/
def DistinctGids (l : List OContact) : Prop := (groupList l).Pairwise fun i j => i.gid ≠ j.gid

/-- The server keeps its group ids distinct, changes only items it has, and
pushes the removal of an item as it stands in its list. -/
def Conforms (toLower : String → String) (r : Roster) (op : Op) : Prop :=
  DistinctGids (step toLower r op).server ∧
  match op with
  | .renameGroup oldName newName => oldName ≠ newName →
    ∃ i ∈ r.server, i.type = ROSTER_GROUP ∧ i.gid = (findGroup toLower oldName r.manager).gid ∧
      i.bid = (findGroup toLower oldName r.manager).bid
  | .pushUpdate item => ∃ i ∈ r.server, sameId i item
  | .pushRemove item => ∃ i ∈ r.server, i.same item
  | _ => True

/-- After an acknowledged rename the group with that id has the new name. -/
def Renamed (toLower : String → String) (r : Roster) (oldName newName : String) : Prop :=
  let old := findGroup toLower oldName r.manager
  let groups := (step toLower r (.renameGroup oldName newName)).groups
  (∀ g ∈ groups, g.gid = old.gid → g.name = newName) ∧
    (old.isValid → ∃ g ∈ groups, g.gid = old.gid)

/-- What is asked of a step: no two local groups share a group id after it, and
a rename is found under the new name only. -/
def KeepsGroups (toLower : String → String) (r : Roster) (op : Op) : Prop :=
  DistinctGids (step toLower r op).manager.contactList ∧
  match op with
  | .renameGroup oldName newName => oldName ≠ newName → Renamed toLower r oldName newName
  | _ => True

/-- The step changes no group's name beyond upper and lower case. -/
def StepOk (toLower : String → String) (r : Roster) : Op → Prop
  | .renameGroup oldName newName => oldName ≠ newName →
    let old := findGroup toLower oldName r.manager
    if old.isValid then toLower oldName = toLower newName
    else ∀ g ∈ r.groups, g.gid = old.gid → g.name = newName
  | .pushUpdate item => item.type = ROSTER_GROUP →
    ∀ g ∈ r.groups, g.gid = item.gid → toLower g.name = toLower item.name
  | _ => True

/-! ## Two lists of groups -/

/-- The groups `G` of the local list against the groups `S` of the server's. -/
structure Groups (toLower : String → String) (S G : List OContact) : Prop where
  gids : S.Pairwise fun i j => i.gid ≠ j.gid
  listed : ∀ g ∈ G, ∃ i ∈ S, i.same g
  names : G.Pairwise fun i j => toLower i.name ≠ toLower j.name

/-- Members of a list with pairwise distinct values that share one are equal. -/
theorem eq_of_pairwise_ne {α β : Type*} {f : α → β} {l : List α}
    (h : l.Pairwise fun i j => f i ≠ f j) {a b : α} (ha : a ∈ l) (hb : b ∈ l) (hab : f a = f b) :
    a = b := by
  by_contra hne
  have hsymm : Std.Symm fun i j : α => f i ≠ f j := ⟨fun _ _ hij => hij.symm⟩
  exact h.forall ha hb hne hab

namespace Groups

variable {toLower : String → String} {S G : List OContact} {x : OContact}

/-- The group ids of the local list are distinct, as the server's are. -/
theorem distinct (h : Groups toLower S G) : G.Pairwise fun i j => i.gid ≠ j.gid := by
  refine h.names.imp_of_mem fun {a b} ha hb hne heq => hne ?_
  obtain ⟨i, hi, hia⟩ := h.listed a ha
  obtain ⟨j, hj, hjb⟩ := h.listed b hb
  obtain ⟨hnameA, hgidA, -⟩ := OContact.same_iff.mp hia
  obtain ⟨hnameB, hgidB, -⟩ := OContact.same_iff.mp hjb
  have hij : i = j := eq_of_pairwise_ne h.gids hi hj (by rw [hgidA, hgidB, heq])
  rw [← hnameA, ← hnameB, hij]

/-- A new group the local list refuses. -/
theorem appendServer (h : Groups toLower S G)
    (hgids : (S ++ [x]).Pairwise fun i j => i.gid ≠ j.gid) : Groups toLower (S ++ [x]) G := by
  refine ⟨hgids, fun g hg => ?_, h.names⟩
  obtain ⟨i, hi, hsame⟩ := h.listed g hg
  exact ⟨i, List.mem_append_left _ hi, hsame⟩

/-- A new group. -/
theorem append (h : Groups toLower S G)
    (hgids : (S ++ [x]).Pairwise fun i j => i.gid ≠ j.gid)
    (hname : ∀ g ∈ G, toLower g.name ≠ toLower x.name) :
    Groups toLower (S ++ [x]) (G ++ [x]) := by
  refine ⟨hgids, fun g hg => ?_, ?_⟩
  · rcases List.mem_append.mp hg with hg | hg
    · exact (h.appendServer hgids).listed g hg
    · exact ⟨x, List.mem_append_right _ (List.mem_singleton_self x),
        List.mem_singleton.mp hg ▸ OContact.same_refl x⟩
  · rw [List.pairwise_append]
    refine ⟨h.names, List.pairwise_singleton _ _, fun g hg y hy => ?_⟩
    rw [List.mem_singleton.mp hy]
    exact hname g hg

/-- A group the server has is removed from both. -/
theorem remove (h : Groups toLower S G) (hx : ∃ i ∈ S, i.same x) :
    Groups toLower (serverRemove x S) (G.filter fun g => !g.same x) := by
  refine ⟨h.gids.filter _, fun g hg => ?_, h.names.filter _⟩
  obtain ⟨hmem, hne⟩ := List.mem_filter.mp hg
  obtain ⟨i, hi, hsame⟩ := h.listed g hmem
  refine ⟨i, List.mem_filter.mpr ⟨hi, ?_⟩, hsame⟩
  -- the server's item of that id is the removed one, and `g` is not
  obtain ⟨z, hz, hzx⟩ := hx
  by_contra hid
  simp only [sameId, Bool.not_eq_true', Bool.not_eq_false, Bool.and_eq_true, beq_iff_eq] at hid
  have hzi : z = i := eq_of_pairwise_ne h.gids hz hi
    ((OContact.same_iff.mp hzx).2.1.trans hid.1.2.symm)
  rw [OContact.same_iff] at hzx hsame
  have hgx : g.same x := OContact.same_iff.mpr
    ⟨hsame.1.symm.trans (hzi ▸ hzx.1), hsame.2.1.symm.trans (hzi ▸ hzx.2.1),
      hsame.2.2.1.symm.trans (hzi ▸ hzx.2.2.1), hsame.2.2.2.symm.trans (hzi ▸ hzx.2.2.2)⟩
  simp [hgx] at hne

theorem mem_serverModify {i : OContact} {l : List OContact} :
    i ∈ serverModify x l ↔ ∃ j ∈ l, (if sameId j x then x else j) = i := List.mem_map

/-- What is not the changed item's id stays. -/
theorem mem_serverModify_of_gid {i : OContact} {l : List OContact} (hi : i ∈ l)
    (hgid : i.gid ≠ x.gid) : i ∈ serverModify x l :=
  mem_serverModify.mpr ⟨i, hi, if_neg fun hid => hgid (by
    simp only [sameId, Bool.and_eq_true, beq_iff_eq] at hid
    exact hid.1.2)⟩

theorem gids_serverModify (hgids : S.Pairwise fun i j => i.gid ≠ j.gid) :
    (serverModify x S).Pairwise fun i j => i.gid ≠ j.gid := by
  rw [serverModify, List.pairwise_map]
  refine hgids.imp fun {a b} hne => ?_
  have hgid : ∀ i : OContact, (if sameId i x then x else i).gid = i.gid := by
    intro i
    split
    · next hid =>
      simp only [sameId, Bool.and_eq_true, beq_iff_eq] at hid
      exact hid.1.2.symm
    · rfl
  rwa [hgid, hgid]

/-- A change that leaves the names of the local groups alone. -/
theorem modify_same (h : Groups toLower S G) (hx : ∀ g ∈ G, sameId g x → g.name = x.name) :
    Groups toLower (serverModify x S) G := by
  refine ⟨gids_serverModify h.gids, fun g hg => ?_, h.names⟩
  obtain ⟨i, hi, hsame⟩ := h.listed g hg
  refine ⟨_, mem_serverModify.mpr ⟨i, hi, rfl⟩, ?_⟩
  split
  · next hid =>
    obtain ⟨hname, hgid, hbid, htype⟩ := OContact.same_iff.mp hsame
    have hgx : sameId g x := by rwa [sameId, ← htype, ← hgid, ← hbid]
    have hgname := hx g hg hgx
    simp only [sameId, Bool.and_eq_true, beq_iff_eq] at hgx
    exact OContact.same_iff.mpr ⟨hgname.symm, hgx.1.2.symm, hgx.2.symm, hgx.1.1.symm⟩
  · exact hsame

/-- A changed group takes the place of the local group of its name. Where that
is the one of its id, the lists stay together. -/
theorem update (h : Groups toLower S G) (hx : ∃ i ∈ S, sameId i x)
    (hname : ∀ g ∈ G, g.gid = x.gid → toLower g.name = toLower x.name) :
    Groups toLower (serverModify x S)
      (G.filter (fun g => toLower g.name ≠ toLower x.name) ++ [x]) := by
  refine ⟨gids_serverModify h.gids, fun g hg => ?_, ?_⟩
  · rcases List.mem_append.mp hg with hg | hg
    · obtain ⟨hmem, hne⟩ := List.mem_filter.mp hg
      obtain ⟨i, hi, hsame⟩ := h.listed g hmem
      have hgid : i.gid ≠ x.gid := fun heq => of_decide_eq_true hne
        (hname g hmem ((OContact.same_iff.mp hsame).2.1.symm.trans heq))
      exact ⟨i, mem_serverModify_of_gid hi hgid, hsame⟩
    · obtain ⟨i, hi, hid⟩ := hx
      exact ⟨x, mem_serverModify.mpr ⟨i, hi, if_pos hid⟩,
        List.mem_singleton.mp hg ▸ OContact.same_refl x⟩
  · rw [List.pairwise_append]
    refine ⟨h.names.filter _, List.pairwise_singleton _ _, fun g hg y hy => ?_⟩
    rw [List.mem_singleton.mp hy]
    exact of_decide_eq_true (List.mem_filter.mp hg).2

end Groups

/-! ## What the operations do to the local groups -/

theorem contact_ne_group : ROSTER_CONTACT ≠ ROSTER_GROUP := by decide

theorem mem_groupList {i : OContact} {l : List OContact} :
    i ∈ groupList l ↔ i ∈ l ∧ i.type = ROSTER_GROUP := by
  simp [groupList]

theorem groupList_append (l : List OContact) (x : OContact) :
    groupList (l ++ [x]) = groupList l ++ if x.type = ROSTER_GROUP then [x] else [] := by
  rw [groupList, List.filter_append]
  split <;> simp_all [groupList]

theorem groupList_removeAll (l : List OContact) (x : OContact) :
    groupList (removeAll x l) = (groupList l).filter fun g => !g.same x := by
  simp only [groupList, removeAll, List.filter_filter, Bool.and_comm]

/-- Items equal to an item that is no group are no groups. -/
theorem groupList_removeAll_of_ne {l : List OContact} {x : OContact}
    (hx : x.type ≠ ROSTER_GROUP) : groupList (removeAll x l) = groupList l := by
  rw [groupList_removeAll, List.filter_eq_self]
  intro g hg
  by_contra hsame
  simp only [Bool.not_eq_true', Bool.not_eq_false] at hsame
  exact hx ((OContact.same_iff.mp hsame).2.2.2 ▸ (mem_groupList.mp hg).2)

variable {toLower : String → String} {d : ContactManagerPrivate} {x oldItem : OContact}

theorem groupList_appendNew (hx : x.type ≠ ROSTER_GROUP) :
    groupList (appendNew x d).2.contactList = groupList d.contactList := by
  unfold appendNew
  split
  · rfl
  · rw [append_contactList, groupList_append, if_neg hx, List.append_nil]

theorem groupList_drop (hx : x.type ≠ ROSTER_GROUP) :
    groupList (drop x d).contactList = groupList d.contactList := by
  rw [drop_contactList, groupList_removeAll_of_ne hx]

theorem groupList_replace (hold : oldItem.type ≠ ROSTER_GROUP) (hx : x.type ≠ ROSTER_GROUP) :
    groupList (replace oldItem x d).2.contactList = groupList d.contactList := by
  rw [replace, groupList_appendNew hx]
  split
  · exact groupList_drop hold
  · rfl

theorem findContact_type (contact : String) (d : ContactManagerPrivate) :
    (findContact contact d).type ≠ ROSTER_GROUP := by
  rcases findFirst_cases (fun i => i.type == ROSTER_CONTACT && i.name == contact) d with
    ⟨-, hp⟩ | ⟨hinv, -⟩
  · simp only [Bool.and_eq_true, beq_iff_eq] at hp
    rw [findContact, hp.1]
    decide
  · rw [findContact, hinv]
    decide

theorem findItem_type (contact : String) {type : Nat} (htype : type ≠ ROSTER_GROUP)
    (d : ContactManagerPrivate) : (findItem contact type d).type ≠ ROSTER_GROUP := by
  rcases findFirst_cases (fun i => i.type == type && i.name == contact) d with
    ⟨-, hp⟩ | ⟨hinv, -⟩
  · simp only [Bool.and_eq_true, beq_iff_eq] at hp
    rwa [findItem, hp.1]
  · rw [findItem, hinv]
    decide

theorem groupList_removeContactNamed (contact : String) (d : ContactManagerPrivate) :
    groupList (removeContactNamed contact d).2.contactList = groupList d.contactList := by
  simp only [removeContactNamed]
  split
  · exact groupList_drop (findContact_type contact d)
  · rfl

/-- A group lookup finds a listed group of that name, up to case, or there is
none. -/
theorem findGroup_cases (toLower : String → String) (group : String)
    (d : ContactManagerPrivate) :
    (findGroup toLower group d ∈ groupList d.contactList ∧
        toLower (findGroup toLower group d).name = toLower group ∧
        (findGroup toLower group d).isValid) ∨
      (findGroup toLower group d = .invalid ∧
        ∀ g ∈ groupList d.contactList, toLower g.name ≠ toLower group) := by
  rcases findFirst_cases
    (fun i => i.type == ROSTER_GROUP && toLower i.name == toLower group) d with
    ⟨hmem, hp⟩ | ⟨hinv, hnone⟩
  · simp only [Bool.and_eq_true, beq_iff_eq] at hp
    exact Or.inl ⟨mem_groupList.mpr ⟨hmem, hp.1⟩, hp.2, isValid_of_group hp.1⟩
  · refine Or.inr ⟨hinv, fun g hg heq => hnone g (mem_groupList.mp hg).1 ?_⟩
    simp only [Bool.and_eq_true, beq_iff_eq]
    exact ⟨(mem_groupList.mp hg).2, heq⟩

theorem groupList_newGroup (toLower : String → String) (d : ContactManagerPrivate)
    (hx : x.type = ROSTER_GROUP) :
    groupList (newGroup toLower x d).2.contactList = groupList d.contactList ∨
      (groupList (newGroup toLower x d).2.contactList = groupList d.contactList ++ [x] ∧
        ∀ g ∈ groupList d.contactList, toLower g.name ≠ toLower x.name) := by
  unfold newGroup
  split
  · exact Or.inl rfl
  · next hnone =>
    split
    · refine Or.inr ⟨by rw [append_contactList, groupList_append, if_pos hx], ?_⟩
      rcases findGroup_cases toLower x.name d with ⟨-, -, hvalid⟩ | ⟨-, hne⟩
      · exact absurd hvalid hnone
      · exact hne
    · exact Or.inl rfl

/-- Among groups with distinct names, dropping the one an update finds leaves
those of other names. -/
theorem groupList_updateGroup (hx : x.type = ROSTER_GROUP)
    (hnames : (groupList d.contactList).Pairwise fun i j => toLower i.name ≠ toLower j.name) :
    groupList (updateGroup toLower x d).2.contactList =
      (groupList d.contactList).filter (fun g => toLower g.name ≠ toLower x.name) ++ [x] := by
  set rest := if (findGroup toLower x.name d).isValid = true then
    drop (findGroup toLower x.name d) d else d with hrest
  have hkept : groupList rest.contactList =
      (groupList d.contactList).filter fun g => toLower g.name ≠ toLower x.name := by
    rcases findGroup_cases toLower x.name d with ⟨hmem, hname, hvalid⟩ | ⟨hinv, hne⟩
    · rw [hrest, if_pos hvalid, drop_contactList, groupList_removeAll]
      refine List.filter_congr fun g hg => ?_
      by_cases heq : toLower g.name = toLower x.name
      · have hfound : g = findGroup toLower x.name d :=
          eq_of_pairwise_ne hnames hg hmem (heq.trans hname.symm)
        rw [← hfound]
        simp [heq, OContact.same_refl]
      · have hne : ¬ g.same (findGroup toLower x.name d) := fun hsame =>
          heq ((congrArg toLower (OContact.same_iff.mp hsame).1).trans hname)
        simp [heq, hne]
    · rw [hrest, hinv, if_neg (by decide), eq_comm, List.filter_eq_self]
      intro g hg
      simpa using hne g hg
  -- nothing of the new group's name is left, so it is not listed
  have hnew : ¬ contains x rest.contactList := by
    rw [contains_iff]
    rintro ⟨i, hi, hsame⟩
    obtain ⟨hname, -, -, htype⟩ := OContact.same_iff.mp hsame
    have hmem : i ∈ groupList rest.contactList := mem_groupList.mpr ⟨hi, htype.trans hx⟩
    rw [hkept] at hmem
    exact of_decide_eq_true (List.mem_filter.mp hmem).2 (congrArg toLower hname)
  rw [updateGroup, replace, ← hrest, appendNew, if_neg hnew, append_contactList,
    groupList_append, if_pos hx, hkept]

/-! ## What they do to the server's -/

theorem groupList_serverRemove (x : OContact) (l : List OContact) :
    groupList (serverRemove x l) = serverRemove x (groupList l) := by
  simp only [groupList, serverRemove, List.filter_filter, Bool.and_comm]

theorem groupList_serverModify (x : OContact) (l : List OContact) :
    groupList (serverModify x l) = serverModify x (groupList l) := by
  simp only [groupList, serverModify, List.filter_map]
  refine congrArg _ (List.filter_congr fun i _ => ?_)
  simp only [Function.comp_apply]
  split
  · next hid =>
    simp only [sameId, Bool.and_eq_true, beq_iff_eq] at hid
    rw [hid.1.1]
  · rfl

theorem not_sameId_of_type {i : OContact} (hi : i.type = ROSTER_GROUP)
    (hx : x.type ≠ ROSTER_GROUP) : ¬ sameId i x := by
  intro hid
  simp only [sameId, Bool.and_eq_true, beq_iff_eq] at hid
  exact hx (hid.1.1 ▸ hi)

theorem serverRemove_groupList {l : List OContact} (hx : x.type ≠ ROSTER_GROUP) :
    serverRemove x (groupList l) = groupList l := by
  rw [serverRemove, List.filter_eq_self]
  intro i hi
  simpa using not_sameId_of_type (mem_groupList.mp hi).2 hx

theorem serverModify_groupList {l : List OContact} (hx : x.type ≠ ROSTER_GROUP) :
    serverModify x (groupList l) = groupList l := by
  rw [serverModify]
  refine (List.map_congr_left fun i hi => ?_).trans (List.map_id' _)
  exact if_neg (not_sameId_of_type (mem_groupList.mp hi).2 hx)

/-! ## One step -/

/-- The local groups are in step with the server's. -/
def InSync (toLower : String → String) (r : Roster) : Prop :=
  Groups toLower (groupList r.server) r.groups

variable {r : Roster}

theorem InSync.of_eq {r' : Roster} (h : InSync toLower r)
    (hserver : groupList r'.server = groupList r.server) (hgroups : r'.groups = r.groups) :
    InSync toLower r' := by
  rwa [InSync, hserver, hgroups]

/-- A new group on the server, offered to the local list. -/
theorem InSync.newGroup (h : InSync toLower r) (hx : x.type = ROSTER_GROUP)
    (hd : groupList d.contactList = r.groups) (hgids : DistinctGids (r.server ++ [x])) :
    InSync toLower ⟨r.server ++ [x], (newGroup toLower x d).2⟩ := by
  have hserver : groupList (r.server ++ [x]) = groupList r.server ++ [x] := by
    rw [groupList_append, if_pos hx]
  rw [DistinctGids, hserver] at hgids
  rw [InSync, Roster.groups, hserver]
  rcases groupList_newGroup toLower d hx with heq | ⟨heq, hne⟩
  · rw [heq, hd]
    exact h.appendServer hgids
  · rw [heq, hd]
    rw [hd] at hne
    exact h.append hgids hne

/-- A group the server has is taken off both lists. -/
theorem InSync.drop (h : InSync toLower r) (hx : x.type = ROSTER_GROUP)
    (hlisted : ∃ i ∈ r.server, i.same x) :
    InSync toLower ⟨serverRemove x r.server, ContactManager.drop x r.manager⟩ := by
  obtain ⟨i, hi, hsame⟩ := hlisted
  have hmem : i ∈ groupList r.server :=
    mem_groupList.mpr ⟨hi, (OContact.same_iff.mp hsame).2.2.2.trans hx⟩
  rw [InSync, Roster.groups, groupList_serverRemove, drop_contactList, groupList_removeAll]
  exact h.remove ⟨i, hmem, hsame⟩

/-- A changed group of the server, with the local group of its id found. -/
theorem InSync.updateGroup (h : InSync toLower r) (hx : x.type = ROSTER_GROUP)
    (hlisted : ∃ i ∈ r.server, sameId i x)
    (hname : ∀ g ∈ r.groups, g.gid = x.gid → toLower g.name = toLower x.name) :
    InSync toLower ⟨serverModify x r.server, (updateGroup toLower x r.manager).2⟩ := by
  obtain ⟨i, hi, hid⟩ := hlisted
  have htype : i.type = ROSTER_GROUP := by
    simp only [sameId, Bool.and_eq_true, beq_iff_eq] at hid
    exact hid.1.1.trans hx
  have hmem : i ∈ groupList r.server := mem_groupList.mpr ⟨hi, htype⟩
  rw [InSync, Roster.groups, groupList_serverModify, groupList_updateGroup hx h.names]
  exact h.update ⟨i, hmem, hid⟩ hname

/-- Changing a group of the local list on the server leaves its name. -/
theorem InSync.modify_same (h : InSync toLower r)
    (hx : x.type = ROSTER_GROUP → ∃ g ∈ r.groups, g.same x) :
    InSync toLower ⟨serverModify x r.server, r.manager⟩ := by
  rw [InSync, Roster.groups, groupList_serverModify]
  by_cases htype : x.type = ROSTER_GROUP
  · obtain ⟨g, hg, hgx⟩ := hx htype
    obtain ⟨hname, hgid, -⟩ := OContact.same_iff.mp hgx
    refine Groups.modify_same h fun g' hg' hid => ?_
    simp only [sameId, Bool.and_eq_true, beq_iff_eq] at hid
    have heq : g' = g := eq_of_pairwise_ne h.distinct hg' hg (hid.1.2.trans hgid.symm)
    rw [heq, hname]
  · rw [serverModify_groupList htype]
    exact h

/-- The rename of a group the local list does not have: the server's item of the
dummy's id gets the name, and the local list is offered the group. -/
theorem InSync.renameMissing (h : InSync toLower r) (hx : x.type = ROSTER_GROUP)
    (hlisted : ∃ i ∈ r.server, sameId i x)
    (hname : ∀ g ∈ r.groups, g.gid = x.gid → g.name = x.name) :
    InSync toLower ⟨serverModify x r.server, (ContactManager.newGroup toLower x r.manager).2⟩ := by
  rcases groupList_newGroup toLower r.manager hx with heq | ⟨heq, hne⟩
  · rw [InSync, Roster.groups, groupList_serverModify, heq]
    refine Groups.modify_same h fun g hg hid => hname g hg ?_
    simp only [sameId, Bool.and_eq_true, beq_iff_eq] at hid
    exact hid.1.2
  · have hupdate := h.updateGroup hx hlisted fun g hg hgid => congrArg toLower (hname g hg hgid)
    refine hupdate.of_eq rfl ?_
    simp only [Roster.groups] at *
    rw [heq, groupList_updateGroup hx h.names]
    refine congrArg (· ++ [x]) (List.filter_eq_self.mpr fun g hg => ?_).symm
    simpa using hne g hg

/-- The two groups a move sends are local groups with another TLV list, or no
groups at all. -/
theorem withoutId_same (bid : Nat) (g : OContact) : g.same (SSIModifyTask.withoutId bid g) := by
  rw [OContact.same_iff, SSIModifyTask.withoutId]
  simp only
  split <;> exact ⟨rfl, rfl, rfl, rfl⟩

theorem withId_same (bid : Nat) (t : TLV) (g : OContact) :
    g.same (SSIModifyTask.withId bid t g) := by
  rw [OContact.same_iff, SSIModifyTask.withId]
  simp only
  split <;> exact ⟨rfl, rfl, rfl, rfl⟩

theorem findGroupOfId_cases (gid : Nat) (d : ContactManagerPrivate) :
    findGroupOfId gid d ∈ groupList d.contactList ∨ findGroupOfId gid d = .invalid := by
  rcases findFirst_cases (fun i => i.type == ROSTER_GROUP && i.gid == gid) d with
    ⟨hmem, hp⟩ | ⟨hinv, -⟩
  · simp only [Bool.and_eq_true, beq_iff_eq] at hp
    exact Or.inl (mem_groupList.mpr ⟨hmem, hp.1⟩)
  · exact Or.inr hinv

/-- A move keeps the groups of both lists. -/
theorem InSync.changeGroup (h : InSync toLower r) (contact newGroup : String) :
    InSync toLower (step toLower r (.changeGroup contact newGroup)) := by
  simp only [step, SSIModifyTask.changeGroup]
  split
  · exact h
  split
  · exact h
  split
  · exact h
  next hold _ hgroup =>
  set oldItem := findContact (normalize toLower contact) r.manager with hdef
  set groupItem := findGroup toLower newGroup r.manager with hdefG
  have hne : oldItem.type ≠ ROSTER_GROUP := findContact_type _ _
  have hgroupMem : groupItem ∈ r.groups := by
    rcases findGroup_cases toLower newGroup r.manager with ⟨hmem, -⟩ | ⟨hinv, -⟩
    · exact hmem
    · rw [hdefG, hinv] at hgroup
      exact absurd rfl hgroup
  have hvalid : oldItem.isValid = true := by simpa using hold
  -- the contact moves on the server
  have hmoved : InSync toLower ⟨serverRemove { oldItem with tlvList := [] } r.server ++
      [⟨oldItem.name, groupItem.gid, oldItem.bid, ROSTER_CONTACT, oldItem.tlvList⟩], r.manager⟩ := by
    refine h.of_eq ?_ rfl
    rw [groupList_append, if_neg contact_ne_group, List.append_nil, groupList_serverRemove]
    exact serverRemove_groupList hne
  -- the two groups get their new lists
  have hgroups := (hmoved.modify_same (x := SSIModifyTask.withoutId oldItem.bid
    (findGroupOfId oldItem.gid r.manager)) ?_).modify_same (x := SSIModifyTask.withId oldItem.bid
      (findTLV (findGroupOfId oldItem.gid r.manager).tlvList 0x00C8) groupItem) ?_
  · -- and the local list takes the contact
    refine hgroups.of_eq rfl ?_
    simp only [acknowledged, Roster.groups, SSIModifyTask.updateContactManager, hvalid]
    exact groupList_replace (findContact_type _ _) contact_ne_group
  · intro htype
    have hsame := withoutId_same oldItem.bid (findGroupOfId oldItem.gid r.manager)
    rcases findGroupOfId_cases oldItem.gid r.manager with hmem | hinv
    · exact ⟨_, hmem, hsame⟩
    · have hinvType := (OContact.same_iff.mp hsame).2.2.2.trans htype
      rw [hinv] at hinvType
      exact absurd hinvType (by decide)
  · exact fun _ => ⟨groupItem, hgroupMem, withId_same _ _ _⟩

/-- A rename, as its task finds the group or not. -/
theorem step_renameGroup {oldName newName : String} (hne : oldName ≠ newName) (r : Roster) :
    step toLower r (.renameGroup oldName newName) =
      let old := findGroup toLower oldName r.manager
      let new : OContact := ⟨newName, old.gid, old.bid, ROSTER_GROUP, old.tlvList⟩
      ⟨serverModify new r.server,
        if old.isValid then (updateGroup toLower new r.manager).2
        else (newGroup toLower new r.manager).2⟩ := by
  simp only [step, SSIModifyTask.renameGroup, if_neg hne, acknowledged]
  refine congrArg (Roster.mk _) ?_
  have hnew : ∀ old : OContact,
      (OContact.mk newName old.gid old.bid ROSTER_GROUP old.tlvList).isValid = true :=
    fun _ => rfl
  simp only [SSIModifyTask.updateContactManager, hnew, Bool.and_true]
  split
  · rfl
  · rfl

/-- An acknowledged removal. -/
theorem updateContactManager_removed {t : SSIModifyTask} (h : t.newItem = .invalid)
    (d : ContactManagerPrivate) :
    t.updateContactManager toLower d =
      if t.oldItem.isValid then
        match t.opSubject with
        | .Group => (removeGroupNamed toLower t.oldItem.name d).2
        | .Contact => (removeContactNamed t.oldItem.name d).2
        | .NoSubject => (removeItem t.oldItem d).2
      else d := by
  have hinv : t.newItem.isValid = false := by
    rw [h]
    rfl
  cases hsubject : t.opSubject <;>
    simp only [SSIModifyTask.updateContactManager, hinv, hsubject, Bool.and_false,
      Bool.false_eq_true, if_false]

/-- A group is removed under its own name. -/
theorem InSync.removeGroup (h : InSync toLower r) (groupName : String) :
    InSync toLower (step toLower r (.removeGroup groupName)) := by
  simp only [step, SSIModifyTask.removeGroup, acknowledged, perform]
  rcases findGroup_cases toLower groupName r.manager with ⟨hmem, -, hvalid⟩ | ⟨hinv, -⟩
  · generalize findGroup toLower groupName r.manager = old at hmem hvalid ⊢
    -- the group is looked up again, under its own name
    have hagain : findGroup toLower old.name r.manager = old := by
      rcases findGroup_cases toLower old.name r.manager with ⟨hmem', hname', -⟩ | ⟨-, hnone⟩
      · exact eq_of_pairwise_ne h.names hmem' hmem hname'
      · exact absurd rfl (hnone old hmem)
    obtain ⟨i, hi, hsame⟩ := h.listed old hmem
    have hdrop := h.drop (mem_groupList.mp hmem).2 ⟨i, (mem_groupList.mp hi).1, hsame⟩
    refine hdrop.of_eq rfl ?_
    simp only [Roster.groups]
    rw [updateContactManager_removed rfl]
    simp only [hvalid, if_true, removeGroupNamed, hagain]
    rfl
  · rw [hinv]
    exact h.of_eq (by rw [groupList_serverRemove, serverRemove_groupList (by decide)]) rfl

theorem InSync.renameGroup {oldName newName : String} (h : InSync toLower r)
    (hconf : Conforms toLower r (.renameGroup oldName newName))
    (hok : StepOk toLower r (.renameGroup oldName newName)) :
    InSync toLower (step toLower r (.renameGroup oldName newName)) := by
  by_cases hne : oldName = newName
  · simp only [step, SSIModifyTask.renameGroup, if_pos hne]
    exact h
  · obtain ⟨i, hi, htype, hgid, hbid⟩ := hconf.2 hne
    have hok := hok hne
    have hid : ∃ i ∈ r.server, sameId i ⟨newName, (findGroup toLower oldName r.manager).gid,
        (findGroup toLower oldName r.manager).bid, ROSTER_GROUP,
        (findGroup toLower oldName r.manager).tlvList⟩ := by
      refine ⟨i, hi, ?_⟩
      simp only [sameId, Bool.and_eq_true, beq_iff_eq]
      exact ⟨⟨htype, hgid⟩, hbid⟩
    rw [step_renameGroup hne]
    rcases findGroup_cases toLower oldName r.manager with ⟨hmem, hname, hvalid⟩ | ⟨hinv, -⟩
    · simp only [hvalid, if_true] at hok ⊢
      refine h.updateGroup rfl hid fun g hg heq => ?_
      have hfound : g = findGroup toLower oldName r.manager :=
        eq_of_pairwise_ne h.distinct hg hmem heq
      rw [hfound, hname, hok]
    · have hvalid : ¬ (findGroup toLower oldName r.manager).isValid := by
        rw [hinv]
        decide
      simp only [hvalid, if_false, Bool.false_eq_true] at hok ⊢
      exact h.renameMissing rfl hid hok

/-- **A step keeps the lists together** if it changes no group's name beyond
case. -/
theorem inSync_step (op : Op) (h : InSync toLower r) (hconf : Conforms toLower r op)
    (hok : StepOk toLower r op) : InSync toLower (step toLower r op) := by
  cases op with
  | addGroup groupName =>
    exact h.newGroup rfl (congrArg groupList (nextGroupId_contactList r.manager)) hconf.1
  | removeGroup groupName => exact h.removeGroup groupName
  | renameGroup oldName newName => exact h.renameGroup hconf hok
  | addContact contact group requiresAuth =>
    simp only [step, SSIModifyTask.addContact]
    split
    · exact h
    · refine h.of_eq ?_ ?_
      · show groupList (r.server ++ [_]) = _
        rw [groupList_append, if_neg contact_ne_group, List.append_nil]
      · show groupList (newContact _ (nextContactId r.manager).2).2.contactList = _
        rw [newContact, groupList_appendNew contact_ne_group, nextContactId_contactList]
        rfl
  | removeContact contact =>
    simp only [step, SSIModifyTask.removeContact, acknowledged, perform]
    refine h.of_eq ?_ ?_
    · rw [groupList_serverRemove]
      exact serverRemove_groupList (findContact_type _ _)
    · simp only [Roster.groups]
      rw [updateContactManager_removed rfl]
      split
      · exact groupList_removeContactNamed _ _
      · rfl
  | changeGroup contact newGroup => exact h.changeGroup contact newGroup
  | pushAdd item =>
    simp only [step, SSIModifyTask.handleContactAdd]
    split
    · next htype => exact h.newGroup htype rfl hconf.1
    · next htype =>
      refine h.of_eq ?_ ?_
      · rw [groupList_append, if_neg htype, List.append_nil]
      · simp only [Roster.groups]
        split <;> exact groupList_appendNew htype
  | pushUpdate item =>
    simp only [step, SSIModifyTask.handleContactUpdate]
    split
    · next htype => exact h.updateGroup htype hconf.2 (hok htype)
    · next htype =>
      refine h.of_eq ?_ ?_
      · rw [groupList_serverModify, serverModify_groupList htype]
      · simp only [Roster.groups]
        split
        · exact groupList_replace (findContact_type _ _) htype
        · exact groupList_replace (findItem_type _ htype _) htype
  | pushRemove item =>
    simp only [step, SSIModifyTask.handleContactRemove]
    split
    · next htype => exact h.drop htype hconf.2
    · next htype =>
      refine h.of_eq ?_ ?_
      · rw [groupList_serverRemove, serverRemove_groupList htype]
      · simp only [Roster.groups]
        split <;> exact groupList_drop htype

/-- What a step that meets the condition leaves of the groups. -/
theorem keepsGroups_of_stepOk (op : Op) (h : InSync toLower r) (hconf : Conforms toLower r op)
    (hok : StepOk toLower r op) : KeepsGroups toLower r op := by
  have hnext := inSync_step op h hconf hok
  refine ⟨hnext.distinct, ?_⟩
  cases op with
  | renameGroup oldName newName =>
    intro hne
    have hok := hok hne
    simp only [Renamed, step_renameGroup hne, Roster.groups]
    rcases findGroup_cases toLower oldName r.manager with ⟨hmem, hname, hvalid⟩ | ⟨hinv, -⟩
    · simp only [hvalid, if_true] at hok ⊢
      rw [groupList_updateGroup rfl h.names]
      refine ⟨fun g hg hgid => ?_, fun _ => ⟨_, List.mem_append_right _ (List.mem_singleton_self _),
        rfl⟩⟩
      rcases List.mem_append.mp hg with hg | hg
      · -- the only other group of that id was the old one
        obtain ⟨hold, hother⟩ := List.mem_filter.mp hg
        have hfound : g = findGroup toLower oldName r.manager :=
          eq_of_pairwise_ne h.distinct hold hmem hgid
        rw [hfound, hname, hok] at hother
        exact absurd rfl (of_decide_eq_true hother)
      · rw [List.mem_singleton.mp hg]
    · have hvalid : ¬ (findGroup toLower oldName r.manager).isValid := by
        rw [hinv]
        decide
      simp only [hvalid, if_false, Bool.false_eq_true, false_implies, and_true] at hok ⊢
      intro g hg hgid
      rcases groupList_newGroup toLower r.manager (x := ⟨newName,
        (findGroup toLower oldName r.manager).gid, (findGroup toLower oldName r.manager).bid,
        ROSTER_GROUP, (findGroup toLower oldName r.manager).tlvList⟩) rfl with heq | ⟨heq, -⟩
      · rw [heq] at hg
        exact hok g hg hgid
      · rw [heq] at hg
        rcases List.mem_append.mp hg with hg | hg
        · exact hok g hg hgid
        · rw [List.mem_singleton.mp hg]
  | _ => trivial

/-- A group that stays under another name when its id comes back is a second
group of that id. -/
theorem stepOk_of_keepsGroups (op : Op) (h : InSync toLower r)
    (hkeeps : KeepsGroups toLower r op) : StepOk toLower r op := by
  have hstay : ∀ (x : OContact), x.type = ROSTER_GROUP →
      (groupList (updateGroup toLower x r.manager).2.contactList).Pairwise
        (fun i j => i.gid ≠ j.gid) →
      ∀ g ∈ r.groups, g.gid = x.gid → toLower g.name = toLower x.name := by
    intro x hx hdistinct g hg hgid
    by_contra hne
    rw [groupList_updateGroup hx h.names, List.pairwise_append] at hdistinct
    exact hdistinct.2.2 g (List.mem_filter.mpr ⟨hg, decide_eq_true hne⟩) x
      (List.mem_singleton_self x) hgid
  cases op with
  | renameGroup oldName newName =>
    intro hne
    obtain ⟨hdistinct, hrenamed⟩ := hkeeps
    obtain ⟨hunder, -⟩ := hrenamed hne
    simp only [DistinctGids, step_renameGroup hne, Roster.groups] at hdistinct hunder
    rcases findGroup_cases toLower oldName r.manager with ⟨hmem, hname, hvalid⟩ | ⟨hinv, -⟩
    · simp only [hvalid, if_true] at hdistinct ⊢
      rw [← hname]
      exact hstay _ rfl hdistinct _ hmem rfl
    · have hvalid : ¬ (findGroup toLower oldName r.manager).isValid := by
        rw [hinv]
        decide
      simp only [hvalid, if_false, Bool.false_eq_true] at hunder ⊢
      intro g hg hgid
      refine hunder g ?_ hgid
      rcases groupList_newGroup toLower r.manager (x := ⟨newName,
        (findGroup toLower oldName r.manager).gid, (findGroup toLower oldName r.manager).bid,
        ROSTER_GROUP, (findGroup toLower oldName r.manager).tlvList⟩) rfl with heq | ⟨heq, -⟩
      · rw [heq]
        exact hg
      · rw [heq]
        exact List.mem_append_left _ hg
  | pushUpdate item =>
    intro htype
    refine hstay item htype ?_
    have hdistinct := hkeeps.1
    simpa only [DistinctGids, step, SSIModifyTask.handleContactUpdate, if_pos htype]
      using hdistinct
  | _ => trivial

/-- **Exact condition of one step.** -/
theorem keepsGroups_iff (op : Op) (h : InSync toLower r) (hconf : Conforms toLower r op) :
    KeepsGroups toLower r op ↔ StepOk toLower r op :=
  ⟨stepOk_of_keepsGroups op h, keepsGroups_of_stepOk op h hconf⟩

/-! ## Runs -/

/-- A received list is in step with the server's. -/
theorem inSync_load (toLower : String → String) {server : List OContact}
    (h : DistinctGids server) : InSync toLower (load toLower server) := by
  have hinit : InSync toLower ⟨[], init⟩ := ⟨List.Pairwise.nil, by simp [groupList, init, Roster.groups],
    List.Pairwise.nil⟩
  have hfold : ∀ (l done : List OContact) (d : ContactManagerPrivate),
      InSync toLower ⟨done, d⟩ → DistinctGids (done ++ l) →
      InSync toLower ⟨done ++ l,
        l.foldl (fun d item => SSIModifyTask.handleContactAdd toLower item d) d⟩ := by
    intro l
    induction l with
    | nil =>
      intro done d hd _
      simpa using hd
    | cons item l ih =>
      intro done d hd hgids
      have hone : DistinctGids (done ++ [item]) := by
        refine hgids.sublist ((List.Sublist.append_left ?_ done).filter _)
        exact List.singleton_sublist.mpr List.mem_cons_self
      have hstep := inSync_step (.pushAdd item) hd ⟨hone, trivial⟩ trivial
      have hrest := ih (done ++ [item]) _ hstep (by rwa [List.append_assoc])
      rwa [List.append_assoc] at hrest
  exact hfold server [] init hinit h

/--
**Group ids over whole runs.** From a received list with distinct group ids,
through every run of acknowledged tasks and pushes of a conforming server: no
two local groups ever share a group id and every rename takes effect, if and
only if no rename and no pushed update changes a group's name beyond upper and
lower case.
-/
theorem groupIds_iff (toLower : String → String) (server : List OContact) (ops : List Op)
    (hServer : DistinctGids server)
    (hConf : Run.StepsMeet (step toLower) (Conforms toLower) (load toLower server) ops) :
    Run.StepsMeet (step toLower) (KeepsGroups toLower) (load toLower server) ops ↔
      Run.StepsMeet (step toLower) (StepOk toLower) (load toLower server) ops := by
  have hExact : ∀ r op, InSync toLower r → Conforms toLower r op →
      (KeepsGroups toLower r op ↔ StepOk toLower r op) :=
    fun _ op h hconf => keepsGroups_iff op h hconf
  have hKeep : ∀ r op, InSync toLower r → Conforms toLower r op → StepOk toLower r op →
      InSync toLower (step toLower r op) :=
    fun _ op h hconf hok => inSync_step op h hconf hok
  exact Run.stepsMeet_iff hExact hKeep (inSync_load toLower hServer) hConf

/-- A group with a member list gets a new one. -/
theorem groupIds_iff_update :
    Run.StepsMeet (step id) (KeepsGroups id) (load id [⟨"a", 1, 0, ROSTER_GROUP, []⟩])
        [.pushUpdate ⟨"a", 1, 0, ROSTER_GROUP, [⟨0x00C8, 2, [0, 7]⟩]⟩] ↔
      Run.StepsMeet (step id) (StepOk id) (load id [⟨"a", 1, 0, ROSTER_GROUP, []⟩])
        [.pushUpdate ⟨"a", 1, 0, ROSTER_GROUP, [⟨0x00C8, 2, [0, 7]⟩]⟩] :=
  groupIds_iff id _ _ (by unfold DistinctGids; decide)
    ⟨⟨by unfold DistinctGids; decide, by decide⟩, trivial⟩

/-- An acknowledged rename leaves the group under both names. -/
theorem renameGroup_keeps_old :
    ¬ ∀ (toLower : String → String) (server : List OContact) (ops : List Op),
      DistinctGids server →
      Run.StepsMeet (step toLower) (Conforms toLower) (load toLower server) ops →
      Run.StepsMeet (step toLower) (KeepsGroups toLower) (load toLower server) ops := by
  intro h
  have hkeeps := (h id [⟨"a", 1, 0, ROSTER_GROUP, []⟩] [.renameGroup "a" "b"]
    (by unfold DistinctGids; decide)
    ⟨⟨by unfold DistinctGids; decide, by simp only; decide⟩, trivial⟩).1.1
  revert hkeeps
  unfold DistinctGids
  decide

end GroupSync

end Oscar
