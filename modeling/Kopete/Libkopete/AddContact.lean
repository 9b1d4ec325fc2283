import Kopete.Libkopete.MetaContactMerge

/-!
# libkopete — adding a contact

`Account::addContact` makes a metacontact, names it, puts it into its group, and only
then asks the protocol for the contact. The name comes first, and merges the metacontact
that has it into the new one, which is deleted when there is no contact, and temporary
when the contact is.

Main results:

* `setDisplayName_fresh` — a name that no metacontact has;
* `setDisplayName_merges` — what is left of the metacontact that has the name;
* `safe_iff` — when adding a contact leaves the others alone.
-/

namespace Kopete

/-! ## Groups -/

namespace MetaContact

variable (mc : MetaContact)

/-- `MetaContact::addToGroup`. -/
def addToGroup (target : Group) : MetaContact :=
  if target ∈ mc.groups then mc
  else if mc.temporary && target ≠ .temporary then mc
  else { mc with groups := QList.removeAll mc.groups .topLevel ++ [target] }

/-- `MetaContact::removeFromGroup`. -/
def removeFromGroup (group : Group) : MetaContact :=
  if group ∉ mc.groups || (mc.temporary && group = .temporary) then mc
  else
    let groups := QList.removeAll mc.groups group
    { mc with groups := if groups = [] then [.topLevel] else groups }

/-- `MetaContact::moveToGroup`. -/
def moveToGroup (source target : Group) : MetaContact :=
  if source ∉ mc.groups then mc.addToGroup target
  else if source = target then mc
  else if target ∈ mc.groups then mc.removeFromGroup source
  else if target = .offline then mc
  else if mc.temporary && target ≠ .temporary then mc
  else { mc with groups := QList.removeAll mc.groups source ++ [target] }

/-- `MetaContact::setTemporary`. -/
def setTemporary (isTemporary : Bool) (group : Group) : MetaContact :=
  let mc : MetaContact := { mc with temporary := isTemporary }
  if isTemporary then
    let mc := mc.addToGroup .temporary
    mc.groups.foldl (fun mc g => if g ≠ .temporary then mc.removeFromGroup g else mc) mc
  else mc.moveToGroup .temporary group

/-- `MetaContact::MetaContact`. -/
def new : MetaContact :=
  ({ displayName := [], displayNameSource := .custom, displayNameSourceContact := none
     kabcId := [], contacts := [], groups := [], temporary := false, loading := false } :
    MetaContact).addToGroup .topLevel

@[simp] theorem contacts_addToGroup (target : Group) :
    (mc.addToGroup target).contacts = mc.contacts := by
  unfold addToGroup
  split
  · rfl
  · split <;> rfl

@[simp] theorem temporary_addToGroup (target : Group) :
    (mc.addToGroup target).temporary = mc.temporary := by
  unfold addToGroup
  split
  · rfl
  · split <;> rfl

@[simp] theorem contacts_removeFromGroup (g : Group) :
    (mc.removeFromGroup g).contacts = mc.contacts := by
  unfold removeFromGroup
  split <;> rfl

@[simp] theorem temporary_removeFromGroup (g : Group) :
    (mc.removeFromGroup g).temporary = mc.temporary := by
  unfold removeFromGroup
  split <;> rfl

theorem foldl_removeFromGroup (gs : List Group) (mc : MetaContact) :
    (gs.foldl (fun mc g => if g ≠ .temporary then mc.removeFromGroup g else mc) mc).contacts =
        mc.contacts ∧
      (gs.foldl (fun mc g => if g ≠ .temporary then mc.removeFromGroup g else mc) mc).temporary =
        mc.temporary := by
  induction gs generalizing mc with
  | nil => exact ⟨rfl, rfl⟩
  | cons g gs ih =>
    rw [List.foldl_cons, (ih _).1, (ih _).2]
    split <;> simp

theorem setTemporary_true (group : Group) :
    (mc.setTemporary true group).contacts = mc.contacts ∧
      (mc.setTemporary true group).temporary = true := by
  unfold setTemporary
  simp only [if_true, (foldl_removeFromGroup _ _).1, (foldl_removeFromGroup _ _).2]
  simp

end MetaContact

/-! ## Account::addContact -/

/-- `Account::AddMode`. -/
inductive AddMode where
  | changeKABC
  | dontChangeKABC
  | temporary
deriving DecidableEq, Repr

/-- A call of `Account::addContact`, and what the account and its protocol have to say. -/
structure AddCall where
  displayName : QString
  group : Option Group
  mode : AddMode
  /-- It is `myself`, and the protocol does not add that. -/
  refused : Bool
  /-- The contact the account has by that id. -/
  existing : Option Nat
  /-- The contact that `createContact` makes, and its name; `none` when it fails. -/
  createContact : Option (Nat × QString)
  /-- The address of the new metacontact. -/
  parentContact : Nat

namespace ContactList

variable (s : ContactList)

/-- `ContactList::addMetaContact`. -/
def addMetaContact (m : Nat) : ContactList :=
  if m ∈ s.metaContacts then s else { s with metaContacts := s.metaContacts ++ [m] }

/-- `delete` of a metacontact, and of the contacts that are its children. -/
def deleteMetaContact (m : Nat) : ContactList :=
  { s with
    metaContact := Function.update s.metaContact m .new
    contact := fun c =>
      if (s.contact c).metaContact = some m then { s.contact c with metaContact := none }
      else s.contact c }

/-- A contact that is made in a metacontact. -/
def newContact (c : Nat) (name : QString) (m : Nat) : ContactList :=
  { s with contact := Function.update s.contact c ⟨name, none⟩ }.putContact c (some m)

/-- The new metacontact, with its name. -/
def nameContact (n : Nat) (call : AddCall) : Option ContactList :=
  let s := s.setMeta call.parentContact .new
  if call.displayName ≠ [] then setDisplayName n s call.parentContact call.displayName else some s

/-- Its group. -/
def groupContact (call : AddCall) : ContactList :=
  let mc := s.metaContact call.parentContact
  s.setMeta call.parentContact
    (if call.mode = .temporary then mc.setTemporary true .topLevel
    else mc.addToGroup (call.group.getD .topLevel))

/-- Its contact; without one it is deleted. -/
def fillContact (n : Nat) (call : AddCall) : Option (Option Nat × ContactList) :=
  let parentContact := call.parentContact
  match call.existing with
  | some c =>
    (s.setMetaContact (setDisplayName n) c (some parentContact)).map fun s =>
      (some parentContact, s.addMetaContact parentContact)
  | none =>
    match call.createContact with
    | none => some (none, s.deleteMetaContact parentContact)
    | some (c, name) =>
      let s := s.newContact c name parentContact
      some (some parentContact, s.addMetaContact parentContact)

/-- `Account::addContact`: the metacontact of the contact, and the contact list. -/
def addContact (n : Nat) (call : AddCall) : Option (Option Nat × ContactList) :=
  if call.refused then some (none, s)
  else
    match call.existing.bind fun c => (s.contact c).metaContact with
    | some m =>
      if (s.metaContact m).temporary && call.mode ≠ .temporary then
        let group := call.group.getD .topLevel
        let s := s.setMeta m ((s.metaContact m).setTemporary false group)
        some (some m, s.addMetaContact m)
      else some (some m, s)
    | none => (s.nameContact n call).bind fun s => (s.groupContact call).fillContact n call

/-- `addContact` ends, with this result. -/
def Adds (call : AddCall) (result : Option Nat) (s' : ContactList) : Prop :=
  ∃ n₀, ∀ n, n₀ ≤ n → s.addContact n call = some (result, s')

/-- The list, its metacontacts and their contacts are as they were. -/
def Unchanged (s' : ContactList) : Prop :=
  s'.metaContacts = s.metaContacts ∧ ∀ m ∈ s.metaContacts, s'.metaContact m = s.metaContact m ∧
    ∀ c ∈ s.contactsOf m, s'.contact c = s.contact c

/-- Every contact of the list is in a listed metacontact of the same groups, which is no more
temporary than its was. -/
def StaysListed (s' : ContactList) : Prop :=
  ∀ m ∈ s.metaContacts, ∀ c ∈ s.contactsOf m, ∃ m' ∈ s'.metaContacts, c ∈ s'.contactsOf m' ∧
    (s'.metaContact m').temporary = (s.metaContact m).temporary ∧
    (s'.metaContact m').groups = (s.metaContact m).groups

/-- The first metacontact on the list that has a name and is not temporary. -/
def namesake (name : QString) : Option Nat :=
  if name = [] then none
  else s.metaContacts.find? fun m =>
    !(s.metaContact m).temporary && (s.metaContact m).displayName = name

end ContactList

namespace AddCall

variable (call : AddCall)

/-- The protocol is asked, and fails. -/
def Fails : Prop := call.refused = false ∧ call.existing = none ∧ call.createContact = none

/-- There is a contact, or the protocol makes one. -/
def Succeeds : Prop :=
  call.refused = false ∧ (call.existing ≠ none ∨ call.createContact ≠ none)

/-- The contact is not on the list, and the new metacontact is new. -/
structure New (s : ContactList) : Prop where
  existing : ∀ c, call.existing = some c → (s.contact c).metaContact = none
  unlisted : call.parentContact ∉ s.metaContacts
  empty : s.contactsOf call.parentContact = []

/-- When there is no contact in the end the list is as it was, and a temporary contact
leaves the others where they are. -/
def Safe (s : ContactList) : Prop :=
  (call.Fails → ∃ s', s.Adds call none s' ∧ s.Unchanged s') ∧
    (call.mode = .temporary → call.Succeeds →
      ∃ s', s.Adds call (some call.parentContact) s' ∧ s.StaysListed s')

end AddCall

namespace ContactList

/-! ## The name -/

section Name

variable {s : ContactList} {call : AddCall}

theorem mergedBy_new (hNew : call.New s) (name : QString) :
    (s.setMeta call.parentContact .new).mergedBy call.parentContact name = s.namesake name := by
  have hName : MetaContact.new.displayName = [] := rfl
  have hLoading : MetaContact.new.loading = false := rfl
  have hTemporary : MetaContact.new.temporary = false := rfl
  have hFind : (s.setMeta call.parentContact .new).sameNamed call.parentContact name =
      s.metaContacts.find? fun m =>
        !(s.metaContact m).temporary && (s.metaContact m).displayName = name := by
    unfold sameNamed
    refine List.find?_congr fun k hk => ?_
    have hOther : k ≠ call.parentContact := fun hSame => hNew.unlisted (hSame ▸ hk)
    simp [metaContact_setMeta, hOther]
  unfold mergedBy namesake
  rw [hFind, metaContact_setMeta, if_pos rfl, hName, hLoading, hTemporary]
  simp

theorem consistent_new (h : s.Consistent) (hNew : call.New s) :
    (s.setMeta call.parentContact .new).Consistent := by
  have hSame : ∀ k, (s.setMeta call.parentContact .new).contactsOf k = s.contactsOf k := by
    intro k
    rw [contactsOf_setMeta]
    split
    · next hHere =>
      rw [hHere, hNew.empty]
      rfl
    · rfl
  exact ⟨fun c m => by rw [hSame]; exact h.mem_iff c m, fun m => by rw [hSame]; exact h.nodup m⟩

theorem setMeta_setMeta (m : Nat) (mc mc' : MetaContact) :
    (s.setMeta m mc).setMeta m mc' = s.setMeta m mc' := by
  unfold setMeta
  simp only [Function.update_idem]

theorem namesake_listed {name : QString} {m : Nat} (h : s.namesake name = some m) :
    m ∈ s.metaContacts ∧ (s.metaContact m).temporary = false ∧ name ≠ [] := by
  unfold namesake at h
  split at h
  · cases h
  · next hName =>
    have hFound := List.find?_some h
    simp only [Bool.and_eq_true, Bool.not_eq_true'] at hFound
    exact ⟨List.mem_of_find?_eq_some h, hFound.1, hName⟩

theorem namesake_ne (hNew : call.New s) {name : QString} {m : Nat} (h : s.namesake name = some m) :
    m ≠ call.parentContact := fun hSame => hNew.unlisted (hSame ▸ (namesake_listed h).1)

/-- **A name that nobody has to give up contacts for.** -/
theorem nameContact_alone (hNew : call.New s)
    (hAlone : ∀ m, s.namesake call.displayName = some m → s.contactsOf m = []) (n : Nat) :
    s.nameContact (n + 2) call = some (s.setMeta call.parentContact
      { MetaContact.new with displayName := call.displayName }) := by
  unfold nameContact
  simp only
  split
  · rw [setDisplayName_unmerged (fun m' hMerged => ?_), setName, metaContact_setMeta, if_pos rfl,
      setMeta_setMeta]
    rw [mergedBy_new hNew] at hMerged
    rw [contactsOf_setMeta, if_neg (namesake_ne hNew hMerged)]
    exact hAlone m' hMerged
  · next hEmpty =>
    rw [not_not] at hEmpty
    rw [hEmpty]
    rfl

/-- The first contact that is merged, and all that are, end in the metacontact they are
merged into, as long as that is not on the list. -/
theorem mergeLoop_takes {rename : ContactList → Nat → QString → Option ContactList}
    (hRename : Sound rename) (h : s.Consistent) {m t a : Nat} {rest : List Nat} (hOther : m ≠ t)
    (hUnlisted : t ∉ s.metaContacts) (hContacts : s.contactsOf m = a :: rest) {n : Nat}
    {s' : ContactList}
    (hLoop : mergeLoop (fun s c => s.setMetaContact rename c (some t)) m n s = some s') :
    s'.Consistent ∧ s'.contactsOf m = [] ∧ a ∈ s'.contactsOf t ∧ t ∉ s'.metaContacts := by
  have hBut := (consistentBut_iff s).2 h
  obtain ⟨hConsistent, hEmpty, -⟩ := mergeLoop_sound hRename hBut hLoop
  refine ⟨(consistentBut_iff s').1 hConsistent, hEmpty, ?_⟩
  cases n with
  | zero => simp [mergeLoop] at hLoop
  | succ n =>
    simp only [mergeLoop, hContacts] at hLoop
    obtain ⟨s₁, hMove, hRest⟩ := Option.bind_eq_some_iff.1 hLoop
    have hIn : (s.contact a).metaContact = some m := (h.mem_iff a m).1 (by simp [hContacts])
    obtain ⟨hConsistent₁, hPointer, hKept⟩ := setMetaContact_sound hRename hBut id hMove
    obtain ⟨-, -, hKept'⟩ := mergeLoop_sound hRename hConsistent₁ hRest
    have hLeaves : (s.contact a).metaContact ≠ some t := by
      rw [hIn]
      exact fun hSame => hOther (Option.some.inj hSame)
    obtain ⟨hUnlisted₁, -, -⟩ := hKept t hLeaves hUnlisted
    obtain ⟨hUnlisted', hStays, -⟩ := hKept' t hOther.symm hUnlisted₁
    exact ⟨hStays a ((hConsistent₁.mem_iff a t).2 ⟨hPointer, id⟩), hUnlisted'⟩

/-- **A name that another metacontact has.** The new metacontact takes its contacts. -/
theorem nameContact_merges (h : s.Consistent) (hNew : call.New s) {m a : Nat} {rest : List Nat}
    (hNamesake : s.namesake call.displayName = some m) (hContacts : s.contactsOf m = a :: rest)
    {n : Nat} {s' : ContactList} (hName : s.nameContact n call = some s') :
    s'.Consistent ∧ s'.contactsOf m = [] ∧ a ∈ s'.contactsOf call.parentContact ∧
      call.parentContact ∉ s'.metaContacts := by
  have hOther := namesake_ne hNew hNamesake
  unfold nameContact at hName
  simp only [if_pos (namesake_listed hNamesake).2.2] at hName
  cases n with
  | zero => simp [setDisplayName] at hName
  | succ n =>
    rw [setDisplayName_eq, mergedBy_new hNew, hNamesake] at hName
    obtain ⟨s₁, hLoop, rfl⟩ := Option.map_eq_some_iff.1 hName
    have hContacts' : (s.setMeta call.parentContact .new).contactsOf m = a :: rest := by
      rw [contactsOf_setMeta, if_neg hOther, hContacts]
    obtain ⟨hConsistent, hEmpty, hTaken, hUnlisted⟩ := mergeLoop_takes (setDisplayName_sound n)
      (consistent_new h hNew) hOther hNew.unlisted hContacts' hLoop
    have hBut := consistentBut_setName ((consistentBut_iff s₁).2 hConsistent) call.parentContact
      call.displayName
    refine ⟨(consistentBut_iff _).1 hBut.1, ?_, ?_, hUnlisted⟩
    · rw [contactsOf_setName, hEmpty]
    · rwa [contactsOf_setName]

/-! ## The group and the contact -/

theorem groupContact_eq (s : ContactList) (call : AddCall) :
    ∃ mc, s.groupContact call = s.setMeta call.parentContact mc ∧
      mc.contacts = s.contactsOf call.parentContact ∧
      (call.mode = .temporary → mc.temporary = true) := by
  unfold groupContact
  simp only
  refine ⟨_, rfl, ?_, fun hMode => ?_⟩
  · split
    · exact (MetaContact.setTemporary_true _ _).1
    · exact MetaContact.contacts_addToGroup _ _
  · rw [if_pos hMode]
    exact (MetaContact.setTemporary_true _ _).2

theorem addContact_new (hNew : call.New s) (hAccepted : call.refused = false) (n : Nat) :
    s.addContact n call =
      (s.nameContact n call).bind fun s => (s.groupContact call).fillContact n call := by
  have hNowhere : (call.existing.bind fun c => (s.contact c).metaContact) = none := by
    cases hExisting : call.existing with
    | none => rfl
    | some c => exact hNew.existing c hExisting
  unfold addContact
  rw [hNowhere, hAccepted]
  rfl

@[simp] theorem metaContact_addMetaContact (m : Nat) :
    (s.addMetaContact m).metaContact = s.metaContact := by
  unfold addMetaContact
  split <;> rfl

@[simp] theorem contactsOf_addMetaContact (m k : Nat) :
    (s.addMetaContact m).contactsOf k = s.contactsOf k := by
  unfold contactsOf
  rw [metaContact_addMetaContact]

theorem mem_addMetaContact {m k : Nat} (h : k ∈ s.metaContacts) :
    k ∈ (s.addMetaContact m).metaContacts := by
  unfold addMetaContact
  split
  · exact h
  · exact List.mem_append_left _ h

theorem metaContact_putContact {m k : Nat} (hOther : k ≠ m) (c : Nat) :
    (s.putContact c (some m)).metaContact k = s.metaContact k := by
  rw [putContact, metaContact_setMeta, if_neg hOther]
  rfl

theorem metaContact_deleteMetaContact {m k : Nat} (hOther : k ≠ m) :
    (s.deleteMetaContact m).metaContact k = s.metaContact k :=
  Function.update_of_ne hOther ..

theorem staysListed_of_same {s' : ContactList}
    (h : ∀ m ∈ s.metaContacts, m ∈ s'.metaContacts ∧ s'.metaContact m = s.metaContact m) :
    s.StaysListed s' := by
  intro m hm c hc
  obtain ⟨hListed, hSame⟩ := h m hm
  refine ⟨m, hListed, ?_, by rw [hSame], by rw [hSame]⟩
  unfold contactsOf at hc ⊢
  rwa [hSame]

theorem fillContact_stays (hNew : call.New s) (hSucceeds : call.Succeeds) (mc : MetaContact) :
    ∃ s', (∀ n, (s.setMeta call.parentContact mc).fillContact n call =
      some (some call.parentContact, s')) ∧ s.StaysListed s' := by
  have hSame : ∀ {c m : Nat} {t : ContactList}, m ∈ s.metaContacts →
      t.metaContact = (s.setMeta call.parentContact mc).metaContact →
        (t.putContact c (some call.parentContact)).metaContact m = s.metaContact m := by
    intro c m t hm hMeta
    have hOther : m ≠ call.parentContact := fun hSame => hNew.unlisted (hSame ▸ hm)
    rw [metaContact_putContact hOther, hMeta, metaContact_setMeta, if_neg hOther]
  unfold fillContact
  simp only
  cases hExisting : call.existing with
  | some c =>
    have hNowhere : ((s.setMeta call.parentContact mc).contact c).metaContact = none :=
      hNew.existing c hExisting
    have hMove : ∀ n, (s.setMeta call.parentContact mc).setMetaContact (setDisplayName n) c
        (some call.parentContact) = some _ := fun n =>
      setMetaContact_none hNowhere (by rw [hNowhere]; exact fun hNone => by cases hNone)
    simp only [hMove, Option.map_some]
    refine ⟨_, fun _ => rfl, staysListed_of_same fun m hm => ⟨mem_addMetaContact (by simpa), ?_⟩⟩
    rw [metaContact_addMetaContact]
    exact hSame hm rfl
  | none =>
    cases hCreate : call.createContact with
    | none => simp [AddCall.Succeeds, hExisting, hCreate] at hSucceeds
    | some created =>
      refine ⟨_, fun _ => rfl, staysListed_of_same fun m hm =>
        ⟨mem_addMetaContact (by simpa [newContact]), ?_⟩⟩
      rw [metaContact_addMetaContact]
      exact hSame hm rfl

theorem temporary_of_mem (h : s.Consistent) {a p m : Nat} (hTaken : a ∈ s.contactsOf p)
    (hTemporary : (s.metaContact p).temporary = true) (hIn : a ∈ s.contactsOf m) :
    (s.metaContact m).temporary = true := by
  have hHere := ((h.mem_iff a m).1 hIn).symm.trans ((h.mem_iff a p).1 hTaken)
  rwa [Option.some.inj hHere]

theorem setMetaContact_taken (h : s.Consistent) {a p c n : Nat} {s' : ContactList}
    (hTaken : a ∈ s.contactsOf p) (hUnlisted : p ∉ s.metaContacts)
    (hMove : s.setMetaContact (setDisplayName n) c (some p) = some s') :
    s'.Consistent ∧ a ∈ s'.contactsOf p ∧
      (s'.metaContact p).temporary = (s.metaContact p).temporary := by
  obtain ⟨hConsistent, -, hKept⟩ := setMetaContact_sound (setDisplayName_sound n)
    ((consistentBut_iff s).2 h) id hMove
  refine ⟨(consistentBut_iff s').1 hConsistent, ?_⟩
  by_cases hSame : (s.contact c).metaContact = some p
  · rw [setMetaContact_same hSame] at hMove
    obtain rfl := Option.some.inj hMove
    exact ⟨hTaken, rfl⟩
  · obtain ⟨-, hContacts, hStill⟩ := hKept _ hSame hUnlisted
    exact ⟨hContacts a hTaken, hStill⟩

theorem fillContact_taken (h : s.Consistent) {a : Nat}
    (hTaken : a ∈ s.contactsOf call.parentContact)
    (hUnlisted : call.parentContact ∉ s.metaContacts)
    (hTemporary : (s.metaContact call.parentContact).temporary = true) {n : Nat} {r : Option Nat}
    {s' : ContactList} (hFill : s.fillContact n call = some (r, s')) (hSucceeds : call.Succeeds) :
    ∀ m, a ∈ s'.contactsOf m → (s'.metaContact m).temporary = true := by
  intro m hIn
  unfold fillContact at hFill
  simp only at hFill
  split at hFill
  · next c hExisting =>
    obtain ⟨s₁, hMove, hResult⟩ := Option.map_eq_some_iff.1 hFill
    obtain ⟨-, rfl⟩ := Prod.mk.inj hResult
    obtain ⟨hConsistent, hStays, hStill⟩ := setMetaContact_taken h hTaken hUnlisted hMove
    rw [contactsOf_addMetaContact] at hIn
    rw [metaContact_addMetaContact]
    exact temporary_of_mem hConsistent hStays (hStill.trans hTemporary) hIn
  · split at hFill
    · next hExisting _ hCreate => simp [AddCall.Succeeds, hExisting, hCreate] at hSucceeds
    · next c name hCreate =>
      obtain ⟨-, rfl⟩ := Prod.mk.inj (Option.some.inj hFill)
      rw [contactsOf_addMetaContact] at hIn
      rw [metaContact_addMetaContact]
      by_cases hHere : m = call.parentContact
      · subst hHere
        rw [newContact, temporary_putContact]
        exact hTemporary
      · unfold contactsOf at hIn
        rw [newContact, metaContact_putContact hHere] at hIn ⊢
        exact temporary_of_mem h hTaken hTemporary hIn

end Name

/-! ## Adding a contact -/

section Safe

variable {s : ContactList} {call : AddCall}

theorem addContact_alone (hNew : call.New s) (hAccepted : call.refused = false)
    (hAlone : ∀ m, s.namesake call.displayName = some m → s.contactsOf m = []) :
    ∃ mc, ∀ n, 2 ≤ n →
      s.addContact n call = (s.setMeta call.parentContact mc).fillContact n call := by
  obtain ⟨mc, hGroup, -⟩ := groupContact_eq (s.setMeta call.parentContact
    { MetaContact.new with displayName := call.displayName }) call
  refine ⟨mc, fun n hFuel => ?_⟩
  obtain ⟨k, rfl⟩ : ∃ k, n = k + 2 := ⟨n - 2, by omega⟩
  rw [addContact_new hNew hAccepted, nameContact_alone hNew hAlone, Option.bind_some, hGroup,
    setMeta_setMeta]

theorem unchanged_delete (h : s.Consistent) (hNew : call.New s) (mc : MetaContact) :
    s.Unchanged ((s.setMeta call.parentContact mc).deleteMetaContact call.parentContact) := by
  refine ⟨rfl, fun m hm => ⟨?_, fun c hc => ?_⟩⟩
  · have hOther : m ≠ call.parentContact := fun hSame => hNew.unlisted (hSame ▸ hm)
    rw [metaContact_deleteMetaContact hOther, metaContact_setMeta, if_neg hOther]
  · refine if_neg fun hPointer => ?_
    have hMem := (h.mem_iff c call.parentContact).2 hPointer
    rw [hNew.empty] at hMem
    cases hMem

theorem not_unchanged (h : s.Consistent) (hNew : call.New s) {m a : Nat} {rest : List Nat}
    (hNamesake : s.namesake call.displayName = some m) (hContacts : s.contactsOf m = a :: rest)
    (hFails : call.Fails) {s' : ContactList} (hAdds : s.Adds call none s') : ¬ s.Unchanged s' := by
  obtain ⟨hAccepted, hExisting, hCreate⟩ := hFails
  obtain ⟨n, hAdds⟩ := hAdds
  have hAdd := hAdds n le_rfl
  rw [addContact_new hNew hAccepted] at hAdd
  obtain ⟨s₁, hName, hFill⟩ := Option.bind_eq_some_iff.1 hAdd
  obtain ⟨-, hEmpty, -⟩ := nameContact_merges h hNew hNamesake hContacts hName
  obtain ⟨mc, hGroup, -⟩ := groupContact_eq s₁ call
  rw [hGroup] at hFill
  simp only [fillContact, hExisting, hCreate] at hFill
  obtain ⟨-, rfl⟩ := Prod.mk.inj (Option.some.inj hFill)
  rintro ⟨-, hSame⟩
  have hMeta := (hSame m (namesake_listed hNamesake).1).1
  have hOther := namesake_ne hNew hNamesake
  rw [metaContact_deleteMetaContact hOther, metaContact_setMeta, if_neg hOther] at hMeta
  unfold contactsOf at hEmpty hContacts
  rw [hMeta, hContacts] at hEmpty
  cases hEmpty

theorem not_staysListed (h : s.Consistent) (hNew : call.New s) {m a : Nat} {rest : List Nat}
    (hNamesake : s.namesake call.displayName = some m) (hContacts : s.contactsOf m = a :: rest)
    (hMode : call.mode = .temporary) (hSucceeds : call.Succeeds) {r : Option Nat}
    {s' : ContactList} (hAdds : s.Adds call r s') : ¬ s.StaysListed s' := by
  obtain ⟨n, hAdds⟩ := hAdds
  have hAdd := hAdds n le_rfl
  rw [addContact_new hNew hSucceeds.1] at hAdd
  obtain ⟨s₁, hName, hFill⟩ := Option.bind_eq_some_iff.1 hAdd
  obtain ⟨hConsistent, -, hTaken, hUnlisted⟩ :=
    nameContact_merges h hNew hNamesake hContacts hName
  obtain ⟨mc, hGroup, hKeeps, hTemporary⟩ := groupContact_eq s₁ call
  have hContactsOf : ∀ k, (s₁.groupContact call).contactsOf k = s₁.contactsOf k := by
    intro k
    rw [hGroup, contactsOf_setMeta]
    split
    · next hHere => rw [hHere, hKeeps]
    · rfl
  have hConsistent' : (s₁.groupContact call).Consistent := by
    refine ⟨fun c k => ?_, fun k => ?_⟩
    · rw [hContactsOf, hConsistent.mem_iff, hGroup]
      rfl
    · rw [hContactsOf]
      exact hConsistent.nodup k
  have hMeta : ((s₁.groupContact call).metaContact call.parentContact).temporary = true := by
    rw [hGroup, metaContact_setMeta, if_pos rfl]
    exact hTemporary hMode
  have hUnlisted' : call.parentContact ∉ (s₁.groupContact call).metaContacts := by
    rw [hGroup]
    exact hUnlisted
  intro hStays
  obtain ⟨hListed, hForGood, -⟩ := namesake_listed hNamesake
  obtain ⟨m', -, hIn, hSame, -⟩ := hStays m hListed a (by simp [hContacts])
  have hNow := fillContact_taken hConsistent' (by rwa [hContactsOf]) hUnlisted' hMeta hFill
    hSucceeds m' hIn
  rw [hSame, hForGood] at hNow
  cases hNow

/-- **Adding a contact leaves the others alone exactly if its name does**: no contact is in
the first metacontact that has the name and is on the list for good. -/
theorem safe_iff (h : s.Consistent) (hNew : call.New s) :
    call.Safe s ↔ (call.Fails ∨ call.mode = .temporary ∧ call.Succeeds →
      ∀ m, s.namesake call.displayName = some m → s.contactsOf m = []) := by
  constructor
  · rintro ⟨hFailing, hTemporary⟩ hCase m hNamesake
    cases hContacts : s.contactsOf m with
    | nil => rfl
    | cons a rest =>
      rcases hCase with hFails | ⟨hMode, hSucceeds⟩
      · obtain ⟨s', hAdds, hUnchanged⟩ := hFailing hFails
        exact absurd hUnchanged (not_unchanged h hNew hNamesake hContacts hFails hAdds)
      · obtain ⟨s', hAdds, hStays⟩ := hTemporary hMode hSucceeds
        exact absurd hStays (not_staysListed h hNew hNamesake hContacts hMode hSucceeds hAdds)
  · intro hAlone
    constructor
    · intro hFails
      obtain ⟨mc, hAdd⟩ := addContact_alone hNew hFails.1 (hAlone (.inl hFails))
      refine ⟨_, ⟨2, fun n hFuel => ?_⟩, unchanged_delete h hNew mc⟩
      rw [hAdd n hFuel]
      simp only [fillContact, hFails.2.1, hFails.2.2]
    · intro hMode hSucceeds
      obtain ⟨mc, hAdd⟩ := addContact_alone hNew hSucceeds.1 (hAlone (.inr ⟨hMode, hSucceeds⟩))
      obtain ⟨s', hFill, hStays⟩ := fillContact_stays hNew hSucceeds mc
      exact ⟨s', ⟨2, fun n hFuel => (hAdd n hFuel).trans (hFill n)⟩, hStays⟩

end Safe

/-- A contact named A is added to `someList`, where metacontact 1 is named A, and the
protocol fails. -/
def someCall : AddCall where
  displayName := [65]
  group := none
  mode := .changeKABC
  refused := false
  existing := none
  createContact := none
  parentContact := 3

theorem new_someCall : someCall.New someList :=
  ⟨fun c hc => (by cases hc), by decide, by rw [contactsOf_someList]; rfl⟩

theorem safe_someCall :
    someCall.Safe someList ↔ (someCall.Fails ∨ someCall.mode = .temporary ∧ someCall.Succeeds →
      ∀ m, someList.namesake someCall.displayName = some m → someList.contactsOf m = []) :=
  safe_iff consistent_someList new_someCall

/-- Metacontact 1 is off the list, and its contact nowhere. -/
theorem contact_lost :
    someCall.Fails ∧
      (∀ n, (someList.addContact (n + 5) someCall).map (fun r =>
        (r.1, r.2.metaContacts, r.2.contactsOf 1, (r.2.contact 10).metaContact)) =
          some (none, [2], [], none)) ∧
      ¬ someCall.Safe someList := by
  have hEnd : ∀ n, (someList.addContact (n + 5) someCall).map (fun r =>
      (r.1, r.2.metaContacts, r.2.contactsOf 1, (r.2.contact 10).metaContact)) =
        some (none, [2], [], none) := fun _ => rfl
  refine ⟨⟨rfl, rfl, rfl⟩, hEnd, ?_⟩
  rintro ⟨hFailing, -⟩
  obtain ⟨s', ⟨n₀, hAdds⟩, hListed, -⟩ := hFailing ⟨rfl, rfl, rfl⟩
  have hOff := hEnd n₀
  rw [hAdds (n₀ + 5) (by omega)] at hOff
  have hTwo : s'.metaContacts = [2] :=
    (Prod.mk.inj (Prod.mk.inj (Option.some.inj hOff)).2).1
  rw [hTwo] at hListed
  exact absurd hListed (by decide)

end ContactList

end Kopete
