import Kopete.Lib.QList
import Mathlib

/-!
# libkopete — metacontacts and their contacts

A metacontact lists its contacts, and each contact points back to the metacontact it is
in. A contact that moves is taken out of the one and put into the other; a metacontact
whose last contact leaves is taken off the contact list, but before that, if it went by
the name of that contact, it takes the name for its own, as a user would give it one:
and a metacontact that is given the name of another one on the list first takes in all
the contacts of that other one.

What comes back into the middle of a move is passed to it as an argument (`rename`), and
`setDisplayName` closes the circle, with fuel for the depth and for its loop.

Main results:

* `contactsOf_addContact` — a contact put into a metacontact;
* `setMetaContact_sound`, `setDisplayName_sound` — the two sides stay consistent, and a
  metacontact that is not on the list keeps what it has.
-/

namespace Kopete

/-- UTF-16. -/
abbrev QString := List UInt16

/-- `MetaContact::PropertySource`. -/
inductive PropertySource where
  | contact
  | kabc
  | custom
deriving DecidableEq, Repr

/-- `Group::topLevel`, `Group::temporary`, `Group::offline`, and the groups of the user. -/
inductive Group where
  | topLevel
  | temporary
  | offline
  | normal (id : Nat)
deriving DecidableEq, Repr

/-- `MetaContact`. -/
structure MetaContact where
  displayName : QString
  displayNameSource : PropertySource
  displayNameSourceContact : Option Nat
  kabcId : QString
  contacts : List Nat
  groups : List Group
  temporary : Bool
  loading : Bool
deriving DecidableEq

namespace MetaContact

variable (mc : MetaContact)

/-- What `MetaContact::displayName` remembers: the first contact, if it goes by a
contact's name and none is remembered. -/
def track : MetaContact :=
  if mc.displayNameSource ≠ .kabc ∧ (mc.displayNameSource = .contact ∨ mc.displayName = []) ∧
      mc.displayNameSourceContact = none then
    { mc with displayNameSourceContact := mc.contacts.head? }
  else mc

/-- `MetaContact::setDisplayNameSource`. -/
def setDisplayNameSource (source : PropertySource) : MetaContact :=
  { mc.track with displayNameSource := source }.track

/-- `MetaContact::addContact`. -/
def addContact (c : Nat) : MetaContact :=
  if c ∈ mc.contacts then mc
  else
    let mc := mc.track
    let mc : MetaContact := { mc with contacts := mc.contacts ++ [c] }
    if mc.contacts.length = 1 then mc.track else mc

/-- `MetaContact::removeContact` up to the name: the contact is off the list, and not the
one whose name is used. -/
def dropContact (c : Nat) : MetaContact :=
  let mc := mc.track
  { mc with
    contacts := QList.removeAll mc.contacts c
    displayNameSourceContact :=
      if mc.displayNameSourceContact = some c then none else mc.displayNameSourceContact }

/-- It goes by a contact's name, and does not remember whose. -/
def wasTrackingName : Bool :=
  mc.displayNameSourceContact = none ∧ mc.displayNameSource = .contact

@[simp] theorem contacts_track : mc.track.contacts = mc.contacts := by
  unfold track
  split <;> rfl

@[simp] theorem displayName_track : mc.track.displayName = mc.displayName := by
  unfold track
  split <;> rfl

@[simp] theorem temporary_track : mc.track.temporary = mc.temporary := by
  unfold track
  split <;> rfl

@[simp] theorem loading_track : mc.track.loading = mc.loading := by
  unfold track
  split <;> rfl

@[simp] theorem groups_track : mc.track.groups = mc.groups := by
  unfold track
  split <;> rfl

@[simp] theorem groups_setDisplayNameSource (source : PropertySource) :
    (mc.setDisplayNameSource source).groups = mc.groups := by
  simp [setDisplayNameSource]

@[simp] theorem groups_dropContact (c : Nat) : (mc.dropContact c).groups = mc.groups := by
  simp [dropContact]

@[simp] theorem contacts_setDisplayNameSource (source : PropertySource) :
    (mc.setDisplayNameSource source).contacts = mc.contacts := by
  simp [setDisplayNameSource]

@[simp] theorem contacts_dropContact (c : Nat) :
    (mc.dropContact c).contacts = QList.removeAll mc.contacts c := by
  simp [dropContact]

@[simp] theorem displayName_setDisplayNameSource (source : PropertySource) :
    (mc.setDisplayNameSource source).displayName = mc.displayName := by
  simp [setDisplayNameSource]

@[simp] theorem temporary_setDisplayNameSource (source : PropertySource) :
    (mc.setDisplayNameSource source).temporary = mc.temporary := by
  simp [setDisplayNameSource]

@[simp] theorem loading_setDisplayNameSource (source : PropertySource) :
    (mc.setDisplayNameSource source).loading = mc.loading := by
  simp [setDisplayNameSource]

@[simp] theorem displayName_dropContact (c : Nat) :
    (mc.dropContact c).displayName = mc.displayName := by
  simp [dropContact]

@[simp] theorem temporary_dropContact (c : Nat) :
    (mc.dropContact c).temporary = mc.temporary := by
  simp [dropContact]

@[simp] theorem loading_dropContact (c : Nat) : (mc.dropContact c).loading = mc.loading := by
  simp [dropContact]

@[simp] theorem temporary_addContact (c : Nat) :
    (mc.addContact c).temporary = mc.temporary := by
  unfold addContact
  split
  · rfl
  · simp only
    split <;> simp

theorem contacts_addContact (c : Nat) :
    (mc.addContact c).contacts = if c ∈ mc.contacts then mc.contacts else mc.contacts ++ [c] := by
  unfold addContact
  split
  · rfl
  · simp only
    split <;> simp

end MetaContact

/-- `Contact`. -/
structure Contact where
  displayName : QString
  metaContact : Option Nat
deriving DecidableEq

/-- Metacontacts and contacts by their addresses, and `ContactList`. -/
structure ContactList where
  metaContact : Nat → MetaContact
  contact : Nat → Contact
  /-- The metacontacts on the list. -/
  metaContacts : List Nat

namespace ContactList

variable (s : ContactList)

def setMeta (m : Nat) (mc : MetaContact) : ContactList :=
  { s with metaContact := Function.update s.metaContact m mc }

def setContact (c : Nat) (m : Option Nat) : ContactList :=
  { s with contact := Function.update s.contact c { s.contact c with metaContact := m } }

/-- `MetaContact::contacts`. -/
def contactsOf (m : Nat) : List Nat := (s.metaContact m).contacts

/-! ## Moving a contact -/

/-- `nameFromContact`. -/
def nameFromContact (c : Nat) : QString := (s.contact c).displayName.filter (· ≠ 10)

/-- `MetaContact::displayName`; the address book is empty. -/
def displayName (m : Nat) : QString :=
  let mc := (s.metaContact m).track
  if mc.displayNameSource = .kabc then
    if mc.kabcId ≠ [] ∨ mc.contacts ≠ [] then [] else mc.displayName
  else if mc.displayNameSource = .contact ∨ mc.displayName = [] then
    match mc.displayNameSourceContact with
    | some c => s.nameFromContact c
    | none => mc.displayName
  else mc.displayName

/-- `MetaContact::removeContact`. -/
def removeContact (rename : ContactList → Nat → QString → Option ContactList) (m c : Nat) :
    Option ContactList :=
  if c ∉ s.contactsOf m then some s
  else
    let mc := (s.metaContact m).dropContact c
    if (s.metaContact m).wasTrackingName then
      match mc.contacts with
      | [] => rename (s.setMeta m (mc.setDisplayNameSource .custom)) m (s.displayName m)
      | first :: _ => some (s.setMeta m { mc with displayNameSourceContact := some first })
    else some (s.setMeta m mc)

/-- `ContactList::removeMetaContact`; its contacts are deleted later. -/
def removeMetaContact (m : Nat) : ContactList :=
  if m ∉ s.metaContacts then s
  else { s with metaContacts := QList.removeAll s.metaContacts m }

/-- The back pointer of a contact, and its place in its new metacontact. -/
def putContact (c : Nat) (m : Option Nat) : ContactList :=
  let s := s.setContact c m
  match m with
  | none => s
  | some m => s.setMeta m ((s.metaContact m).addContact c)

/-- `Contact::setMetaContact`. -/
def setMetaContact (rename : ContactList → Nat → QString → Option ContactList) (c : Nat)
    (m : Option Nat) : Option ContactList :=
  let old := (s.contact c).metaContact
  if old = m then some s
  else do
    let s ← match old with
      | none => some s
      | some old => do
        let s ← s.removeContact rename old c
        if s.contactsOf old = [] then some (s.removeMetaContact old) else some s
    some (s.putContact c m)

/-- The loop that merges `m` into another metacontact: its first contact is moved while
there is one. -/
def mergeLoop (move : ContactList → Nat → Option ContactList) (m : Nat) :
    Nat → ContactList → Option ContactList
  | 0, _ => none
  | n + 1, s =>
    match s.contactsOf m with
    | [] => some s
    | c :: _ => (move s c).bind (mergeLoop move m n)

/-- The first metacontact on the list with a name that `m` is given. -/
def sameNamed (m : Nat) (name : QString) : Option Nat :=
  s.metaContacts.find? fun m' => !(s.metaContact m').temporary && m' ≠ m &&
    (s.metaContact m').displayName = name

def setName (m : Nat) (name : QString) : ContactList :=
  s.setMeta m { s.metaContact m with displayName := name }

/-- The merge in `MetaContact::setDisplayName`. -/
def mergeSameNamed (move : ContactList → Nat → Option ContactList) (n m : Nat) (name : QString) :
    Option ContactList :=
  if !(s.metaContact m).temporary && name ≠ [] then
    match s.sameNamed m name with
    | some m' => mergeLoop move m' n s
    | none => some s
  else some s

/-- `MetaContact::setDisplayName`; `none` when the fuel runs out. -/
def setDisplayName : Nat → ContactList → Nat → QString → Option ContactList
  | 0, _, _, _ => none
  | n + 1, s, m, name =>
    if name = (s.metaContact m).displayName then some s
    else if (s.metaContact m).loading then some (s.setName m name)
    else
      let move := fun (s : ContactList) c => s.setMetaContact (setDisplayName n) c (some m)
      (s.mergeSameNamed move n m name).map fun s => s.setName m name

/-! ## What a step touches -/

section Frame

variable {s}

@[simp] theorem contact_setMeta (m : Nat) (mc : MetaContact) :
    (s.setMeta m mc).contact = s.contact := rfl

@[simp] theorem metaContacts_setMeta (m : Nat) (mc : MetaContact) :
    (s.setMeta m mc).metaContacts = s.metaContacts := rfl

theorem metaContact_setMeta (m : Nat) (mc : MetaContact) (k : Nat) :
    (s.setMeta m mc).metaContact k = if k = m then mc else s.metaContact k :=
  Function.update_apply ..

theorem contactsOf_setMeta (m : Nat) (mc : MetaContact) (k : Nat) :
    (s.setMeta m mc).contactsOf k = if k = m then mc.contacts else s.contactsOf k := by
  unfold contactsOf
  rw [metaContact_setMeta]
  split <;> rfl

@[simp] theorem metaContact_setContact (c : Nat) (m : Option Nat) :
    (s.setContact c m).metaContact = s.metaContact := rfl

@[simp] theorem contactsOf_setContact (c : Nat) (m : Option Nat) :
    (s.setContact c m).contactsOf = s.contactsOf := rfl

@[simp] theorem metaContacts_setContact (c : Nat) (m : Option Nat) :
    (s.setContact c m).metaContacts = s.metaContacts := rfl

theorem pointer_setContact (c : Nat) (m : Option Nat) (k : Nat) :
    ((s.setContact c m).contact k).metaContact =
      if k = c then m else (s.contact k).metaContact := by
  have hUpdate := Function.update_apply s.contact c { s.contact c with metaContact := m } k
  unfold setContact
  simp only [hUpdate]
  split <;> rfl

theorem contactsOf_putContact (c : Nat) (m : Option Nat) (k : Nat) :
    (s.putContact c m).contactsOf k =
      if m = some k ∧ c ∉ s.contactsOf k then s.contactsOf k ++ [c] else s.contactsOf k := by
  cases m with
  | none => simp [putContact]
  | some m =>
    simp only [putContact, contactsOf_setMeta, MetaContact.contacts_addContact, Option.some.injEq]
    by_cases hSame : k = m
    · subst hSame
      by_cases hMem : c ∈ (s.metaContact k).contacts
      · simp [hMem, contactsOf]
      · simp [hMem, contactsOf]
    · simp [hSame, Ne.symm hSame]

theorem pointer_putContact (c : Nat) (m : Option Nat) (k : Nat) :
    ((s.putContact c m).contact k).metaContact =
      if k = c then m else (s.contact k).metaContact := by
  unfold putContact
  cases m with
  | none => exact pointer_setContact c none k
  | some m => exact pointer_setContact c (some m) k

theorem temporary_putContact (c : Nat) (m : Option Nat) (k : Nat) :
    ((s.putContact c m).metaContact k).temporary = (s.metaContact k).temporary := by
  cases m with
  | none => rfl
  | some m =>
    simp only [putContact, metaContact_setMeta]
    split
    · next hSame => simp [hSame]
    · rfl

@[simp] theorem metaContacts_putContact (c : Nat) (m : Option Nat) :
    (s.putContact c m).metaContacts = s.metaContacts := by
  unfold putContact
  cases m <;> rfl

@[simp] theorem metaContact_removeMetaContact (m : Nat) :
    (s.removeMetaContact m).metaContact = s.metaContact := by
  unfold removeMetaContact
  split <;> rfl

@[simp] theorem contact_removeMetaContact (m : Nat) :
    (s.removeMetaContact m).contact = s.contact := by
  unfold removeMetaContact
  split <;> rfl

@[simp] theorem contactsOf_removeMetaContact (m k : Nat) :
    (s.removeMetaContact m).contactsOf k = s.contactsOf k := by
  simp [contactsOf]

theorem metaContacts_removeMetaContact (m : Nat) :
    (s.removeMetaContact m).metaContacts = QList.removeAll s.metaContacts m := by
  unfold removeMetaContact
  split
  · next hOff => exact (QList.removeAll_of_not_mem hOff).symm
  · rfl

end Frame

/-! ## Consistency -/

/-- A contact is in the metacontact it points to, in no other, and once. -/
structure Consistent : Prop where
  mem_iff : ∀ c m, c ∈ s.contactsOf m ↔ (s.contact c).metaContact = some m
  nodup : ∀ m, (s.contactsOf m).Nodup

/-- The same, but for the contacts that are being moved, which are nowhere. -/
structure ConsistentBut (away : Nat → Prop) : Prop where
  mem_iff : ∀ c m, c ∈ s.contactsOf m ↔ (s.contact c).metaContact = some m ∧ ¬ away c
  nodup : ∀ m, (s.contactsOf m).Nodup

theorem consistentBut_iff : s.ConsistentBut (fun _ => False) ↔ s.Consistent := by
  constructor
  · exact fun h => ⟨fun c m => by simpa using h.mem_iff c m, h.nodup⟩
  · exact fun h => ⟨fun c m => by simpa using h.mem_iff c m, h.nodup⟩

section Sound

variable {s} {away : Nat → Prop} {rename : ContactList → Nat → QString → Option ContactList}

theorem consistentBut_drop (h : s.ConsistentBut away) {m c : Nat} {mc : MetaContact}
    (hContacts : mc.contacts = QList.removeAll (s.contactsOf m) c)
    (hIn : (s.contact c).metaContact = some m) :
    (s.setMeta m mc).ConsistentBut fun k => away k ∨ k = c := by
  constructor
  · intro x k
    rw [contactsOf_setMeta]
    by_cases hSame : k = m
    · subst hSame
      rw [if_pos rfl, hContacts, QList.mem_removeAll, h.mem_iff]
      simp only [contact_setMeta]
      tauto
    · rw [if_neg hSame, h.mem_iff]
      simp only [contact_setMeta]
      constructor
      · rintro ⟨hPointer, hHere⟩
        refine ⟨hPointer, ?_⟩
        rintro (hAway | rfl)
        · exact hHere hAway
        · exact hSame (Option.some.inj (hPointer.symm.trans hIn))
      · rintro ⟨hPointer, hNot⟩
        exact ⟨hPointer, fun hAway => hNot (.inl hAway)⟩
  · intro k
    rw [contactsOf_setMeta]
    split
    · rw [hContacts]
      exact QList.nodup_removeAll (h.nodup m) c
    · exact h.nodup k

theorem consistentBut_put {c : Nat} (h : s.ConsistentBut fun k => away k ∨ k = c) (hHere : ¬ away c)
    (m : Option Nat) : (s.putContact c m).ConsistentBut away := by
  have hNowhere : ∀ k, c ∉ s.contactsOf k := fun k hMem => ((h.mem_iff c k).1 hMem).2 (.inr rfl)
  constructor
  · intro x k
    rw [contactsOf_putContact, pointer_putContact]
    by_cases hSame : x = c
    · subst hSame
      by_cases hTarget : m = some k
      · simp [hTarget, hNowhere, hHere]
      · simp [hTarget, hNowhere]
    · have hMem := h.mem_iff x k
      simp only [hSame, or_false] at hMem
      rw [if_neg hSame, ← hMem]
      split
      · simp [hSame]
      · rfl
  · intro k
    rw [contactsOf_putContact]
    split
    · exact QList.nodup_append_iff.2 ⟨h.nodup k, hNowhere k⟩
    · exact h.nodup k

/-- A metacontact that is not on the list stays off it, temporary or not, and keeps its
contacts. -/
def Kept (s s' : ContactList) (p : Nat) : Prop :=
  p ∉ s.metaContacts → p ∉ s'.metaContacts ∧ (∀ c ∈ s.contactsOf p, c ∈ s'.contactsOf p) ∧
    (s'.metaContact p).temporary = (s.metaContact p).temporary

theorem kept_refl (p : Nat) : Kept s s p := fun hOff => ⟨hOff, fun _ hc => hc, rfl⟩

theorem kept_trans {s₁ s₂ s₃ : ContactList} {p : Nat} (h : Kept s₁ s₂ p) (h' : Kept s₂ s₃ p) :
    Kept s₁ s₃ p := by
  intro hOff
  obtain ⟨hOff', hContacts, hTemporary⟩ := h hOff
  obtain ⟨hOff'', hContacts', hTemporary'⟩ := h' hOff'
  exact ⟨hOff'', fun c hc => hContacts' c (hContacts c hc), hTemporary'.trans hTemporary⟩

/-- What is relied on of the renaming that comes in the middle of a move. -/
def Sound (rename : ContactList → Nat → QString → Option ContactList) : Prop :=
  ∀ ⦃away : Nat → Prop⦄ ⦃s : ContactList⦄ ⦃m : Nat⦄ ⦃name : QString⦄ ⦃s' : ContactList⦄,
    s.ConsistentBut away → rename s m name = some s' →
      s'.ConsistentBut away ∧ ∀ p, Kept s s' p

theorem removeContact_sound (hRename : Sound rename) (h : s.ConsistentBut away) {m c : Nat}
    (hIn : (s.contact c).metaContact = some m) (hHere : ¬ away c) {s' : ContactList}
    (hRemove : s.removeContact rename m c = some s') :
    (s'.ConsistentBut fun k => away k ∨ k = c) ∧ ∀ p, p ≠ m → Kept s s' p := by
  have hMem : c ∈ s.contactsOf m := (h.mem_iff c m).2 ⟨hIn, hHere⟩
  have hDrop : ∀ mc : MetaContact, mc.contacts = QList.removeAll (s.contactsOf m) c →
      ((s.setMeta m mc).ConsistentBut fun k => away k ∨ k = c) ∧
        ∀ p, p ≠ m → Kept s (s.setMeta m mc) p := by
    intro mc hContacts
    refine ⟨consistentBut_drop h hContacts hIn, fun p hOther hOff => ⟨hOff, fun x hx => ?_, ?_⟩⟩
    · rw [contactsOf_setMeta, if_neg hOther]
      exact hx
    · rw [metaContact_setMeta, if_neg hOther]
  unfold removeContact at hRemove
  rw [if_neg (by simpa using hMem)] at hRemove
  simp only at hRemove
  split at hRemove
  · split at hRemove
    · obtain ⟨hConsistent, hKept⟩ := hDrop
        (((s.metaContact m).dropContact c).setDisplayNameSource .custom) (by simp [contactsOf])
      obtain ⟨hConsistent', hKept'⟩ := hRename hConsistent hRemove
      exact ⟨hConsistent', fun p hOther => kept_trans (hKept p hOther) (hKept' p)⟩
    · obtain rfl := Option.some.inj hRemove
      exact hDrop _ (by simp [contactsOf])
  · obtain rfl := Option.some.inj hRemove
    exact hDrop _ (by simp [contactsOf])

/-- A metacontact whose last contact has left is taken off the list. -/
def unlist (s : ContactList) (old : Nat) : ContactList :=
  if s.contactsOf old = [] then s.removeMetaContact old else s

theorem setMetaContact_same {c : Nat} {m : Option Nat} (hSame : (s.contact c).metaContact = m) :
    s.setMetaContact rename c m = some s := if_pos hSame

theorem setMetaContact_none {c : Nat} {m : Option Nat} (hNone : (s.contact c).metaContact = none)
    (hMoves : (s.contact c).metaContact ≠ m) :
    s.setMetaContact rename c m = some (s.putContact c m) := by
  unfold setMetaContact
  simp only [if_neg hMoves]
  rw [hNone]
  rfl

theorem setMetaContact_some {c old : Nat} {m : Option Nat}
    (hOld : (s.contact c).metaContact = some old) (hMoves : (s.contact c).metaContact ≠ m) :
    s.setMetaContact rename c m =
      (s.removeContact rename old c).map fun s => (s.unlist old).putContact c m := by
  have hMoves' : ¬ some old = m := hOld ▸ hMoves
  unfold setMetaContact unlist
  simp only [hOld, if_neg hMoves']
  cases hRemove : s.removeContact rename old c with
  | none => rfl
  | some s' =>
    by_cases hEmpty : s'.contactsOf old = []
    · simp [hEmpty]
    · simp [hEmpty]

@[simp] theorem contactsOf_unlist (old k : Nat) : (s.unlist old).contactsOf k = s.contactsOf k := by
  unfold unlist
  split <;> simp

@[simp] theorem contact_unlist (old : Nat) : (s.unlist old).contact = s.contact := by
  unfold unlist
  split <;> simp

theorem mem_unlist {old k : Nat} :
    k ∈ (s.unlist old).metaContacts ↔ k ∈ s.metaContacts ∧ ¬ (k = old ∧ s.contactsOf old = []) := by
  unfold unlist
  split
  · next hEmpty => simp [metaContacts_removeMetaContact, hEmpty]
  · next hFull => simp [hFull]

theorem consistentBut_unlist (h : s.ConsistentBut away) (old : Nat) :
    (s.unlist old).ConsistentBut away :=
  ⟨fun c m => by simpa using h.mem_iff c m, fun m => by simpa using h.nodup m⟩

theorem kept_unlist (old p : Nat) : Kept s (s.unlist old) p := fun hOff =>
  ⟨fun hListed => hOff (mem_unlist.1 hListed).1, fun c hc => by simpa using hc, by
    unfold unlist
    split <;> simp⟩

theorem kept_putContact (c : Nat) (m : Option Nat) (p : Nat) : Kept s (s.putContact c m) p := by
  intro hOff
  refine ⟨by simpa using hOff, fun x hx => ?_, temporary_putContact c m p⟩
  rw [contactsOf_putContact]
  split
  · exact List.mem_append_left _ hx
  · exact hx

/-- **A move keeps the two sides consistent.** -/
theorem setMetaContact_sound (hRename : Sound rename) (h : s.ConsistentBut away) {c : Nat}
    (hHere : ¬ away c) {m : Option Nat} {s' : ContactList}
    (hMove : s.setMetaContact rename c m = some s') :
    s'.ConsistentBut away ∧ (s'.contact c).metaContact = m ∧
      ∀ p, (s.contact c).metaContact ≠ some p → Kept s s' p := by
  by_cases hSame : (s.contact c).metaContact = m
  · rw [setMetaContact_same hSame] at hMove
    obtain rfl := Option.some.inj hMove
    exact ⟨h, hSame, fun p _ => kept_refl p⟩
  cases hOld : (s.contact c).metaContact with
  | none =>
    rw [setMetaContact_none hOld hSame] at hMove
    obtain rfl := Option.some.inj hMove
    have hAway : s.ConsistentBut fun k => away k ∨ k = c := by
      refine ⟨fun x k => ?_, h.nodup⟩
      rw [h.mem_iff]
      constructor
      · rintro ⟨hPointer, hHere'⟩
        refine ⟨hPointer, ?_⟩
        rintro (hAway | rfl)
        · exact hHere' hAway
        · simp [hOld] at hPointer
      · rintro ⟨hPointer, hNot⟩
        exact ⟨hPointer, fun hAway => hNot (.inl hAway)⟩
    exact ⟨consistentBut_put hAway hHere m, by simp [pointer_putContact],
      fun p _ => kept_putContact c m p⟩
  | some old =>
    rw [setMetaContact_some hOld hSame] at hMove
    obtain ⟨s₁, hRemove, rfl⟩ := Option.map_eq_some_iff.1 hMove
    obtain ⟨hConsistent, hKept⟩ := removeContact_sound hRename h hOld hHere hRemove
    refine ⟨consistentBut_put (consistentBut_unlist hConsistent old) hHere m,
      by simp [pointer_putContact], fun p hOther => ?_⟩
    have hNe : p ≠ old := fun hSame => hOther (by rw [hSame])
    exact kept_trans (hKept p hNe) (kept_trans (kept_unlist old p) (kept_putContact c m p))

/-- **The merge loop ends with nothing left to move.** -/
theorem mergeLoop_sound (hRename : Sound rename) {m t : Nat} : ∀ {n : Nat} {s s' : ContactList},
    s.ConsistentBut away →
    mergeLoop (fun s c => s.setMetaContact rename c (some t)) m n s = some s' →
      s'.ConsistentBut away ∧ s'.contactsOf m = [] ∧ ∀ p, p ≠ m → Kept s s' p
  | 0, _, _, _, hLoop => by simp [mergeLoop] at hLoop
  | n + 1, s, s', h, hLoop => by
    rw [mergeLoop] at hLoop
    split at hLoop
    · next hEmpty =>
      obtain rfl := Option.some.inj hLoop
      exact ⟨h, hEmpty, fun p _ => kept_refl p⟩
    · next c rest hContacts =>
      obtain ⟨s₁, hMove, hRest⟩ := Option.bind_eq_some_iff.1 hLoop
      have hMem : c ∈ s.contactsOf m := by simp [hContacts]
      obtain ⟨hIn, hHere⟩ := (h.mem_iff c m).1 hMem
      obtain ⟨hConsistent, -, hKept⟩ := setMetaContact_sound hRename h hHere hMove
      obtain ⟨hConsistent', hEmpty, hKept'⟩ := mergeLoop_sound hRename hConsistent hRest
      refine ⟨hConsistent', hEmpty, fun p hOther => kept_trans (hKept p ?_) (hKept' p hOther)⟩
      rw [hIn]
      exact fun hSame => hOther (Option.some.inj hSame).symm

@[simp] theorem contactsOf_setName (m : Nat) (name : QString) (k : Nat) :
    (s.setName m name).contactsOf k = s.contactsOf k := by
  rw [setName, contactsOf_setMeta]
  split
  · next hSame =>
    subst hSame
    rfl
  · rfl

theorem consistentBut_setName (h : s.ConsistentBut away) (m : Nat) (name : QString) :
    (s.setName m name).ConsistentBut away ∧ ∀ p, Kept s (s.setName m name) p := by
  refine ⟨⟨fun c k => ?_, fun k => ?_⟩, fun p hOff => ⟨hOff, fun c hc => ?_, ?_⟩⟩
  · rw [contactsOf_setName]
    exact h.mem_iff c k
  · rw [contactsOf_setName]
    exact h.nodup k
  · rw [contactsOf_setName]
    exact hc
  · rw [setName, metaContact_setMeta]
    split
    · next hSame => rw [hSame]
    · rfl

/-- A metacontact that is found by its name is on the list. -/
theorem sameNamed_listed {m m' : Nat} {name : QString} (h : s.sameNamed m name = some m') :
    m' ∈ s.metaContacts := List.mem_of_find?_eq_some h

theorem mergeSameNamed_sound (hRename : Sound rename) (h : s.ConsistentBut away) {n m : Nat}
    {name : QString} {s' : ContactList}
    (hMerge : s.mergeSameNamed (fun s c => s.setMetaContact rename c (some m)) n m name = some s') :
    s'.ConsistentBut away ∧ ∀ p, Kept s s' p := by
  unfold mergeSameNamed at hMerge
  split at hMerge
  · split at hMerge
    · next m' hFound =>
      obtain ⟨hConsistent, -, hKept⟩ := mergeLoop_sound hRename h hMerge
      refine ⟨hConsistent, fun p hOff => hKept p ?_ hOff⟩
      rintro rfl
      exact hOff (sameNamed_listed hFound)
    · obtain rfl := Option.some.inj hMerge
      exact ⟨h, fun p => kept_refl p⟩
  · obtain rfl := Option.some.inj hMerge
    exact ⟨h, fun p => kept_refl p⟩

/-- **Naming a metacontact keeps the two sides consistent**, however deep the merges go. -/
theorem setDisplayName_sound : ∀ n, Sound (setDisplayName n)
  | 0 => fun _ _ _ _ _ _ hRename => by simp [setDisplayName] at hRename
  | n + 1 => by
    intro away s m name s' h hRename
    rw [setDisplayName] at hRename
    split at hRename
    · obtain rfl := Option.some.inj hRename
      exact ⟨h, fun p => kept_refl p⟩
    · split at hRename
      · obtain rfl := Option.some.inj hRename
        exact consistentBut_setName h m name
      · obtain ⟨s₁, hMerge, rfl⟩ := Option.map_eq_some_iff.1 hRename
        obtain ⟨hConsistent, hKept⟩ := mergeSameNamed_sound (setDisplayName_sound n) h hMerge
        obtain ⟨hConsistent', hKept'⟩ := consistentBut_setName hConsistent m name
        exact ⟨hConsistent', fun p => kept_trans (hKept p) (hKept' p)⟩

end Sound

end ContactList

end Kopete
