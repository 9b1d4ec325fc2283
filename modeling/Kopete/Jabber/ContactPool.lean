import Kopete.Jabber.ResourcePool

/-!
# Jabber — `JabberContactPool`

The contacts of an account, each with an item in the pool that goes when the contact is
destroyed. Contacts are looked up by their full JIDs, up to case. A contact of a room is
looked up by its bare JID; when it is made it adds the user as a member, under the full JID,
before it has an item of its own. Where a contact of another kind is found under the JID of
a room or a member it is deleted, and its metacontact is then asked for its other contacts.

Main results:

* `Removed.sound`, `Sound.appendItem_iff` — what taking away and adding do to the pool;
* `Sound.addMember_iff`, `Sound.addRoom_iff` — when a member or a room can be added;
* `Sound.call_iff` — when a call leaves the pool as it should be.
-/

namespace Jabber

/-- `JabberContact`, `JabberGroupContact` and `JabberGroupMemberContact`. -/
inductive ContactKind where
  | contact
  | group
  | groupMember
deriving DecidableEq, Repr

/-- `JabberBaseContact`: what it is, the JID of its roster item, and its metacontact. -/
structure PoolContact where
  kind : ContactKind
  jid : Jid
  metaContact : Option Nat

instance : Inhabited PoolContact := ⟨.contact, Jid.null, none⟩

structure JabberContactPoolItem where
  contact : Nat
  dirty : Bool
deriving DecidableEq, Repr

/-- `JabberContactPool`, with the contacts that its pointers lead to, the contact of the account
itself, and the next metacontact that will be made. -/
structure JabberContactPool where
  heap : Heap PoolContact
  mPool : List JabberContactPoolItem
  myself : Option Nat
  nextMetaContact : Nat

namespace JabberContactPool

variable (s : Strings) (d : JabberContactPool)

/-! ## Items -/

def contactOf (item : JabberContactPoolItem) : PoolContact :=
  (d.heap.get? item.contact).getD default

/-- What is compared of an item. -/
def key (item : JabberContactPoolItem) : QString := s.toLower (d.contactOf item).jid.full

def keys : List QString := d.mPool.map (d.key s)

/-- `JabberContactPool::findPoolItem`, and the search of the other functions. -/
def findPoolItem (jid : Jid) : Option JabberContactPoolItem :=
  d.mPool.find? fun item => d.key s item = s.toLower jid.full

/-- `JabberContactPoolItem::setDirty`, for the item of a contact. -/
def setItemDirty (p : Nat) (dirty : Bool) : JabberContactPool :=
  { d with mPool := d.mPool.map fun item =>
      if item.contact = p then { item with dirty := dirty } else item }

/-- `updateContact` and `setDirty`. -/
def updateItem (p : Nat) (jid : Jid) (dirty : Bool) : JabberContactPool :=
  { d.setItemDirty p dirty with heap := d.heap.modify p fun c => { c with jid := jid } }

/-- `delete`, and `slotContactDestroyed`. -/
def destroyContact (p : Nat) : JabberContactPool :=
  { d with heap := d.heap.delete p, mPool := d.mPool.eraseP (·.contact = p) }

/-- A new contact. -/
def alloc (c : PoolContact) : JabberContactPool := { d with heap := d.heap.new c }

/-- A new item. -/
def appendItem (p : Nat) (dirty : Bool) : JabberContactPool :=
  { d with mPool := d.mPool ++ [⟨p, dirty⟩] }

/-! ## Calls -/

/-- `JabberContactPool::addContact`, with the contact that it returns. -/
def addContact (jid : Jid) (metaContact : Option Nat) (dirty : Bool) :
    Option Nat × JabberContactPool :=
  match d.findPoolItem s jid with
  | some item =>
    if (d.contactOf item).kind = .contact then
      (some item.contact, d.updateItem item.contact jid dirty)
    else (none, d)
  | none =>
    (some d.heap.next, (d.alloc ⟨.contact, jid, metaContact⟩).appendItem d.heap.next dirty)

/-- The item under a JID if its contact is of the kind. -/
def existing (jid : Jid) (kind : ContactKind) : Option JabberContactPoolItem :=
  (d.findPoolItem s jid).filter fun item => (d.contactOf item).kind = kind

/-- The branch of `addGroupContact` where the contact is of another kind: `none` if it has no
metacontact, which is asked for its contacts then. -/
def removeBad (jid : Jid) : Option JabberContactPool :=
  match d.findPoolItem s jid with
  | none => some d
  | some item =>
    match (d.contactOf item).metaContact with
    | none => none
    | some _ => some (d.destroyContact item.contact)

/-- `addGroupContact` for a member. `JabberGroupMemberContact` sets the name of its metacontact. -/
def addMember (jid : Jid) (metaContact : Option Nat) (dirty : Bool) :
    Option (Option Nat × JabberContactPool) :=
  match d.existing s jid .groupMember with
  | some item => some (none, d.updateItem item.contact jid dirty)
  | none =>
    (d.removeBad s jid).bind fun d =>
      match metaContact with
      | none => none
      | some mc => some (some d.heap.next,
          (d.alloc ⟨.groupMember, jid, some mc⟩).appendItem d.heap.next dirty)

/-- `JabberGroupContact::addSubContact`, of the pool: the member gets a metacontact of its own. -/
def addSubContact (jid : Jid) : Option JabberContactPool :=
  match d.existing s jid .groupMember with
  | some _ => some d
  | none =>
    (addMember s { d with nextMetaContact := d.nextMetaContact + 1 } jid (some d.nextMetaContact)
      false).map Prod.snd

/-- The JID without its resource. -/
def bareJid (jid : Jid) : Jid := { jid with resource := [] }

/-- `addGroupContact` for a room. The constructor of `JabberGroupContact` adds the user. -/
def addRoom (jid : Jid) (metaContact : Option Nat) (dirty : Bool) :
    Option (Option Nat × JabberContactPool) :=
  match d.existing s (bareJid jid) .group with
  | some item => some (none, d.updateItem item.contact (bareJid jid) dirty)
  | none =>
    (d.removeBad s (bareJid jid)).bind fun d =>
      ((d.alloc ⟨.group, bareJid jid, metaContact⟩).addSubContact s jid).map fun d' =>
        (some d.heap.next, d'.appendItem d.heap.next dirty)

/-- `JabberContactPool::addGroupContact`; `none` if it dereferences a null metacontact. -/
def addGroupContact (jid : Jid) (roomContact : Bool) (metaContact : Option Nat) (dirty : Bool) :
    Option (Option Nat × JabberContactPool) :=
  if roomContact then d.addRoom s jid metaContact dirty else d.addMember s jid metaContact dirty

/-- `JabberContactPool::removeContact`. -/
def removeContact (jid : Jid) : JabberContactPool :=
  match d.findPoolItem s jid with
  | some item => if some item.contact = d.myself then d else d.destroyContact item.contact
  | none => d

/-- `JabberContactPool::setDirty`. -/
def setDirty (jid : Jid) (dirty : Bool) : JabberContactPool :=
  match d.findPoolItem s jid with
  | some item => d.setItemDirty item.contact dirty
  | none => d

/-- One round of the loop in `cleanUp`. -/
def destroyIfDirty (d : JabberContactPool) (item : JabberContactPoolItem) : JabberContactPool :=
  if item.dirty then d.destroyContact item.contact else d

/-- `JabberContactPool::cleanUp`. -/
def cleanUp : JabberContactPool := d.mPool.foldl destroyIfDirty d

/-- `Contact::setMetaContact`, and what becomes of a contact whose metacontact is destroyed. -/
def setMetaContact (p : Nat) (metaContact : Option Nat) : JabberContactPool :=
  { d with heap := d.heap.modify p fun c => { c with metaContact := metaContact } }

/-- The items of a roster are marked, and those of another one are added; then what is still dirty
goes. -/
def markAll (roster : List Jid) : JabberContactPool :=
  roster.foldl (fun d jid => d.setDirty s jid true) d

def addAll (roster : List (Jid × Option Nat)) : JabberContactPool :=
  roster.foldl (fun d item => (d.addContact s item.1 item.2 false).2) d

def synchronise (old : List Jid) (roster : List (Jid × Option Nat)) : JabberContactPool :=
  ((d.markAll s old).addAll s roster).cleanUp

inductive PoolCall
  | addContact (jid : Jid) (metaContact : Option Nat) (dirty : Bool)
  | addGroupContact (jid : Jid) (roomContact : Bool) (metaContact : Option Nat) (dirty : Bool)
  | removeContact (jid : Jid)
  | setDirty (jid : Jid) (dirty : Bool)
  | cleanUp
  | destroyContact (p : Nat)
  | setMetaContact (p : Nat) (metaContact : Option Nat)
  | synchronise (old : List Jid) (roster : List (Jid × Option Nat))

/-- The pool after a call; `none` if a null metacontact has been dereferenced. -/
def call (d : JabberContactPool) : PoolCall → Option JabberContactPool
  | .addContact jid metaContact dirty => some (d.addContact s jid metaContact dirty).2
  | .addGroupContact jid roomContact metaContact dirty =>
    (d.addGroupContact s jid roomContact metaContact dirty).map Prod.snd
  | .removeContact jid => some (d.removeContact s jid)
  | .setDirty jid dirty => some (d.setDirty s jid dirty)
  | .cleanUp => some d.cleanUp
  | .destroyContact p => some (d.destroyContact p)
  | .setMetaContact p metaContact => some (d.setMetaContact p metaContact)
  | .synchronise old roster => some (d.synchronise s old roster)

/-- An account that has no contacts yet. -/
def empty (myself : Option Nat) : JabberContactPool := ⟨Heap.empty, [], myself, 0⟩

/-! ## The invariant -/

/-- Every item has a living contact, and no two have the same full JID up to case. -/
structure Sound (d : JabberContactPool) : Prop where
  alive : ∀ item ∈ d.mPool, d.heap.Live item.contact
  distinct : (d.keys s).Nodup

/-- There is an item of the kind under the JID. -/
def Has (jid : Jid) (kind : ContactKind) : Prop :=
  ∃ item ∈ d.mPool, d.key s item = s.toLower jid.full ∧ (d.contactOf item).kind = kind

/-- What is under the JID has a metacontact. -/
def Yields (jid : Jid) : Prop :=
  ∀ item ∈ d.mPool, d.key s item = s.toLower jid.full →
    (d.contactOf item).metaContact.isSome = true

variable {s d}

theorem sound_empty (myself : Option Nat) : Sound s (empty myself) :=
  ⟨fun _ h => (nomatch h), List.nodup_nil⟩

theorem contactOf_congr {d' : JabberContactPool} {item item' : JabberContactPoolItem}
    (h : d'.heap.get? item'.contact = d.heap.get? item.contact) :
    d'.contactOf item' = d.contactOf item := by
  unfold contactOf
  rw [h]

theorem key_congr {d' : JabberContactPool} {item item' : JabberContactPoolItem}
    (h : d'.heap.get? item'.contact = d.heap.get? item.contact) :
    d'.key s item' = d.key s item := by
  unfold key
  rw [contactOf_congr h]

theorem Sound.eq_of_key (h : Sound s d) {a b : JabberContactPoolItem} (ha : a ∈ d.mPool)
    (hb : b ∈ d.mPool) (hKey : d.key s a = d.key s b) : a = b :=
  List.inj_on_of_nodup_map h.distinct ha hb hKey

theorem Sound.eq_of_contact (h : Sound s d) {a b : JabberContactPoolItem} (ha : a ∈ d.mPool)
    (hb : b ∈ d.mPool) (hSame : a.contact = b.contact) : a = b :=
  h.eq_of_key ha hb (key_congr (by rw [hSame]))

theorem findPoolItem_some {jid : Jid} {item : JabberContactPoolItem}
    (h : d.findPoolItem s jid = some item) :
    item ∈ d.mPool ∧ d.key s item = s.toLower jid.full :=
  ⟨List.mem_of_find?_eq_some h, by simpa using List.find?_some h⟩

theorem findPoolItem_none {jid : Jid} (h : d.findPoolItem s jid = none) :
    s.toLower jid.full ∉ d.keys s := by
  intro hMem
  obtain ⟨item, hItem, hKey⟩ := List.mem_map.1 hMem
  exact absurd (List.find?_eq_none.1 h item hItem) (by simp [hKey])

theorem existing_some {jid : Jid} {kind : ContactKind} {item : JabberContactPoolItem}
    (h : d.existing s jid kind = some item) :
    item ∈ d.mPool ∧ d.key s item = s.toLower jid.full ∧ (d.contactOf item).kind = kind := by
  obtain ⟨hFound, hKind⟩ := Option.filter_eq_some_iff.1 h
  obtain ⟨hMem, hKey⟩ := findPoolItem_some hFound
  exact ⟨hMem, hKey, by simpa using hKind⟩

theorem Sound.existing_none (h : Sound s d) {jid : Jid} {kind : ContactKind}
    (hNone : d.existing s jid kind = none) : ¬ d.Has s jid kind := by
  rintro ⟨item, hItem, hKey, hKind⟩
  cases hFound : d.findPoolItem s jid with
  | none => exact findPoolItem_none hFound (List.mem_map.2 ⟨item, hItem, hKey⟩)
  | some other =>
    obtain ⟨hMem, hOther⟩ := findPoolItem_some hFound
    obtain rfl := h.eq_of_key hMem hItem (hOther.trans hKey.symm)
    rw [existing, hFound, Option.filter_some, if_pos (decide_eq_true hKind)] at hNone
    cases hNone

/-! ## Taking away -/

/-- The pool after what does not meet a condition has been destroyed. -/
structure Removed (d : JabberContactPool) (keep : JabberContactPoolItem → Bool)
    (d' : JabberContactPool) : Prop where
  mPool : d'.mPool = d.mPool.filter keep
  kept : ∀ item ∈ d.mPool, keep item = true →
    d'.heap.get? item.contact = d.heap.get? item.contact

theorem Removed.get? {keep : JabberContactPoolItem → Bool} {d' : JabberContactPool}
    (h : Removed d keep d') {item : JabberContactPoolItem} (hItem : item ∈ d'.mPool) :
    d'.heap.get? item.contact = d.heap.get? item.contact := by
  rw [h.mPool] at hItem
  obtain ⟨hMem, hKeep⟩ := List.mem_filter.1 hItem
  exact h.kept item hMem hKeep

theorem Removed.keys {keep : JabberContactPoolItem → Bool} {d' : JabberContactPool}
    (h : Removed d keep d') : d'.keys s = (d.mPool.filter keep).map (d.key s) := by
  rw [JabberContactPool.keys, ← h.mPool]
  exact List.map_congr_left fun item hItem => key_congr (h.get? hItem)

/-- **Taking away** keeps the pool sound. -/
theorem Removed.sound (h : Sound s d) {keep : JabberContactPoolItem → Bool}
    {d' : JabberContactPool} (hRemoved : Removed d keep d') : Sound s d' := by
  refine ⟨fun item hItem => ?_, ?_⟩
  · have hMem := hItem
    rw [hRemoved.mPool] at hMem
    show (d'.heap.get? item.contact).isSome
    rw [hRemoved.get? hItem]
    exact h.alive item (List.mem_filter.1 hMem).1
  · rw [hRemoved.keys]
    exact h.distinct.sublist (List.filter_sublist.map _)

theorem eraseP_eq_filter {l : List JabberContactPoolItem} {p : Nat}
    (h : (l.map JabberContactPoolItem.contact).Nodup) :
    l.eraseP (·.contact = p) = l.filter (·.contact ≠ p) := by
  induction l with
  | nil => rfl
  | cons item l ih =>
    obtain ⟨hNot, hRest⟩ := List.nodup_cons.1 h
    rw [List.eraseP_cons, List.filter_cons]
    by_cases hItem : item.contact = p
    · have hOthers : l.filter (·.contact ≠ p) = l := List.filter_eq_self.2 fun other hOther => by
        refine decide_eq_true fun hSame => hNot ?_
        exact List.mem_map.2 ⟨other, hOther, hSame.trans hItem.symm⟩
      simp only [hItem, decide_true, cond_true, not_true, decide_false, ne_eq]
      simpa using hOthers.symm
    · simp only [hItem, decide_false, cond_false, ne_eq, not_false_eq_true, decide_true, if_true]
      rw [ih hRest]

theorem Sound.nodup_contact (h : Sound s d) :
    (d.mPool.map JabberContactPoolItem.contact).Nodup := by
  refine (List.nodup_map_iff_inj_on h.distinct.of_map).2 fun a ha b hb hSame => ?_
  exact h.eq_of_contact ha hb hSame

theorem Sound.removed_destroyContact (h : Sound s d) (p : Nat) :
    Removed d (·.contact ≠ p) (d.destroyContact p) :=
  ⟨eraseP_eq_filter h.nodup_contact, fun _ _ hKeep =>
    Heap.get?_delete_ne (of_decide_eq_true hKeep)⟩

theorem Sound.destroyContact (h : Sound s d) (p : Nat) : Sound s (d.destroyContact p) :=
  (h.removed_destroyContact p).sound h

theorem Sound.removeBad (h : Sound s d) {jid : Jid} (hYields : d.Yields s jid) :
    ∃ d', d.removeBad s jid = some d' ∧
      Removed d (fun item => d.key s item ≠ s.toLower jid.full) d' ∧
      ∀ p, (∀ item ∈ d.mPool, item.contact ≠ p) → d'.heap.get? p = d.heap.get? p := by
  unfold JabberContactPool.removeBad
  cases hFound : d.findPoolItem s jid with
  | none =>
    refine ⟨d, rfl, ⟨(List.filter_eq_self.2 fun item hItem => ?_).symm, fun _ _ _ => rfl⟩,
      fun _ _ => rfl⟩
    refine decide_eq_true fun hKey => findPoolItem_none hFound ?_
    exact List.mem_map.2 ⟨item, hItem, hKey⟩
  | some bad =>
    obtain ⟨hBad, hKey⟩ := findPoolItem_some hFound
    obtain ⟨mc, hMeta⟩ := Option.isSome_iff_exists.1 (hYields bad hBad hKey)
    have hRemoved := h.removed_destroyContact bad.contact
    have hOthers : ∀ item ∈ d.mPool,
        decide (item.contact ≠ bad.contact) = decide (d.key s item ≠ s.toLower jid.full) := by
      intro item hItem
      rw [decide_eq_decide, not_iff_not]
      exact ⟨fun hSame => by rw [h.eq_of_contact hItem hBad hSame, hKey],
        fun hSame => by rw [h.eq_of_key hItem hBad (hSame.trans hKey.symm)]⟩
    refine ⟨d.destroyContact bad.contact, by simp only [hMeta], ⟨?_, fun item hItem hKeep => ?_⟩,
      fun p hp => Heap.get?_delete_ne fun hSame => hp bad hBad hSame.symm⟩
    · rw [hRemoved.mPool]
      exact List.filter_congr hOthers
    · exact hRemoved.kept item hItem ((hOthers item hItem).trans hKeep)

theorem Sound.removeBad_none (h : Sound s d) {jid : Jid} (hNot : ¬ d.Yields s jid) :
    d.removeBad s jid = none := by
  unfold Yields at hNot
  push Not at hNot
  obtain ⟨bad, hBad, hKey, hMeta⟩ := hNot
  have hFound : d.findPoolItem s jid = some bad := by
    cases hFind : d.findPoolItem s jid with
    | none => exact absurd (List.mem_map.2 ⟨bad, hBad, hKey⟩) (findPoolItem_none hFind)
    | some other =>
      obtain ⟨hMem, hOther⟩ := findPoolItem_some hFind
      rw [h.eq_of_key hMem hBad (hOther.trans hKey.symm)]
  have hNone : (d.contactOf bad).metaContact = none := by simpa using hMeta
  simp only [JabberContactPool.removeBad, hFound, hNone]

/-! ## Changing and adding -/

theorem contact_setItemDirty (p : Nat) (dirty : Bool) (item : JabberContactPoolItem) :
    (if item.contact = p then { item with dirty := dirty } else item).contact = item.contact := by
  split
  · rfl
  · rfl

theorem keys_setItemDirty (p : Nat) (dirty : Bool) :
    (d.setItemDirty p dirty).keys s = d.keys s := by
  show (d.mPool.map _).map _ = _
  rw [List.map_map]
  exact List.map_congr_left fun item _ =>
    key_congr (congrArg d.heap.get? (contact_setItemDirty p dirty item))

theorem Sound.setItemDirty (h : Sound s d) (p : Nat) (dirty : Bool) :
    Sound s (d.setItemDirty p dirty) := by
  refine ⟨fun item hItem => ?_, by rw [keys_setItemDirty]; exact h.distinct⟩
  obtain ⟨old, hOld, rfl⟩ := List.mem_map.1 hItem
  show (d.heap.get? _).isSome
  rw [contact_setItemDirty]
  exact h.alive old hOld

theorem contactOf_modify {p : Nat} {c : PoolContact} (hp : d.heap.get? p = some c)
    (f : PoolContact → PoolContact) (item : JabberContactPoolItem) :
    contactOf { d with heap := d.heap.modify p f } item =
      if item.contact = p then f c else d.contactOf item := by
  show ((d.heap.modify p f).get? item.contact).getD default = _
  split
  case isTrue hSame =>
    rw [hSame, Heap.get?_modify_self, hp]
    rfl
  case isFalse hOther => rw [Heap.get?_modify_ne f hOther, contactOf]

theorem keys_modify {p : Nat} {f : PoolContact → PoolContact}
    (hf : ∀ c, d.heap.get? p = some c → s.toLower (f c).jid.full = s.toLower c.jid.full) :
    keys s { d with heap := d.heap.modify p f } = d.keys s := by
  refine List.map_congr_left fun item _ => ?_
  by_cases hSame : item.contact = p
  · cases hGet : d.heap.get? p with
    | none =>
      refine key_congr ?_
      show (d.heap.modify p f).get? _ = _
      rw [hSame, Heap.get?_modify_self, hGet]
      rfl
    | some c =>
      have hOld : d.contactOf item = c := by
        rw [contactOf, hSame, hGet]
        rfl
      rw [key, key, contactOf_modify hGet, if_pos hSame, hOld]
      exact hf c hGet
  · exact key_congr (Heap.get?_modify_ne f hSame)

theorem Sound.modify (h : Sound s d) {p : Nat} {f : PoolContact → PoolContact}
    (hf : ∀ c, d.heap.get? p = some c → s.toLower (f c).jid.full = s.toLower c.jid.full) :
    Sound s { d with heap := d.heap.modify p f } :=
  ⟨fun item hItem => (h.alive item hItem).modify p f, by rw [keys_modify hf]; exact h.distinct⟩

theorem Sound.updateItem (h : Sound s d) {item : JabberContactPoolItem} {jid : Jid}
    (hKey : d.key s item = s.toLower jid.full) (dirty : Bool) :
    Sound s (d.updateItem item.contact jid dirty) ∧
      (d.updateItem item.contact jid dirty).keys s = d.keys s := by
  have hSame : ∀ c, (d.setItemDirty item.contact dirty).heap.get? item.contact = some c →
      s.toLower ({ c with jid := jid } : PoolContact).jid.full = s.toLower c.jid.full := by
    intro c hc
    have hOld : d.contactOf item = c := by
      rw [contactOf]
      exact congrArg (Option.getD · default) hc
    rw [← hOld]
    exact hKey.symm
  exact ⟨(h.setItemDirty item.contact dirty).modify hSame,
    (keys_modify hSame).trans (keys_setItemDirty item.contact dirty)⟩

theorem get?_alloc {c : PoolContact} {p : Nat} (hp : d.heap.Live p) :
    (d.alloc c).heap.get? p = d.heap.get? p :=
  Heap.get?_new_of_live c hp

theorem Sound.alloc (h : Sound s d) (c : PoolContact) :
    Sound s (d.alloc c) ∧ (d.alloc c).keys s = d.keys s := by
  have hKeys : (d.alloc c).keys s = d.keys s :=
    List.map_congr_left fun item hItem => key_congr (get?_alloc (h.alive item hItem))
  exact ⟨⟨fun item hItem => (h.alive item hItem).new c, by rw [hKeys]; exact h.distinct⟩, hKeys⟩

theorem keys_appendItem {p : Nat} {c : PoolContact} (hp : d.heap.get? p = some c) (dirty : Bool) :
    (d.appendItem p dirty).keys s = d.keys s ++ [s.toLower c.jid.full] := by
  have hKey : d.key s ⟨p, dirty⟩ = s.toLower c.jid.full := by
    rw [key, contactOf, hp]
    rfl
  rw [← hKey]
  exact List.map_append

/-- **Adding an item** keeps the pool sound if there is none with this JID. -/
theorem Sound.appendItem_iff (h : Sound s d) {p : Nat} {c : PoolContact}
    (hp : d.heap.get? p = some c) (dirty : Bool) :
    Sound s (d.appendItem p dirty) ↔ s.toLower c.jid.full ∉ d.keys s := by
  have hKeys := keys_appendItem (s := s) hp dirty
  constructor
  · intro hSound
    have hDistinct := hSound.distinct
    rw [hKeys, QList.nodup_append_iff] at hDistinct
    exact hDistinct.2
  · intro hNot
    refine ⟨fun item hItem => ?_, ?_⟩
    · rcases List.mem_append.1 hItem with hOld | hNew
      · exact h.alive item hOld
      · rw [List.mem_singleton.1 hNew]
        show (d.heap.get? p).isSome
        rw [hp]
        rfl
    · rw [hKeys, QList.nodup_append_iff]
      exact ⟨h.distinct, hNot⟩

theorem keys_append (h : Sound s d) (c : PoolContact) (dirty : Bool) :
    ((d.alloc c).appendItem d.heap.next dirty).keys s = d.keys s ++ [s.toLower c.jid.full] := by
  obtain ⟨_, hKeys⟩ := h.alloc c
  rw [keys_appendItem (Heap.get?_new_self c) dirty, hKeys]

theorem Sound.append (h : Sound s d) {c : PoolContact} (hNew : s.toLower c.jid.full ∉ d.keys s)
    (dirty : Bool) : Sound s ((d.alloc c).appendItem d.heap.next dirty) := by
  obtain ⟨hSound, hKeys⟩ := h.alloc c
  refine (hSound.appendItem_iff (Heap.get?_new_self c) dirty).2 ?_
  rwa [hKeys]

/-! ## Members and rooms -/

/-- The pool with an item under the JID; a contact that is no item's yet is left alone. -/
structure Added (s : Strings) (d : JabberContactPool) (jid : Jid) (d' : JabberContactPool) :
    Prop where
  sound : Sound s d'
  mem_keys : ∀ k, k ∈ d'.keys s ↔ k ∈ d.keys s ∨ k = s.toLower jid.full
  frame : ∀ p, d.heap.Live p → (∀ item ∈ d.mPool, item.contact ≠ p) →
    d'.heap.get? p = d.heap.get? p

theorem Has.mem_keys {jid : Jid} {kind : ContactKind} (h : d.Has s jid kind) :
    s.toLower jid.full ∈ d.keys s := by
  obtain ⟨item, hItem, hKey, _⟩ := h
  exact List.mem_map.2 ⟨item, hItem, hKey⟩

theorem Removed.mem_keys {jid : Jid} {d' : JabberContactPool}
    (h : Removed d (fun item => d.key s item ≠ s.toLower jid.full) d') (k : QString) :
    k ∈ d'.keys s ↔ k ∈ d.keys s ∧ k ≠ s.toLower jid.full := by
  rw [h.keys, JabberContactPool.keys, List.mem_map, List.mem_map]
  constructor
  · rintro ⟨item, hItem, rfl⟩
    obtain ⟨hMem, hNot⟩ := List.mem_filter.1 hItem
    exact ⟨⟨item, hMem, rfl⟩, of_decide_eq_true hNot⟩
  · rintro ⟨⟨item, hItem, rfl⟩, hNot⟩
    exact ⟨item, List.mem_filter.2 ⟨hItem, decide_eq_true hNot⟩, rfl⟩

/-- When a member can be added. -/
def MemberFits (s : Strings) (d : JabberContactPool) (jid : Jid) : Prop :=
  d.Has s jid .groupMember ∨ d.Yields s jid

theorem Sound.added_member (h : Sound s d) {jid : Jid} {metaContact : Option Nat} (dirty : Bool)
    (hFits : d.Has s jid .groupMember ∨ d.Yields s jid ∧ metaContact.isSome = true) :
    ∃ result, d.addMember s jid metaContact dirty = some result ∧ Added s d jid result.2 := by
  unfold JabberContactPool.addMember
  cases hExisting : d.existing s jid .groupMember with
  | some item =>
    obtain ⟨hItem, hKey, hKind⟩ := existing_some hExisting
    obtain ⟨hSound, hKeys⟩ := h.updateItem hKey dirty
    refine ⟨_, rfl, hSound, fun k => ?_, fun p _ hp => Heap.get?_modify_ne _ (hp item hItem).symm⟩
    show k ∈ (d.updateItem item.contact jid dirty).keys s ↔ _
    rw [hKeys]
    refine ⟨Or.inl, ?_⟩
    rintro (hOld | rfl)
    · exact hOld
    · exact Has.mem_keys ⟨item, hItem, hKey, hKind⟩
  | none =>
    obtain ⟨hYields, hMeta⟩ := hFits.resolve_left (h.existing_none hExisting)
    obtain ⟨mc, rfl⟩ := Option.isSome_iff_exists.1 hMeta
    obtain ⟨d', hBad, hRemoved, hFrame⟩ := h.removeBad hYields
    have hSound := hRemoved.sound h
    have hNew : s.toLower jid.full ∉ d'.keys s := fun hMem => ((hRemoved.mem_keys _).1 hMem).2 rfl
    refine ⟨(some d'.heap.next,
        (d'.alloc ⟨.groupMember, jid, some mc⟩).appendItem d'.heap.next dirty), ?_, ?_⟩
    · rw [hBad]
      rfl
    refine ⟨hSound.append hNew dirty, fun k => ?_, fun p hLive hp => ?_⟩
    · show k ∈ (JabberContactPool.appendItem _ _ dirty).keys s ↔ _
      rw [keys_append hSound, List.mem_append, List.mem_singleton, hRemoved.mem_keys]
      show k ∈ d.keys s ∧ k ≠ s.toLower jid.full ∨ k = s.toLower jid.full ↔ _
      tauto
    · have hKept := hFrame p hp
      have hLive' : d'.heap.Live p := by
        rw [Heap.Live, hKept]
        exact hLive
      exact (get?_alloc hLive').trans hKept

theorem Sound.addMember_none (h : Sound s d) {jid : Jid} {metaContact : Option Nat} (dirty : Bool)
    (hNot : ¬ (d.Has s jid .groupMember ∨ d.Yields s jid ∧ metaContact.isSome = true)) :
    d.addMember s jid metaContact dirty = none := by
  obtain ⟨hHas, hRest⟩ := not_or.1 hNot
  unfold JabberContactPool.addMember
  cases hExisting : d.existing s jid .groupMember with
  | some item => exact absurd ⟨item, existing_some hExisting⟩ hHas
  | none =>
    by_cases hYields : d.Yields s jid
    · have hMeta : metaContact = none := by
        simpa using fun hSome => hRest ⟨hYields, hSome⟩
      subst hMeta
      obtain ⟨d', hBad, _⟩ := h.removeBad hYields
      simp only [hBad, Option.bind_some]
    · simp only [h.removeBad_none hYields, Option.bind_none]

/-- **A member** is added unless a null metacontact is dereferenced. -/
theorem Sound.addMember_iff (h : Sound s d) (jid : Jid) (metaContact : Option Nat) (dirty : Bool) :
    (∃ result, d.addMember s jid metaContact dirty = some result ∧ Sound s result.2) ↔
      d.Has s jid .groupMember ∨ d.Yields s jid ∧ metaContact.isSome = true := by
  constructor
  · rintro ⟨result, hResult, _⟩
    by_contra hNot
    rw [h.addMember_none dirty hNot] at hResult
    cases hResult
  · intro hFits
    obtain ⟨result, hResult, hAdded⟩ := h.added_member dirty hFits
    exact ⟨result, hResult, hAdded.sound⟩

theorem Sound.added_subContact (h : Sound s d) {jid : Jid} (hFits : MemberFits s d jid) :
    ∃ d', d.addSubContact s jid = some d' ∧ Added s d jid d' := by
  unfold JabberContactPool.addSubContact
  cases hExisting : d.existing s jid .groupMember with
  | some item =>
    refine ⟨d, rfl, h, fun k => ⟨Or.inl, ?_⟩, fun _ _ _ => rfl⟩
    rintro (hOld | rfl)
    · exact hOld
    · exact Has.mem_keys ⟨item, existing_some hExisting⟩
  | none =>
    have hSame : Sound s { d with nextMetaContact := d.nextMetaContact + 1 } :=
      ⟨h.alive, h.distinct⟩
    have hMember : d.Has s jid .groupMember ∨
        d.Yields s jid ∧ (some d.nextMetaContact).isSome = true :=
      hFits.imp_right fun hYields => ⟨hYields, rfl⟩
    obtain ⟨result, hResult, hAdded⟩ := hSame.added_member false hMember
    refine ⟨result.2, ?_, hAdded.sound, hAdded.mem_keys, hAdded.frame⟩
    simp only [hResult, Option.map_some]

theorem Sound.addSubContact_none (h : Sound s d) {jid : Jid} (hNot : ¬ MemberFits s d jid) :
    d.addSubContact s jid = none := by
  obtain ⟨hHas, hYields⟩ := not_or.1 hNot
  unfold JabberContactPool.addSubContact
  cases hExisting : d.existing s jid .groupMember with
  | some item => exact absurd ⟨item, existing_some hExisting⟩ hHas
  | none =>
    have hSame : Sound s { d with nextMetaContact := d.nextMetaContact + 1 } :=
      ⟨h.alive, h.distinct⟩
    have hMember : ¬ (d.Has s jid .groupMember ∨
        d.Yields s jid ∧ (some d.nextMetaContact).isSome = true) :=
      not_or.2 ⟨hHas, fun hBoth => hYields hBoth.1⟩
    have hNone := hSame.addMember_none false hMember
    simp only [hNone, Option.map_none]

/-- When a room can be added: the user can be added to it under a JID of their own. -/
def RoomFits (s : Strings) (d : JabberContactPool) (jid : Jid) : Prop :=
  d.Has s (bareJid jid) .group ∨
    d.Yields s (bareJid jid) ∧ s.toLower jid.full ≠ s.toLower (bareJid jid).full ∧
      MemberFits s d jid

theorem memberFits_congr {d' : JabberContactPool} {keep : JabberContactPoolItem → Bool}
    (hRemoved : Removed d keep d') {jid : Jid}
    (hKeep : ∀ item ∈ d.mPool, d.key s item = s.toLower jid.full → keep item = true) :
    MemberFits s d' jid ↔ MemberFits s d jid := by
  have hSame : ∀ item ∈ d'.mPool, d'.contactOf item = d.contactOf item :=
    fun item hItem => contactOf_congr (hRemoved.get? hItem)
  have hKeys : ∀ item ∈ d'.mPool, d'.key s item = d.key s item :=
    fun item hItem => key_congr (hRemoved.get? hItem)
  have hMem : ∀ item, item ∈ d'.mPool ↔ item ∈ d.mPool ∧ keep item = true := by
    intro item
    rw [hRemoved.mPool, List.mem_filter]
  refine or_congr ⟨?_, ?_⟩ ⟨fun h item hItem hKey => ?_, fun h item hItem hKey => ?_⟩
  · rintro ⟨item, hItem, hKey, hKind⟩
    rw [hKeys item hItem] at hKey
    rw [hSame item hItem] at hKind
    exact ⟨item, ((hMem item).1 hItem).1, hKey, hKind⟩
  · rintro ⟨item, hItem, hKey, hKind⟩
    have hStays := (hMem item).2 ⟨hItem, hKeep item hItem hKey⟩
    refine ⟨item, hStays, ?_, ?_⟩
    · rw [hKeys item hStays, hKey]
    · rw [hSame item hStays, hKind]
  · have hStays := (hMem item).2 ⟨hItem, hKeep item hItem hKey⟩
    rw [← hSame item hStays]
    exact h item hStays ((hKeys item hStays).trans hKey)
  · rw [hSame item hItem]
    exact h item ((hMem item).1 hItem).1 ((hKeys item hItem).symm.trans hKey)

theorem Sound.removed_alloc (h : Sound s d) (c : PoolContact) :
    Removed d (fun _ => true) (d.alloc c) :=
  ⟨(List.filter_eq_self.2 fun _ _ => rfl).symm, fun item hItem _ => get?_alloc (h.alive item hItem)⟩

theorem Sound.appendRoom_iff (h : Sound s d) {jid : Jid} {metaContact : Option Nat}
    (hFree : s.toLower (bareJid jid).full ∉ d.keys s) {d' : JabberContactPool}
    (hAdded : Added s (d.alloc ⟨.group, bareJid jid, metaContact⟩) jid d') (dirty : Bool) :
    Sound s (d'.appendItem d.heap.next dirty) ↔
      s.toLower jid.full ≠ s.toLower (bareJid jid).full := by
  obtain ⟨_, hKeys⟩ := h.alloc ⟨.group, bareJid jid, metaContact⟩
  have hRoom : ∀ item ∈ (d.alloc ⟨.group, bareJid jid, metaContact⟩).mPool,
      item.contact ≠ d.heap.next := fun item hItem => (h.alive item hItem).ne_next
  have hGet : d'.heap.get? d.heap.next = some ⟨.group, bareJid jid, metaContact⟩ :=
    (hAdded.frame _ (Heap.live_new_self _) hRoom).trans (Heap.get?_new_self _)
  rw [hAdded.sound.appendItem_iff hGet dirty, hAdded.mem_keys, hKeys, not_or]
  exact ⟨fun hBoth hSame => hBoth.2 hSame.symm, fun hNe => ⟨hFree, fun hSame => hNe hSame.symm⟩⟩

theorem Sound.memberFits_room {d' : JabberContactPool} (h : Sound s d') {jid : Jid}
    (hRemoved : Removed d (fun item => d.key s item ≠ s.toLower (bareJid jid).full) d')
    (c : PoolContact) (hNe : s.toLower jid.full ≠ s.toLower (bareJid jid).full) :
    MemberFits s (d'.alloc c) jid ↔ MemberFits s d jid := by
  rw [memberFits_congr (h.removed_alloc c) fun _ _ _ => rfl]
  exact memberFits_congr hRemoved fun item _ hKey =>
    decide_eq_true fun hSame => hNe (hKey.symm.trans hSame)

/-- **A room** is added, and the pool is sound, under exactly this condition. -/
theorem Sound.addRoom_iff (h : Sound s d) (jid : Jid) (metaContact : Option Nat) (dirty : Bool) :
    (∃ result, d.addRoom s jid metaContact dirty = some result ∧ Sound s result.2) ↔
      RoomFits s d jid := by
  unfold JabberContactPool.addRoom RoomFits
  cases hExisting : d.existing s (bareJid jid) .group with
  | some item =>
    have hFound := existing_some hExisting
    exact iff_of_true ⟨_, rfl, (h.updateItem hFound.2.1 dirty).1⟩ (Or.inl ⟨item, hFound⟩)
  | none =>
    have hHas := h.existing_none hExisting
    by_cases hYields : d.Yields s (bareJid jid)
    swap
    · rw [h.removeBad_none hYields]
      refine iff_of_false ?_ ?_
      · rintro ⟨result, hResult, _⟩
        cases hResult
      · rintro (hOld | ⟨hNew, _⟩)
        · exact hHas hOld
        · exact hYields hNew
    obtain ⟨d', hBad, hRemoved, _⟩ := h.removeBad hYields
    have hRemains := hRemoved.sound h
    have hSound := (hRemains.alloc ⟨.group, bareJid jid, metaContact⟩).1
    have hFree : s.toLower (bareJid jid).full ∉ d'.keys s :=
      fun hMem => ((hRemoved.mem_keys _).1 hMem).2 rfl
    simp only [hBad, Option.bind_some]
    constructor
    · rintro ⟨result, hResult, hDone⟩
      obtain ⟨d₂, hSub, rfl⟩ := Option.map_eq_some_iff.1 hResult
      have hFits : MemberFits s (d'.alloc ⟨.group, bareJid jid, metaContact⟩) jid := by
        by_contra hNot
        rw [hSound.addSubContact_none hNot] at hSub
        cases hSub
      obtain ⟨d₃, hSame, hAdded⟩ := hSound.added_subContact hFits
      obtain rfl : d₃ = d₂ := Option.some.inj (hSame.symm.trans hSub)
      have hNe := (hRemains.appendRoom_iff hFree hAdded dirty).1 hDone
      exact Or.inr ⟨hYields, hNe, (hRemains.memberFits_room hRemoved _ hNe).1 hFits⟩
    · rintro (hOld | ⟨_, hNe, hFits⟩)
      · exact absurd hOld hHas
      · obtain ⟨d₂, hSub, hAdded⟩ :=
          hSound.added_subContact ((hRemains.memberFits_room hRemoved _ hNe).2 hFits)
        refine ⟨(some d'.heap.next, d₂.appendItem d'.heap.next dirty), ?_, ?_⟩
        · rw [hSub]
          rfl
        · exact (hRemains.appendRoom_iff hFree hAdded dirty).2 hNe

/-- When a group contact can be added. -/
def GroupFits (s : Strings) (d : JabberContactPool) (jid : Jid) (roomContact : Bool)
    (metaContact : Option Nat) : Prop :=
  if roomContact then RoomFits s d jid
  else d.Has s jid .groupMember ∨ d.Yields s jid ∧ metaContact.isSome = true

theorem Sound.addGroupContact_iff (h : Sound s d) (jid : Jid) (roomContact : Bool)
    (metaContact : Option Nat) (dirty : Bool) :
    (∃ result, d.addGroupContact s jid roomContact metaContact dirty = some result ∧
      Sound s result.2) ↔ GroupFits s d jid roomContact metaContact := by
  cases roomContact with
  | true => exact h.addRoom_iff jid metaContact dirty
  | false => exact h.addMember_iff jid metaContact dirty

/-! ## The other calls -/

theorem Sound.addContact (h : Sound s d) (jid : Jid) (metaContact : Option Nat) (dirty : Bool) :
    Sound s (d.addContact s jid metaContact dirty).2 := by
  unfold JabberContactPool.addContact
  cases hFound : d.findPoolItem s jid with
  | some item =>
    show Sound s (if _ then _ else _ : Option Nat × JabberContactPool).2
    split
    · exact (h.updateItem (findPoolItem_some hFound).2 dirty).1
    · exact h
  | none => exact h.append (findPoolItem_none hFound) dirty

theorem Sound.removeContact (h : Sound s d) (jid : Jid) : Sound s (d.removeContact s jid) := by
  unfold JabberContactPool.removeContact
  split
  · split
    · exact h
    · exact h.destroyContact _
  · exact h

theorem Sound.setDirty (h : Sound s d) (jid : Jid) (dirty : Bool) :
    Sound s (d.setDirty s jid dirty) := by
  unfold JabberContactPool.setDirty
  split
  · exact h.setItemDirty _ dirty
  · exact h

theorem Sound.setMetaContact (h : Sound s d) (p : Nat) (metaContact : Option Nat) :
    Sound s (d.setMetaContact p metaContact) :=
  h.modify fun _ _ => rfl

theorem Removed.trans {d₁ d₂ : JabberContactPool} {keep keep' : JabberContactPoolItem → Bool}
    (h : Removed d keep d₁) (h' : Removed d₁ keep' d₂) :
    Removed d (fun item => keep item && keep' item) d₂ := by
  refine ⟨?_, fun item hItem hBoth => ?_⟩
  · rw [h'.mPool, h.mPool, List.filter_filter]
    exact List.filter_congr fun item _ => Bool.and_comm ..
  · obtain ⟨hKeep, hKeep'⟩ := Bool.and_eq_true_iff.1 hBoth
    have hStays : item ∈ d₁.mPool := by
      rw [h.mPool]
      exact List.mem_filter.2 ⟨hItem, hKeep⟩
    rw [h'.kept item hStays hKeep', h.kept item hItem hKeep]

theorem Removed.refl : Removed d (fun _ => true) d :=
  ⟨(List.filter_eq_self.2 fun _ _ => rfl).symm, fun _ _ _ => rfl⟩

theorem Removed.congr {keep keep' : JabberContactPoolItem → Bool} {d' : JabberContactPool}
    (h : Removed d keep d') (hSame : ∀ item ∈ d.mPool, keep item = keep' item) :
    Removed d keep' d' :=
  ⟨h.mPool.trans (List.filter_congr hSame), fun item hItem hKeep =>
    h.kept item hItem ((hSame item hItem).trans hKeep)⟩

/-- The loop of `cleanUp` over a copy of the list. -/
theorem Sound.removed_foldl (h : Sound s d) (items : List JabberContactPoolItem) :
    Removed d (fun item => items.all fun other => !other.dirty || item.contact ≠ other.contact)
      (items.foldl destroyIfDirty d) := by
  induction items generalizing d with
  | nil => exact Removed.refl
  | cons other items ih =>
    have hFirst : Removed d (fun item => !other.dirty || item.contact ≠ other.contact)
        (destroyIfDirty d other) := by
      unfold destroyIfDirty
      cases hDirty : other.dirty with
      | true => exact (h.removed_destroyContact other.contact).congr fun _ _ => rfl
      | false => exact Removed.refl
    exact (hFirst.trans (ih (hFirst.sound h))).congr fun _ _ => rfl

/-- **`cleanUp`** takes away what is dirty. -/
theorem Sound.removed_cleanUp (h : Sound s d) : Removed d (fun item => !item.dirty) d.cleanUp := by
  refine (h.removed_foldl d.mPool).congr fun item hItem => ?_
  rw [Bool.eq_iff_iff, List.all_eq_true]
  constructor
  · intro hAll
    simpa using hAll item hItem
  · intro hClean other hOther
    by_cases hSame : item.contact = other.contact
    · obtain rfl := h.eq_of_contact hItem hOther hSame
      rw [hClean, Bool.true_or]
    · simp [hSame]

theorem Sound.markAll (h : Sound s d) (old : List Jid) : Sound s (d.markAll s old) := by
  induction old generalizing d with
  | nil => exact h
  | cons jid old ih => exact ih (h.setDirty jid true)

theorem Sound.addAll (h : Sound s d) (roster : List (Jid × Option Nat)) :
    Sound s (d.addAll s roster) := by
  induction roster generalizing d with
  | nil => exact h
  | cons item roster ih => exact ih (h.addContact item.1 item.2 false)

theorem Sound.synchronise (h : Sound s d) (old : List Jid) (roster : List (Jid × Option Nat)) :
    Sound s (d.synchronise s old roster) :=
  have hAdded := (h.markAll old).addAll roster
  hAdded.removed_cleanUp.sound hAdded

/-- When the pool is sound after a call. -/
def CallFits (s : Strings) (d : JabberContactPool) : PoolCall → Prop
  | .addGroupContact jid roomContact metaContact _ => GroupFits s d jid roomContact metaContact
  | _ => True

/-- **One call** returns and leaves the pool sound under exactly this condition. -/
theorem Sound.call_iff (h : Sound s d) (c : PoolCall) :
    (∃ d', d.call s c = some d' ∧ Sound s d') ↔ CallFits s d c := by
  cases c with
  | addGroupContact jid roomContact metaContact dirty =>
    show (∃ d', (d.addGroupContact s jid roomContact metaContact dirty).map Prod.snd = some d' ∧
      Sound s d') ↔ GroupFits s d jid roomContact metaContact
    rw [← h.addGroupContact_iff jid roomContact metaContact dirty]
    constructor
    · rintro ⟨d', hCall, hSound⟩
      obtain ⟨result, hResult, rfl⟩ := Option.map_eq_some_iff.1 hCall
      exact ⟨result, hResult, hSound⟩
    · rintro ⟨result, hResult, hSound⟩
      exact ⟨result.2, by rw [hResult]; rfl, hSound⟩
  | addContact jid metaContact dirty =>
    exact iff_of_true ⟨_, rfl, h.addContact jid metaContact dirty⟩ trivial
  | removeContact jid => exact iff_of_true ⟨_, rfl, h.removeContact jid⟩ trivial
  | setDirty jid dirty => exact iff_of_true ⟨_, rfl, h.setDirty jid dirty⟩ trivial
  | cleanUp => exact iff_of_true ⟨_, rfl, h.removed_cleanUp.sound h⟩ trivial
  | destroyContact p => exact iff_of_true ⟨_, rfl, h.destroyContact p⟩ trivial
  | setMetaContact p metaContact =>
    exact iff_of_true ⟨_, rfl, h.setMetaContact p metaContact⟩ trivial
  | synchronise old roster => exact iff_of_true ⟨_, rfl, h.synchronise old roster⟩ trivial

end JabberContactPool

end Jabber
