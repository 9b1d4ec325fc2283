import Kopete.Lib.Run
import Kopete.Libkopete.ContactList

/-!
# libkopete — the contacts that name and photo of a metacontact come from

A metacontact that goes by the name of one of its contacts remembers whose; if it does not
yet, the first lookup of its name settles for the first contact. When a contact leaves,
`removeContact` asks whether its name was the one in use, in order to go over to the next
contact or, if there is none, to keep the name as one of its own. But it asks whether *no*
contact is remembered, and so it does this only where no name has been looked up yet: the
contact that is remembered leaves a metacontact that goes by the name of nobody.

Main results:

* `inv_removeContact`, `inv_step` — the contacts that are remembered are members;
* `handsOver_iff` — when the name is handed over;
* `sources_right_iff` — the same for runs.
-/

namespace Kopete

/-- What is asked of contacts: their names, and their photos, if they have one. -/
structure ContactLooks (π : Type) where
  displayName : Nat → QString
  photo : Nat → Option π

/-- A `MetaContact` with its photo: the sources, and the pictures, `none` if one is null. -/
structure SourcedMetaContact (π : Type) extends MetaContact where
  photoSource : PropertySource
  photoSourceContact : Option Nat
  contactPicture : Option π
  customPicture : Option π
  kabcPicture : Option π

namespace SourcedMetaContact

variable {π : Type} (looks : ContactLooks π) (m : SourcedMetaContact π)

/-! ## Operations -/

/-- `nameFromContact`. -/
def nameFromContact (c : Nat) : QString := (looks.displayName c).filter (· ≠ 10)

/-- `MetaContact::displayName`: the name. What it remembers is `MetaContact.track`. -/
def shownName : QString :=
  let mc := m.toMetaContact.track
  if mc.displayNameSource = .kabc then
    if mc.kabcId ≠ [] ∨ mc.contacts ≠ [] then [] else mc.displayName
  else if mc.displayNameSource = .contact ∨ mc.displayName = [] then
    match mc.displayNameSourceContact with
    | some c => nameFromContact looks c
    | none => mc.displayName
  else mc.displayName

/-- `MetaContact::picture`. -/
def picture : Option π :=
  match m.photoSource with
  | .kabc => m.kabcPicture
  | .contact => m.contactPicture
  | .custom => m.customPicture

/-- `MetaContact::setDisplayNameSourceContact`. -/
def setDisplayNameSourceContact (c : Option Nat) : SourcedMetaContact π :=
  { m with displayNameSourceContact := c }

/-- `MetaContact::setPhotoSourceContact`. -/
def setPhotoSourceContact (c : Option Nat) : SourcedMetaContact π :=
  { m with photoSourceContact := c, contactPicture := c.bind looks.photo }

/-- `MetaContact::setDisplayNameSource`. -/
def setDisplayNameSource (source : PropertySource) : SourcedMetaContact π :=
  { m with toMetaContact := m.toMetaContact.setDisplayNameSource source }

/-- `MetaContact::setPhotoSource`. -/
def setPhotoSource (source : PropertySource) : SourcedMetaContact π :=
  { m with photoSource := source }

/-- `MetaContact::addContact`. -/
def addContact (c : Nat) : SourcedMetaContact π :=
  if c ∈ m.contacts then m
  else
    let m := { m with toMetaContact := m.toMetaContact.addContact c }
    if m.contacts.length = 1 ∧ m.picture.isNone then
      (m.setPhotoSourceContact looks (some c)).setPhotoSource .contact
    else m

/-- `MetaContact::setDisplayName`, with the contacts of the metacontact that had the name
before, if there is one: they are merged into this one. -/
def setDisplayName (name : QString) (merged : List Nat) : SourcedMetaContact π :=
  if name = m.displayName then m
  else if m.loading then { m with displayName := name }
  else
    let m := if m.temporary ∨ name = [] then m else merged.foldl (addContact looks) m
    { m with displayName := name }

/-- `wasTrackingPhoto`. -/
def wasTrackingPhoto : Bool := m.photoSourceContact = none ∧ m.photoSource = .contact

/-- The first part of `MetaContact::removeContact`: the contact is off the list, and its name
and photo are not those in use. -/
def dropSources (c : Nat) : SourcedMetaContact π :=
  let m := { m with toMetaContact := m.toMetaContact.dropContact c }
  if m.photoSourceContact = some c then m.setPhotoSourceContact looks none else m

/-- What `removeContact` does if it takes the name for that of the contact; `currDisplayName`
is the name before. -/
def fallBackName (currDisplayName : QString) (merged : List Nat) : SourcedMetaContact π :=
  match m.contacts with
  | [] => (m.setDisplayNameSource .custom).setDisplayName looks currDisplayName merged
  | first :: _ => m.setDisplayNameSourceContact (some first)

/-- The same for the photo. -/
def fallBackPhoto : SourcedMetaContact π :=
  match m.contacts with
  | [] => m.setPhotoSource .custom
  | first :: _ => m.setPhotoSourceContact looks (some first)

/-- `MetaContact::removeContact`, with what it merges as in `setDisplayName`. -/
def removeContact (c : Nat) (merged : List Nat) : SourcedMetaContact π :=
  if c ∉ m.contacts then m
  else
    let r := m.dropSources looks c
    let r := if m.wasTrackingName then r.fallBackName looks (m.shownName looks) merged else r
    if m.wasTrackingPhoto then r.fallBackPhoto looks else r

end SourcedMetaContact

/-! ## Runs -/

/-- What is done with a metacontact. -/
inductive SourceOp
  | addContact (c : Nat)
  | removeContact (c : Nat) (merged : List Nat)
  | setDisplayNameSourceContact (c : Option Nat)
  | setPhotoSourceContact (c : Option Nat)
  | setDisplayNameSource (source : PropertySource)
  | setPhotoSource (source : PropertySource)
  | setDisplayName (name : QString) (merged : List Nat)
  | displayName

namespace SourcedMetaContact

variable {π : Type} (looks : ContactLooks π)

def step (m : SourcedMetaContact π) : SourceOp → SourcedMetaContact π
  | .addContact c => m.addContact looks c
  | .removeContact c merged => m.removeContact looks c merged
  | .setDisplayNameSourceContact c => m.setDisplayNameSourceContact c
  | .setPhotoSourceContact c => m.setPhotoSourceContact looks c
  | .setDisplayNameSource source => m.setDisplayNameSource source
  | .setPhotoSource source => m.setPhotoSource source
  | .setDisplayName name merged => m.setDisplayName looks name merged
  | .displayName => { m with toMetaContact := m.toMetaContact.track }

/-- **The sources are members.** -/
structure SourcesInside (m : SourcedMetaContact π) : Prop where
  name : ∀ c, m.displayNameSourceContact = some c → c ∈ m.contacts
  photo : ∀ c, m.photoSourceContact = some c → c ∈ m.contacts

/-- **The name is handed over** where a contact that the metacontact goes by the name of is
removed: to the next contact or, if there is none, to the metacontact itself. -/
def HandsOver (m : SourcedMetaContact π) (c : Nat) (m' : SourcedMetaContact π) : Prop :=
  m.displayNameSource = .contact → c ∈ m.contacts →
    m.toMetaContact.track.displayNameSourceContact = some c →
    match QList.removeAll m.contacts c with
    | first :: _ => m'.displayNameSource = .contact ∧ m'.displayNameSourceContact = some first
    | [] => m'.displayNameSource = .custom ∧ m'.shownName looks = m.shownName looks

/-- A step leaves the sources members and, if it removes a contact, hands over the name. -/
def StepRight (m : SourcedMetaContact π) (op : SourceOp) : Prop :=
  (m.step looks op).SourcesInside ∧
    ∀ c merged, op = .removeContact c merged → m.HandsOver looks c (m.step looks op)

/-- A contact that is chosen is a member, and a contact that is removed is not the one that is
remembered for the name. -/
def SourceOk (m : SourcedMetaContact π) : SourceOp → Prop
  | .setDisplayNameSourceContact (some c) => c ∈ m.contacts
  | .setPhotoSourceContact (some c) => c ∈ m.contacts
  | .removeContact c _ =>
    ¬ (m.displayNameSource = .contact ∧ m.displayNameSourceContact = some c)
  | _ => True

end SourcedMetaContact

/-! ## Members -/

namespace MetaContact

/-- The contact that is remembered for the name is a member. -/
def NameInside (mc : MetaContact) : Prop :=
  ∀ c, mc.displayNameSourceContact = some c → c ∈ mc.contacts

@[simp] theorem displayNameSource_track (mc : MetaContact) :
    mc.track.displayNameSource = mc.displayNameSource := by
  unfold track
  split <;> rfl

@[simp] theorem displayNameSource_addContact (mc : MetaContact) (c : Nat) :
    (mc.addContact c).displayNameSource = mc.displayNameSource := by
  unfold addContact
  split
  · rfl
  · simp only
    split <;> simp

@[simp] theorem displayNameSource_setDisplayNameSource (mc : MetaContact)
    (source : PropertySource) : (mc.setDisplayNameSource source).displayNameSource = source := by
  simp [setDisplayNameSource]

theorem nameInside_track {mc : MetaContact} (h : mc.NameInside) : mc.track.NameInside := by
  unfold track
  split
  · exact fun c hc => List.mem_of_head? hc
  · exact h

theorem nameInside_setDisplayNameSource {mc : MetaContact} (h : mc.NameInside)
    (source : PropertySource) : (mc.setDisplayNameSource source).NameInside :=
  have hSourced : ({ mc.track with displayNameSource := source } : MetaContact).NameInside :=
    nameInside_track h
  nameInside_track hSourced

theorem nameInside_addContact {mc : MetaContact} (h : mc.NameInside) (c : Nat) :
    (mc.addContact c).NameInside := by
  have hMore : ({ mc.track with contacts := mc.track.contacts ++ [c] } : MetaContact).NameInside :=
    fun d hd => List.mem_append_left _ (nameInside_track h d hd)
  unfold addContact
  split
  · exact h
  · dsimp only
    split
    · exact nameInside_track hMore
    · exact hMore

theorem nameInside_dropContact {mc : MetaContact} (h : mc.NameInside) (c : Nat) :
    (mc.dropContact c).NameInside := by
  intro d hd
  unfold dropContact at hd ⊢
  dsimp only at hd ⊢
  split at hd
  · cases hd
  · next hOther =>
    exact QList.mem_removeAll.mpr ⟨nameInside_track h d hd, fun hSame => hOther (hSame ▸ hd)⟩

end MetaContact

namespace SourcedMetaContact

variable {π : Type} {looks : ContactLooks π}

theorem SourcesInside.track {m : SourcedMetaContact π} (h : m.SourcesInside) :
    SourcesInside { m with toMetaContact := m.toMetaContact.track } :=
  ⟨MetaContact.nameInside_track h.name, fun c hc => by
    rw [MetaContact.contacts_track]
    exact h.photo c hc⟩

theorem SourcesInside.setDisplayNameSource {m : SourcedMetaContact π} (h : m.SourcesInside)
    (source : PropertySource) : (m.setDisplayNameSource source).SourcesInside :=
  ⟨MetaContact.nameInside_setDisplayNameSource h.name source, fun c hc => by
    show c ∈ (m.toMetaContact.setDisplayNameSource source).contacts
    rw [MetaContact.contacts_setDisplayNameSource]
    exact h.photo c hc⟩

theorem SourcesInside.addContact {m : SourcedMetaContact π} (h : m.SourcesInside) (c : Nat) :
    (m.addContact looks c).SourcesInside := by
  unfold SourcedMetaContact.addContact
  split
  · exact h
  · next hNew =>
    have hContacts : (m.toMetaContact.addContact c).contacts = m.contacts ++ [c] := by
      rw [MetaContact.contacts_addContact, if_neg hNew]
    have hName := MetaContact.nameInside_addContact h.name c
    dsimp only
    split
    · refine ⟨hName, fun d hd => ?_⟩
      obtain rfl : c = d := Option.some.inj hd
      exact hContacts ▸ List.mem_append_right _ (List.mem_singleton_self c)
    · exact ⟨hName, fun d hd => hContacts ▸ List.mem_append_left _ (h.photo d hd)⟩

theorem SourcesInside.merge {m : SourcedMetaContact π} (h : m.SourcesInside)
    (merged : List Nat) : (merged.foldl (SourcedMetaContact.addContact looks) m).SourcesInside := by
  induction merged generalizing m with
  | nil => exact h
  | cons c merged ih => exact ih (h.addContact c)

theorem SourcesInside.setDisplayName {m : SourcedMetaContact π} (h : m.SourcesInside)
    (name : QString) (merged : List Nat) : (m.setDisplayName looks name merged).SourcesInside := by
  have hRename : ∀ {m : SourcedMetaContact π}, m.SourcesInside →
      SourcesInside { m with displayName := name } := fun h => ⟨h.name, h.photo⟩
  unfold SourcedMetaContact.setDisplayName
  split
  · exact h
  split
  · exact hRename h
  · dsimp only
    split
    · exact hRename h
    · exact hRename (h.merge merged)

theorem toMetaContact_dropSources (m : SourcedMetaContact π) (c : Nat) :
    (m.dropSources looks c).toMetaContact = m.toMetaContact.dropContact c := by
  unfold dropSources
  dsimp only
  split <;> rfl

theorem SourcesInside.dropSources (looks : ContactLooks π) {m : SourcedMetaContact π}
    (h : m.SourcesInside) (c : Nat) :
    (m.dropSources looks c).SourcesInside := by
  have hName : (m.dropSources looks c).toMetaContact.NameInside := by
    rw [toMetaContact_dropSources]
    exact MetaContact.nameInside_dropContact h.name c
  refine ⟨hName, fun d hd => ?_⟩
  rw [toMetaContact_dropSources, MetaContact.contacts_dropContact]
  unfold SourcedMetaContact.dropSources at hd
  dsimp only at hd
  split at hd
  · cases hd
  · next hOther =>
    exact QList.mem_removeAll.mpr ⟨h.photo d hd, fun hSame => hOther (hSame ▸ hd)⟩

theorem SourcesInside.fallBackName {m : SourcedMetaContact π} (h : m.SourcesInside)
    (name : QString) (merged : List Nat) : (m.fallBackName looks name merged).SourcesInside := by
  unfold SourcedMetaContact.fallBackName
  split
  · exact (h.setDisplayNameSource .custom).setDisplayName name merged
  · next first rest hContacts =>
    refine ⟨fun c hc => ?_, h.photo⟩
    obtain rfl : first = c := Option.some.inj hc
    exact hContacts ▸ List.mem_cons_self

theorem SourcesInside.fallBackPhoto {m : SourcedMetaContact π} (h : m.SourcesInside) :
    (m.fallBackPhoto looks).SourcesInside := by
  unfold SourcedMetaContact.fallBackPhoto
  split
  · exact ⟨h.name, h.photo⟩
  · next first rest hContacts =>
    refine ⟨h.name, fun c hc => ?_⟩
    obtain rfl : first = c := Option.some.inj hc
    exact hContacts ▸ List.mem_cons_self

/-- **Removing a contact** leaves the sources members, whatever was remembered. -/
theorem inv_removeContact {m : SourcedMetaContact π} (h : m.SourcesInside) (c : Nat)
    (merged : List Nat) : (m.removeContact looks c merged).SourcesInside := by
  unfold removeContact
  split
  · exact h
  · have hDropped := h.dropSources looks c
    dsimp only
    split <;> split
    · exact (hDropped.fallBackName _ merged).fallBackPhoto
    · exact hDropped.fallBackPhoto
    · exact hDropped.fallBackName _ merged
    · exact hDropped

/-- **One step** leaves the sources members exactly when it chooses members. -/
theorem inv_step {m : SourcedMetaContact π} (h : m.SourcesInside) (op : SourceOp) :
    (m.step looks op).SourcesInside ↔
      (∀ c, op = .setDisplayNameSourceContact (some c) → c ∈ m.contacts) ∧
        ∀ c, op = .setPhotoSourceContact (some c) → c ∈ m.contacts := by
  have hOther : (m.step looks op).SourcesInside →
      (∀ c, op ≠ .setDisplayNameSourceContact (some c)) →
      (∀ c, op ≠ .setPhotoSourceContact (some c)) →
      ((m.step looks op).SourcesInside ↔
        (∀ c, op = .setDisplayNameSourceContact (some c) → c ∈ m.contacts) ∧
          ∀ c, op = .setPhotoSourceContact (some c) → c ∈ m.contacts) :=
    fun hStep hName hPhoto => iff_of_true hStep
      ⟨fun c hc => absurd hc (hName c), fun c hc => absurd hc (hPhoto c)⟩
  match op with
  | .addContact c => exact hOther (h.addContact c) (by simp) (by simp)
  | .removeContact c merged => exact hOther (inv_removeContact h c merged) (by simp) (by simp)
  | .setDisplayNameSource source =>
    exact hOther (h.setDisplayNameSource source) (by simp) (by simp)
  | .setPhotoSource source => exact hOther ⟨h.name, h.photo⟩ (by simp) (by simp)
  | .setDisplayName name merged => exact hOther (h.setDisplayName name merged) (by simp) (by simp)
  | .displayName => exact hOther h.track (by simp) (by simp)
  | .setDisplayNameSourceContact c =>
    have hStep : (m.step looks (.setDisplayNameSourceContact c)).SourcesInside ↔
        ∀ d, c = some d → d ∈ m.contacts := ⟨fun h => h.name, fun hc => ⟨hc, h.photo⟩⟩
    rw [hStep]
    simp
  | .setPhotoSourceContact c =>
    have hStep : (m.step looks (.setPhotoSourceContact c)).SourcesInside ↔
        ∀ d, c = some d → d ∈ m.contacts := ⟨fun h => h.photo, fun hc => ⟨h.name, hc⟩⟩
    rw [hStep]
    simp

/-! ## The name -/

theorem toMetaContact_fallBackPhoto (m : SourcedMetaContact π) :
    (m.fallBackPhoto looks).toMetaContact = m.toMetaContact := by
  unfold fallBackPhoto
  split <;> rfl

theorem shownName_congr {m m' : SourcedMetaContact π} (h : m.toMetaContact = m'.toMetaContact) :
    m.shownName looks = m'.shownName looks := by
  unfold shownName
  rw [h]

/-- A name of its own is shown, and so is the empty one, if no contact is remembered or
listed. -/
theorem shownName_custom {m : SourcedMetaContact π} (hSource : m.displayNameSource = .custom)
    (h : m.displayName = [] → m.contacts = [] ∧ m.displayNameSourceContact = none) :
    m.shownName looks = m.displayName := by
  unfold shownName
  by_cases hEmpty : m.displayName = []
  · obtain ⟨hContacts, hNone⟩ := h hEmpty
    have hTrack : m.toMetaContact.track.displayNameSourceContact = none := by
      unfold MetaContact.track
      split
      · simp [hContacts]
      · exact hNone
    simp [hSource, hEmpty, hTrack]
  · simp [hSource, hEmpty]

theorem displayNameSource_merge (m : SourcedMetaContact π) (merged : List Nat) :
    (merged.foldl (addContact looks) m).displayNameSource = m.displayNameSource := by
  induction merged generalizing m with
  | nil => rfl
  | cons c merged ih =>
    rw [List.foldl_cons, ih]
    unfold addContact
    split
    · rfl
    · dsimp only
      split <;> exact MetaContact.displayNameSource_addContact _ _

theorem displayName_setDisplayName (m : SourcedMetaContact π) (name : QString)
    (merged : List Nat) : (m.setDisplayName looks name merged).displayName = name := by
  unfold setDisplayName
  split
  · next hSame => exact hSame.symm
  · split <;> rfl

theorem displayNameSource_setDisplayName (m : SourcedMetaContact π) (name : QString)
    (merged : List Nat) :
    (m.setDisplayName looks name merged).displayNameSource = m.displayNameSource := by
  unfold setDisplayName
  split
  · rfl
  split
  · rfl
  · dsimp only
    split
    · rfl
    · exact displayNameSource_merge m merged

/-- The empty name merges nothing. -/
theorem setDisplayName_nil (looks : ContactLooks π) (m : SourcedMetaContact π)
    (merged : List Nat) :
    (m.setDisplayName looks [] merged).contacts = m.contacts ∧
      (m.setDisplayName looks [] merged).displayNameSourceContact = m.displayNameSourceContact := by
  unfold setDisplayName
  split
  · exact ⟨rfl, rfl⟩
  split
  · exact ⟨rfl, rfl⟩
  · simp

/-- **The last contact has left**: the name that was shown is kept. -/
theorem fallBackName_nil (looks : ContactLooks π) {m : SourcedMetaContact π}
    (hContacts : m.contacts = []) (hInside : m.SourcesInside) (name : QString) (merged : List Nat) :
    (m.fallBackName looks name merged).displayNameSource = .custom ∧
      (m.fallBackName looks name merged).shownName looks = name := by
  have hFallBack : m.fallBackName looks name merged =
      (m.setDisplayNameSource .custom).setDisplayName looks name merged := by
    unfold fallBackName
    rw [hContacts]
  have hContacts' : (m.setDisplayNameSource .custom).contacts = [] := by
    rw [← hContacts]
    exact MetaContact.contacts_setDisplayNameSource _ _
  have hNone : (m.setDisplayNameSource .custom).displayNameSourceContact = none := by
    rcases hName : (m.setDisplayNameSource .custom).displayNameSourceContact with _ | c
    · rfl
    · have hMem := (hInside.setDisplayNameSource .custom).name c hName
      rw [hContacts'] at hMem
      cases hMem
  have hSource : ((m.setDisplayNameSource .custom).setDisplayName looks name
      merged).displayNameSource = .custom := by
    rw [displayNameSource_setDisplayName]
    exact MetaContact.displayNameSource_setDisplayNameSource _ _
  rw [hFallBack]
  refine ⟨hSource, ?_⟩
  rw [shownName_custom hSource, displayName_setDisplayName]
  intro hEmpty
  rw [displayName_setDisplayName] at hEmpty
  subst hEmpty
  obtain ⟨hSame, hSame'⟩ := setDisplayName_nil looks
    (m.setDisplayNameSource .custom) merged
  exact ⟨hSame.trans hContacts', hSame'.trans hNone⟩

/-- What the removal of a contact makes of the name. -/
theorem toMetaContact_removeContact (looks : ContactLooks π) {m : SourcedMetaContact π} {c : Nat}
    (hc : c ∈ m.contacts) (merged : List Nat) : (m.removeContact looks c merged).toMetaContact =
      (if m.wasTrackingName then
        (m.dropSources looks c).fallBackName looks (m.shownName looks) merged
      else m.dropSources looks c).toMetaContact := by
  unfold removeContact
  rw [if_neg (not_not.mpr hc)]
  dsimp only
  split <;> split <;> first | rfl | exact toMetaContact_fallBackPhoto _

/-- A contact that is remembered is the one whose name is used. -/
theorem track_remembered {mc : MetaContact} {c : Nat}
    (h : mc.displayNameSourceContact = some c) : mc.track = mc := by
  unfold MetaContact.track
  rw [if_neg]
  rintro ⟨-, -, hNone⟩
  rw [h] at hNone
  cases hNone

/-- **A contact that is remembered** for the name is forgotten, and nothing takes its place. -/
theorem not_handsOver (looks : ContactLooks π) {m : SourcedMetaContact π} (h : m.SourcesInside)
    {c : Nat} (merged : List Nat) (hSource : m.displayNameSource = .contact)
    (hName : m.displayNameSourceContact = some c) :
    ¬ m.HandsOver looks c (m.removeContact looks c merged) := by
  intro hHands
  have hc := h.name c hName
  have hDropped : (m.removeContact looks c merged).toMetaContact =
      m.toMetaContact.dropContact c := by
    have hNot : m.wasTrackingName = false := by simp [MetaContact.wasTrackingName, hName]
    rw [toMetaContact_removeContact looks hc, hNot, if_neg Bool.false_ne_true,
      toMetaContact_dropSources]
  have hTrack := track_remembered hName
  have hResult := hHands hSource hc (by rw [hTrack, hName])
  rw [hDropped] at hResult
  simp only [MetaContact.dropContact, hTrack, hName, hSource, if_true] at hResult
  split at hResult
  · cases hResult.2
  · cases hResult.1

/-- **A contact that is not remembered**, though its name is used, hands the name over. -/
theorem handsOver_of_tracking (looks : ContactLooks π) {m : SourcedMetaContact π}
    (h : m.SourcesInside) {c : Nat} (merged : List Nat)
    (hNone : m.displayNameSourceContact = none) :
    m.HandsOver looks c (m.removeContact looks c merged) := by
  intro hSource hc _
  have hLeft : (m.dropSources looks c).contacts = QList.removeAll m.contacts c := by
    rw [toMetaContact_dropSources, MetaContact.contacts_dropContact]
  have hTracking : m.wasTrackingName = true := by
    simp [MetaContact.wasTrackingName, hNone, hSource]
  have hResult := toMetaContact_removeContact looks hc merged
  rw [hTracking, if_pos rfl] at hResult
  split
  · next first rest hRest =>
    have hFallBack : (m.dropSources looks c).fallBackName looks (m.shownName looks) merged =
        (m.dropSources looks c).setDisplayNameSourceContact (some first) := by
      unfold fallBackName
      rw [hLeft, hRest]
    rw [hResult, hFallBack]
    refine ⟨?_, rfl⟩
    show (m.dropSources looks c).displayNameSource = _
    rw [toMetaContact_dropSources, ← hSource]
    exact MetaContact.displayNameSource_track _
  · next hEmpty =>
    obtain ⟨hCustom, hShown⟩ := fallBackName_nil looks (hLeft.trans hEmpty)
      (h.dropSources looks c) (m.shownName looks) merged
    exact ⟨by rw [hResult, hCustom], by rw [shownName_congr hResult, hShown]⟩

/-- **The name is handed over** exactly when the contact is not remembered for it. -/
theorem handsOver_iff (looks : ContactLooks π) {m : SourcedMetaContact π} (h : m.SourcesInside)
    (c : Nat) (merged : List Nat) : m.HandsOver looks c (m.removeContact looks c merged) ↔
      ¬ (m.displayNameSource = .contact ∧ m.displayNameSourceContact = some c) := by
  constructor
  · rintro hHands ⟨hSource, hName⟩
    exact not_handsOver looks h merged hSource hName hHands
  · intro hNot
    rcases hName : m.displayNameSourceContact with _ | d
    · exact handsOver_of_tracking looks h merged hName
    · intro hSource hc hTracked
      rw [track_remembered hName, hName] at hTracked
      exact absurd ⟨hSource, hName.trans hTracked⟩ hNot

/-- **Runs.** From any metacontact that remembers no contact, the sources stay members and the
name of a contact that is removed is handed over, exactly when only members are chosen and no
contact is removed that is remembered for the name in use. -/
theorem sources_right_iff (looks : ContactLooks π) (m : SourcedMetaContact π)
    (ops : List SourceOp) :
    Run.StepsMeet (step looks) (StepRight looks)
        { m with displayNameSourceContact := none, photoSourceContact := none } ops ↔
      Run.StepsMeet (step looks) SourceOk
        { m with displayNameSourceContact := none, photoSourceContact := none } ops := by
  have hExact : ∀ (m : SourcedMetaContact π) op, m.SourcesInside → True →
      (StepRight looks m op ↔ SourceOk m op) := by
    intro m op h _
    rw [StepRight, inv_step h]
    match op with
    | .removeContact c merged =>
      have hHands := handsOver_iff looks h c merged
      simp only [SourceOk, ← hHands]
      simp [step]
    | .setDisplayNameSourceContact c => cases c <;> simp [SourceOk]
    | .setPhotoSourceContact c => cases c <;> simp [SourceOk]
    | .addContact c | .setDisplayNameSource _ | .setPhotoSource _ | .setDisplayName _ _
    | .displayName => simp [SourceOk]
  refine Run.stepsMeet_iff hExact (fun m op h hAdm hOk => ((hExact m op h hAdm).mpr hOk).1) ?_
    (Run.stepsMeet_of_forall (fun _ _ => trivial) _ ops)
  exact ⟨fun c hc => (by cases hc), fun c hc => (by cases hc)⟩

/-- Contacts with a name each, and no photos. -/
def someLooks : ContactLooks Unit := ⟨fun c => [65 + UInt16.ofNat c], fun _ => none⟩

/-- A new metacontact. -/
def fresh : SourcedMetaContact Unit where
  displayName := []
  displayNameSource := .custom
  displayNameSourceContact := none
  kabcId := []
  contacts := []
  groups := [.topLevel]
  temporary := false
  loading := false
  photoSource := .custom
  photoSourceContact := none
  contactPicture := none
  customPicture := none
  kabcPicture := none

/-- **The only contact is removed** from a metacontact that goes by its name: no name is kept. -/
theorem name_lost : ¬ Run.StepsMeet (step someLooks) (StepRight someLooks) fresh
    [.addContact 1, .setDisplayNameSource .contact, .removeContact 1 []] := by
  rintro ⟨-, -, ⟨-, hHands⟩, -⟩
  have hCustom := (hHands 1 [] rfl rfl (List.mem_singleton_self 1) rfl).1
  exact absurd hCustom (by decide)

end SourcedMetaContact

end Kopete
