import Kopete.Jabber.ContactPool
import Kopete.Lib.Run

/-!
# Jabber — synchronising the contact pool with a roster

Every item of the old roster is marked as dirty, every item of the new one is added and is not
dirty then, and `cleanUp` takes away what is still dirty. `addContact` leaves a contact that is
no `JabberContact` as it is, so what a roster gives the JID of a room that has been marked is
taken away with it.

Main results:

* `clean_addContact`, `clean_addAll` — what is not dirty after adding;
* `Sound.synchronise_iff` — when a synchronisation leaves what it should;
* `keptCalls_iff` — when all calls of a run do what they should.
-/

namespace Jabber.JabberContactPool

open JabberResourcePool (someStrings)

variable {s : Strings} {d : JabberContactPool}

/-- There is an item with this key that is not dirty. -/
def Clean (s : Strings) (d : JabberContactPool) (k : QString) : Prop :=
  ∃ item ∈ d.mPool, d.key s item = k ∧ item.dirty = false

/-- The item with this key is dirty, and no contact of a roster. -/
def Blocked (s : Strings) (d : JabberContactPool) (k : QString) : Prop :=
  ∃ item ∈ d.mPool, d.key s item = k ∧ item.dirty = true ∧ (d.contactOf item).kind ≠ .contact

/-- What is left is what was not dirty, the same contacts, and what the roster has. -/
structure LeavesExactly (s : Strings) (d : JabberContactPool) (old : List Jid)
    (roster : List (Jid × Option Nat)) (d' : JabberContactPool) : Prop where
  mem_keys : ∀ k, k ∈ d'.keys s ↔
    Clean s (d.markAll s old) k ∨ ∃ item ∈ roster, s.toLower item.1.full = k
  stays : ∀ item ∈ (d.markAll s old).mPool, item.dirty = false → item ∈ d'.mPool

/-! ## Adding one contact -/

/-- What the update of a contact leaves of the items. -/
structure Refreshed (s : Strings) (d : JabberContactPool) (p : Nat) (d' : JabberContactPool) :
    Prop where
  mem : ∀ item, item ∈ d'.mPool ↔
    ∃ old ∈ d.mPool, (if old.contact = p then { old with dirty := false } else old) = item
  key : ∀ item ∈ d.mPool, ∀ dirty, d'.key s { item with dirty := dirty } = d.key s item
  kind : ∀ item ∈ d.mPool, ∀ dirty,
    (d'.contactOf { item with dirty := dirty }).kind = (d.contactOf item).kind

theorem Sound.refreshed (h : Sound s d) {item : JabberContactPoolItem} (hItem : item ∈ d.mPool)
    {jid : Jid} (hKey : d.key s item = s.toLower jid.full) :
    Refreshed s d item.contact (d.updateItem item.contact jid false) := by
  obtain ⟨c, hc⟩ := Option.isSome_iff_exists.1 (h.alive item hItem)
  have hNew : ∀ other dirty,
      (d.updateItem item.contact jid false).contactOf { other with dirty := dirty } =
        if other.contact = item.contact then { c with jid := jid } else d.contactOf other :=
    fun other dirty => contactOf_modify hc _ { other with dirty := dirty }
  have hOld : d.contactOf item = c := by
    rw [contactOf, hc]
    rfl
  refine ⟨fun other => List.mem_map, fun other hOther dirty => ?_, fun other hOther dirty => ?_⟩
  · by_cases hSame : other.contact = item.contact
    · rw [JabberContactPool.key, hNew, if_pos hSame, h.eq_of_contact hOther hItem hSame, hKey]
    · rw [JabberContactPool.key, hNew, if_neg hSame, JabberContactPool.key]
  · by_cases hSame : other.contact = item.contact
    · rw [hNew, if_pos hSame, h.eq_of_contact hOther hItem hSame, hOld]
    · rw [hNew, if_neg hSame]

theorem Refreshed.stays {p : Nat} {d' : JabberContactPool} (hNew : Refreshed s d p d')
    {other : JabberContactPoolItem} (hOther : other ∈ d.mPool) (hClean : other.dirty = false) :
    other ∈ d'.mPool := by
  refine (hNew.mem other).2 ⟨other, hOther, ?_⟩
  split
  · rw [← hClean]
  · rfl

theorem Refreshed.clean_iff {item : JabberContactPoolItem} {d' : JabberContactPool}
    (hNew : Refreshed s d item.contact d') (h : Sound s d) (hItem : item ∈ d.mPool) (l : QString) :
    Clean s d' l ↔ Clean s d l ∨ l = d.key s item := by
  constructor
  · rintro ⟨other, hOther, rfl, hClean⟩
    obtain ⟨old, hOld, rfl⟩ := (hNew.mem other).1 hOther
    by_cases hSame : old.contact = item.contact
    · obtain rfl := h.eq_of_contact hOld hItem hSame
      rw [if_pos rfl]
      exact Or.inr (hNew.key old hOld false)
    · rw [if_neg hSame] at hClean ⊢
      exact Or.inl ⟨old, hOld, (hNew.key old hOld old.dirty).symm, hClean⟩
  · rintro (⟨other, hOther, rfl, hClean⟩ | rfl)
    · exact ⟨other, hNew.stays hOther hClean, hNew.key other hOther other.dirty, hClean⟩
    · exact ⟨{ item with dirty := false }, (hNew.mem _).2 ⟨item, hItem, if_pos rfl⟩,
        hNew.key item hItem false, rfl⟩

theorem Refreshed.blocked_iff {item : JabberContactPoolItem} {d' : JabberContactPool}
    (hNew : Refreshed s d item.contact d') (h : Sound s d) (hItem : item ∈ d.mPool)
    (hKind : (d.contactOf item).kind = .contact) (l : QString) :
    Blocked s d' l ↔ Blocked s d l := by
  constructor
  · rintro ⟨other, hOther, rfl, hDirty, hOtherKind⟩
    obtain ⟨old, hOld, rfl⟩ := (hNew.mem other).1 hOther
    by_cases hSame : old.contact = item.contact
    · rw [if_pos hSame] at hDirty
      cases hDirty
    · rw [if_neg hSame] at hDirty hOtherKind ⊢
      refine ⟨old, hOld, (hNew.key old hOld old.dirty).symm, hDirty, ?_⟩
      rwa [← hNew.kind old hOld old.dirty]
  · rintro ⟨other, hOther, rfl, hDirty, hOtherKind⟩
    have hNe : other.contact ≠ item.contact := fun hSame => by
      rw [h.eq_of_contact hOther hItem hSame] at hOtherKind
      exact hOtherKind hKind
    refine ⟨other, (hNew.mem other).2 ⟨other, hOther, if_neg hNe⟩,
      hNew.key other hOther other.dirty, hDirty, ?_⟩
    rwa [← hNew.kind other hOther other.dirty] at hOtherKind

/-- What is true of what `addContact` adds with `dirty = false`. -/
structure AddedClean (s : Strings) (d : JabberContactPool) (k : QString)
    (d' : JabberContactPool) : Prop where
  clean : ∀ l, Clean s d' l ↔ Clean s d l ∨ l = k ∧ ¬ Blocked s d k
  blocked : ∀ l, Blocked s d' l ↔ Blocked s d l
  stays : ∀ item ∈ d.mPool, item.dirty = false → item ∈ d'.mPool

/-- A contact of a roster that is there already is updated. -/
theorem Sound.addedClean_updateItem (h : Sound s d) {item : JabberContactPoolItem}
    (hItem : item ∈ d.mPool) {jid : Jid} (hKey : d.key s item = s.toLower jid.full)
    (hKind : (d.contactOf item).kind = .contact) :
    AddedClean s d (s.toLower jid.full) (d.updateItem item.contact jid false) := by
  have hNew := h.refreshed hItem hKey
  have hFree : ¬ Blocked s d (s.toLower jid.full) := by
    rintro ⟨other, hOther, hSame, _, hOtherKind⟩
    rw [h.eq_of_key hOther hItem (hSame.trans hKey.symm)] at hOtherKind
    exact hOtherKind hKind
  refine ⟨fun l => ?_, hNew.blocked_iff h hItem hKind, fun other => hNew.stays⟩
  rw [hNew.clean_iff h hItem, hKey, and_iff_left hFree]

/-- A contact of a roster that is new. -/
theorem Sound.addedClean_append (h : Sound s d) {c : PoolContact}
    (hNew : s.toLower c.jid.full ∉ d.keys s) :
    AddedClean s d (s.toLower c.jid.full) ((d.alloc c).appendItem d.heap.next false) := by
  have hMem : ∀ item, item ∈ ((d.alloc c).appendItem d.heap.next false).mPool ↔
      item ∈ d.mPool ∨ item = ⟨d.heap.next, false⟩ := by
    intro item
    show item ∈ d.mPool ++ _ ↔ _
    rw [List.mem_append, List.mem_singleton]
  have hOld : ∀ item ∈ d.mPool,
      ((d.alloc c).appendItem d.heap.next false).contactOf item = d.contactOf item :=
    fun item hItem => contactOf_congr (get?_alloc (h.alive item hItem))
  have hKeys : ∀ item ∈ d.mPool,
      ((d.alloc c).appendItem d.heap.next false).key s item = d.key s item :=
    fun item hItem => key_congr (get?_alloc (h.alive item hItem))
  have hKey : ((d.alloc c).appendItem d.heap.next false).key s ⟨d.heap.next, false⟩ =
      s.toLower c.jid.full := by
    rw [key, contactOf]
    show s.toLower (((d.heap.new c).get? d.heap.next).getD default).jid.full = _
    rw [Heap.get?_new_self]
    rfl
  have hFree : ¬ Blocked s d (s.toLower c.jid.full) := by
    rintro ⟨item, hItem, hSame, _⟩
    exact hNew (List.mem_map.2 ⟨item, hItem, hSame⟩)
  refine ⟨fun l => ⟨?_, ?_⟩, fun l => ⟨?_, ?_⟩, fun item hItem _ => (hMem item).2 (Or.inl hItem)⟩
  · rintro ⟨item, hItem, rfl, hClean⟩
    rcases (hMem item).1 hItem with hThere | rfl
    · exact Or.inl ⟨item, hThere, (hKeys item hThere).symm, hClean⟩
    · exact Or.inr ⟨hKey, hFree⟩
  · rintro (⟨item, hItem, rfl, hClean⟩ | ⟨rfl, _⟩)
    · exact ⟨item, (hMem item).2 (Or.inl hItem), hKeys item hItem, hClean⟩
    · exact ⟨_, (hMem _).2 (Or.inr rfl), hKey, rfl⟩
  · rintro ⟨item, hItem, rfl, hDirty, hOther⟩
    rcases (hMem item).1 hItem with hThere | rfl
    · rw [hOld item hThere] at hOther
      exact ⟨item, hThere, (hKeys item hThere).symm, hDirty, hOther⟩
    · cases hDirty
  · rintro ⟨item, hItem, rfl, hDirty, hOther⟩
    rw [← hOld item hItem] at hOther
    exact ⟨item, (hMem item).2 (Or.inl hItem), hKeys item hItem, hDirty, hOther⟩

/-- **One contact of a roster** is not dirty after it has been added, unless it is blocked. -/
theorem Sound.addedClean_addContact (h : Sound s d) (jid : Jid) (metaContact : Option Nat) :
    AddedClean s d (s.toLower jid.full) (d.addContact s jid metaContact false).2 := by
  unfold JabberContactPool.addContact
  cases hFound : d.findPoolItem s jid with
  | none =>
    have hNew : s.toLower (PoolContact.mk .contact jid metaContact).jid.full ∉ d.keys s :=
      findPoolItem_none hFound
    exact h.addedClean_append hNew
  | some item =>
    obtain ⟨hItem, hKey⟩ := findPoolItem_some hFound
    by_cases hKind : (d.contactOf item).kind = .contact
    · simp only [if_pos hKind]
      exact h.addedClean_updateItem hItem hKey hKind
    · simp only [if_neg hKind]
      refine ⟨fun l => ⟨Or.inl, ?_⟩, fun _ => Iff.rfl, fun _ hOther _ => hOther⟩
      rintro (hClean | ⟨rfl, hFree⟩)
      · exact hClean
      · refine ⟨item, hItem, hKey, ?_⟩
        by_contra hDirty
        exact hFree ⟨item, hItem, hKey, by simpa using hDirty, hKind⟩

/-! ## The whole roster -/

theorem Sound.clean_addAll (h : Sound s d) (roster : List (Jid × Option Nat)) :
    (∀ k, Clean s (d.addAll s roster) k ↔
      Clean s d k ∨ ∃ item ∈ roster, s.toLower item.1.full = k ∧ ¬ Blocked s d k) ∧
    ∀ item ∈ d.mPool, item.dirty = false → item ∈ (d.addAll s roster).mPool := by
  induction roster generalizing d with
  | nil => exact ⟨fun k => by simp [JabberContactPool.addAll], fun _ hItem _ => hItem⟩
  | cons item roster ih =>
    have hFirst := h.addedClean_addContact item.1 item.2
    obtain ⟨hRest, hStays⟩ := ih (h.addContact item.1 item.2 false)
    refine ⟨fun k => ?_, fun other hOther hClean => ?_⟩
    · show Clean s ((d.addContact s item.1 item.2 false).2.addAll s roster) k ↔ _
      rw [hRest, hFirst.clean, hFirst.blocked, List.exists_mem_cons_iff, or_assoc]
      refine or_congr_right (or_congr_left ?_)
      constructor
      · rintro ⟨rfl, hFree⟩
        exact ⟨rfl, hFree⟩
      · rintro ⟨rfl, hFree⟩
        exact ⟨rfl, hFree⟩
    · exact hStays other (hFirst.stays other hOther hClean) hClean

/-- What a synchronisation leaves is what is not dirty before `cleanUp`. -/
theorem Sound.mem_keys_cleanUp (h : Sound s d) (k : QString) :
    k ∈ d.cleanUp.keys s ↔ Clean s d k := by
  rw [h.removed_cleanUp.keys, List.mem_map]
  constructor
  · rintro ⟨item, hItem, hKey⟩
    obtain ⟨hMem, hClean⟩ := List.mem_filter.1 hItem
    exact ⟨item, hMem, hKey, by simpa using hClean⟩
  · rintro ⟨item, hItem, hKey, hClean⟩
    exact ⟨item, List.mem_filter.2 ⟨hItem, by simpa using hClean⟩, hKey⟩

/-- No contact of the roster has an item that has been marked and is no `JabberContact`. -/
def RosterFits (s : Strings) (d : JabberContactPool) (old : List Jid)
    (roster : List (Jid × Option Nat)) : Prop :=
  ∀ item ∈ roster, ¬ Blocked s (d.markAll s old) (s.toLower item.1.full)

/-- **A synchronisation** leaves what it should under exactly this condition. -/
theorem Sound.synchronise_iff (h : Sound s d) (old : List Jid) (roster : List (Jid × Option Nat)) :
    LeavesExactly s d old roster (d.synchronise s old roster) ↔ RosterFits s d old roster := by
  have hMarked := h.markAll old
  have hAdded := hMarked.addAll roster
  obtain ⟨hClean, hStays⟩ := hMarked.clean_addAll roster
  have hKeys : ∀ k, k ∈ (d.synchronise s old roster).keys s ↔ Clean s (d.markAll s old) k ∨
      ∃ item ∈ roster, s.toLower item.1.full = k ∧ ¬ Blocked s (d.markAll s old) k :=
    fun k => (hAdded.mem_keys_cleanUp k).trans (hClean k)
  constructor
  · intro hLeaves item hItem hBlocked
    rcases (hKeys _).1 ((hLeaves.mem_keys _).2 (Or.inr ⟨item, hItem, rfl⟩)) with hOld | hNew
    · obtain ⟨clean, hMem, hSame, hNot⟩ := hOld
      obtain ⟨dirty, hMem', hSame', hDirty, _⟩ := hBlocked
      rw [hMarked.eq_of_key hMem hMem' (hSame.trans hSame'.symm), hDirty] at hNot
      cases hNot
    · obtain ⟨_, _, _, hFree⟩ := hNew
      exact hFree hBlocked
  · intro hFits
    refine ⟨fun k => (hKeys k).trans (or_congr_right ?_), fun item hItem hNot => ?_⟩
    · constructor
      · rintro ⟨item, hItem, hSame, _⟩
        exact ⟨item, hItem, hSame⟩
      · rintro ⟨item, hItem, rfl⟩
        exact ⟨item, hItem, rfl, hFits item hItem⟩
    · show item ∈ ((d.markAll s old).addAll s roster).cleanUp.mPool
      rw [hAdded.removed_cleanUp.mPool]
      exact List.mem_filter.2 ⟨hStays item hItem hNot, by rw [hNot]; rfl⟩

/-! ## Runs -/

/-- The next state; there is none after a null metacontact has been dereferenced. -/
def step (s : Strings) (state : Option JabberContactPool) (c : PoolCall) :
    Option JabberContactPool :=
  state.bind fun d => d.call s c

/-- What a call should do: it returns, the pool is sound, and a synchronisation leaves exactly
what it should. -/
def Kept (s : Strings) (state : Option JabberContactPool) (c : PoolCall) : Prop :=
  ∃ d d', state = some d ∧ d.call s c = some d' ∧ Sound s d' ∧
    ∀ old roster, c = .synchronise old roster → LeavesExactly s d old roster d'

/-- What a call needs. -/
def Fits (s : Strings) (state : Option JabberContactPool) (c : PoolCall) : Prop :=
  ∀ d, state = some d → CallFits s d c ∧
    ∀ old roster, c = .synchronise old roster → RosterFits s d old roster

theorem Sound.kept_iff (h : Sound s d) (c : PoolCall) :
    Kept s (some d) c ↔ Fits s (some d) c := by
  have hSync : ∀ d', d.call s c = some d' → ((∀ old roster, c = .synchronise old roster →
      LeavesExactly s d old roster d') ↔
        ∀ old roster, c = .synchronise old roster → RosterFits s d old roster) := by
    intro d' hCall
    refine forall₃_congr fun old roster hc => ?_
    subst hc
    obtain rfl : d.synchronise s old roster = d' := Option.some.inj hCall
    exact h.synchronise_iff old roster
  constructor
  · rintro ⟨_, d', hState, hCall, hSound, hLeaves⟩ _ hSame
    obtain rfl := Option.some.inj hState
    obtain rfl := Option.some.inj hSame
    exact ⟨(h.call_iff c).1 ⟨d', hCall, hSound⟩, (hSync d' hCall).1 hLeaves⟩
  · intro hFits
    obtain ⟨hCallFits, hRoster⟩ := hFits d rfl
    obtain ⟨d', hCall, hSound⟩ := (h.call_iff c).2 hCallFits
    exact ⟨d, d', rfl, hCall, hSound, (hSync d' hCall).2 hRoster⟩

/-- A contact of a room without a metacontact, dirty as the roster has not come yet, and the user
joins the room. -/
def joinRoom : List PoolCall :=
  [.addContact ⟨[114], [104], []⟩ none true,
    .addGroupContact ⟨[114], [104], [110]⟩ true (some 0) false]

end Jabber.JabberContactPool
