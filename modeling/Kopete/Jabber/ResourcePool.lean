import Kopete.Jabber.CapabilitiesManager
import Kopete.Lib.Heap
import Kopete.Lib.QList
import Kopete.Lib.Run
import Mathlib

/-!
# Jabber — `JabberResourcePool`

The resources that contacts are online with. One that the user has chosen to write to is
locked: it stands in a second list of pointers, from which it goes when it is destroyed.

A resource takes its name into its JID, which is null afterwards if the name is one that
the profile for resources refuses; the pool looks for it under the JID that it was added
for.

Main results:

* `bestJabberResource_false` — the scan for the best resource as a maximum;
* `Inv.shrink` — whatever takes resources and their locks away keeps the invariant;
* `sound_iff` — the pool is sound in all states exactly if no refused name is added twice.
-/

/-! ## JIDs and resources -/

namespace Jabber

/-- What Qt and libidn do to strings. -/
structure Strings where
  /-- `QString::toLower`. -/
  toLower : QString → QString
  /-- libidn's profile for resources, `none` where it refuses the name. -/
  stringprep : QString → Option QString

/-- `StringPrepCache::resourceprep`. -/
def Strings.resourceprep (s : Strings) (str : QString) : Option QString :=
  if str = [] then some [] else s.stringprep str

/-- `XMPP::Jid`. -/
structure Jid where
  node : QString
  domain : QString
  resource : QString
deriving DecidableEq

namespace Jid

/-- What `Jid::reset` leaves. -/
def null : Jid := ⟨[], [], []⟩

variable (jid : Jid)

/-- `Jid::bare`, as `Jid::update` makes it. -/
def bare : QString := if jid.node = [] then jid.domain else jid.node ++ 64 :: jid.domain

/-- `Jid::full`. -/
def full : QString := if jid.resource = [] then jid.bare else jid.bare ++ 47 :: jid.resource

/-- `Jid::isValid`: `Jid::update` leaves only the empty one invalid. -/
def isValid : Bool := jid.full ≠ []

/-- `Jid::withResource`. -/
def withResource (s : Strings) (str : QString) : Jid :=
  if jid.isValid then
    match s.resourceprep str with
    | some norm => { jid with resource := norm }
    | none => null
  else jid

end Jid

/-- `XMPP::Status`, with its time stamp in milliseconds. -/
structure Status where
  priority : Int
  timeStamp : Int

/-- `XMPP::Resource`. -/
structure Resource where
  name : QString
  status : Status

/-- `JabberResource`. -/
structure JabberResource where
  jid : Jid
  resource : Resource

instance : Inhabited JabberResource := ⟨Jid.null, [], 0, 0⟩

/-- `JabberResource::JabberResource`. -/
def JabberResource.new (s : Strings) (jid : Jid) (resource : Resource) : JabberResource :=
  ⟨jid.withResource s resource.name, resource⟩

/-! ## The pool -/

/-- `JabberResourcePool`, with the resources that its pointers lead to. -/
structure JabberResourcePool where
  heap : Heap JabberResource
  pool : List Nat
  lockList : List Nat

namespace JabberResourcePool

def empty : JabberResourcePool := ⟨Heap.empty, [], []⟩

variable (s : Strings) (d : JabberResourcePool)

/-- The resource under a pointer. -/
def deref (p : Nat) : JabberResource := (d.heap.get? p).getD default

/-- The comparison with the bare JID of a resource. -/
def hasJid (jid : Jid) (p : Nat) : Bool :=
  s.toLower (d.deref p).jid.bare = s.toLower jid.bare

/-- The comparison with the name of a resource. -/
def hasName (name : QString) (p : Nat) : Bool :=
  s.toLower (d.deref p).resource.name = s.toLower name

/-- The search that `addResource`, `removeResource` and `lockToResource` begin with. -/
def search (jid : Jid) (name : QString) : Option Nat :=
  d.pool.find? fun p => d.hasJid s jid p && d.hasName s name p

/-- `delete`, and `slotResourceDestroyed`. -/
def destroy (p : Nat) : JabberResourcePool :=
  { d with heap := d.heap.delete p, lockList := QList.removeAll d.lockList p }

/-- `delete` of what `takeAt` gives. -/
def take (p : Nat) : JabberResourcePool := { d.destroy p with pool := d.pool.erase p }

/-- `JabberResourcePool::addResource`. -/
def addResource (jid : Jid) (resource : Resource) : JabberResourcePool :=
  match d.search s jid resource.name with
  | some p => { d with heap := d.heap.modify p fun r => { r with resource := resource } }
  | none =>
    { d with
      heap := d.heap.new (JabberResource.new s jid resource), pool := d.pool ++ [d.heap.next] }

/-- `JabberResourcePool::removeResource`. -/
def removeResource (jid : Jid) (resource : Resource) : JabberResourcePool :=
  match d.search s jid resource.name with
  | some p => d.take p
  | none => d

/-- One round of the loop in `removeAllResources`. -/
def removeIfOf (jid : Jid) (d : JabberResourcePool) (p : Nat) : JabberResourcePool :=
  if d.hasJid s jid p && (jid.resource.isEmpty || d.hasName s jid.resource p) then d.take p else d

/-- `JabberResourcePool::removeAllResources`. -/
def removeAllResources (jid : Jid) : JabberResourcePool := d.pool.foldl (removeIfOf s jid) d

/-- `JabberResourcePool::clear`. -/
def clear : JabberResourcePool := { d.pool.foldl destroy d with pool := [] }

/-- One round of the loop in `removeLock`. -/
def unlockIfOf (jid : Jid) (d : JabberResourcePool) (p : Nat) : JabberResourcePool :=
  if d.hasJid s jid p then { d with lockList := QList.removeAll d.lockList p } else d

/-- `JabberResourcePool::removeLock`. -/
def removeLock (jid : Jid) : JabberResourcePool := d.pool.foldl (unlockIfOf s jid) d

/-- `JabberResourcePool::lockToResource`. -/
def lockToResource (jid : Jid) (resource : Resource) : JabberResourcePool :=
  let d := d.removeLock s jid
  match d.search s jid resource.name with
  | some p => { d with lockList := d.lockList ++ [p] }
  | none => d

/-- `JabberResourcePool::lockedJabberResource`. -/
def lockedJabberResource (jid : Jid) : Option Nat :=
  if jid.resource = [] then d.lockList.find? (d.hasJid s jid)
  else d.pool.find? fun p => d.hasJid s jid p && decide ((d.deref p).resource.name = jid.resource)

/-- One round of the loop in `bestJabberResource`. -/
def better (jid : Jid) (bestResource : Option Nat) (p : Nat) : Option Nat :=
  if d.hasJid s jid p then
    match bestResource with
    | none => some p
    | some best =>
      let mine := (d.deref p).resource.status
      let its := (d.deref best).resource.status
      if mine.priority > its.priority then some p
      else if mine.priority = its.priority then
        if mine.timeStamp > its.timeStamp then some p else some best
      else some best
  else bestResource

/-- `JabberResourcePool::bestJabberResource`. -/
def bestJabberResource (jid : Jid) (honourLock : Bool) : Option Nat :=
  match if honourLock then d.lockedJabberResource s jid else none with
  | some p => some p
  | none => d.pool.foldl (d.better s jid) none

/-- The calls that change a pool. -/
inductive Call
  | addResource (jid : Jid) (resource : Resource)
  | removeResource (jid : Jid) (resource : Resource)
  | removeAllResources (jid : Jid)
  | clear
  | lockToResource (jid : Jid) (resource : Resource)
  | removeLock (jid : Jid)

def step (d : JabberResourcePool) : Call → JabberResourcePool
  | .addResource jid resource => d.addResource s jid resource
  | .removeResource jid resource => d.removeResource s jid resource
  | .removeAllResources jid => d.removeAllResources s jid
  | .clear => d.clear
  | .lockToResource jid resource => d.lockToResource s jid resource
  | .removeLock jid => d.removeLock s jid

/-! ## The invariant -/

/-- Two resources with the same bare JID and name up to case. -/
def Alike (p q : Nat) : Prop :=
  d.hasJid s (d.deref p).jid q ∧ d.hasName s (d.deref p).resource.name q

structure Inv (d : JabberResourcePool) : Prop where
  alive : ∀ p ∈ d.pool, d.heap.Live p
  distinct : d.pool.Pairwise fun p q => ¬ d.Alike s p q
  pooled : ∀ p ∈ d.lockList, p ∈ d.pool
  oneLock : d.lockList.Pairwise fun p q => ¬ d.hasJid s (d.deref p).jid q

/-- Priority first, then time stamp. -/
def rank (p : Nat) : ℤ ×ₗ ℤ :=
  toLex ((d.deref p).resource.status.priority, (d.deref p).resource.status.timeStamp)

/-- What `bestJabberResource` is to return for a bare JID. -/
structure BestOf (jid : Jid) (best : Option Nat) : Prop where
  locked : ∀ p ∈ d.lockList, d.hasJid s jid p → best = some p
  greatest : (∀ p ∈ d.lockList, ¬ d.hasJid s jid p) → ∀ p, best = some p →
    p ∈ d.pool ∧ d.hasJid s jid p ∧ ∀ q ∈ d.pool, d.hasJid s jid q → d.rank q ≤ d.rank p
  null : best = none ↔ ∀ p ∈ d.pool, ¬ d.hasJid s jid p

/-- The invariant, and the right answers. -/
structure Sound (d : JabberResourcePool) : Prop extends Inv s d where
  best : ∀ jid : Jid, jid.resource = [] → d.BestOf s jid (d.bestJabberResource s jid true)

variable {s d}

theorem hasJid_iff {jid : Jid} {p : Nat} :
    d.hasJid s jid p ↔ s.toLower (d.deref p).jid.bare = s.toLower jid.bare := decide_eq_true_iff

theorem hasName_iff {name : QString} {p : Nat} :
    d.hasName s name p ↔ s.toLower (d.deref p).resource.name = s.toLower name :=
  decide_eq_true_iff

theorem inv_empty : Inv s empty := by
  refine ⟨?_, List.Pairwise.nil, ?_, List.Pairwise.nil⟩
  · intro p hp
    exact absurd hp List.not_mem_nil
  · intro p hp
    exact absurd hp List.not_mem_nil

theorem Inv.nodup (h : Inv s d) : d.pool.Nodup := by
  refine h.distinct.imp fun hNot => ?_
  rintro rfl
  exact hNot ⟨hasJid_iff.2 rfl, hasName_iff.2 rfl⟩

theorem search_eq_none {jid : Jid} {name : QString} :
    d.search s jid name = none ↔ ∀ p ∈ d.pool, ¬ (d.hasJid s jid p ∧ d.hasName s name p) := by
  unfold search
  simp [List.find?_eq_none]

theorem search_eq_some {jid : Jid} {name : QString} {p : Nat}
    (h : d.search s jid name = some p) :
    p ∈ d.pool ∧ d.hasJid s jid p ∧ d.hasName s name p := by
  have hFound := List.find?_some h
  rw [Bool.and_eq_true] at hFound
  exact ⟨List.mem_of_find?_eq_some h, hFound⟩

/-! ## Calls that take away -/

/-- The pool after some resources or locks are gone. -/
structure Shrunk (d d' : JabberResourcePool) : Prop where
  pool : d'.pool.Sublist d.pool
  lockList : d'.lockList.Sublist d.lockList
  pooled : ∀ p ∈ d'.lockList, p ∈ d'.pool
  kept : ∀ p ∈ d'.pool, d'.heap.get? p = d.heap.get? p

theorem Shrunk.refl (h : Inv s d) : Shrunk d d :=
  ⟨List.Sublist.refl _, List.Sublist.refl _, h.pooled, fun _ _ => rfl⟩

theorem Shrunk.deref {d d' : JabberResourcePool} (h : Shrunk d d') {p : Nat} (hp : p ∈ d'.pool) :
    d'.deref p = d.deref p := by
  unfold JabberResourcePool.deref
  rw [h.kept p hp]

/-- **Taking away keeps the invariant.** -/
theorem Inv.shrink {d' : JabberResourcePool} (h : Inv s d) (hShrunk : Shrunk d d') : Inv s d' := by
  refine ⟨?_, ?_, hShrunk.pooled, ?_⟩
  · intro p hp
    show (d'.heap.get? p).isSome
    rw [hShrunk.kept p hp]
    exact h.alive p (hShrunk.pool.subset hp)
  · refine (h.distinct.sublist hShrunk.pool).imp_of_mem fun hp hq hNot hAlike => hNot ?_
    simpa only [Alike, hasJid, hasName, hShrunk.deref hp, hShrunk.deref hq] using hAlike
  · refine (h.oneLock.sublist hShrunk.lockList).imp_of_mem fun hp hq hNot hSame => hNot ?_
    simpa only [hasJid, hShrunk.deref (hShrunk.pooled _ hp), hShrunk.deref (hShrunk.pooled _ hq)]
      using hSame

theorem shrunk_take (h : Inv s d) (p : Nat) : Shrunk d (d.take p) := by
  refine ⟨List.erase_sublist, List.filter_sublist, ?_, ?_⟩
  · intro q hq
    obtain ⟨hMem, hNe⟩ := QList.mem_removeAll.1 hq
    exact (List.mem_erase_of_ne hNe).2 (h.pooled q hMem)
  · intro q hq
    exact Heap.get?_delete_ne (h.nodup.mem_erase_iff.1 hq).1

theorem Inv.take (h : Inv s d) (p : Nat) : Inv s (d.take p) := h.shrink (shrunk_take h p)

theorem Inv.removeResource (h : Inv s d) (jid : Jid) (resource : Resource) :
    Inv s (d.removeResource s jid resource) := by
  unfold JabberResourcePool.removeResource
  split
  · exact h.take _
  · exact h

theorem Inv.removeAllResources (h : Inv s d) (jid : Jid) :
    Inv s (d.removeAllResources s jid) := by
  refine List.foldlRecOn d.pool (removeIfOf s jid) h fun d hd p _ => ?_
  unfold removeIfOf
  split
  · exact hd.take p
  · exact hd

/-- What the loop of `clear` leaves of the locks. -/
theorem lockList_foldl_destroy (ps : List Nat) (d : JabberResourcePool) :
    (ps.foldl destroy d).lockList = d.lockList.filter (· ∉ ps) := by
  induction ps generalizing d with
  | nil => simp
  | cons p ps ih =>
    rw [List.foldl_cons, ih]
    show (QList.removeAll d.lockList p).filter _ = _
    rw [QList.removeAll, List.filter_filter]
    refine List.filter_congr fun q _ => ?_
    simp only [List.mem_cons, ← Bool.decide_and]
    grind

theorem Inv.clear (h : Inv s d) : Inv s d.clear := by
  have hLocks : d.clear.lockList = [] := by
    show (d.pool.foldl destroy d).lockList = []
    rw [lockList_foldl_destroy, List.filter_eq_nil_iff]
    intro p hp
    simp [h.pooled p hp]
  refine ⟨?_, List.Pairwise.nil, ?_, ?_⟩
  · intro p hp
    exact absurd hp List.not_mem_nil
  · rw [hLocks]
    intro p hp
    exact absurd hp List.not_mem_nil
  · rw [hLocks]
    exact List.Pairwise.nil

/-! ## Locks -/

/-- The loop of `removeLock`: the resources stay as they are. -/
theorem foldl_unlockIfOf (jid : Jid) (ps : List Nat) (d : JabberResourcePool) :
    ps.foldl (unlockIfOf s jid) d =
      { d with lockList := d.lockList.filter fun q => ¬ (q ∈ ps ∧ d.hasJid s jid q) } := by
  induction ps generalizing d with
  | nil => simp
  | cons p ps ih =>
    rw [List.foldl_cons, ih]
    unfold unlockIfOf
    split
    case isTrue hp =>
      show JabberResourcePool.mk d.heap d.pool _ = _
      congr 1
      rw [QList.removeAll, List.filter_filter]
      refine List.filter_congr fun q _ => ?_
      simp only [List.mem_cons, hasJid, deref] at hp ⊢
      grind
    case isFalse hp =>
      congr 1
      refine List.filter_congr fun q _ => ?_
      simp only [List.mem_cons]
      grind

/-- `removeLock` leaves the locks of other JIDs. -/
theorem Inv.removeLock_eq (h : Inv s d) (jid : Jid) :
    d.removeLock s jid = { d with lockList := d.lockList.filter fun q => ¬ d.hasJid s jid q } := by
  unfold JabberResourcePool.removeLock
  rw [foldl_unlockIfOf]
  congr 1
  refine List.filter_congr fun q hq => ?_
  simp [h.pooled q hq]

theorem Inv.removeLock (h : Inv s d) (jid : Jid) : Inv s (d.removeLock s jid) := by
  refine h.shrink ?_
  rw [h.removeLock_eq]
  refine ⟨List.Sublist.refl _, List.filter_sublist, ?_, fun _ _ => rfl⟩
  intro p hp
  exact h.pooled p (List.mem_filter.1 hp).1

theorem Inv.lockToResource (h : Inv s d) (jid : Jid) (resource : Resource) :
    Inv s (d.lockToResource s jid resource) := by
  have hUnlocked := h.removeLock jid
  unfold JabberResourcePool.lockToResource
  generalize hd' : d.removeLock s jid = d' at hUnlocked
  dsimp only
  split
  case h_1 p hp =>
    obtain ⟨hPool, hJid, -⟩ := search_eq_some hp
    refine ⟨hUnlocked.alive, hUnlocked.distinct, ?_, ?_⟩
    · intro q hq
      rcases List.mem_append.1 hq with hq | hq
      · exact hUnlocked.pooled q hq
      · rw [List.mem_singleton.1 hq]
        exact hPool
    · refine List.pairwise_append.2 ⟨hUnlocked.oneLock, List.pairwise_singleton _ _, ?_⟩
      intro q hq q' hq' hSame
      rw [List.mem_singleton.1 hq'] at hSame
      -- The lock of the JID is gone.
      rw [← hd', h.removeLock_eq] at hq
      have hOther := (List.mem_filter.1 hq).2
      rw [h.removeLock_eq] at hd'
      subst hd'
      refine absurd ?_ (of_decide_eq_true hOther)
      exact hasJid_iff.2 ((hasJid_iff.1 hSame).symm.trans (hasJid_iff.1 hJid))
  case h_2 => exact hUnlocked

/-! ## Adding -/

/-- The pool has to have no other resource without a JID and of this name, where the name
is refused and the resource becomes such a one. -/
def Nameable (s : Strings) (d : JabberResourcePool) : Call → Prop
  | .addResource jid resource =>
    jid.isValid → s.resourceprep resource.name = none →
      (d.search s Jid.null resource.name).isSome → (d.search s jid resource.name).isSome
  | _ => True

theorem bare_new (jid : Jid) (resource : Resource) :
    (JabberResource.new s jid resource).jid.bare = jid.bare ∨
      jid.isValid ∧ s.resourceprep resource.name = none ∧
        (JabberResource.new s jid resource).jid = Jid.null := by
  show (jid.withResource s resource.name).bare = _ ∨ _
  unfold Jid.withResource
  split
  case isFalse => exact .inl rfl
  case isTrue hValid =>
    split
    case h_1 => exact .inl rfl
    case h_2 hRefused => exact .inr ⟨hValid, hRefused, if_pos hValid |>.trans (by rw [hRefused])⟩

theorem search_new {jid : Jid} {resource : Resource}
    (hOk : Nameable s d (.addResource jid resource))
    (hNew : d.search s jid resource.name = none) :
    d.search s (JabberResource.new s jid resource).jid resource.name = none := by
  rcases bare_new (s := s) jid resource with hSame | ⟨hValid, hRefused, hNull⟩
  · simpa only [search, hasJid, hSame] using hNew
  · rw [hNull]
    by_contra hOther
    have hSome := hOk hValid hRefused (Option.isSome_iff_ne_none.2 hOther)
    rw [hNew] at hSome
    exact absurd hSome (by decide)

theorem deref_new {p : Nat} (hp : d.heap.Live p) (r : JabberResource) (ps locks : List Nat) :
    deref ⟨d.heap.new r, ps, locks⟩ p = d.deref p := by
  show ((d.heap.new r).get? p).getD default = _
  rw [Heap.get?_new_of_live r hp]
  rfl

theorem deref_new_self (r : JabberResource) (ps locks : List Nat) :
    deref ⟨d.heap.new r, ps, locks⟩ d.heap.next = r := by
  show ((d.heap.new r).get? d.heap.next).getD default = r
  rw [Heap.get?_new_self]
  rfl

theorem Inv.append (h : Inv s d) {r : JabberResource}
    (hUnlike : d.search s r.jid r.resource.name = none) :
    Inv s { d with heap := d.heap.new r, pool := d.pool ++ [d.heap.next] } := by
  refine ⟨?_, ?_, ?_, ?_⟩
  · intro p hp
    rcases List.mem_append.1 hp with hp | hp
    · exact (h.alive p hp).new r
    · rw [List.mem_singleton.1 hp]
      exact Heap.live_new_self r
  · refine List.pairwise_append.2 ⟨?_, List.pairwise_singleton _ _, ?_⟩
    · refine h.distinct.imp_of_mem fun hp hq hNot hAlike => hNot ?_
      simpa only [Alike, hasJid, hasName, deref_new (h.alive _ hp), deref_new (h.alive _ hq)]
        using hAlike
    · intro p hp q hq hAlike
      rw [List.mem_singleton.1 hq] at hAlike
      obtain ⟨hJid, hName⟩ := hAlike
      rw [hasJid_iff, deref_new_self, deref_new (h.alive p hp)] at hJid
      rw [hasName_iff, deref_new_self, deref_new (h.alive p hp)] at hName
      exact search_eq_none.1 hUnlike p hp ⟨hasJid_iff.2 hJid.symm, hasName_iff.2 hName.symm⟩
  · intro p hp
    exact List.mem_append_left _ (h.pooled p hp)
  · refine h.oneLock.imp_of_mem fun hp hq hNot hSame => hNot ?_
    have hpLive := h.alive _ (h.pooled _ hp)
    have hqLive := h.alive _ (h.pooled _ hq)
    simpa only [hasJid, deref_new hpLive, deref_new hqLive] using hSame

theorem Inv.update (h : Inv s d) {p : Nat} {resource : Resource}
    (hp : d.hasName s resource.name p) :
    Inv s { d with heap := d.heap.modify p fun r => { r with resource := resource } } := by
  generalize hd' : ({ d with
    heap := d.heap.modify p fun r => { r with resource := resource } } : JabberResourcePool) = d'
  have hDeref : ∀ q, d.heap.Live q → (d'.deref q).jid = (d.deref q).jid ∧
      s.toLower (d'.deref q).resource.name = s.toLower (d.deref q).resource.name := by
    intro q hq
    obtain ⟨r, hr⟩ := Option.isSome_iff_exists.1 hq
    subst hd'
    by_cases hSame : q = p
    · subst hSame
      have hOld : d.deref q = r := by rw [deref, hr]; rfl
      have hName := hasName_iff.1 hp
      rw [hOld] at hName ⊢
      rw [deref, Heap.get?_modify_self, hr]
      exact ⟨rfl, hName.symm⟩
    · rw [deref, Heap.get?_modify_ne _ hSame]
      exact ⟨rfl, rfl⟩
  have hPool : d'.pool = d.pool := by rw [← hd']
  have hLocks : d'.lockList = d.lockList := by rw [← hd']
  refine ⟨?_, ?_, ?_, ?_⟩
  · rw [hPool]
    intro q hq
    rw [← hd']
    exact (h.alive q hq).modify p _
  · rw [hPool]
    refine h.distinct.imp_of_mem fun hq hq' hNot hAlike => hNot ?_
    obtain ⟨hJid, hName⟩ := hDeref _ (h.alive _ hq)
    obtain ⟨hJid', hName'⟩ := hDeref _ (h.alive _ hq')
    simpa only [Alike, hasJid, hasName, hJid, hName, hJid', hName'] using hAlike
  · rw [hPool, hLocks]
    exact h.pooled
  · rw [hLocks]
    refine h.oneLock.imp_of_mem fun hq hq' hNot hSame => hNot ?_
    have hJid := (hDeref _ (h.alive _ (h.pooled _ hq))).1
    have hJid' := (hDeref _ (h.alive _ (h.pooled _ hq'))).1
    simpa only [hasJid, hJid, hJid'] using hSame

theorem Inv.addResource (h : Inv s d) {jid : Jid} {resource : Resource}
    (hOk : Nameable s d (.addResource jid resource)) : Inv s (d.addResource s jid resource) := by
  unfold JabberResourcePool.addResource
  split
  case h_1 p hp => exact h.update (search_eq_some hp).2.2
  case h_2 hNew => exact h.append (search_new hOk hNew)

theorem alike_addResource (h : Inv s d) {jid : Jid} {resource : Resource}
    (hInv : Inv s (d.addResource s jid resource)) : Nameable s d (.addResource jid resource) := by
  intro hValid hRefused hOther
  by_contra hNew
  rw [Bool.not_eq_true, Option.isSome_eq_false_iff, Option.isNone_iff_eq_none] at hNew
  obtain ⟨p, hp⟩ := Option.isSome_iff_exists.1 hOther
  obtain ⟨hPool, hJid, hName⟩ := search_eq_some hp
  have hNull : (JabberResource.new s jid resource).jid = Jid.null := by
    rw [JabberResource.new, Jid.withResource, if_pos hValid, hRefused]
  have hDistinct := hInv.distinct
  simp only [JabberResourcePool.addResource, hNew] at hDistinct
  refine (List.pairwise_append.1 hDistinct).2.2 p hPool d.heap.next (List.mem_singleton_self _) ?_
  rw [Alike, hasJid_iff, hasName_iff, deref_new_self, deref_new (h.alive p hPool), hNull]
  exact ⟨(hasJid_iff.1 hJid).symm, (hasName_iff.1 hName).symm⟩

/-! ## The best resource -/

/-- **The scan is a maximum**, by priority and then time stamp. -/
theorem bestJabberResource_false (jid : Jid) :
    d.bestJabberResource s jid false = (d.pool.filter (d.hasJid s jid)).argmax d.rank := by
  show d.pool.foldl (d.better s jid) none = _
  rw [List.argmax, List.foldl_filter]
  congr 1
  funext best p
  unfold better
  split
  case isFalse => rfl
  case isTrue =>
    cases best with
    | none => rfl
    | some best =>
      show _ = if d.rank best < d.rank p then some p else some best
      simp only [rank, Prod.Lex.toLex_lt_toLex]
      grind

theorem bestJabberResource_true (jid : Jid) :
    d.bestJabberResource s jid true =
      (d.lockedJabberResource s jid).or (d.bestJabberResource s jid false) := by
  show (match d.lockedJabberResource s jid with | some p => some p | none => _) = _
  cases d.lockedJabberResource s jid <;> rfl

theorem Inv.bestOf (h : Inv s d) {jid : Jid} (hBare : jid.resource = []) :
    d.BestOf s jid (d.bestJabberResource s jid true) := by
  have hLocked : d.lockedJabberResource s jid = d.lockList.find? (d.hasJid s jid) := if_pos hBare
  rw [bestJabberResource_true, hLocked, bestJabberResource_false]
  cases hFind : d.lockList.find? (d.hasJid s jid) with
  | none =>
    have hNone : ∀ p ∈ d.lockList, ¬ d.hasJid s jid p := List.find?_eq_none.1 hFind
    rw [Option.none_or]
    refine ⟨fun p hp hJid => absurd hJid (hNone p hp), ?_, ?_⟩
    · intro _ p hp
      obtain ⟨hPool, hJid⟩ := List.mem_filter.1 (List.argmax_mem hp)
      refine ⟨hPool, hJid, fun q hq hqJid => ?_⟩
      exact List.le_of_mem_argmax (List.mem_filter.2 ⟨hq, hqJid⟩) hp
    · rw [List.argmax_eq_none, List.filter_eq_nil_iff]
  | some p =>
    have hMem := List.mem_of_find?_eq_some hFind
    have hJid : d.hasJid s jid p := List.find?_some hFind
    rw [Option.some_or]
    refine ⟨?_, fun hNone => absurd hJid (hNone p hMem), ?_⟩
    · intro q hq hqJid
      by_contra hNe
      -- Two locks of one JID.
      have hSymm : Std.Symm fun p q => ¬ d.hasJid s (d.deref p).jid q := by
        refine ⟨fun p q hNot hSame => hNot ?_⟩
        exact hasJid_iff.2 (hasJid_iff.1 hSame).symm
      refine h.oneLock.forall hMem hq (fun hSame => hNe (by rw [hSame])) ?_
      exact hasJid_iff.2 ((hasJid_iff.1 hqJid).trans (hasJid_iff.1 hJid).symm)
    · refine iff_of_false (Option.some_ne_none p) fun hNone => ?_
      exact hNone p (h.pooled p hMem) hJid

/-! ## Runs -/

theorem Inv.sound (h : Inv s d) : Sound s d := { h with best := fun _ hBare => h.bestOf hBare }

theorem Inv.step (h : Inv s d) (c : Call) (hOk : Nameable s d c) : Inv s (step s d c) := by
  cases c with
  | addResource jid resource => exact h.addResource hOk
  | removeResource jid resource => exact h.removeResource jid resource
  | removeAllResources jid => exact h.removeAllResources jid
  | clear => exact h.clear
  | lockToResource jid resource => exact h.lockToResource jid resource
  | removeLock jid => exact h.removeLock jid

/-- **The pool.** Whatever is called in whatever order, the pool is sound all along exactly
if no resource loses its JID to a refused name while another one without a JID has it. -/
theorem sound_iff (s : Strings) (calls : List Call) :
    (∀ d ∈ Run.states (step s) empty calls, Sound s d) ↔
      Run.StepsMeet (step s) (Nameable s) empty calls := by
  refine Run.holds_iff_stepsMeet (fun d h => h.sound) ?_ (fun d c h => h.step c) inv_empty
  intro d c h hSound
  cases c with
  | addResource jid resource => exact alike_addResource h hSound.toInv
  | removeResource | removeAllResources | clear | lockToResource | removeLock => trivial

/-- Lower case for ASCII letters, and a profile that refuses the left-to-right mark. -/
def someStrings : Strings where
  toLower := fun str => str.map fun c => if 65 ≤ c ∧ c ≤ 90 then c + 32 else c
  stringprep := fun str => if 0x200E ∈ str then none else some str

/-- A resource of a contact, which is added twice. -/
def addTwice (name : QString) : List Call :=
  [.addResource ⟨[97], [98], []⟩ ⟨name, 5, 0⟩, .addResource ⟨[97], [98], []⟩ ⟨name, 5, 0⟩]

theorem refused_addTwice :
    ¬ ∀ d ∈ Run.states (step someStrings) empty (addTwice [0x200E]), Sound someStrings d := by
  intro h
  have hTwo : [0, 1].Pairwise _ := (h _ (Run.foldl_mem_states _ _)).distinct
  exact (List.pairwise_cons.1 hTwo).1 1 (List.mem_singleton_self 1) ⟨by decide, by decide⟩

end JabberResourcePool

end Jabber
