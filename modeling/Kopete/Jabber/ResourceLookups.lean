import Kopete.Jabber.ResourcePool

/-!
# Jabber — four ways to find a resource

A resource is looked up by a bare JID and a name in four functions. Two of them list what
they find, and compare both without regard to case. `lockedJabberResource` compares the name
as it is, and `getJabberResource` compares it with the resource of the JID that it is called
with; where this one is bare nothing passes, and it gives the best resource instead.

Main results:

* `appendFound_eq`, `getJabberResource_bare` — what the lookups come to;
* `hasJid_of_lookups` — none of them ever gives a resource of another bare JID;
* `lookups_iff` — when they all find the entry that has the JID and the name.
-/

namespace Jabber.JabberResourcePool

variable (s : Strings) (d : JabberResourcePool)

/-! ## The code -/

/-- The loop of `JabberResourcePool::findResources`, which appends `found` of each resource. -/
def appendFound {α : Type} (found : Nat → α) (jid : Jid) (resourceList : List α) : List α :=
  d.pool.foldl (fun list p =>
    if d.hasJid s jid p then
      if jid.resource ≠ [] ∧ s.toLower jid.resource ≠ s.toLower (d.deref p).resource.name then list
      else list ++ [found p]
    else list) resourceList

/-- `JabberResourcePool::findResources`, for a `JabberResourcePool::ResourceList`. -/
def findJabberResources (jid : Jid) (resourceList : List Nat) : List Nat :=
  d.appendFound s id jid resourceList

/-- `JabberResourcePool::findResources`, for an `XMPP::ResourceList`. -/
def findResources (jid : Jid) (resourceList : List Resource) : List Resource :=
  d.appendFound s (fun p => (d.deref p).resource) jid resourceList

/-- `JabberResourcePool::getJabberResource`. -/
def getJabberResource (jid : Jid) (resource : QString) : Option Nat :=
  if resource = [] then d.bestJabberResource s jid true
  else
    match d.pool.find? fun p => d.hasJid s jid p && decide (s.toLower jid.resource = resource) &&
        !(jid.resource ≠ [] ∧ s.toLower jid.resource ≠ s.toLower (d.deref p).resource.name) with
    | some p => some p
    | none => d.bestJabberResource s jid true

/-! ## What is asked of them -/

/-- The entry that has the bare JID and the name, up to case. -/
def IsEntry (jid : Jid) (name : QString) (p : Nat) : Prop :=
  p ∈ d.pool ∧ d.hasJid s jid p = true ∧ d.hasName s name p = true

/-- The JID with this resource. -/
def withName (jid : Jid) (name : QString) : Jid := { jid with resource := name }

/-- The lookups for a JID and a name find the entry that there is, and where there is none they find
nothing of another bare JID. -/
structure Agree (jid : Jid) (name : QString) : Prop where
  get : ∀ e, d.IsEntry s jid name e → d.getJabberResource s (withName jid []) name = some e
  locked : ∀ e, d.IsEntry s jid name e → d.lockedJabberResource s (withName jid name) = some e
  find : ∀ e, d.IsEntry s jid name e → d.findJabberResources s (withName jid name) [] = [e] ∧
    d.findResources s (withName jid name) [] = [(d.deref e).resource]
  no_other : (∀ e, ¬ d.IsEntry s jid name e) → ∀ p,
    (d.getJabberResource s (withName jid []) name = some p ∨
      d.lockedJabberResource s (withName jid name) = some p ∨
      p ∈ d.findJabberResources s (withName jid name) []) → d.hasJid s jid p = true
  no_other_resource : (∀ e, ¬ d.IsEntry s jid name e) →
    ∀ r ∈ d.findResources s (withName jid name) [], ∃ p ∈ d.pool,
      d.hasJid s jid p = true ∧ (d.deref p).resource = r

/-- The first lock of the bare JID; and if there is none, the first of its resources with the
greatest priority and, among these, time stamp. -/
def FirstChoice (jid : Jid) (e : Nat) : Prop :=
  d.lockList.find? (d.hasJid s jid) = some e ∨
    (∀ p ∈ d.lockList, d.hasJid s jid p = false) ∧
      (d.pool.filter (d.hasJid s jid)).argmax d.rank = some e

/-- The entry is the first choice, and its name is written as it is asked for. If the name that is
asked for is empty, the entry is locked, and the only one of its bare JID. -/
def Findable (jid : Jid) (name : QString) (e : Nat) : Prop :=
  d.FirstChoice s jid e ∧
    if name = [] then
      d.lockList.find? (d.hasJid s jid) = some e ∧ ∀ p ∈ d.pool, d.hasJid s jid p = true → p = e
    else (d.deref e).resource.name = name

variable {s d}

/-! ## What the lookups come to -/

/-- The bare JID and, if one is given, the name. -/
theorem appendFound_eq {α : Type} (found : Nat → α) (jid : Jid) (list : List α) :
    d.appendFound s found jid list = list ++ (d.pool.filter fun p =>
      d.hasJid s jid p && (decide (jid.resource = []) || d.hasName s jid.resource p)).map found := by
  unfold appendFound
  induction d.pool generalizing list with
  | nil => simp
  | cons p ps ih =>
    have hName : (jid.resource ≠ [] ∧
        s.toLower jid.resource ≠ s.toLower (d.deref p).resource.name) ↔
          ¬ (decide (jid.resource = []) || d.hasName s jid.resource p) = true := by
      rw [Bool.or_eq_true, decide_eq_true_eq, hasName_iff, not_or, eq_comm (b := s.toLower _)]
    rw [List.foldl_cons, ih, List.filter_cons]
    by_cases hJid : d.hasJid s jid p = true
    · rw [if_pos hJid, hJid, Bool.true_and]
      by_cases hMatch : (decide (jid.resource = []) || d.hasName s jid.resource p) = true
      · rw [if_neg fun h => hName.1 h hMatch, if_pos hMatch, List.map_cons, List.append_assoc]
        rfl
      · rw [if_pos (hName.2 hMatch), if_neg hMatch]
    · have hFalse : d.hasJid s jid p = false := Bool.eq_false_of_not_eq_true hJid
      rw [if_neg hJid, hFalse, Bool.false_and, if_neg Bool.false_ne_true]

theorem getJabberResource_bare (hLower : s.toLower [] = []) (jid : Jid) (name : QString) :
    d.getJabberResource s (withName jid []) name =
      d.bestJabberResource s (withName jid []) true := by
  unfold getJabberResource
  split
  · rfl
  · next hName =>
    have hNone : (d.pool.find? fun p => d.hasJid s (withName jid []) p &&
        decide (s.toLower (withName jid []).resource = name) &&
        !((withName jid []).resource ≠ [] ∧ s.toLower (withName jid []).resource ≠
          s.toLower (d.deref p).resource.name)) = none := by
      refine List.find?_eq_none.2 fun p _ => ?_
      have hBare : s.toLower (withName jid []).resource ≠ name := by
        show s.toLower [] ≠ name
        rw [hLower]
        exact fun hSame => hName hSame.symm
      simp [hBare]
    rw [hNone]

theorem bestJabberResource_bare (jid : Jid) :
    d.bestJabberResource s (withName jid []) true =
      (d.lockList.find? (d.hasJid s jid)).or
        ((d.pool.filter (d.hasJid s jid)).argmax d.rank) := by
  rw [bestJabberResource_true, bestJabberResource_false]
  rfl

theorem getJabberResource_iff (hLower : s.toLower [] = []) (jid : Jid) (name : QString) (e : Nat) :
    d.getJabberResource s (withName jid []) name = some e ↔ d.FirstChoice s jid e := by
  rw [getJabberResource_bare hLower, bestJabberResource_bare, Option.or_eq_some_iff,
    List.find?_eq_none, FirstChoice]
  simp only [Bool.not_eq_true]

theorem FirstChoice.hasJid {jid : Jid} {e : Nat} (h : d.FirstChoice s jid e) :
    d.hasJid s jid e = true := by
  rcases h with hLocked | ⟨-, hBest⟩
  · simpa using List.find?_some hLocked
  · exact (List.mem_filter.1 (List.argmax_mem hBest)).2

theorem hasJid_of_locked {jid : Jid} {name : QString} {p : Nat}
    (h : d.lockedJabberResource s (withName jid name) = some p) : d.hasJid s jid p = true := by
  unfold lockedJabberResource at h
  split at h
  · have hFound : d.hasJid s (withName jid name) p = true := List.find?_some h
    exact hFound
  · have hFound := List.find?_some h
    exact (Bool.and_eq_true_iff.1 hFound).1

/-- **Never another bare JID.** -/
theorem hasJid_of_lookups (hLower : s.toLower [] = []) {jid : Jid} {name : QString} {p : Nat}
    (h : d.getJabberResource s (withName jid []) name = some p ∨
      d.lockedJabberResource s (withName jid name) = some p ∨
      p ∈ d.findJabberResources s (withName jid name) []) : d.hasJid s jid p = true := by
  rcases h with hGet | hLocked | hFind
  · exact ((getJabberResource_iff hLower jid name p).1 hGet).hasJid
  · exact hasJid_of_locked hLocked
  · rw [findJabberResources, appendFound_eq, List.nil_append, List.map_id] at hFind
    exact (Bool.and_eq_true_iff.1 (List.mem_filter.1 hFind).2).1

/-! ## The only entry -/

/-- What a condition singles out. -/
theorem filter_eq_singleton {α : Type} {p : α → Bool} {l : List α} {e : α}
    (h : l.Pairwise fun a b => ¬ (p a = true ∧ p b = true)) (he : e ∈ l) (hp : p e = true) :
    l.filter p = [e] := by
  obtain ⟨before, behind, rfl⟩ := List.append_of_mem he
  obtain ⟨-, hBehind, hBefore⟩ := List.pairwise_append.1 h
  have hNoneBefore : before.filter p = [] := List.filter_eq_nil_iff.2 fun a ha hpa =>
    hBefore a ha e List.mem_cons_self ⟨hpa, hp⟩
  have hNoneBehind : behind.filter p = [] := List.filter_eq_nil_iff.2 fun a ha hpa =>
    (List.pairwise_cons.1 hBehind).1 a ha ⟨hp, hpa⟩
  rw [List.filter_append, hNoneBefore, List.filter_cons, if_pos hp, hNoneBehind, List.nil_append]

theorem filter_entry (hDistinct : d.pool.Pairwise fun p q => ¬ d.Alike s p q) {jid : Jid}
    {name : QString} {e : Nat} (he : d.IsEntry s jid name e) :
    (d.pool.filter fun p => d.hasJid s jid p && d.hasName s name p) = [e] := by
  refine filter_eq_singleton (hDistinct.imp fun hNot hBoth => hNot ?_) he.1
    (Bool.and_eq_true_iff.2 he.2)
  obtain ⟨hFirst, hSecond⟩ := hBoth
  rw [Bool.and_eq_true, hasJid_iff, hasName_iff] at hFirst hSecond
  exact ⟨hasJid_iff.2 (hSecond.1.trans hFirst.1.symm), hasName_iff.2 (hSecond.2.trans hFirst.2.symm)⟩

/-- A name that is asked for has to be written as it is. -/
theorem lockedJabberResource_iff (hDistinct : d.pool.Pairwise fun p q => ¬ d.Alike s p q)
    {jid : Jid} {name : QString} (hName : name ≠ []) {e : Nat} (he : d.IsEntry s jid name e) :
    d.lockedJabberResource s (withName jid name) = some e ↔ (d.deref e).resource.name = name := by
  have hNamed : d.lockedJabberResource s (withName jid name) = d.pool.find? fun p =>
      d.hasJid s (withName jid name) p && decide ((d.deref p).resource.name = name) :=
    if_neg hName
  rw [hNamed]
  constructor
  · intro hFound
    have hBoth := List.find?_some hFound
    rw [Bool.and_eq_true, decide_eq_true_eq] at hBoth
    exact hBoth.2
  · intro hWritten
    cases hFound : d.pool.find? fun p =>
        d.hasJid s (withName jid name) p && decide ((d.deref p).resource.name = name) with
    | none =>
      refine absurd ?_ (List.find?_eq_none.1 hFound e he.1)
      exact Bool.and_eq_true_iff.2 ⟨he.2.1, decide_eq_true hWritten⟩
    | some p =>
      have hBoth := List.find?_some hFound
      rw [Bool.and_eq_true, decide_eq_true_eq] at hBoth
      have hEntry : p ∈ d.pool.filter fun p => d.hasJid s jid p && d.hasName s name p :=
        List.mem_filter.2 ⟨List.mem_of_find?_eq_some hFound,
          Bool.and_eq_true_iff.2 ⟨hBoth.1, hasName_iff.2 (by rw [hBoth.2])⟩⟩
      rw [filter_entry hDistinct he] at hEntry
      exact congrArg some (List.mem_singleton.1 hEntry)

/-- A name that is asked for is found up to case. -/
theorem appendFound_entry (hDistinct : d.pool.Pairwise fun p q => ¬ d.Alike s p q)
    {jid : Jid} {name : QString} (hName : name ≠ []) {e : Nat} (he : d.IsEntry s jid name e)
    {α : Type} (found : Nat → α) : d.appendFound s found (withName jid name) [] = [found e] := by
  have hFilter : (d.pool.filter fun p => d.hasJid s (withName jid name) p &&
      (decide ((withName jid name).resource = []) ||
        d.hasName s (withName jid name).resource p)) = [e] := by
    rw [← filter_entry hDistinct he]
    refine List.filter_congr fun p _ => ?_
    show (d.hasJid s jid p && (decide (name = []) || d.hasName s name p)) = _
    rw [decide_eq_false hName, Bool.false_or]
  rw [appendFound_eq, hFilter]
  rfl

/-- With no name, all of the bare JID are found. -/
theorem appendFound_bare {α : Type} (found : Nat → α) (jid : Jid) :
    d.appendFound s found (withName jid []) [] = (d.pool.filter (d.hasJid s jid)).map found := by
  rw [appendFound_eq, List.nil_append]
  congr 1
  refine List.filter_congr fun p _ => ?_
  show (d.hasJid s jid p && (decide (([] : QString) = []) || _)) = _
  rw [decide_eq_true rfl, Bool.true_or, Bool.and_true]

theorem findJabberResources_bare (jid : Jid) :
    d.findJabberResources s (withName jid []) [] = d.pool.filter (d.hasJid s jid) := by
  rw [findJabberResources, appendFound_bare, List.map_id]

theorem findResources_bare (jid : Jid) : d.findResources s (withName jid []) [] =
    (d.pool.filter (d.hasJid s jid)).map fun p => (d.deref p).resource :=
  appendFound_bare _ jid

theorem filter_hasJid_of_only (hDistinct : d.pool.Pairwise fun p q => ¬ d.Alike s p q) {jid : Jid}
    {name : QString} {e : Nat} (he : d.IsEntry s jid name e)
    (hOnly : ∀ p ∈ d.pool, d.hasJid s jid p = true → p = e) :
    d.pool.filter (d.hasJid s jid) = [e] := by
  refine filter_eq_singleton (hDistinct.imp_of_mem fun hp hq hNot hBoth => hNot ?_) he.1 he.2.1
  rw [hOnly _ hp hBoth.1, hOnly _ hq hBoth.2]
  exact ⟨hasJid_iff.2 rfl, hasName_iff.2 rfl⟩

/-- **The lookups agree** for a JID and a name exactly if the entry they ask for, where there is
one, is the first choice and its name is written as it is asked for. -/
theorem lookups_iff (hLower : s.toLower [] = [])
    (hDistinct : d.pool.Pairwise fun p q => ¬ d.Alike s p q) (jid : Jid) (name : QString) :
    d.Agree s jid name ↔ ∀ e, d.IsEntry s jid name e → d.Findable s jid name e := by
  constructor
  · intro h e he
    refine ⟨(getJabberResource_iff hLower jid name e).1 (h.get e he), ?_⟩
    split
    · next hName =>
      subst hName
      have hFound := (h.find e he).1
      rw [findJabberResources_bare] at hFound
      refine ⟨h.locked e he, fun p hp hJid => ?_⟩
      exact List.mem_singleton.1 (hFound ▸ List.mem_filter.2 ⟨hp, hJid⟩)
    · next hName => exact (lockedJabberResource_iff hDistinct hName he).1 (h.locked e he)
  · intro h
    refine ⟨fun e he => (getJabberResource_iff hLower jid name e).2 (h e he).1, fun e he => ?_,
      fun e he => ?_, fun _ p hp => hasJid_of_lookups hLower hp, fun _ r hr => ?_⟩
    · have hFindable := (h e he).2
      split at hFindable
      · next hName =>
        subst hName
        exact hFindable.1
      · next hName => exact (lockedJabberResource_iff hDistinct hName he).2 hFindable
    · have hFindable := (h e he).2
      split at hFindable
      · next hName =>
        subst hName
        have hOnly := filter_hasJid_of_only hDistinct he hFindable.2
        exact ⟨by rw [findJabberResources_bare, hOnly], by rw [findResources_bare, hOnly]; rfl⟩
      · next hName =>
        exact ⟨appendFound_entry hDistinct hName he id,
          appendFound_entry hDistinct hName he fun p => (d.deref p).resource⟩
    · rw [findResources, appendFound_eq, List.nil_append] at hr
      obtain ⟨p, hp, rfl⟩ := List.mem_map.1 hr
      obtain ⟨hPool, hBoth⟩ := List.mem_filter.1 hp
      exact ⟨p, hPool, (Bool.and_eq_true_iff.1 hBoth).1, rfl⟩

/-- Two resources of a contact, the second one with the greater priority. -/
def homeAndWork : JabberResourcePool :=
  [.addResource ⟨[97], [98], []⟩ ⟨[104], 5, 0⟩,
    .addResource ⟨[97], [98], []⟩ ⟨[119], 10, 0⟩].foldl (step someStrings) empty

theorem distinct_homeAndWork :
    homeAndWork.pool.Pairwise fun p q => ¬ homeAndWork.Alike someStrings p q := by
  show [0, 1].Pairwise _
  refine List.pairwise_pair.2 fun hAlike => ?_
  exact absurd hAlike.2 (by decide)

/-- The one that is asked for by its name, and as it is written. -/
theorem lookups_iff_work : homeAndWork.Agree someStrings ⟨[97], [98], []⟩ [119] := by
  refine (lookups_iff rfl distinct_homeAndWork _ _).2 fun e he => ?_
  have hMem : e ∈ [0, 1] := he.1
  rcases List.mem_pair.1 hMem with rfl | rfl
  · exact absurd he.2.2 (by decide)
  · exact ⟨.inr ⟨fun p hp => (nomatch hp), by decide⟩, by decide⟩

/-- The other one. -/
theorem lookups_home : (homeAndWork.pool.Pairwise fun p q => ¬ homeAndWork.Alike someStrings p q) ∧
    ¬ homeAndWork.Agree someStrings ⟨[97], [98], []⟩ [104] := by
  refine ⟨distinct_homeAndWork, fun h => ?_⟩
  have hEntry : homeAndWork.IsEntry someStrings ⟨[97], [98], []⟩ [104] 0 :=
    ⟨by decide, by decide, by decide⟩
  exact absurd (h.get 0 hEntry) (by decide)

end Jabber.JabberResourcePool
