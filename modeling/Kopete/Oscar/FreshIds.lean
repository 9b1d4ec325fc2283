import Kopete.Lib.IdPool
import Kopete.Oscar.ItemIds

/-!
# Oscar — fresh ids are the lowest ones

`nextContactId` and `nextGroupId` are the same allocator over two pools of ids:
the `bid`s of items and the `gid`s of groups. Each keeps a set and a cached
start of the search. `pool` takes the two members out of the `ContactManager`,
and every public operation is one of the operations of `IdPool` on them, with
whatever id the item carries: `0`, an id above the range, or one that was never
reserved.

Main results:

* `packed_publicStep` — no operation leaves a free id below the cached start;
* `nextIds_lowest` — in every reachable state the lowest free id of
  `[1, 0x7FFF]` is handed out and reserved, `0xFFFF` when there is none, and no
  id is handed out twice while it is not given back.
-/

namespace Oscar.ContactManager

/-! ## Public operations -/

/-- The operations of `ContactManager`, those that change no id included. -/
inductive PublicOp
  | change (op : Op)
  | addID (item : OContact)
  | removeID (item : OContact)
  | setListComplete (complete : Bool)
  | setLastModificationTime (lastTime : Nat)
  | loadFromExisting (newList : List OContact)

def publicStep (toLower : String → String) (d : ContactManagerPrivate) :
    PublicOp → ContactManagerPrivate
  | .change op => step toLower d op
  | .addID item => addID item d
  | .removeID item => removeID item d
  | .setListComplete complete => { d with complete := complete }
  | .setLastModificationTime lastTime => { d with lastModTime := lastTime }
  | .loadFromExisting _ => d -- not implemented

/-! ## The two pools -/

/-- The ids of groups (`true`), or those of all other items. -/
def pool : Bool → ContactManagerPrivate → IdPool
  | true, d => ⟨d.groupIdSet, d.nextGroupId⟩
  | false, d => ⟨d.itemIdSet, d.nextContactId⟩

/-- `nextGroupId`, or `nextContactId`. -/
def nextId : Bool → ContactManagerPrivate → Nat × ContactManagerPrivate
  | true, d => nextGroupId d
  | false, d => nextContactId d

theorem pool_addID (b : Bool) (item : OContact) (d : ContactManagerPrivate) :
    pool b (addID item d) =
      if item.key.1 = b then (pool b d).add item.key.2 else pool b d := by
  unfold addID OContact.key
  split <;> cases b <;> rfl

theorem pool_removeID (b : Bool) (item : OContact) (d : ContactManagerPrivate) :
    pool b (removeID item d) =
      if item.key.1 = b then (pool b d).remove item.key.2 else pool b d := by
  unfold removeID OContact.key
  split <;> cases b <;> rfl

theorem pool_append (b : Bool) (item : OContact) (d : ContactManagerPrivate) :
    pool b (append item d) = pool b (addID item d) := by
  cases b <;> rfl

theorem pool_drop (b : Bool) (item : OContact) (d : ContactManagerPrivate) :
    pool b (drop item d) = pool b (removeID item d) := by
  cases b <;> rfl

/-- `findFreeId` is the search of the pool. -/
theorem findFreeId_eq (idSet : Finset Nat) (fromId : Nat) :
    findFreeId idSet fromId = (IdPool.firstFree idSet fromId 0x8000).getD 0xFFFF := rfl

/-- An allocation takes from its pool and leaves the other. -/
theorem nextId_eq (b : Bool) (d : ContactManagerPrivate) :
    (nextId b d).1 = ((pool b d).take 1 0x8000 0xFFFF).1.getD 0xFFFF ∧
      pool b (nextId b d).2 = ((pool b d).take 1 0x8000 0xFFFF).2 ∧
      pool (!b) (nextId b d).2 = pool (!b) d := by
  have hStart (n : Nat) : (if n = 0 then 1 else n) = max 1 n := by split <;> omega
  cases b with
  | true =>
    simp only [nextId, nextGroupId, findFreeId_eq, hStart, IdPool.take, pool, Bool.not_true]
    rcases hFirst : IdPool.firstFree d.groupIdSet (max 1 d.nextGroupId) 0x8000 with _ | id
    · simp
    · have hlt := (IdPool.firstFree_some hFirst).2.1
      have hne : id ≠ 0xFFFF := by omega
      simp [hne]
  | false =>
    simp only [nextId, nextContactId, findFreeId_eq, hStart, IdPool.take, pool, Bool.not_false]
    rcases hFirst : IdPool.firstFree d.itemIdSet (max 1 d.nextContactId) 0x8000 with _ | id
    · simp
    · have hlt := (IdPool.firstFree_some hFirst).2.1
      have hne : id ≠ 0xFFFF := by omega
      simp [hne]

/-! ## No free id below the cached start -/

/-- The invariant of both pools. -/
def Packed (d : ContactManagerPrivate) : Prop := ∀ b, (pool b d).Packed 1 0x8000

theorem packed_addID {d : ContactManagerPrivate} (item : OContact) (h : Packed d) :
    Packed (addID item d) := by
  intro b
  rw [pool_addID]
  split
  · exact (h b).add _
  · exact h b

theorem packed_removeID {d : ContactManagerPrivate} (item : OContact) (h : Packed d) :
    Packed (removeID item d) := by
  intro b
  rw [pool_removeID]
  split
  · exact (h b).remove _
  · exact h b

theorem packed_append {d : ContactManagerPrivate} (item : OContact) (h : Packed d) :
    Packed (append item d) := by
  intro b
  rw [pool_append]
  exact packed_addID item h b

theorem packed_drop {d : ContactManagerPrivate} (item : OContact) (h : Packed d) :
    Packed (drop item d) := by
  intro b
  rw [pool_drop]
  exact packed_removeID item h b

theorem packed_appendNew {d : ContactManagerPrivate} (item : OContact) (h : Packed d) :
    Packed (appendNew item d).2 := by
  unfold appendNew
  split
  · exact h
  · exact packed_append item h

theorem packed_replace {d : ContactManagerPrivate} (oldItem item : OContact) (h : Packed d) :
    Packed (replace oldItem item d).2 := by
  unfold replace
  split
  · exact packed_appendNew item (packed_drop oldItem h)
  · exact packed_appendNew item h

theorem packed_nextId {d : ContactManagerPrivate} (b : Bool) (h : Packed d) :
    Packed (nextId b d).2 := by
  obtain ⟨-, hPool, hOther⟩ := nextId_eq b d
  intro c
  by_cases hc : c = b
  · rw [hc, hPool]
    exact (h b).take
  · obtain rfl : c = !b := Bool.eq_not_of_ne hc
    rw [hOther]
    exact h _

theorem packed_step {d : ContactManagerPrivate} (toLower : String → String) (op : Op)
    (h : Packed d) : Packed (step toLower d op) := by
  cases op with
  | newGroup group =>
    simp only [step, newGroup]
    split
    · exact h
    · split
      · exact packed_append group h
      · exact h
  | newContact contact => exact packed_appendNew contact h
  | newItem item => exact packed_appendNew item h
  | updateGroup group => exact packed_replace _ group h
  | updateContact contact => exact packed_replace _ contact h
  | updateItem item => exact packed_replace _ item h
  | removeGroup group => exact packed_drop group h
  | removeContact contact => exact packed_drop contact h
  | removeItem item => exact packed_drop item h
  | removeGroupNamed group =>
    simp only [step, removeGroupNamed]
    split
    · exact packed_drop _ h
    · exact h
  | removeContactNamed contact =>
    simp only [step, removeContactNamed]
    split
    · exact packed_drop _ h
    · exact h
  | freeIdOnError t =>
    simp only [step, SSIModifyTask.freeIdOnError]
    split
    · exact packed_removeID _ h
    · exact h
  | nextContactId => exact packed_nextId false h
  | nextGroupId => exact packed_nextId true h
  | clear =>
    intro b
    cases b <;> exact fun id _ _ hlt => absurd hlt (Nat.not_lt_zero id)

theorem packed_publicStep {d : ContactManagerPrivate} (toLower : String → String)
    (op : PublicOp) (h : Packed d) : Packed (publicStep toLower d op) := by
  cases op with
  | change op => exact packed_step toLower op h
  | addID item => exact packed_addID item h
  | removeID item => exact packed_removeID item h
  | setListComplete complete =>
    intro b
    cases b
    · exact h false
    · exact h true
  | setLastModificationTime lastTime =>
    intro b
    cases b
    · exact h false
    · exact h true
  | loadFromExisting newList => exact h

theorem packed_init : Packed init := by
  intro b
  cases b <;> exact fun id _ _ hlt => absurd hlt (Nat.not_lt_zero id)

/-! ## The ids handed out -/

/-- What an allocation owes: `used` and `used'` are the ids in use before and
after it, `id` is what it returns. -/
structure HandsOutLowest (used used' : Finset Nat) (id : Nat) : Prop where
  lowest : id ≠ 0xFFFF → IsLeast {i | 1 ≤ i ∧ i ≤ 0x7FFF ∧ i ∉ used} id
  full : id = 0xFFFF ↔ ∀ i, 1 ≤ i → i ≤ 0x7FFF → i ∈ used
  reserves : used' = if id = 0xFFFF then used else insert id used

theorem handsOutLowest_nextId {d : ContactManagerPrivate} (b : Bool) (h : Packed d) :
    HandsOutLowest (pool b d).used (pool b (nextId b d).2).used (nextId b d).1 := by
  obtain ⟨hId, hPool, -⟩ := nextId_eq b d
  have hRange : (pool b d).free 1 0x8000 = {i | 1 ≤ i ∧ i ≤ 0x7FFF ∧ i ∉ (pool b d).used} := by
    ext i
    exact and_congr_right fun _ => and_congr_left fun _ => Nat.lt_succ_iff
  rw [hId, hPool]
  rcases hTake : ((pool b d).take 1 0x8000 0xFFFF).1 with _ | id
  · obtain ⟨hNone, hSame⟩ := IdPool.take_none (h b) hTake
    rw [hRange] at hNone
    refine ⟨fun hne => absurd rfl hne, iff_of_true rfl fun i hlo hhi => ?_, by rw [hSame]; rfl⟩
    by_contra hFree
    exact Set.notMem_empty i (hNone ▸ ⟨hlo, hhi, hFree⟩)
  · obtain ⟨hLeast, hNext⟩ := IdPool.take_some (h b) hTake
    rw [hRange] at hLeast
    obtain ⟨hlo, hhi, hFree⟩ := hLeast.1
    have hne : id ≠ 0xFFFF := by omega
    exact ⟨fun _ => hLeast, iff_of_false hne fun hFull => hFree (hFull id hlo hhi),
      by rw [hNext, Option.getD_some, if_neg hne]⟩

/-- An id that is in use is not handed out. -/
theorem nextId_ne_of_mem {d : ContactManagerPrivate} (b : Bool) (h : Packed d) {id : Nat}
    (hMem : id ∈ (pool b d).used) (hSame : (nextId b d).1 = id) : id = 0xFFFF := by
  by_contra hne
  have hLeast := (handsOutLowest_nextId b h).lowest (by rwa [hSame])
  rw [hSame] at hLeast
  exact hLeast.1.2.2 hMem

/-- Ids that no step gives back are in use at the end. -/
theorem mem_of_kept {step : ContactManagerPrivate → PublicOp → ContactManagerPrivate} {b : Bool}
    {id : Nat} {d : ContactManagerPrivate} {ops : List PublicOp} (hMem : id ∈ (pool b d).used)
    (hKept : Run.StepsMeet step (fun d op => (pool b d).used ⊆ (pool b (step d op)).used) d ops) :
    id ∈ (pool b (ops.foldl step d)).used :=
  Run.inv_of_stepsMeet
    (fun (d : ContactManagerPrivate) _ (h : id ∈ (pool b d).used) hSub => hSub h) hMem
    hKept _ (Run.foldl_mem_states d ops)

/-- Two allocations with nothing given back in between. -/
theorem nextId_ne_of_kept {toLower : String → String} {d : ContactManagerPrivate} (b : Bool)
    (h : Packed d) (ops : List PublicOp)
    (hKept : Run.StepsMeet (publicStep toLower)
      (fun d op => (pool b d).used ⊆ (pool b (publicStep toLower d op)).used) (nextId b d).2 ops) :
    (nextId b (ops.foldl (publicStep toLower) (nextId b d).2)).1 = (nextId b d).1 →
      (nextId b d).1 = 0xFFFF := by
  intro hSame
  by_contra hne
  have hPacked : Packed (ops.foldl (publicStep toLower) (nextId b d).2) :=
    Run.inv_of_stepsMeet (fun _ op h _ => packed_publicStep toLower op h) (packed_nextId b h)
      (Run.stepsMeet_of_forall (fun _ _ => trivial) _ _) _ (Run.foldl_mem_states _ ops)
  have hReserved : (nextId b d).1 ∈ (pool b (nextId b d).2).used := by
    rw [(handsOutLowest_nextId b h).reserves, if_neg hne]
    exact Finset.mem_insert_self ..
  exact hne (nextId_ne_of_mem b hPacked (mem_of_kept hReserved hKept) hSame)

/--
**Fresh ids.** In every state the public operations reach, both allocations hand
out the lowest free id and reserve it, or `0xFFFF` exactly when the range is
full. Whatever happens in between, a second one does not return the same id
again unless a step has taken ids out of the set.
-/
theorem nextIds_lowest (toLower : String → String) (ops : List PublicOp) :
    ∀ d ∈ Run.states (publicStep toLower) init ops,
      HandsOutLowest d.itemIdSet (nextContactId d).2.itemIdSet (nextContactId d).1 ∧
      HandsOutLowest d.groupIdSet (nextGroupId d).2.groupIdSet (nextGroupId d).1 ∧
      (∀ between,
        Run.StepsMeet (publicStep toLower)
          (fun d op => d.itemIdSet ⊆ (publicStep toLower d op).itemIdSet)
          (nextContactId d).2 between →
        (nextContactId (between.foldl (publicStep toLower) (nextContactId d).2)).1 =
          (nextContactId d).1 → (nextContactId d).1 = 0xFFFF) ∧
      (∀ between,
        Run.StepsMeet (publicStep toLower)
          (fun d op => d.groupIdSet ⊆ (publicStep toLower d op).groupIdSet)
          (nextGroupId d).2 between →
        (nextGroupId (between.foldl (publicStep toLower) (nextGroupId d).2)).1 =
          (nextGroupId d).1 → (nextGroupId d).1 = 0xFFFF) := by
  intro d hd
  have hPacked : Packed d :=
    Run.inv_of_stepsMeet (fun _ op h _ => packed_publicStep toLower op h) packed_init
      (Run.stepsMeet_of_forall (fun _ _ => trivial) _ _) d hd
  exact ⟨handsOutLowest_nextId false hPacked, handsOutLowest_nextId true hPacked,
    nextId_ne_of_kept false hPacked, nextId_ne_of_kept true hPacked⟩

/-- Two ids are taken, the first is given back, and it is the next one. -/
def firstGivenBack : ContactManagerPrivate :=
  [.change .nextContactId, .change .nextContactId,
    .removeID ⟨"a", 0, 1, ROSTER_CONTACT, []⟩].foldl (publicStep id) init

theorem nextIds_lowest_firstGivenBack :
    HandsOutLowest firstGivenBack.itemIdSet (nextContactId firstGivenBack).2.itemIdSet
      (nextContactId firstGivenBack).1 :=
  (nextIds_lowest id _ firstGivenBack (Run.foldl_mem_states ..)).1

end Oscar.ContactManager
