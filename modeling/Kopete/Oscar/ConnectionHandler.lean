import Kopete.Lib.QList
import Kopete.Lib.QMap
import Kopete.Lib.Run
import Kopete.Oscar.MessageText
import Mathlib

/-!
# Oscar — the connections of a client

The handler has a list of connections, and a map that says which of them is for which chat room.
What takes a connection off the list schedules it for deletion and leaves the map as it is. The
loop that takes off all connections of a family erases while it iterates: it goes on behind the
connection that follows, and to an end it has taken before.

Main results:

* `removeFrom_iff` — when that loop takes off the connections of the family;
* `tidy_of_meets` — runs after which no lookup finds a connection that is not there.
-/

namespace Oscar

/-- `Connection*`. -/
abbrev ConnectionPtr := Nat

/-- `ConnectionRoomInfo`: the exchange and the room. -/
abbrev ConnectionRoomInfo := Nat × QString

/-- `ConnectionHandler`, with the connections that are scheduled for deletion. -/
structure ConnectionHandler where
  connections : List ConnectionPtr
  chatRoomConnections : QMap ConnectionPtr ConnectionRoomInfo
  deleted : List ConnectionPtr

namespace ConnectionHandler

/-! ## Changes -/

/-- `ConnectionHandler()`. -/
def init : ConnectionHandler := ⟨[], .empty, []⟩

/-- `append`. -/
def append (c : ConnectionPtr) (d : ConnectionHandler) : ConnectionHandler :=
  { d with connections := d.connections ++ [c] }

/-- `remove( Connection* )`. -/
def remove (c : ConnectionPtr) (d : ConnectionHandler) : ConnectionHandler :=
  { d with
    connections := QList.removeAll d.connections c
    deleted := d.deleted ++ [c] }

/-- The loop of `remove( int )`, with what it schedules for deletion; `none` is an item read that
is not in the list. Positions are those from the first item. `moved i n` says whether
`QList::erase`, of the item `i` of `n`, moves what is in front of the item; then the list ends
where it has ended. -/
def removeFrom (moved : Nat → Nat → Bool) (supports : ConnectionPtr → Bool) :
    Nat → List ConnectionPtr → Nat → Nat → Option (List ConnectionPtr × List ConnectionPtr)
  | 0, _, _, _ => none
  | fuel + 1, connections, it, itEnd =>
    if it = itEnd then some (connections, [])
    else
      match connections[it]? with
      | none => none
      | some c =>
        if supports c then
          (removeFrom moved supports fuel (connections.eraseIdx it) (it + 1)
            (if moved it connections.length then itEnd - 1 else itEnd)).map
              fun r => (r.1, c :: r.2)
        else removeFrom moved supports fuel connections (it + 1) itEnd

/-- `remove( int )`, where `supports` are the connections that support the family. -/
def removeFamily (moved : Nat → Nat → Bool) (supports : ConnectionPtr → Bool)
    (d : ConnectionHandler) : Option ConnectionHandler :=
  (removeFrom moved supports (d.connections.length + 1) d.connections 0 d.connections.length).map
    fun r => { d with connections := r.1, deleted := d.deleted ++ r.2 }

/-- `clear`. -/
def clear (d : ConnectionHandler) : ConnectionHandler :=
  { d with connections := [], deleted := d.deleted ++ d.connections }

/-- `addChatInfoForConnection`. -/
def addChatInfoForConnection (c : ConnectionPtr) (exchange : Nat) (room : QString)
    (d : ConnectionHandler) : ConnectionHandler :=
  { d with
    connections := if c ∈ d.connections then d.connections else d.connections ++ [c]
    chatRoomConnections := d.chatRoomConnections.insert c (exchange, room) }

/-! ## Lookups -/

/-- `connectionForFamily`: the number of the connections and the last one. -/
def connectionForFamily (supports : ConnectionPtr → Bool) (d : ConnectionHandler) :
    Option ConnectionPtr :=
  let (connectionCount, lastConnection) := d.connections.foldl
    (fun r c => if supports c then (r.1 + 1, some c) else r) (0, none)
  if connectionCount = 1 then lastConnection else none

/-- `connectionForChatRoom`. -/
def connectionForChatRoom (exchange : Nat) (room : QString) (d : ConnectionHandler) :
    Option ConnectionPtr :=
  (d.chatRoomConnections.entries.find? fun e => e.2 = (exchange, room)).map (·.1)

/-- `chatRoomForConnection`. -/
def chatRoomForConnection (c : ConnectionPtr) (d : ConnectionHandler) : Option QString :=
  if c ∈ d.connections then (d.chatRoomConnections.find? c).map (·.2) else none

/-- `exchangeForConnection`. -/
def exchangeForConnection (c : ConnectionPtr) (d : ConnectionHandler) : Nat :=
  if c ∈ d.connections then ((d.chatRoomConnections.find? c).map (·.1)).getD 0xFFFF else 0xFFFF

theorem foldl_family (supports : ConnectionPtr → Bool) : ∀ (l : List ConnectionPtr) (n : Nat)
    (last : Option ConnectionPtr),
    l.foldl (fun r c => if supports c then (r.1 + 1, some c) else r) (n, last) =
      (n + (l.filter supports).length, ((l.filter supports).getLast?).or last)
  | [], n, last => by simp
  | c :: l, n, last => by
    rw [List.foldl_cons]
    by_cases hc : supports c
    · rw [if_pos hc, foldl_family supports l, List.filter_cons_of_pos hc, List.length_cons]
      refine Prod.ext (by simp only []; omega) ?_
      rw [List.getLast?_cons]
      cases (l.filter supports).getLast? <;> rfl
    · rw [if_neg hc, foldl_family supports l, List.filter_cons_of_neg hc]

/-- The only connection of the family. -/
theorem connectionForFamily_eq_some {supports : ConnectionPtr → Bool} {d : ConnectionHandler}
    {c : ConnectionPtr} :
    connectionForFamily supports d = some c ↔ d.connections.filter supports = [c] := by
  unfold connectionForFamily
  rw [foldl_family]
  dsimp only
  rw [Nat.zero_add, Option.or_none]
  constructor
  · intro h
    split at h
    · rename_i hOne
      obtain ⟨e, he⟩ := List.length_eq_one_iff.mp hOne
      rw [he] at h ⊢
      rw [List.getLast?_singleton, Option.some.injEq] at h
      rw [h]
    · cases h
  · intro h
    rw [h]
    rfl

theorem mem_of_connectionForFamily {supports : ConnectionPtr → Bool} {d : ConnectionHandler}
    {c : ConnectionPtr} (h : connectionForFamily supports d = some c) : c ∈ d.connections :=
  (List.mem_filter.mp (connectionForFamily_eq_some.mp h ▸ List.mem_singleton_self c)).1

/-- A connection that is found has the information it is looked up by. -/
theorem find?_of_connectionForChatRoom {exchange : Nat} {room : QString} {d : ConnectionHandler}
    {c : ConnectionPtr} (h : connectionForChatRoom exchange room d = some c) :
    d.chatRoomConnections.find? c = some (exchange, room) := by
  unfold connectionForChatRoom at h
  cases hFind : d.chatRoomConnections.entries.find? fun e => e.2 = (exchange, room) with
  | none =>
    rw [hFind] at h
    cases h
  | some e =>
    rw [hFind, Option.map_some, Option.some.injEq] at h
    have hInfo : e.2 = (exchange, room) := by simpa using List.find?_some hFind
    rw [← QMap.mem_entries_iff, ← h, ← hInfo]
    exact List.mem_of_find?_eq_some hFind

/-! ## The connections of a family -/

/-- How many erasures move the end of the list, `i` items being in front of it. -/
def endMoves (moved : Nat → Nat → Bool) (supports : ConnectionPtr → Bool) :
    Nat → List ConnectionPtr → Nat
  | _, [] => 0
  | i, c :: l =>
    if supports c then
      (if moved i (i + l.length + 1) then 0 else 1) + endMoves moved supports i l
    else endMoves moved supports (i + 1) l

/-- No two neighbours support the family. -/
def Apart (supports : ConnectionPtr → Bool) (l : List ConnectionPtr) : Prop :=
  l.IsChain fun c d => ¬(supports c ∧ supports d)

/-- The last connection supports the family. -/
def lastSupports (supports : ConnectionPtr → Bool) (l : List ConnectionPtr) : Nat :=
  if l.getLast?.any supports then 1 else 0

variable {moved : Nat → Nat → Bool} {supports : ConnectionPtr → Bool}

/-- What is in front of the iterator stays there. -/
theorem take_removeFrom : ∀ (fuel : Nat) {l : List ConnectionPtr} {it itEnd : Nat}
    {r : List ConnectionPtr × List ConnectionPtr},
    removeFrom moved supports fuel l it itEnd = some r → r.1.take it = l.take it
  | 0, _, _, _, _, h => nomatch h
  | fuel + 1, l, it, itEnd, r, h => by
    unfold removeFrom at h
    split at h
    · rw [← Option.some.inj h]
    · split at h
      · cases h
      · split at h
        · obtain ⟨r', hr', rfl⟩ := Option.map_eq_some_iff.mp h
          have hTake := congrArg (List.take it) (take_removeFrom fuel hr')
          rw [List.take_take, List.take_take, Nat.min_eq_left (Nat.le_succ it),
            List.take_eraseIdx_eq_take_of_le _ _ _ (le_refl it)] at hTake
          exact hTake
        · have hTake := congrArg (List.take it) (take_removeFrom fuel h)
          rw [List.take_take, List.take_take, Nat.min_eq_left (Nat.le_succ it)] at hTake
          exact hTake

/-- A step past a connection that stays. -/
theorem removeFrom_keep {c : ConnectionPtr} (hc : ¬supports c) (kept rest : List ConnectionPtr)
    (off fuel : Nat) :
    removeFrom moved supports (fuel + 1) (kept ++ c :: rest) kept.length
        (kept.length + (c :: rest).length + off) =
      removeFrom moved supports fuel ((kept ++ [c]) ++ rest) (kept ++ [c]).length
        ((kept ++ [c]).length + rest.length + off) := by
  have hItem : (kept ++ c :: rest)[kept.length]? = some c := by simp
  have hEnd : kept.length + (c :: rest).length + off = kept.length + 1 + rest.length + off := by
    rw [List.length_cons]
    omega
  rw [removeFrom, if_neg (by rw [List.length_cons]; omega), hItem]
  dsimp only
  rw [if_neg hc, hEnd, List.append_assoc, List.length_append, List.length_singleton]
  rfl

/-- A step that takes a connection off goes past the one behind it. -/
theorem removeFrom_erase {c : ConnectionPtr} (hc : supports c) (kept rest : List ConnectionPtr)
    (off fuel : Nat) :
    removeFrom moved supports (fuel + 1) (kept ++ c :: rest) kept.length
        (kept.length + (c :: rest).length + off) =
      (removeFrom moved supports fuel (kept ++ rest) (kept.length + 1) (kept.length + rest.length +
        (off + if moved kept.length (kept.length + rest.length + 1) then 0 else 1))).map
          fun r => (r.1, c :: r.2) := by
  have hItem : (kept ++ c :: rest)[kept.length]? = some c := by simp
  have hErase : (kept ++ c :: rest).eraseIdx kept.length = kept ++ rest := by
    rw [List.eraseIdx_append_of_length_le (le_refl _), Nat.sub_self, List.eraseIdx_cons_zero]
  have hLength : (kept ++ c :: rest).length = kept.length + rest.length + 1 := by
    rw [List.length_append, List.length_cons, Nat.add_assoc]
  rw [removeFrom, if_neg (by rw [List.length_cons]; omega), hItem]
  dsimp only
  rw [if_pos hc, hErase, hLength, List.length_cons]
  congr 2
  split <;> omega

theorem apart_cons_of_not {c : ConnectionPtr} (hc : ¬supports c) (l : List ConnectionPtr) :
    Apart supports (c :: l) ↔ Apart supports l := by
  unfold Apart
  cases l with
  | nil => simp
  | cons d l => simp [List.isChain_cons_cons, hc]

theorem lastSupports_cons_cons (c d : ConnectionPtr) (l : List ConnectionPtr) :
    lastSupports supports (c :: d :: l) = lastSupports supports (d :: l) := by
  unfold lastSupports
  rw [List.getLast?_cons_cons]

theorem lastSupports_cons_of_not {c : ConnectionPtr} (hc : ¬supports c) (l : List ConnectionPtr) :
    lastSupports supports (c :: l) = lastSupports supports l := by
  cases l with
  | nil => simp [lastSupports, hc]
  | cons d l => exact lastSupports_cons_cons c d l

/-- **The loop**, at a position in the list, takes off the connections of the family that are left
exactly if no two of them are neighbours, and the end it goes to is where the list ends then, or
one behind it if the last one is taken off. -/
theorem removeFrom_iff (moved : Nat → Nat → Bool) (supports : ConnectionPtr → Bool) :
    ∀ (rest kept : List ConnectionPtr) (off fuel : Nat), rest.length < fuel →
    (removeFrom moved supports fuel (kept ++ rest) kept.length (kept.length + rest.length + off) =
      some (kept ++ rest.filter (!supports ·), rest.filter supports) ↔
        Apart supports rest ∧
          off + endMoves moved supports kept.length rest = lastSupports supports rest)
  | [], kept, off, fuel + 1, _ => by
    unfold removeFrom
    by_cases hOff : off = 0
    · subst hOff
      simp [Apart, endMoves, lastSupports]
    · rw [if_neg (by simp; omega), List.append_nil, List.getElem?_eq_none (le_refl _)]
      simp [endMoves, lastSupports, hOff]
  | c :: rest, kept, off, fuel + 1, hFuel => by
    rw [List.length_cons] at hFuel
    by_cases hc : supports c
    · rw [removeFrom_erase hc, List.filter_cons_of_pos hc,
        List.filter_cons_of_neg (by simpa using hc), endMoves, if_pos hc, ← Nat.add_assoc off]
      generalize (off + if moved kept.length (kept.length + rest.length + 1) then 0 else 1) = off'
      cases rest with
      | nil =>
        -- The iterator is one behind the end of the list.
        obtain ⟨fuel, rfl⟩ : ∃ n, fuel = n + 1 := ⟨fuel - 1, by simp at hFuel; omega⟩
        unfold removeFrom
        by_cases hOff : off' = 1
        · subst hOff
          simp [Apart, endMoves, lastSupports, hc]
        · rw [if_neg (by simp; omega), List.append_nil, List.getElem?_eq_none (Nat.le_succ _)]
          simp [Apart, endMoves, lastSupports, hc, hOff]
      | cons d rest =>
        by_cases hd : supports d
        · -- The neighbour stays.
          refine iff_of_false (fun h => ?_) fun h => ?_
          · obtain ⟨r, hr, hSame⟩ := Option.map_eq_some_iff.mp h
            have hTake := take_removeFrom fuel hr
            rw [(Prod.ext_iff.mp hSame).1, List.filter_cons_of_neg (by simpa using hd)] at hTake
            rw [List.take_length_add_append, List.take_length_add_append,
              List.append_cancel_left_eq] at hTake
            have hFirst : (rest.filter (!supports ·)).take 1 = [d] := hTake
            have hStays : d ∈ rest.filter (!supports ·) :=
              List.mem_of_mem_take (hFirst ▸ List.mem_singleton_self d)
            simp [hd] at hStays
          · exact (List.isChain_cons_cons.mp h.1).1 ⟨hc, hd⟩
        · have hNext := removeFrom_iff moved supports rest (kept ++ [d]) off' fuel (by
            rw [List.length_cons] at hFuel
            omega)
          rw [List.append_assoc, List.append_assoc, List.singleton_append, List.singleton_append,
            List.length_append, List.length_singleton] at hNext
          rw [List.filter_cons_of_pos (by simpa using hd), List.filter_cons_of_neg hd, endMoves,
            if_neg hd, lastSupports_cons_cons, lastSupports_cons_of_not hd, List.length_cons,
            show kept.length + (rest.length + 1) + off' = kept.length + 1 + rest.length + off' by
              omega, Apart, List.isChain_cons_cons, ← Apart, apart_cons_of_not hd,
            and_iff_right (show ¬(supports c ∧ supports d) from fun h => hd h.2), ← hNext,
            Option.map_eq_some_iff]
          constructor
          · rintro ⟨r, hr, hSame⟩
            rw [hr]
            simpa [Prod.ext_iff] using hSame
          · intro hr
            exact ⟨_, hr, rfl⟩
    · rw [removeFrom_keep hc, List.filter_cons_of_neg hc,
        List.filter_cons_of_pos (by simpa using hc), endMoves, if_neg hc, apart_cons_of_not hc, lastSupports_cons_of_not hc]
      have hNext := removeFrom_iff moved supports rest (kept ++ [c]) off fuel (by omega)
      rw [List.append_assoc kept [c] (rest.filter _), List.singleton_append] at hNext
      rw [List.length_append, List.length_singleton] at hNext ⊢
      exact hNext

/-- **Exactly the connections of the family** are taken off, and the others stay in their order. -/
def RemovesFamily (moved : Nat → Nat → Bool) (supports : ConnectionPtr → Bool)
    (d : ConnectionHandler) : Prop :=
  removeFamily moved supports d = some { d with
    connections := d.connections.filter (!supports ·)
    deleted := d.deleted ++ d.connections.filter supports }

theorem removesFamily_iff (d : ConnectionHandler) :
    RemovesFamily moved supports d ↔ Apart supports d.connections ∧
      endMoves moved supports 0 d.connections = lastSupports supports d.connections := by
  have hLoop := removeFrom_iff moved supports d.connections [] 0 (d.connections.length + 1)
    (Nat.lt_succ_self _)
  simp only [List.nil_append, List.length_nil, Nat.zero_add, Nat.add_zero] at hLoop
  rw [← hLoop, RemovesFamily, removeFamily, Option.map_eq_some_iff]
  constructor
  · rintro ⟨⟨l, erased⟩, hr, hSame⟩
    obtain ⟨hConnections, -, hDeleted⟩ := ConnectionHandler.mk.inj hSame
    rw [hr, ← show l = _ from hConnections,
      ← show erased = _ from List.append_cancel_left hDeleted]
  · intro hr
    exact ⟨_, hr, rfl⟩

/-! ## Runs -/

inductive Op
  | append (c : ConnectionPtr)
  | addChatInfo (c : ConnectionPtr) (exchange : Nat) (room : QString)
  | remove (c : ConnectionPtr)
  | removeFamily (supports : ConnectionPtr → Bool)
  | clear

/-- The handler after an operation; there is none where an item has been read outside the list. -/
def step (moved : Nat → Nat → Bool) : Option ConnectionHandler → Op → Option ConnectionHandler
  | none, _ => none
  | some d, .append c => some (d.append c)
  | some d, .addChatInfo c exchange room => some (d.addChatInfoForConnection c exchange room)
  | some d, .remove c => some (d.remove c)
  | some d, .removeFamily supports => d.removeFamily moved supports
  | some d, .clear => some d.clear

/-- What the lookups find is in the list, and not scheduled for deletion. -/
def Sound : Option ConnectionHandler → Prop
  | none => False
  | some d => (∀ exchange room c, connectionForChatRoom exchange room d = some c →
      c ∈ d.connections ∧ c ∉ d.deleted) ∧
    ∀ supports c, connectionForFamily supports d = some c → c ∈ d.connections ∧ c ∉ d.deleted

/-- What holds of the steps that take off a family. -/
def Exact (moved : Nat → Nat → Bool) : Option ConnectionHandler → Op → Prop
  | some d, .removeFamily supports => RemovesFamily moved supports d
  | _, _ => True

/-- A connection with chat room information is not taken off, one that is scheduled for deletion
does not come back, and the connections of a family are taken off as far as the loop can. -/
def Meets (moved : Nat → Nat → Bool) : Option ConnectionHandler → Op → Prop
  | none, _ => False
  | some d, .append c => c ∉ d.deleted
  | some d, .addChatInfo c _ _ => c ∉ d.deleted
  | some d, .remove c => d.chatRoomConnections.find? c = none
  | some d, .removeFamily supports =>
    (∀ c ∈ d.connections, supports c → d.chatRoomConnections.find? c = none) ∧
      Apart supports d.connections ∧
        endMoves moved supports 0 d.connections = lastSupports supports d.connections
  | some d, .clear => ∀ c ∈ d.connections, d.chatRoomConnections.find? c = none

/-- No connection of the list is scheduled for deletion, and all with chat room information are in
the list. -/
structure Tidy (d : ConnectionHandler) : Prop where
  alive : ∀ c ∈ d.connections, c ∉ d.deleted
  listed : ∀ c info, d.chatRoomConnections.find? c = some info → c ∈ d.connections

theorem Tidy.sound {d : ConnectionHandler} (h : Tidy d) : Sound (some d) := by
  refine ⟨fun exchange room c hFound => ?_, fun supports c hFound => ?_⟩
  · have hListed := h.listed c _ (find?_of_connectionForChatRoom hFound)
    exact ⟨hListed, h.alive c hListed⟩
  · have hListed := mem_of_connectionForFamily hFound
    exact ⟨hListed, h.alive c hListed⟩

/-- With connections taken off that have no chat room information, and scheduled for deletion. -/
theorem Tidy.filter {d : ConnectionHandler} (h : Tidy d) (gone : ConnectionPtr → Bool)
    {scheduled : List ConnectionPtr} (hScheduled : ∀ c ∈ scheduled, gone c)
    (hNoInfo : ∀ c ∈ d.connections, gone c → d.chatRoomConnections.find? c = none) :
    Tidy { d with
      connections := d.connections.filter (!gone ·), deleted := d.deleted ++ scheduled } := by
  constructor
  · intro c hc hDeleted
    obtain ⟨hc, hStays⟩ := List.mem_filter.mp hc
    rcases List.mem_append.mp hDeleted with hBefore | hNow
    · exact h.alive c hc hBefore
    · simp [hScheduled c hNow] at hStays
  · intro c info hInfo
    have hc := h.listed c info hInfo
    refine List.mem_filter.mpr ⟨hc, ?_⟩
    cases hGone : gone c with
    | false => rfl
    | true =>
      rw [hNoInfo c hc hGone] at hInfo
      cases hInfo

/-- **A step** keeps the handler tidy. -/
theorem tidy_step {d : ConnectionHandler} (h : Tidy d) {op : Op}
    (hMeets : Meets moved (some d) op) :
    ∃ d', step moved (some d) op = some d' ∧ Tidy d' := by
  cases op with
  | append c =>
    refine ⟨_, rfl, ?_, ?_⟩
    · intro e he
      rcases List.mem_append.mp he with he | he
      · exact h.alive e he
      · exact List.mem_singleton.mp he ▸ hMeets
    · exact fun e info hInfo => List.mem_append_left _ (h.listed e info hInfo)
  | addChatInfo c exchange room =>
    refine ⟨_, rfl, ?_, ?_⟩
    · intro e he
      show e ∉ d.deleted
      have he : e ∈ if c ∈ d.connections then d.connections else d.connections ++ [c] := he
      split at he
      · exact h.alive e he
      · rcases List.mem_append.mp he with he | he
        · exact h.alive e he
        · exact List.mem_singleton.mp he ▸ hMeets
    · intro e info hInfo
      have hInfo : (d.chatRoomConnections.insert c (exchange, room)).find? e = some info := hInfo
      rw [QMap.find?_insert] at hInfo
      show e ∈ if c ∈ d.connections then d.connections else d.connections ++ [c]
      split at hInfo
      · rename_i hSame
        subst hSame
        split
        · assumption
        · exact List.mem_append_right _ (List.mem_singleton_self _)
      · split
        · exact h.listed e info hInfo
        · exact List.mem_append_left _ (h.listed e info hInfo)
  | remove c =>
    refine ⟨_, rfl, ?_⟩
    have hTidy := h.filter (fun e => decide (e = c)) (show ∀ e ∈ [c], decide (e = c) by simp)
      (fun e _ he => by rw [of_decide_eq_true he]; exact hMeets)
    have hSame : d.connections.filter (fun e => !decide (e = c)) =
        QList.removeAll d.connections c := by simp [QList.removeAll]
    rw [hSame] at hTidy
    exact hTidy
  | removeFamily supports =>
    obtain ⟨hNoInfo, hLoop⟩ := hMeets
    exact ⟨_, (removesFamily_iff d).mpr hLoop,
      h.filter supports (fun c hc => (List.mem_filter.mp hc).2) hNoInfo⟩
  | clear =>
    refine ⟨_, rfl, ?_, ?_⟩
    · intro c hc
      cases hc
    · intro c info hInfo
      have hNone : d.chatRoomConnections.find? c = none := hMeets c (h.listed c info hInfo)
      rw [show d.clear.chatRoomConnections = d.chatRoomConnections from rfl, hNone] at hInfo
      cases hInfo

/-- **Runs** whose steps meet the condition: the lookups find connections that are there, and a
family is taken off exactly. -/
theorem tidy_of_meets (moved : Nat → Nat → Bool) (ops : List Op)
    (h : Run.StepsMeet (step moved) (Meets moved) (some init) ops) :
    (∀ s ∈ Run.states (step moved) (some init) ops, Sound s) ∧
      Run.StepsMeet (step moved) (Exact moved) (some init) ops := by
  have hStep : ∀ (s : Option ConnectionHandler) (op : Op), (∃ d, s = some d ∧ Tidy d) →
      Meets moved s op →
        Exact moved s op ∧ ∃ d, step moved s op = some d ∧ Tidy d := by
    rintro _ op ⟨d, rfl, hTidy⟩ hMeets
    refine ⟨?_, tidy_step hTidy hMeets⟩
    cases op with
    | removeFamily supports => exact (removesFamily_iff d).mpr hMeets.2
    | _ => trivial
  have hInit : ∃ d, some init = some d ∧ Tidy d :=
    ⟨init, rfl, fun _ hc => absurd hc List.not_mem_nil, fun _ _ hInfo => by
      simp [init] at hInfo⟩
  refine ⟨fun s hs => ?_, Run.stepsMeet_of_inv hStep hInit h⟩
  obtain ⟨d, rfl, hTidy⟩ :=
    Run.inv_of_stepsMeet (fun s op hs hMeets => (hStep s op hs hMeets).2) hInit h s hs
  exact hTidy.sound

/-- A connection, one for a chat room, and a family that the first one supports. -/
def dropsFirst : List Op := [.append 1, .addChatInfo 2 4 [0x61], .removeFamily (· == 1)]

theorem tidy_dropsFirst :
    Sound (dropsFirst.foldl (step fun i n => i < n - i) (some init)) :=
  (tidy_of_meets (fun i n => i < n - i) dropsFirst
    ⟨List.not_mem_nil, List.not_mem_nil,
      ⟨by decide, by simp [Apart, addChatInfoForConnection, append, init], by decide⟩, trivial⟩).1 _
      (Run.foldl_mem_states _ _)

/-- A connection for a chat room that has been taken off is found. -/
theorem removed_isFound :
    ¬ ∀ (moved : Nat → Nat → Bool) (ops : List Op),
      (∀ s ∈ Run.states (step moved) (some init) ops, Sound s) ∧
        Run.StepsMeet (step moved) (Exact moved) (some init) ops := by
  intro h
  have hSound := (h (fun i n => i < n - i) [.addChatInfo 2 4 [0x61], .remove 2]).1 _
    (Run.foldl_mem_states _ _)
  have hListed := (hSound.1 4 [0x61] 2 rfl).1
  exact absurd hListed (by decide)

end ConnectionHandler

end Oscar
