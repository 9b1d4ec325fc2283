import Kopete.Oscar.BufferReads
import Kopete.Oscar.RateClassManager

/-!
# Oscar — the rate classes of the server

The packet has a number of rate classes and as many groups. A group names a class by its id and
lists the SNACs that belong to it. The loop over a group looks its class up first and adds to what
it has found, which is nothing if no class has the id.

Main results:

* `isSome_parse_iff` — when the parser never adds to a class that is not there;
* `reads_parseRateClasses` — what it makes of a packet whose groups name its classes;
* `findRateClass_parsed` — which class a SNAC then belongs to.
-/

namespace Oscar

open DataStream Buffer

/-- `RateInfo`, with what does not decide when to send. -/
structure RateInfoRecord extends RateInfo where
  classId : Nat
  clearLevel : UInt32
  limitLevel : UInt32
  maxLevel : UInt32
  lastTime : UInt32
  currentState : UInt8
deriving DecidableEq, Repr

/-- A SNAC: its family and its subtype. -/
abbrev SnacPair := Nat × Nat

/-- A `RateClass` of the list that is parsed. -/
structure ParsedClass where
  m_rateInfo : RateInfoRecord
  m_members : List SnacPair
deriving DecidableEq, Repr

namespace RateInfoTask

/-! ## Reading -/

/-- `n` items, one after the other. -/
def getItems {α : Type} (get : Buffer → α × Buffer) : Nat → Buffer → List α × Buffer
  | 0, b => ([], b)
  | n + 1, b =>
    let (a, b) := get b
    let (as, b) := getItems get n b
    (a :: as, b)

/-- The fields of a rate class. -/
def getRateInfo (b : Buffer) : RateInfoRecord × Buffer :=
  let (classId, b) := b.getWord
  let (windowSize, b) := b.getDWord
  let (clearLevel, b) := b.getDWord
  let (alertLevel, b) := b.getDWord
  let (limitLevel, b) := b.getDWord
  let (disconnectLevel, b) := b.getDWord
  let (currentLevel, b) := b.getDWord
  let (maxLevel, b) := b.getDWord
  let (lastTime, b) := b.getDWord
  let (currentState, b) := b.getByte
  ({ classId, windowSize := UInt32.ofNat windowSize, clearLevel := UInt32.ofNat clearLevel,
     alertLevel := UInt32.ofNat alertLevel, limitLevel := UInt32.ofNat limitLevel,
     disconnectLevel := UInt32.ofNat disconnectLevel, currentLevel := UInt32.ofNat currentLevel,
     initialLevel := UInt32.ofNat currentLevel, maxLevel := UInt32.ofNat maxLevel,
     lastTime := UInt32.ofNat lastTime, currentState }, b)

/-- A family and a subtype. -/
def getPair (b : Buffer) : SnacPair × Buffer :=
  let (family, b) := b.getWord
  let (subtype, b) := b.getWord
  ((family, subtype), b)

/-- `addMember`. -/
def addMember (pair : SnacPair) (rc : ParsedClass) : ParsedClass :=
  { rc with m_members := rc.m_members ++ [pair] }

/-- The loop over the pairs of a group, whose class is at `rc`; `none` is a class that is not
there and is added to. -/
def addMembers (rc : Option Nat) : Nat → List ParsedClass → Buffer →
    Option (List ParsedClass × Buffer)
  | 0, rates, b => some (rates, b)
  | numGroupPairs + 1, rates, b =>
    let (pair, b) := getPair b
    match rc with
    | none => none
    | some i => addMembers rc numGroupPairs (rates.modify i (addMember pair)) b

/-- The first class with the id. -/
def findClass (groupNum : Nat) (rates : List ParsedClass) : Option Nat :=
  rates.findIdx? fun rc => rc.m_rateInfo.classId == groupNum

/-- The loop over the groups. -/
def addGroups : Nat → List ParsedClass → Buffer → Option (List ParsedClass × Buffer)
  | 0, rates, b => some (rates, b)
  | numClasses + 1, rates, b =>
    let (groupNum, b) := b.getWord
    let rc := findClass groupNum rates
    let (numGroupPairs, b) := b.getWord
    (addMembers rc numGroupPairs rates b).bind fun r => addGroups numClasses r.1 r.2

/-- `parseRateClasses`. -/
def parseRateClasses (b : Buffer) : Option (List ParsedClass × Buffer) :=
  let (numClasses, b) := b.getWord
  let (infos, b) := getItems getRateInfo numClasses b
  addGroups numClasses (infos.map fun ri => ⟨ri, []⟩) b

/-- `handleRateInfoResponse`: the classes, registered at a time. -/
def handleRateInfoResponse (now : Nat) (b : Buffer) (c : Connection) : Option Connection :=
  (parseRateClasses b).map fun r => { c with
    classList := c.classList ++
      r.1.map fun rc => RateClass.new rc.m_rateInfo.toRateInfo rc.m_members now }

/-! ## The groups by themselves -/

/-- A group: the id of its class, and its SNACs. -/
abbrev Group := Nat × List SnacPair

/-- A group of a packet. -/
def getGroup (b : Buffer) : Group × Buffer :=
  let (groupNum, b) := b.getWord
  let (numGroupPairs, b) := b.getWord
  let (pairs, b) := getItems getPair numGroupPairs b
  ((groupNum, pairs), b)

/-- The classes of a packet. -/
def classesOf (b : Buffer) : List RateInfoRecord :=
  (getItems getRateInfo b.getWord.1 b.getWord.2).1

/-- The groups of a packet. -/
def groupsOf (b : Buffer) : List Group :=
  (getItems getGroup b.getWord.1 (getItems getRateInfo b.getWord.1 b.getWord.2).2).1

/-- The members of a group, added to its class. -/
def addGroup (rates : List ParsedClass) (g : Group) : Option (List ParsedClass) :=
  match findClass g.1 rates with
  | none => if g.2 = [] then some rates else none
  | some i => some (rates.modify i fun rc => { rc with m_members := rc.m_members ++ g.2 })

theorem addMembers_none (n : Nat) (rates : List ParsedClass) (b : Buffer) :
    addMembers none n rates b = if n = 0 then some (rates, b) else none := by
  cases n <;> rfl

theorem addMembers_some (i : Nat) : ∀ (n : Nat) (rates : List ParsedClass) (b : Buffer),
    addMembers (some i) n rates b =
      some (rates.modify i fun rc => { rc with
        m_members := rc.m_members ++ (getItems getPair n b).1 }, (getItems getPair n b).2)
  | 0, rates, b => by
    have hSame : (fun rc : ParsedClass => { rc with m_members := rc.m_members ++ [] }) = id := by
      funext rc
      rw [List.append_nil]
      rfl
    show some (rates, b) =
      some (rates.modify i fun rc => { rc with m_members := rc.m_members ++ [] }, b)
    rw [hSame, List.modify_id]
  | n + 1, rates, b => by
    show addMembers (some i) n (rates.modify i (addMember (getPair b).1)) (getPair b).2 = _
    rw [addMembers_some i n, List.modify_modify_eq]
    refine congrArg some (Prod.ext (congrArg (rates.modify i) ?_) rfl)
    funext rc
    show ParsedClass.mk _ ((rc.m_members ++ [(getPair b).1]) ++ _) = ParsedClass.mk _ _
    rw [List.append_assoc, List.singleton_append]
    rfl

theorem length_getItems {α : Type} (get : Buffer → α × Buffer) : ∀ (n : Nat) (b : Buffer),
    (getItems get n b).1.length = n
  | 0, _ => rfl
  | n + 1, b => congrArg (· + 1) (length_getItems get n (get b).2)

/-- **The loop over the groups** adds one group after the other. -/
theorem addGroups_eq : ∀ (n : Nat) (rates : List ParsedClass) (b : Buffer),
    addGroups n rates b =
      ((getItems getGroup n b).1.foldlM addGroup rates).map fun r => (r, (getItems getGroup n b).2)
  | 0, rates, b => rfl
  | n + 1, rates, b => by
    show (addMembers (findClass b.getWord.1 rates) b.getWord.2.getWord.1 rates
      b.getWord.2.getWord.2).bind (fun r => addGroups n r.1 r.2) =
        ((addGroup rates (getGroup b).1).bind fun r =>
          (getItems getGroup n (getGroup b).2).1.foldlM addGroup r).map
            fun r => (r, (getItems getGroup n (getGroup b).2).2)
    have hGroup : getGroup b = ((b.getWord.1,
        (getItems getPair b.getWord.2.getWord.1 b.getWord.2.getWord.2).1),
          (getItems getPair b.getWord.2.getWord.1 b.getWord.2.getWord.2).2) := rfl
    have hLength := length_getItems getPair b.getWord.2.getWord.1 b.getWord.2.getWord.2
    rw [hGroup]
    unfold addGroup
    dsimp only
    cases findClass b.getWord.1 rates with
    | none =>
      rw [addMembers_none]
      by_cases hNone : b.getWord.2.getWord.1 = 0
      · rw [hNone] at hLength
        rw [if_pos hNone, if_pos (List.length_eq_zero_iff.mp (by rw [hNone]; exact hLength)),
          Option.bind_some, Option.bind_some, hNone]
        exact addGroups_eq n rates _
      · rw [if_neg hNone, if_neg (fun hNil => hNone (by rw [← hLength, hNil]; rfl))]
        rfl
    | some i =>
      rw [addMembers_some, Option.bind_some, Option.bind_some]
      exact addGroups_eq n _ _

/-- **The parser** adds the groups of the packet to its classes. -/
theorem parseRateClasses_eq (b : Buffer) :
    (parseRateClasses b).map Prod.fst =
      (groupsOf b).foldlM addGroup ((classesOf b).map fun ri => ⟨ri, []⟩) := by
  show (addGroups _ _ _).map Prod.fst = _
  rw [addGroups_eq, Option.map_map]
  exact Option.map_id'

/-! ## Classes that are there -/

/-- The ids of the classes. -/
def ids (rates : List ParsedClass) : List Nat := rates.map fun rc => rc.m_rateInfo.classId

theorem findClass_eq_none {groupNum : Nat} {rates : List ParsedClass} :
    findClass groupNum rates = none ↔ groupNum ∉ ids rates := by
  rw [findClass, List.findIdx?_eq_none_iff, ids, List.mem_map]
  simp only [beq_eq_false_iff_ne]
  exact ⟨fun h ⟨rc, hrc, hId⟩ => h rc hrc hId, fun h rc hrc hId => h ⟨rc, hrc, hId⟩⟩

theorem ids_modify (rates : List ParsedClass) (i : Nat) (pairs : List SnacPair) :
    ids (rates.modify i fun rc => { rc with m_members := rc.m_members ++ pairs }) = ids rates := by
  unfold ids
  refine List.ext_getElem? fun k => ?_
  rw [List.getElem?_map, List.getElem?_map, List.getElem?_modify]
  split <;> cases rates[k]? <;> rfl

/-- A group finds its class, or has nothing to add. -/
theorem addGroup_cases (rates : List ParsedClass) (g : Group) :
    (∃ rates', addGroup rates g = some rates' ∧ ids rates' = ids rates) ∧
        (g.2 ≠ [] → g.1 ∈ ids rates) ∨
      addGroup rates g = none ∧ g.2 ≠ [] ∧ g.1 ∉ ids rates := by
  unfold addGroup
  cases hFind : findClass g.1 rates with
  | none =>
    have hNot := findClass_eq_none.mp hFind
    by_cases hNil : g.2 = []
    · exact .inl ⟨⟨rates, if_pos hNil, rfl⟩, fun hSome => absurd hNil hSome⟩
    · exact .inr ⟨if_neg hNil, hNil, hNot⟩
  | some i =>
    refine .inl ⟨⟨_, rfl, ids_modify rates i g.2⟩, fun _ => ?_⟩
    by_contra hNot
    rw [findClass_eq_none.mpr hNot] at hFind
    cases hFind

theorem isSome_foldlM : ∀ (groups : List Group) (rates : List ParsedClass),
    (groups.foldlM addGroup rates).isSome ↔ ∀ g ∈ groups, g.2 ≠ [] → g.1 ∈ ids rates
  | [], rates => by simp
  | g :: groups, rates => by
    rw [List.foldlM_cons, List.forall_mem_cons]
    obtain ⟨⟨rates', hSome, hIds⟩, hThere⟩ | ⟨hNone, hSnacs, hNot⟩ := addGroup_cases rates g
    · rw [hSome, Option.bind_eq_bind, Option.bind_some, isSome_foldlM groups rates', hIds]
      exact (and_iff_right hThere).symm
    · rw [hNone]
      exact iff_of_false (by simp) fun h => hNot (h.1 hSnacs)

/-- **The parser never adds to a class that is not there** exactly if every group that has SNACs
names a class of the packet. -/
theorem isSome_parse_iff (b : Buffer) :
    (parseRateClasses b).isSome ↔
      ∀ g ∈ groupsOf b, g.2 ≠ [] → g.1 ∈ (classesOf b).map RateInfoRecord.classId := by
  have hIds : ids ((classesOf b).map fun ri => ⟨ri, []⟩) =
      (classesOf b).map RateInfoRecord.classId := by
    rw [ids, List.map_map]
    rfl
  rw [← Option.isSome_map, parseRateClasses_eq, isSome_foldlM, hIds]

/-! ## Members -/

/-- The SNACs that the groups list for a class. -/
def membersOf (groups : List Group) (classId : Nat) : List SnacPair :=
  (groups.filter fun g => g.1 == classId).flatMap Prod.snd

theorem modify_findClass {groupNum : Nat} (f : ParsedClass → ParsedClass) :
    ∀ {rates : List ParsedClass} {i : Nat}, (ids rates).Nodup → findClass groupNum rates = some i →
      rates.modify i f = rates.map fun rc =>
        if rc.m_rateInfo.classId = groupNum then f rc else rc
  | [], i, _, hFind => by
    simp [findClass] at hFind
  | rc :: rates, i, hDistinct, hFind => by
    obtain ⟨hOther, hDistinct⟩ :=
      List.nodup_cons.mp (show (rc.m_rateInfo.classId :: ids rates).Nodup from hDistinct)
    rw [findClass, List.findIdx?_cons] at hFind
    by_cases hHere : rc.m_rateInfo.classId = groupNum
    · rw [if_pos (beq_iff_eq.mpr hHere), Option.some.injEq] at hFind
      have hRest : (rates.map fun rc => if rc.m_rateInfo.classId = groupNum then f rc else rc) =
          rates := by
        refine (List.map_congr_left fun rc' hrc' => ?_).trans (List.map_id rates)
        refine if_neg fun hSame => hOther ?_
        rw [hHere, ← hSame]
        exact List.mem_map_of_mem (f := fun rc => rc.m_rateInfo.classId) hrc'
      rw [← hFind, List.map_cons, if_pos hHere, hRest]
      rfl
    · rw [if_neg (by simpa using hHere)] at hFind
      obtain ⟨j, hj, rfl⟩ := Option.map_eq_some_iff.mp hFind
      rw [List.map_cons, if_neg hHere, ← modify_findClass f hDistinct hj]
      rfl

/-- **The classes get their members**, where no two have the same id and every group names one. -/
theorem foldlM_addGroup : ∀ (groups : List Group) (rates : List ParsedClass),
    (ids rates).Nodup → (∀ g ∈ groups, g.1 ∈ ids rates) →
      groups.foldlM addGroup rates = some (rates.map fun rc => { rc with
        m_members := rc.m_members ++ membersOf groups rc.m_rateInfo.classId })
  | [], rates, _, _ => by
    have hSame : (fun rc : ParsedClass => { rc with
        m_members := rc.m_members ++ membersOf [] rc.m_rateInfo.classId }) = id := by
      funext rc
      show ParsedClass.mk _ (rc.m_members ++ []) = rc
      rw [List.append_nil]
    rw [hSame, List.map_id]
    rfl
  | g :: groups, rates, hDistinct, hNamed => by
    obtain ⟨hHere, hNamed⟩ := List.forall_mem_cons.mp hNamed
    cases hFind : findClass g.1 rates with
    | none => exact absurd hHere (findClass_eq_none.mp hFind)
    | some i =>
      have hAdd : addGroup rates g =
          some (rates.modify i fun rc => { rc with m_members := rc.m_members ++ g.2 }) := by
        rw [addGroup, hFind]
      have hIds := ids_modify rates i g.2
      rw [List.foldlM_cons, hAdd, Option.bind_eq_bind, Option.bind_some,
        foldlM_addGroup groups _ (hIds ▸ hDistinct) (hIds ▸ hNamed),
        modify_findClass _ hDistinct hFind, List.map_map]
      refine congrArg some (List.map_congr_left fun rc _ => ?_)
      show ParsedClass.mk _ _ = ParsedClass.mk _ _
      unfold membersOf
      by_cases hSame : rc.m_rateInfo.classId = g.1
      · simp [hSame]
      · simp [hSame, Ne.symm hSame]

/-! ## Packets -/

/-- A class on the wire. -/
def recordBytes (ri : RateInfoRecord) : List UInt8 :=
  beBytes 2 ri.classId ++ (beBytes 4 ri.windowSize.toNat ++ (beBytes 4 ri.clearLevel.toNat ++
    (beBytes 4 ri.alertLevel.toNat ++ (beBytes 4 ri.limitLevel.toNat ++
      (beBytes 4 ri.disconnectLevel.toNat ++ (beBytes 4 ri.currentLevel.toNat ++
        (beBytes 4 ri.maxLevel.toNat ++ (beBytes 4 ri.lastTime.toNat ++ [ri.currentState]))))))))

/-- A SNAC on the wire. -/
def pairBytes (pair : SnacPair) : List UInt8 := beBytes 2 pair.1 ++ beBytes 2 pair.2

/-- A group on the wire. -/
def groupBytes (g : Group) : List UInt8 :=
  beBytes 2 g.1 ++ (beBytes 2 g.2.length ++ g.2.flatMap pairBytes)

/-- A packet on the wire. -/
def packetBytes (classes : List RateInfoRecord) (groups : List Group) : List UInt8 :=
  beBytes 2 classes.length ++ (classes.flatMap recordBytes ++ groups.flatMap groupBytes)

/-- **Well formed**: as many groups as classes, classes with different ids, groups that name
classes, and no SNAC in two classes. The level a class begins with is the current one. -/
structure WellFormed (classes : List RateInfoRecord) (groups : List Group) : Prop where
  count : groups.length = classes.length
  few : classes.length < 2 ^ 16
  records : ∀ ri ∈ classes, ri.classId < 2 ^ 16 ∧ ri.initialLevel = ri.currentLevel
  distinct : (classes.map RateInfoRecord.classId).Nodup
  named : ∀ g ∈ groups, g.1 ∈ classes.map RateInfoRecord.classId
  pairs : ∀ g ∈ groups, g.2.length < 2 ^ 16 ∧ ∀ pair ∈ g.2, pair.1 < 2 ^ 16 ∧ pair.2 < 2 ^ 16
  apart : ∀ g ∈ groups, ∀ g' ∈ groups, ∀ pair ∈ g.2, pair ∈ g'.2 → g.1 = g'.1

theorem reads_getItems {α : Type} {get : Buffer → α × Buffer} {bytes : α → List UInt8} :
    ∀ {as : List α}, (∀ a ∈ as, Reads get (bytes a) a) →
      Reads (getItems get as.length) (as.flatMap bytes) as
  | [], _ => Reads.pure []
  | a :: as, h => by
    obtain ⟨hHead, hTail⟩ := List.forall_mem_cons.mp h
    exact hHead.bind (fun a b => (a :: (getItems get as.length b).1, (getItems get as.length b).2))
      ((reads_getItems hTail).map (a :: ·))

theorem reads_getUInt32 (v : UInt32) : Reads getDWord (beBytes 4 v.toNat) v.toNat :=
  reads_getDWord v.toNat_lt

theorem reads_getRateInfo {ri : RateInfoRecord}
    (h : ri.classId < 2 ^ 16 ∧ ri.initialLevel = ri.currentLevel) :
    Reads getRateInfo (recordBytes ri) ri := by
  intro b r hb hr
  simp only [recordBytes, List.append_assoc] at hr
  have hId := reads_getWord h.1 _ _ hb hr
  obtain ⟨hb, hr⟩ := hb.advance hr
  have hWindow := reads_getUInt32 ri.windowSize _ _ hb hr
  obtain ⟨hb, hr⟩ := hb.advance hr
  have hClear := reads_getUInt32 ri.clearLevel _ _ hb hr
  obtain ⟨hb, hr⟩ := hb.advance hr
  have hAlert := reads_getUInt32 ri.alertLevel _ _ hb hr
  obtain ⟨hb, hr⟩ := hb.advance hr
  have hLimit := reads_getUInt32 ri.limitLevel _ _ hb hr
  obtain ⟨hb, hr⟩ := hb.advance hr
  have hDisconnect := reads_getUInt32 ri.disconnectLevel _ _ hb hr
  obtain ⟨hb, hr⟩ := hb.advance hr
  have hCurrent := reads_getUInt32 ri.currentLevel _ _ hb hr
  obtain ⟨hb, hr⟩ := hb.advance hr
  have hMax := reads_getUInt32 ri.maxLevel _ _ hb hr
  obtain ⟨hb, hr⟩ := hb.advance hr
  have hLast := reads_getUInt32 ri.lastTime _ _ hb hr
  obtain ⟨hb, hr⟩ := hb.advance hr
  have hState := reads_getByte ri.currentState _ _ hb hr
  simp only [getRateInfo, hId, hWindow, hClear, hAlert, hLimit, hDisconnect, hCurrent, hMax, hLast,
    hState, UInt32.ofNat_toNat]
  simp only [advance_advance, recordBytes, List.length_append, Nat.add_assoc]
  refine Prod.ext ?_ rfl
  cases ri with
  | mk info =>
    cases info
    rw [RateInfoRecord.mk.injEq, RateInfo.mk.injEq]
    exact ⟨⟨rfl, h.2.symm, rfl, rfl, rfl⟩, rfl, rfl, rfl, rfl, rfl, rfl⟩

theorem reads_getPair {pair : SnacPair} (h : pair.1 < 2 ^ 16 ∧ pair.2 < 2 ^ 16) :
    Reads getPair (pairBytes pair) pair :=
  (reads_getWord h.1).map₂ Prod.mk (reads_getWord h.2)

theorem reads_getGroup {g : Group}
    (h : g.2.length < 2 ^ 16 ∧ ∀ pair ∈ g.2, pair.1 < 2 ^ 16 ∧ pair.2 < 2 ^ 16)
    (hId : g.1 < 2 ^ 16) : Reads getGroup (groupBytes g) g := by
  intro b r hb hr
  simp only [groupBytes, List.append_assoc] at hr
  have hNum := reads_getWord hId _ _ hb hr
  obtain ⟨hb, hr⟩ := hb.advance hr
  have hLength := reads_getWord h.1 _ _ hb hr
  obtain ⟨hb, hr⟩ := hb.advance hr
  have hPairs := reads_getItems (fun pair hpair => reads_getPair (h.2 pair hpair)) _ _ hb hr
  simp only [getGroup, hNum, hLength, hPairs]
  simp only [advance_advance, groupBytes, List.length_append, Nat.add_assoc]

/-- **A well-formed packet** gives its classes, each with the SNACs of its groups. -/
theorem parse_packet {classes : List RateInfoRecord} {groups : List Group}
    (h : WellFormed classes groups) :
    ∃ b, parseRateClasses (ofBytes (packetBytes classes groups)) =
      some (classes.map fun ri => ⟨ri, membersOf groups ri.classId⟩, b) := by
  have hb := ready_ofBytes (packetBytes classes groups)
  have hr := remaining_ofBytes (packetBytes classes groups)
  generalize ofBytes (packetBytes classes groups) = b at hb hr
  rw [packetBytes, ← List.append_nil (groups.flatMap groupBytes)] at hr
  have hNumber := reads_getWord h.few _ _ hb hr
  obtain ⟨hb, hr⟩ := hb.advance hr
  have hClasses := reads_getItems (fun ri hri => reads_getRateInfo (h.records ri hri)) _ _ hb hr
  obtain ⟨hb, hr⟩ := hb.advance hr
  have hId : ∀ g ∈ groups, g.1 < 2 ^ 16 := by
    intro g hg
    obtain ⟨ri, hri, hSame⟩ := List.mem_map.mp (h.named g hg)
    exact hSame ▸ (h.records ri hri).1
  have hGroups := reads_getItems (fun g hg => reads_getGroup (h.pairs g hg) (hId g hg)) _ _ hb hr
  rw [h.count] at hGroups
  have hIds : ids (classes.map fun ri => ⟨ri, []⟩) = classes.map RateInfoRecord.classId := by
    rw [ids, List.map_map]
    rfl
  unfold parseRateClasses
  rw [hNumber]
  dsimp only
  rw [hClasses]
  dsimp only
  rw [addGroups_eq, hGroups, foldlM_addGroup groups _ (hIds ▸ h.distinct) (hIds ▸ h.named),
    List.map_map]
  exact ⟨_, rfl⟩

theorem mem_membersOf {groups : List Group} {classId : Nat} {pair : SnacPair} :
    pair ∈ membersOf groups classId ↔ ∃ g ∈ groups, g.1 = classId ∧ pair ∈ g.2 := by
  simp [membersOf, and_assoc]

theorem isMember_new (m_rateInfo : RateInfo) (m_members : List SnacPair)
    (now family subtype : Nat) :
    (RateClass.new m_rateInfo m_members now : RateClass SnacTransfer).isMember family subtype =
      true ↔ (family, subtype) ∈ m_members := by
  show (m_members.any fun m => m.1 == family && m.2 == subtype) = true ↔ _
  rw [List.any_eq_true]
  simp only [Bool.and_eq_true, beq_iff_eq]
  constructor
  · rintro ⟨pair, hPair, hFamily, hSubtype⟩
    rw [← hFamily, ← hSubtype]
    exact hPair
  · exact fun hPair => ⟨_, hPair, rfl, rfl⟩

/-- **The class of a SNAC** is the one whose groups list it. -/
theorem findRateClass_parsed {classes : List RateInfoRecord} {groups : List Group}
    (h : WellFormed classes groups) (now : Nat) {c : Connection} (hNew : c.classList = []) :
    ∃ c', handleRateInfoResponse now (ofBytes (packetBytes classes groups)) c = some c' ∧
      ∀ (st : SnacTransfer) (i : Nat), c'.findRateClass st = some i ↔
        ∃ ri, classes[i]? = some ri ∧
          ∃ g ∈ groups, g.1 = ri.classId ∧ (st.m_snacService, st.m_snacSubtype) ∈ g.2 := by
  obtain ⟨b, hParse⟩ := parse_packet h
  refine ⟨_, by rw [handleRateInfoResponse, hParse, Option.map_some], fun st i => ?_⟩
  have hMember : ∀ ri : RateInfoRecord, (RateClass.new ri.toRateInfo (membersOf groups ri.classId)
      now : RateClass SnacTransfer).isMember st.m_snacService st.m_snacSubtype = true ↔
        ∃ g ∈ groups, g.1 = ri.classId ∧ (st.m_snacService, st.m_snacSubtype) ∈ g.2 := fun ri =>
    (isMember_new _ _ now _ _).trans mem_membersOf
  show (c.classList ++ _).findIdx? _ = some i ↔ _
  rw [hNew, List.nil_append, List.map_map, List.findIdx?_map, List.findIdx?_eq_some_iff_getElem]
  constructor
  · rintro ⟨hi, hHere, -⟩
    exact ⟨classes[i], List.getElem?_eq_getElem hi, (hMember _).mp hHere⟩
  · rintro ⟨ri, hri, g, hg, hId, hSnac⟩
    obtain ⟨hi, rfl⟩ := List.getElem?_eq_some_iff.mp hri
    refine ⟨hi, (hMember _).mpr ⟨g, hg, hId, hSnac⟩, fun j hj hEarlier => ?_⟩
    -- A class in front that has the SNAC, too, would have the same id.
    obtain ⟨g', hg', hId', hSnac'⟩ := (hMember _).mp hEarlier
    have hSame : (classes[j]).classId = (classes[i]).classId := by
      rw [← hId, ← hId']
      exact h.apart g' hg' g hg _ hSnac' hSnac
    have hj' : j < (classes.map RateInfoRecord.classId).length := by
      rw [List.length_map]
      omega
    have hi' : i < (classes.map RateInfoRecord.classId).length := by
      rw [List.length_map]
      exact hi
    have hIndex : (classes.map RateInfoRecord.classId)[j] =
        (classes.map RateInfoRecord.classId)[i] := by
      rw [List.getElem_map, List.getElem_map]
      exact hSame
    rw [h.distinct.getElem_inj_iff] at hIndex
    omega

/-- **Rate information**: the parser never adds to a class that is not there exactly if every group
that has SNACs names a class of the packet; and of a well-formed packet it makes the classes with
their SNACs, and each SNAC then belongs to the class whose groups list it. -/
theorem rateInfo_iff (b : Buffer) :
    ((parseRateClasses b).isSome ↔
        ∀ g ∈ groupsOf b, g.2 ≠ [] → g.1 ∈ (classesOf b).map RateInfoRecord.classId) ∧
      ∀ classes groups, WellFormed classes groups →
        (∃ b, parseRateClasses (ofBytes (packetBytes classes groups)) =
          some (classes.map fun ri => ⟨ri, membersOf groups ri.classId⟩, b)) ∧
        ∀ (now : Nat) (c : Connection), c.classList = [] →
          ∃ c', handleRateInfoResponse now (ofBytes (packetBytes classes groups)) c = some c' ∧
            ∀ (st : SnacTransfer) (i : Nat), c'.findRateClass st = some i ↔
              ∃ ri, classes[i]? = some ri ∧
                ∃ g ∈ groups, g.1 = ri.classId ∧ (st.m_snacService, st.m_snacSubtype) ∈ g.2 :=
  ⟨isSome_parse_iff b, fun _ _ h => ⟨parse_packet h, fun now _ hNew =>
    findRateClass_parsed h now hNew⟩⟩

/-- A class with this id. -/
def classWithId (classId : Nat) : RateInfoRecord :=
  ⟨⟨80, 6000, 2000, 1000, 6000⟩, classId, 2500, 1500, 6000, 0, 0⟩

theorem rateInfo_iff_twoClasses :
    ∃ b, parseRateClasses (ofBytes (packetBytes [classWithId 1, classWithId 2]
        [(2, [(4, 6)]), (1, [(1, 2), (2, 6)])])) =
      some ([⟨classWithId 1, [(1, 2), (2, 6)]⟩, ⟨classWithId 2, [(4, 6)]⟩], b) :=
  ((rateInfo_iff (ofBytes [])).2 [classWithId 1, classWithId 2]
    [(2, [(4, 6)]), (1, [(1, 2), (2, 6)])]
    ⟨rfl, by decide, by decide, by decide, by decide, by decide, by decide⟩).1

/-- A group with a SNAC, of a class that is not there. -/
theorem parse_unknownClass :
    ¬ ∀ b, (parseRateClasses b).isSome := by
  intro h
  have hSome := h (ofBytes (packetBytes [classWithId 1] [(2, [(4, 6)])]))
  have hNone : parseRateClasses (ofBytes (packetBytes [classWithId 1] [(2, [(4, 6)])])) = none := by
    decide +kernel
  rw [hNone] at hSome
  cases hSome

end RateInfoTask

end Oscar
