import Kopete.Oscar.ItemWire

/-!
# Oscar — new TLVs for an item

`updateTLVs` puts TLVs into the list of an item. Of each type it compares the first TLV there is;
if that is another it takes off all that have its type and its length, and appends the new one.
What has the type and another length stays, in front of the new one.

Main results:

* `updateTLVs_spec` — the list and the answer in closed form;
* `merged_iff` — when the list has been updated as it should.
-/

namespace Oscar

open DataStream

/-! ## Items -/

/-- A byte of the data of a `QByteArray`. Behind the data there is a null, and behind that what
the memory has. -/
def dataAt (memory : List UInt8 → Nat → UInt8) (data : List UInt8) (i : Nat) : UInt8 :=
  (data[i]?).getD (if i = data.length then 0 else memory data i)

/-- `memcmp( a.data(), b.data(), n ) == 0`. -/
def memcmp (memory : List UInt8 → Nat → UInt8) (a b : List UInt8) (n : Nat) : Bool :=
  (List.range n).all fun i => dataAt memory a i == dataAt memory b i

/-- An `OContact` with what it has from its TLVs. The length is that of the list, in every item
there is. -/
structure ContactItem extends OContact where
  m_tlvLength : Nat
  m_alias : String
  m_waitingAuth : Bool
  m_metaInfoId : List UInt8
  counted : m_tlvLength = refreshTLVLength tlvList % 2 ^ 16

namespace ContactItem

/-- `OContact::checkTLVs`. -/
def checkTLVs (memory : List UInt8 → Nat → UInt8) (repair : List UInt8 → String) (item : ContactItem) :
    ContactItem :=
  let authTLV := findTLV item.tlvList 0x0066
  let aliasTLV := findTLV item.tlvList 0x0131
  let metaInfoIdTLV := findTLV item.tlvList 0x015C
  { item with
    m_waitingAuth := authTLV.type ≠ 0
    m_alias :=
      if aliasTLV.type ≠ 0 then
        fromUtf8 repair ((List.range aliasTLV.length).map (dataAt memory aliasTLV.data))
      else ""
    m_metaInfoId := if metaInfoIdTLV.type ≠ 0 then metaInfoIdTLV.data else [] }

/-- `OContact::setTLVList`. -/
def setTLVList (memory : List UInt8 → Nat → UInt8) (repair : List UInt8 → String)
    (list : List TLV) (item : ContactItem) : ContactItem :=
  checkTLVs memory repair
    { item with
      tlvList := list
      m_tlvLength := refreshTLVLength list % 2 ^ 16
      counted := rfl }

/-- `OContact( name, gid, bid, type, tlvlist )`. -/
def new (memory : List UInt8 → Nat → UInt8) (repair : List UInt8 → String) (i : OContact) : ContactItem :=
  checkTLVs memory repair
    { i with
      m_tlvLength := refreshTLVLength i.tlvList % 2 ^ 16
      m_alias := ""
      m_waitingAuth := false
      m_metaInfoId := []
      counted := rfl }

end ContactItem

/-! ## `updateTLVs` -/

/-- The first TLV of its type says what the new one says. -/
def held (memory : List UInt8 → Nat → UInt8) (tList : List TLV) (it : TLV) : Bool :=
  let t := findTLV tList it.type
  t.type != 0 && t.length == it.length && memcmp memory t.data it.data t.length

/-- The body of the loop; `changed` beside the list. -/
def updateTLV (memory : List UInt8 → Nat → UInt8) (s : List TLV × Bool) (it : TLV) :
    List TLV × Bool :=
  let t := findTLV s.1 it.type
  if held memory s.1 it then s
  else ((if t.type ≠ 0 then removeTLV t s.1 else s.1) ++ [it], true)

/-- `Oscar::updateTLVs`. -/
def updateTLVs (memory : List UInt8 → Nat → UInt8) (repair : List UInt8 → String) (item : ContactItem)
    (list : List TLV) : ContactItem × Bool :=
  let (tList, changed) := list.foldl (updateTLV memory) (item.tlvList, false)
  (if changed then item.setTLVList memory repair tList else item, changed)

/-! ## The list in closed form -/

/-- A TLV stays unless there is a new one in the place of the first of its type, and it has the
length of that. -/
def stays (memory : List UInt8 → Nat → UInt8) (tList list : List TLV) (t : TLV) : Bool :=
  list.all fun it => it.type != t.type || held memory tList it ||
    t.length != (findTLV tList t.type).length

/-- What stays, and what comes. -/
def afterwards (memory : List UInt8 → Nat → UInt8) (tList list : List TLV) : List TLV :=
  tList.filter (stays memory tList list) ++ list.filter fun it => !held memory tList it

variable {memory : List UInt8 → Nat → UInt8}

theorem findTLV_cases (tList : List TLV) (type : Nat) :
    (∃ t ∈ tList, findTLV tList type = t ∧ t.type = type) ∨
      findTLV tList type = .empty ∧ ∀ t ∈ tList, t.type ≠ type := by
  cases hFind : tList.find? fun t => t.type == type with
  | some t =>
    have hType : (t.type == type) = true :=
      List.find?_some (p := fun t : TLV => t.type == type) hFind
    refine .inl ⟨t, List.mem_of_find?_eq_some hFind, ?_, beq_iff_eq.mp hType⟩
    rw [findTLV, hFind, Option.getD_some]
  | none =>
    refine .inr ⟨by rw [findTLV, hFind, Option.getD_none], fun t ht hType => ?_⟩
    exact List.find?_eq_none.mp hFind t ht (beq_iff_eq.mpr hType)

theorem updateTLV_eq {it : TLV} (hType : it.type ≠ 0) (tList : List TLV) (changed : Bool) :
    updateTLV memory (tList, changed) it =
      (afterwards memory tList [it], changed || !held memory tList it) := by
  unfold updateTLV afterwards
  dsimp only
  by_cases hHeld : held memory tList it
  · have hAll : ∀ t ∈ tList, stays memory tList [it] t = true := by
      intro t _
      simp [stays, hHeld]
    rw [if_pos hHeld, List.filter_eq_self.mpr hAll]
    simp [hHeld]
  · rw [if_neg hHeld]
    have hComes : [it].filter (fun it => !held memory tList it) = [it] := by simp [hHeld]
    rw [hComes]
    refine Prod.ext (congrArg (· ++ [it]) ?_) (by simp [hHeld])
    obtain ⟨t, -, hFind, hSame⟩ | ⟨hFind, hNone⟩ := findTLV_cases tList it.type
    · rw [hFind, if_pos (hSame ▸ hType)]
      refine List.filter_congr fun x _ => ?_
      by_cases hx : x.type = it.type
      · simp [stays, hHeld, TLV.same, hx, hFind, hSame, bne]
      · simp [stays, TLV.same, hSame, bne, beq_false_of_ne hx, beq_false_of_ne (Ne.symm hx)]
    · rw [hFind, if_neg (fun h => h rfl)]
      refine (List.filter_eq_self.mpr fun t ht => ?_).symm
      simp [stays, Ne.symm (hNone t ht)]

/-- A new TLV shows in what is found of its own type only. -/
theorem findTLV_afterwards_ne {it : TLV} {type : Nat} (h : it.type ≠ type) (tList : List TLV) :
    findTLV (afterwards memory tList [it]) type = findTLV tList type := by
  have hStays : (fun t : TLV => decide (stays memory tList [it] t = true ∧ (t.type == type) = true))
      = fun t => t.type == type := by
    funext t
    by_cases hType : t.type = type
    · simp [stays, hType, h]
    · simp [hType]
  have hComes : ([it].filter fun it => !held memory tList it).find? (fun t => t.type == type) =
      none := by
    rw [List.find?_eq_none]
    intro t ht
    rw [List.mem_singleton.mp (List.mem_of_mem_filter ht), beq_iff_eq]
    exact h
  rw [findTLV, afterwards, List.find?_append, List.find?_filter, hStays, hComes, Option.or_none]
  rfl

theorem held_afterwards_ne {it v : TLV} (h : it.type ≠ v.type) (tList : List TLV) :
    held memory (afterwards memory tList [it]) v = held memory tList v := by
  unfold held
  rw [findTLV_afterwards_ne h]

/-- **One TLV after the other** is all of them at once. -/
theorem afterwards_cons {it : TLV} {list : List TLV} (hOther : ∀ v ∈ list, it.type ≠ v.type)
    (tList : List TLV) :
    afterwards memory (afterwards memory tList [it]) list =
      afterwards memory tList (it :: list) := by
  have hStays : ∀ t, stays memory (afterwards memory tList [it]) list t =
      stays memory tList list t := by
    intro t
    unfold stays
    rw [Bool.eq_iff_iff, List.all_eq_true, List.all_eq_true]
    refine forall₂_congr fun v hv => ?_
    rw [held_afterwards_ne (hOther v hv)]
    by_cases hType : v.type = t.type
    · rw [findTLV_afterwards_ne (hType ▸ hOther v hv)]
    · simp [hType]
  have hNew : stays memory tList list it = true := by
    refine List.all_eq_true.mpr fun v hv => ?_
    simp [Ne.symm (hOther v hv)]
  have hHeld : list.filter (fun v => !held memory (afterwards memory tList [it]) v) =
      list.filter fun v => !held memory tList v :=
    List.filter_congr fun v hv => by rw [held_afterwards_ne (hOther v hv)]
  have hBoth : (fun t => stays memory tList list t && stays memory tList [it] t) =
      stays memory tList (it :: list) := by
    funext t
    simp [stays, Bool.and_comm]
  rw [afterwards, hHeld, funext hStays]
  conv_lhs => rw [afterwards]
  rw [List.filter_append, List.filter_filter, hBoth, afterwards, List.append_assoc]
  congr 1
  cases hIt : held memory tList it <;> simp [hIt, hNew]

theorem foldl_updateTLV : ∀ (list : List TLV) (tList : List TLV) (changed : Bool),
    (∀ it ∈ list, it.type ≠ 0) → (list.map TLV.type).Nodup →
      list.foldl (updateTLV memory) (tList, changed) =
        (afterwards memory tList list, changed || list.any fun it => !held memory tList it)
  | [], tList, changed, _, _ => by
    have hAll : ∀ t ∈ tList, stays memory tList [] t = true := fun _ _ => rfl
    simp [afterwards, List.filter_eq_self.mpr hAll]
  | it :: list, tList, changed, hTypes, hDistinct => by
    rw [List.map_cons, List.nodup_cons] at hDistinct
    have hOther : ∀ v ∈ list, it.type ≠ v.type := fun v hv hSame =>
      hDistinct.1 (hSame ▸ List.mem_map_of_mem hv)
    have hAny : (list.any fun v => !held memory (afterwards memory tList [it]) v) =
        list.any fun v => !held memory tList v := by
      rw [Bool.eq_iff_iff, List.any_eq_true, List.any_eq_true]
      refine exists_congr fun v => and_congr_right fun hv => ?_
      rw [held_afterwards_ne (hOther v hv)]
    rw [List.foldl_cons, updateTLV_eq (hTypes it List.mem_cons_self),
      foldl_updateTLV list _ _ (fun v hv => hTypes v (List.mem_cons_of_mem _ hv)) hDistinct.2,
      afterwards_cons hOther, hAny, List.any_cons, Bool.or_assoc]

/-- What is found of the type of a new TLV: the first one there was if it said the same, else the
first of another length than that one's, or the new one. -/
theorem findTLV_afterwards {tList list : List TLV} (hDistinct : (list.map TLV.type).Nodup)
    {it : TLV} (hit : it ∈ list) :
    findTLV (afterwards memory tList list) it.type =
      if held memory tList it then findTLV tList it.type
      else (tList.find? fun t =>
        t.type == it.type && t.length != (findTLV tList it.type).length).getD it := by
  have hSame : ∀ v ∈ list, v.type = it.type → v = it := fun v hv hSame =>
    List.inj_on_of_nodup_map hDistinct hv hit hSame
  have hStays : ∀ t, decide (stays memory tList list t = true ∧ (t.type == it.type) = true) =
      (t.type == it.type && (held memory tList it ||
        t.length != (findTLV tList it.type).length)) := by
    intro t
    by_cases ht : t.type = it.type
    · have hAll : stays memory tList list t =
          (held memory tList it || t.length != (findTLV tList it.type).length) := by
        rw [Bool.eq_iff_iff, stays, List.all_eq_true, ht]
        constructor
        · intro h
          simpa using h it hit
        · intro h v hv
          by_cases hvType : v.type = it.type
          · rw [hSame v hv hvType]
            simpa using h
          · simp [hvType]
      simp only [hAll, ht, beq_self_eq_true, Bool.true_and, and_true, Bool.decide_eq_true]
    · simp [ht]
  have hComes : (list.filter fun v => !held memory tList v).find? (fun v => v.type == it.type) =
      if held memory tList it then none else some it := by
    cases hFind : (list.filter fun v => !held memory tList v).find?
        (fun v => v.type == it.type) with
    | some v =>
      have hvType := List.find?_some (p := fun v : TLV => v.type == it.type) hFind
      obtain ⟨hv, hHeld⟩ := List.mem_filter.mp (List.mem_of_find?_eq_some hFind)
      rw [hSame v hv (beq_iff_eq.mp hvType)] at hHeld ⊢
      rw [if_neg (by simpa using hHeld)]
    | none =>
      by_cases hHeld : held memory tList it
      · rw [if_pos hHeld]
      · exact absurd (beq_self_eq_true it.type) (List.find?_eq_none.mp hFind it
          (List.mem_filter.mpr ⟨hit, by simpa using hHeld⟩))
  conv_lhs => rw [findTLV, afterwards, List.find?_append, List.find?_filter, funext hStays, hComes]
  by_cases hHeld : held memory tList it
  · simp [hHeld, findTLV]
  · simp only [hHeld, Bool.false_or]
    cases tList.find? fun t => t.type == it.type && t.length != (findTLV tList it.type).length
    · rfl
    · rfl

/-- With nothing new the list stays as it is. -/
theorem afterwards_of_held {tList list : List TLV} (h : ∀ it ∈ list, held memory tList it = true) :
    afterwards memory tList list = tList := by
  have hStays : ∀ t ∈ tList, stays memory tList list t = true := fun t _ =>
    List.all_eq_true.mpr fun v hv => by simp [h v hv]
  have hComes : (list.filter fun v => !held memory tList v) = [] :=
    List.filter_eq_nil_iff.mpr fun v hv => by simp [h v hv]
  rw [afterwards, List.filter_eq_self.mpr hStays, hComes, List.append_nil]

/-! ## The result -/

theorem updateTLVs_spec (repair : List UInt8 → String) (item : ContactItem) {list : List TLV}
    (hTypes : ∀ it ∈ list, it.type ≠ 0) (hDistinct : (list.map TLV.type).Nodup) :
    (updateTLVs memory repair item list).1.tlvList = afterwards memory item.tlvList list ∧
      (updateTLVs memory repair item list).2 = list.any fun it => !held memory item.tlvList it := by
  unfold updateTLVs
  rw [foldl_updateTLV list item.tlvList false hTypes hDistinct]
  dsimp only
  rw [Bool.false_or]
  refine ⟨?_, rfl⟩
  split
  · rfl
  · rename_i hNone
    exact (afterwards_of_held (by simpa using hNone)).symm

/-- **Updated as it should be**: every new TLV is found, those of other types are as they were, the
length is that of the encoded list, and the answer says whether there is another list. -/
structure Merged (item : ContactItem) (list : List TLV) (r : ContactItem × Bool) : Prop where
  found : ∀ it ∈ list, (findTLV r.1.tlvList it.type).data = it.data
  kept : (r.1.tlvList.filter fun t => t.type ∉ list.map TLV.type) =
    item.tlvList.filter fun t => t.type ∉ list.map TLV.type
  encoded : r.1.m_tlvLength = (r.1.tlvList.flatMap TLV.bytes).length
  changed : r.2 = true ↔ r.1.tlvList ≠ item.tlvList

/-- Nothing with other data is found in the place of a new TLV. -/
def Reached (memory : List UInt8 → Nat → UInt8) (tList : List TLV) (it : TLV) : Prop :=
  (if held memory tList it then findTLV tList it.type
    else (tList.find? fun t =>
      t.type == it.type && t.length != (findTLV tList it.type).length).getD it).data = it.data

/-- The lengths that the TLVs have, counted in a `WORD`, are those of their data. -/
def Counted (list : List TLV) : Prop :=
  refreshTLVLength list % 2 ^ 16 = (list.flatMap TLV.bytes).length

theorem kept_afterwards (tList list : List TLV) :
    ((afterwards memory tList list).filter fun t => t.type ∉ list.map TLV.type) =
      tList.filter fun t => t.type ∉ list.map TLV.type := by
  have hComes : ((list.filter fun v => !held memory tList v).filter fun t =>
      t.type ∉ list.map TLV.type) = [] := by
    refine List.filter_eq_nil_iff.mpr fun v hv => ?_
    simp [List.mem_map_of_mem (List.mem_of_mem_filter hv)]
  rw [afterwards, List.filter_append, hComes, List.append_nil, List.filter_filter]
  refine List.filter_congr fun t _ => ?_
  by_cases hNew : t.type ∈ list.map TLV.type
  · simp only [hNew, not_true_eq_false, decide_false, Bool.false_and]
  · have hStays : stays memory tList list t = true := List.all_eq_true.mpr fun v hv => by
      have hOther : v.type ≠ t.type := fun hSame => hNew (hSame ▸ List.mem_map_of_mem hv)
      simp [hOther]
    rw [hStays, Bool.and_true]

theorem memcmp_self (data : List UInt8) (n : Nat) : memcmp memory data data n = true := by
  simp [memcmp]

/-- A TLV that is not there already makes another list. -/
theorem afterwards_ne {tList list : List TLV} (hDistinct : (list.map TLV.type).Nodup) {it : TLV}
    (hit : it ∈ list) (hType : it.type ≠ 0) (hHeld : ¬held memory tList it) :
    afterwards memory tList list ≠ tList := by
  intro hSame
  have hFind : findTLV (afterwards memory tList list) it.type = _ :=
    findTLV_afterwards hDistinct hit
  rw [hSame, if_neg hHeld] at hFind
  cases hOther : tList.find? fun t =>
      t.type == it.type && t.length != (findTLV tList it.type).length with
  | some r =>
    rw [hOther, Option.getD_some] at hFind
    have hLength := List.find?_some (p := fun t : TLV =>
      t.type == it.type && t.length != (findTLV tList it.type).length) hOther
    simp [hFind] at hLength
  | none =>
    rw [hOther, Option.getD_none] at hFind
    refine hHeld ?_
    unfold held
    rw [hFind]
    simp [hType, memcmp_self]

/-- **The item is updated as it should be** exactly if nothing with other data is found in the
place of a new TLV and the length of the list can be counted. -/
theorem merged_iff (memory : List UInt8 → Nat → UInt8) (repair : List UInt8 → String)
    (item : ContactItem) (list : List TLV) (hTypes : ∀ it ∈ list, it.type ≠ 0)
    (hDistinct : (list.map TLV.type).Nodup) :
    Merged item list (updateTLVs memory repair item list) ↔
      (∀ it ∈ list, Reached memory item.tlvList it) ∧
        Counted (afterwards memory item.tlvList list) := by
  obtain ⟨hList, hChanged⟩ := updateTLVs_spec repair item hTypes hDistinct
  have hFound : (∀ it ∈ list, (findTLV (afterwards memory item.tlvList list) it.type).data =
      it.data) ↔ ∀ it ∈ list, Reached memory item.tlvList it := by
    refine forall₂_congr fun it hit => ?_
    rw [findTLV_afterwards hDistinct hit, Reached]
  rw [← hFound]
  constructor
  · rintro ⟨hFinds, -, hEncoded, -⟩
    rw [hList] at hFinds
    rw [(updateTLVs memory repair item list).1.counted, hList] at hEncoded
    exact ⟨hFinds, hEncoded⟩
  · rintro ⟨hFinds, hCounted⟩
    refine ⟨by rwa [hList], by rw [hList, kept_afterwards], ?_, ?_⟩
    · rw [(updateTLVs memory repair item list).1.counted, hList]
      exact hCounted
    · rw [hChanged, hList, List.any_eq_true]
      constructor
      · rintro ⟨it, hit, hNew⟩
        exact afterwards_ne hDistinct hit (hTypes it hit) (by simpa using hNew)
      · intro hOther
        by_contra hNone
        refine hOther (afterwards_of_held fun it hit => ?_)
        by_contra hNew
        exact hNone ⟨it, hit, by simpa using hNew⟩

/-- An item of the contact "a". -/
def ofTLVs (tlvList : List TLV) : ContactItem :=
  ContactItem.new (fun _ _ => 0) (fun _ => "") ⟨"a", 1, 1, ROSTER_CONTACT, tlvList⟩

theorem merged_iff_oneAlias :
    Merged (ofTLVs [⟨0x0131, 1, [0x61]⟩, ⟨0x0066, 0, []⟩]) [⟨0x0131, 2, [0x62, 0x63]⟩]
      (updateTLVs (fun _ _ => 0) (fun _ => "") (ofTLVs [⟨0x0131, 1, [0x61]⟩, ⟨0x0066, 0, []⟩])
        [⟨0x0131, 2, [0x62, 0x63]⟩]) :=
  (merged_iff (fun _ _ => 0) (fun _ => "") (ofTLVs [⟨0x0131, 1, [0x61]⟩, ⟨0x0066, 0, []⟩])
    [⟨0x0131, 2, [0x62, 0x63]⟩] (by decide) (by decide)).mpr
    ⟨by unfold Reached; decide, by unfold Counted; decide⟩

/-- Of two TLVs of one type, and of different lengths, the second one stays. -/
theorem secondAlias_stays :
    ¬ ∀ (memory : List UInt8 → Nat → UInt8) (repair : List UInt8 → String) (item : ContactItem)
      (list : List TLV), (∀ it ∈ list, it.type ≠ 0) → (list.map TLV.type).Nodup →
      (∀ it ∈ list, it.length = it.data.length) →
      Merged item list (updateTLVs memory repair item list) := by
  intro h
  have hFound := (h (fun _ _ => 0) (fun _ => "")
    (ofTLVs [⟨0x0131, 1, [0x61]⟩, ⟨0x0131, 2, [0x62, 0x63]⟩]) [⟨0x0131, 3, [0x64, 0x65, 0x66]⟩]
    (by decide) (by decide) (by decide)).found ⟨0x0131, 3, [0x64, 0x65, 0x66]⟩
    (List.mem_singleton_self _)
  exact absurd hFound (by decide)

end Oscar
