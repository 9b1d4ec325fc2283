import Kopete.Lib.QMap
import Kopete.Libkopete.MetaContactStatus
import Mathlib

/-!
# libkopete — the statuses of a protocol

The statuses that are registered for a protocol are the keys of a map whose order compares
the type and the weight only, so that of those that have both in common the first one stays.
A status for a category is looked for in the category, then in the one it branches off
from, up to the root of the tree; the numbers of the categories make the tree, as those of
a heap.

Main results:

* `mem_registeredStatusList` — which statuses stay;
* `search_spec` — what is found on the way to the root;
* `registered_iff` — when nothing is missing from the list and from the categories.
-/

namespace Kopete

/-- `OnlineStatus`, as it is registered. The `uint`s are numbers: nothing here overflows. -/
structure RegisteredStatus extends OnlineStatus where
  caption : String
  categories : Nat
  options : Nat
deriving DecidableEq, Repr

namespace RegisteredStatus

/-- `OnlineStatus()`. -/
def empty : RegisteredStatus :=
  { OnlineStatus.empty with caption := "", categories := 0, options := 0 }

/-- `operator<`. -/
def lt (s t : RegisteredStatus) : Bool :=
  if s.status = t.status then s.weight < t.weight else s.status.value < t.status.value

/-- What is compared. -/
def rank (s : RegisteredStatus) : Nat ×ₗ Nat := toLex (s.status.value, s.weight)

/-- `categories() & (1 << categ_nb)`. -/
def hasCategory (nb : Nat) (s : RegisteredStatus) : Bool := s.categories &&& 1 <<< nb ≠ 0

theorem hasCategory_eq (nb : Nat) (s : RegisteredStatus) :
    s.hasCategory nb = s.categories.testBit nb := by
  rw [hasCategory, Nat.one_shiftLeft, Nat.and_two_pow]
  cases s.categories.testBit nb <;> simp

theorem not_hasCategory_empty (nb : Nat) : empty.hasCategory nb = false := by
  rw [hasCategory_eq]
  exact Nat.zero_testBit nb

end RegisteredStatus

/-- `OnlineStatusManager`: the statuses that are registered, for each protocol. -/
abbrev OnlineStatusManager := Option Nat → QMap (Nat ×ₗ Nat) RegisteredStatus

namespace OnlineStatusManager

open RegisteredStatus

def empty : OnlineStatusManager := fun _ => QMap.empty

/-- `QMap::insert`, with the status as the key: a key that is neither less nor greater stays. -/
def insertStatus (map : QMap (Nat ×ₗ Nat) RegisteredStatus) (s : RegisteredStatus) :
    QMap (Nat ×ₗ Nat) RegisteredStatus :=
  if (map.find? s.rank).isSome then map else map.insert s.rank s

/-- `OnlineStatusManager::registerOnlineStatus`. -/
def registerOnlineStatus (d : OnlineStatusManager) (s : RegisteredStatus) : OnlineStatusManager :=
  Function.update d s.protocol (insertStatus (d s.protocol) s)

/-- `OnlineStatusManager::registeredStatusList`. -/
def registeredStatusList (d : OnlineStatusManager) (protocol : Option Nat) :
    List RegisteredStatus := (d protocol).entries.map Prod.snd

/-- The turns of the loop that computes the logarithm of a category; `categ_nb` is one less. -/
def turns (category : Nat) : Nat :=
  if category = 0 then 0 else turns (category >>> 1) + 1
termination_by category
decreasing_by
  rw [Nat.shiftRight_eq_div_pow]
  omega

/-- The loop over the categories, from one up to the root. -/
def search (statuses : List RegisteredStatus) (nb : Nat) : Option RegisteredStatus :=
  match statuses.find? (hasCategory nb) with
  | some s => some s
  | none => if 0 < nb / 2 then search statuses (nb / 2) else none
termination_by nb
decreasing_by omega

/-- `OnlineStatusManager::onlineStatus`; `none` for the category 0, where `1` is shifted by a
negative number. -/
def onlineStatus (d : OnlineStatusManager) (protocol : Option Nat) (category : Nat) :
    Option RegisteredStatus :=
  match turns category with
  | 0 => none
  | nb + 1 => some ((search (registeredStatusList d protocol) nb).getD RegisteredStatus.empty)

theorem turns_two_pow (n : Nat) : turns (2 ^ n) = n + 1 := by
  induction n with
  | zero =>
    rw [turns, if_neg (by decide), turns, if_pos (by decide)]
  | succ n ih =>
    have hHalf : 2 ^ (n + 1) >>> 1 = 2 ^ n := by
      rw [Nat.shiftRight_eq_div_pow, Nat.pow_succ, pow_one, Nat.mul_div_cancel _ (by decide)]
    rw [turns, if_neg (Nat.pow_pos (by decide)).ne', hHalf, ih]

/-! ## The way to the root -/

/-- The categories that are looked at: n, and n/2, n/4, ... while they are positive. -/
def OnPath (n m : Nat) : Prop := m = n ∨ 0 < m ∧ ∃ k, m = n / 2 ^ k

theorem onPath_iff {n m : Nat} : OnPath n m ↔ m = n ∨ 0 < n / 2 ∧ OnPath (n / 2) m := by
  unfold OnPath
  constructor
  · rintro (rfl | ⟨hPos, k, rfl⟩)
    · exact .inl rfl
    · cases k with
      | zero => exact .inl (by rw [pow_zero, Nat.div_one])
      | succ k =>
        have hSplit : n / 2 ^ (k + 1) = n / 2 / 2 ^ k := by
          rw [Nat.pow_succ', Nat.div_div_eq_div_mul]
        rw [hSplit] at hPos ⊢
        refine .inr ⟨?_, .inr ⟨hPos, k, rfl⟩⟩
        exact Nat.pos_of_ne_zero fun hZero => by rw [hZero, Nat.zero_div] at hPos; omega
  · rintro (rfl | ⟨hPos, rfl | ⟨hm, k, rfl⟩⟩)
    · exact .inl rfl
    · exact .inr ⟨hPos, 1, by rw [pow_one]⟩
    · exact .inr ⟨hm, k + 1, by rw [Nat.pow_succ', Nat.div_div_eq_div_mul]⟩

theorem OnPath.le {n m : Nat} (h : OnPath n m) : m ≤ n := by
  rcases h with rfl | ⟨-, k, rfl⟩
  · exact Nat.le_refl m
  · exact Nat.div_le_self n _

/-- **What is found** is in the greatest category on the path that has a status. -/
theorem search_spec (statuses : List RegisteredStatus) (n : Nat) :
    match search statuses n with
    | some s => s ∈ statuses ∧ ∃ m, OnPath n m ∧ s.hasCategory m = true ∧
        ∀ m', OnPath n m' → m < m' → ∀ t ∈ statuses, t.hasCategory m' = false
    | none => ∀ m, OnPath n m → ∀ t ∈ statuses, t.hasCategory m = false := by
  induction n using Nat.strong_induction_on with
  | _ n ih =>
    rw [search]
    cases hFind : statuses.find? (hasCategory n) with
    | some s =>
      refine ⟨List.mem_of_find?_eq_some hFind, n, .inl rfl, List.find?_some hFind, ?_⟩
      exact fun m' hm' hLess => absurd hm'.le (Nat.not_le.2 hLess)
    | none =>
      have hHere : ∀ t ∈ statuses, t.hasCategory n = false := by
        intro t ht
        exact Bool.eq_false_iff.2 (List.find?_eq_none.1 hFind t ht)
      simp only
      by_cases hPos : 0 < n / 2
      · rw [if_pos hPos]
        have hRest := ih (n / 2) (by omega)
        cases hSearch : search statuses (n / 2) with
        | some s =>
          rw [hSearch] at hRest
          obtain ⟨hMem, m, hm, hs, hMore⟩ := hRest
          refine ⟨hMem, m, onPath_iff.2 (.inr ⟨hPos, hm⟩), hs, fun m' hm' hLess => ?_⟩
          rcases onPath_iff.1 hm' with rfl | ⟨-, hm'⟩
          · exact hHere
          · exact hMore m' hm' hLess
        | none =>
          rw [hSearch] at hRest
          intro m hm
          rcases onPath_iff.1 hm with rfl | ⟨-, hm⟩
          · exact hHere
          · exact hRest m hm
      · rw [if_neg hPos]
        intro m hm
        rcases onPath_iff.1 hm with rfl | ⟨hPos', -⟩
        · exact hHere
        · exact absurd hPos' hPos

/-! ## Runs of registrations -/

/-- `k` is the first that is registered of its protocol, its type and its weight. -/
def First (regs : List RegisteredStatus) (k : RegisteredStatus) : Prop :=
  regs.find? (fun s => decide (s.protocol = k.protocol ∧ s.rank = k.rank)) = some k

theorem First.mem {regs : List RegisteredStatus} {k : RegisteredStatus} (h : First regs k) :
    k ∈ regs := List.mem_of_find?_eq_some h

theorem find?_insertStatus (map : QMap (Nat ×ₗ Nat) RegisteredStatus) (s : RegisteredStatus)
    (r : Nat ×ₗ Nat) :
    (insertStatus map s).find? r = (map.find? r).or (if s.rank = r then some s else none) := by
  rw [insertStatus]
  by_cases hRank : s.rank = r
  · subst hRank
    cases hFind : map.find? s.rank with
    | some t => simp only [Option.isSome_some, if_true, hFind, Option.some_or]
    | none => simp
  · rw [if_neg hRank, Option.or_none]
    split
    · rfl
    · rw [QMap.find?_insert, if_neg fun h => hRank h.symm]

theorem find?_registerOnlineStatus (d : OnlineStatusManager) (s : RegisteredStatus)
    (protocol : Option Nat) (r : Nat ×ₗ Nat) :
    (registerOnlineStatus d s protocol).find? r =
      ((d protocol).find? r).or (if s.protocol = protocol ∧ s.rank = r then some s else none) := by
  by_cases hProtocol : s.protocol = protocol
  · subst hProtocol
    rw [registerOnlineStatus, Function.update_self, find?_insertStatus]
    simp only [true_and]
  · rw [if_neg fun h => hProtocol h.1, Option.or_none, registerOnlineStatus,
      Function.update_of_ne (Ne.symm hProtocol)]

theorem find?_foldl_registerOnlineStatus (regs : List RegisteredStatus) (d : OnlineStatusManager)
    (protocol : Option Nat) (r : Nat ×ₗ Nat) :
    (regs.foldl registerOnlineStatus d protocol).find? r =
      ((d protocol).find? r).or
        (regs.find? fun s => decide (s.protocol = protocol ∧ s.rank = r)) := by
  induction regs generalizing d with
  | nil => rw [List.foldl_nil, List.find?_nil, Option.or_none]
  | cons s regs ih =>
    rw [List.foldl_cons, ih, find?_registerOnlineStatus, Option.or_assoc, List.find?_cons]
    by_cases hs : s.protocol = protocol ∧ s.rank = r
    · rw [if_pos hs, decide_eq_true hs, Option.some_or]
    · rw [if_neg hs, decide_eq_false hs, Option.none_or]

/-- **The statuses that stay** are the first ones. -/
theorem mem_registeredStatusList {regs : List RegisteredStatus} {protocol : Option Nat}
    {k : RegisteredStatus} :
    k ∈ registeredStatusList (regs.foldl registerOnlineStatus empty) protocol ↔
      First regs k ∧ k.protocol = protocol := by
  have hEntry (r : Nat ×ₗ Nat) : (r, k) ∈ (regs.foldl registerOnlineStatus empty protocol).entries ↔
      regs.find? (fun s => decide (s.protocol = protocol ∧ s.rank = r)) = some k := by
    rw [QMap.mem_entries_iff, find?_foldl_registerOnlineStatus, empty, QMap.find?_empty,
      Option.none_or]
  rw [registeredStatusList, List.mem_map]
  constructor
  · rintro ⟨⟨r, k'⟩, hMem, rfl⟩
    have hFind := (hEntry r).1 hMem
    obtain ⟨rfl, rfl⟩ : k'.protocol = protocol ∧ k'.rank = r := by
      simpa only [decide_eq_true_eq] using List.find?_some hFind
    exact ⟨hFind, rfl⟩
  · rintro ⟨hFirst, rfl⟩
    exact ⟨(k.rank, k), (hEntry k.rank).2 hFirst, rfl⟩

/-- The protocol has a status in the category. -/
def HasStatus (regs : List RegisteredStatus) (protocol : Option Nat) (m : Nat) : Prop :=
  ∃ s ∈ regs, s.protocol = protocol ∧ s.hasCategory m = true

/-- What is found for the category `2 ^ n`: a status in the greatest category on the path for which
there is any, and the default one only where there is none. -/
def Found (regs : List RegisteredStatus) (protocol : Option Nat) (n : Nat) : Prop :=
  ∃ r, onlineStatus (regs.foldl registerOnlineStatus empty) protocol (2 ^ n) = some r ∧
    (∀ m, OnPath n m → HasStatus regs protocol m →
      (∀ m', OnPath n m' → HasStatus regs protocol m' → m' ≤ m) →
      r ∈ regs ∧ r.protocol = protocol ∧ r.hasCategory m = true) ∧
    (r = RegisteredStatus.empty ↔ ∀ m, OnPath n m → ¬ HasStatus regs protocol m)

/-- What is asked of a run of registrations: each status is in the list of its protocol, and in
each category the right one is found. -/
structure FindsAll (regs : List RegisteredStatus) : Prop where
  listed : ∀ s ∈ regs,
    ∃ k ∈ registeredStatusList (regs.foldl registerOnlineStatus empty) s.protocol,
      k.toOnlineStatus.same s.toOnlineStatus = true
  found : ∀ protocol n, Found regs protocol n

/-- The condition: of the statuses that have protocol, type and weight in common, those after the
first one bring nothing new. -/
def FirstsSuffice (regs : List RegisteredStatus) : Prop :=
  ∀ s ∈ regs,
    (∃ k ∈ regs, First regs k ∧ k.toOnlineStatus.same s.toOnlineStatus = true) ∧
      ∀ m, s.hasCategory m = true →
        ∃ k ∈ regs, First regs k ∧ k.protocol = s.protocol ∧ k.hasCategory m = true

theorem onlineStatus_two_pow (d : OnlineStatusManager) (protocol : Option Nat) (n : Nat) :
    onlineStatus d protocol (2 ^ n) =
      some ((search (registeredStatusList d protocol) n).getD RegisteredStatus.empty) := by
  rw [onlineStatus, turns_two_pow]

/-- Where the first statuses have the categories of all, they have the same ones on the path. -/
theorem hasStatus_iff {regs : List RegisteredStatus} (h : FirstsSuffice regs)
    {protocol : Option Nat} {m : Nat} :
    HasStatus regs protocol m ↔
      ∃ k ∈ registeredStatusList (regs.foldl registerOnlineStatus empty) protocol,
        k.hasCategory m = true := by
  constructor
  · rintro ⟨s, hs, rfl, hCategory⟩
    obtain ⟨k, -, hFirst, hProtocol, hk⟩ := (h s hs).2 m hCategory
    exact ⟨k, mem_registeredStatusList.2 ⟨hFirst, hProtocol⟩, hk⟩
  · rintro ⟨k, hMem, hk⟩
    obtain ⟨hFirst, hProtocol⟩ := mem_registeredStatusList.1 hMem
    exact ⟨k, hFirst.mem, hProtocol, hk⟩

theorem FirstsSuffice.found {regs : List RegisteredStatus} (h : FirstsSuffice regs)
    (protocol : Option Nat) (n : Nat) : Found regs protocol n := by
  refine ⟨_, onlineStatus_two_pow _ _ _, ?_⟩
  have hSpec := search_spec
    (registeredStatusList (regs.foldl registerOnlineStatus empty) protocol) n
  cases hSearch : search
      (registeredStatusList (regs.foldl registerOnlineStatus empty) protocol) n with
  | some s =>
    rw [hSearch] at hSpec
    obtain ⟨hMem, m₀, hPath₀, hs, hMore⟩ := hSpec
    obtain ⟨hFirst, hProtocol⟩ := mem_registeredStatusList.1 hMem
    have hHas : HasStatus regs protocol m₀ := ⟨s, hFirst.mem, hProtocol, hs⟩
    refine ⟨fun m hm hStatus hMax => ⟨hFirst.mem, hProtocol, ?_⟩, ?_, ?_⟩
    · rcases (hMax m₀ hPath₀ hHas).eq_or_lt with rfl | hLess
      · exact hs
      · obtain ⟨k, hk, hCategory⟩ := (hasStatus_iff h).1 hStatus
        rw [hMore m hm hLess k hk] at hCategory
        cases hCategory
    · rintro rfl
      rw [not_hasCategory_empty] at hs
      cases hs
    · exact fun hNone => absurd hHas (hNone m₀ hPath₀)
  | none =>
    rw [hSearch] at hSpec
    have hNone : ∀ m, OnPath n m → ¬ HasStatus regs protocol m := by
      intro m hm hStatus
      obtain ⟨k, hk, hCategory⟩ := (hasStatus_iff h).1 hStatus
      rw [hSpec m hm k hk] at hCategory
      cases hCategory
    exact ⟨fun m hm hStatus => absurd hStatus (hNone m hm), fun _ => hNone, fun _ => rfl⟩

/-- **When nothing is missing.** -/
theorem registered_iff (regs : List RegisteredStatus) : FindsAll regs ↔ FirstsSuffice regs := by
  constructor
  · rintro ⟨hListed, hFound⟩ s hs
    constructor
    · obtain ⟨k, hMem, hSame⟩ := hListed s hs
      have hFirst := (mem_registeredStatusList.1 hMem).1
      exact ⟨k, hFirst.mem, hFirst, hSame⟩
    · intro m hCategory
      obtain ⟨r, hr, hBest, -⟩ := hFound s.protocol m
      obtain ⟨-, hProtocol, hrCategory⟩ := hBest m (.inl rfl) ⟨s, hs, rfl, hCategory⟩
        fun m' hm' _ => hm'.le
      rw [onlineStatus_two_pow, Option.some_inj] at hr
      have hSpec := search_spec
        (registeredStatusList (regs.foldl registerOnlineStatus empty) s.protocol) m
      cases hSearch : search
          (registeredStatusList (regs.foldl registerOnlineStatus empty) s.protocol) m with
      | some t =>
        rw [hSearch] at hr hSpec
        have hFirst := (mem_registeredStatusList.1 hSpec.1).1
        subst hr
        exact ⟨t, hFirst.mem, hFirst, hProtocol, hrCategory⟩
      | none =>
        rw [hSearch, Option.getD_none] at hr
        rw [← hr, not_hasCategory_empty] at hrCategory
        cases hrCategory
  · intro h
    refine ⟨fun s hs => ?_, h.found⟩
    obtain ⟨k, -, hFirst, hSame⟩ := (h s hs).1
    refine ⟨k, mem_registeredStatusList.2 ⟨hFirst, ?_⟩, hSame⟩
    exact (of_decide_eq_true hSame).2.1

/-- Two statuses of one type, both without a weight. -/
def online : RegisteredStatus where
  status := .online
  internalStatus := 0
  weight := 0
  protocol := some 0
  overlayIcons := []
  description := "Online"
  caption := "O&nline"
  categories := 1 <<< 1
  options := 0

def freeForChat : RegisteredStatus :=
  { online with internalStatus := 1, description := "Free for Chat", caption := "&Free for Chat",
                categories := 1 <<< 6 }

theorem registered_collapse : ¬ FindsAll [online, freeForChat] := by
  rintro ⟨hListed, -⟩
  have hNone : ∀ k ∈ registeredStatusList
      ([online, freeForChat].foldl registerOnlineStatus empty) freeForChat.protocol,
      k.toOnlineStatus.same freeForChat.toOnlineStatus = false := by decide
  obtain ⟨k, hMem, hSame⟩ := hListed freeForChat (by decide)
  rw [hNone k hMem] at hSame
  cases hSame

end OnlineStatusManager

end Kopete
