import Kopete.Lib.QList
import Kopete.Lib.Run
import Mathlib

/-!
# libkopete — the order of the accounts

`compareAccountsByPriority` answers in three ways, `1`, `0` and `-1`, as a comparison did
that was to find the place of an item. `std::sort` takes its answer for a truth value, and
so every account for less than every other one. What `std::sort` does with that is not
defined: its comparison has to be a strict weak ordering.

What a sort does is followed as far as it is a permutation; then no two accounts of one
protocol have the same id.

Main results:

* `strictWeakOn_iff` — the lists on which the comparison is a strict weak ordering;
* `distinct_step` — what registering and unregistering keep;
* `accounts_sorted_iff` — when the accounts are sorted, and that they are told apart.
-/

namespace Kopete

open QList

/-- What is asked of accounts. -/
structure AccountKeys (γ : Type) where
  protocol : γ → Nat
  accountId : γ → String
  priority : γ → Nat

/-! ## Sorting -/

section

variable {γ : Type}

/-- `less` is a strict weak ordering of the elements of a list. -/
structure StrictWeakOn (less : γ → γ → Bool) (l : List γ) : Prop where
  irrefl : ∀ a ∈ l, less a a = false
  trans : ∀ a ∈ l, ∀ b ∈ l, ∀ c ∈ l, less a b = true → less b c = true → less a c = true
  incomparable : ∀ a ∈ l, ∀ b ∈ l, ∀ c ∈ l, less a b = false → less b a = false →
    less b c = false → less c b = false → less a c = false ∧ less c a = false

/-- What is promised of `std::sort`, where its comparison is one. -/
def IsStdSort (less : γ → γ → Bool) (sort : List γ → List γ) : Prop :=
  ∀ l, StrictWeakOn less l → (sort l).Perm l ∧ (sort l).Pairwise fun a b => less b a = false

/-- A sort, as far as it is a permutation. -/
structure Rearrangement (γ : Type) where
  sort : List γ → List γ
  perm : ∀ l, (sort l).Perm l

end

namespace AccountKeys

variable {γ : Type} [DecidableEq γ] (s : AccountKeys γ)

/-- `compareAccountsByPriority`. -/
def compareAccountsByPriority (a b : γ) : Int :=
  if a = b then 0
  else if s.priority b < s.priority a then 1
  else -1

/-- Its answer as a truth value. -/
def precedes (a b : γ) : Bool := decide (s.compareAccountsByPriority a b ≠ 0)

/-- **The accounts are sorted**: the comparison is a strict weak ordering of them, and a sort
leaves them with the highest priority first. -/
structure SortsByPriority (l : List γ) : Prop where
  ordering : StrictWeakOn s.precedes l
  sorted : ∀ sort, IsStdSort s.precedes sort →
    (sort l).Perm l ∧ (sort l).Pairwise fun a b => s.priority b ≤ s.priority a

variable {s}

/-- Every account precedes every other. -/
theorem precedes_eq (a b : γ) : s.precedes a b = decide (a ≠ b) := by
  unfold precedes compareAccountsByPriority
  by_cases hSame : a = b
  · simp [hSame]
  · by_cases hLess : s.priority b < s.priority a <;> simp [hSame, hLess]

/-- **Two accounts** precede each other. -/
theorem strictWeakOn_iff (l : List γ) :
    StrictWeakOn s.precedes l ↔ ∀ a ∈ l, ∀ b ∈ l, a = b := by
  constructor
  · intro h a ha b hb
    by_contra hNe
    have hAround := h.trans a ha b hb a ha (by simp [precedes_eq, hNe])
      (by simp [precedes_eq, Ne.symm hNe])
    rw [h.irrefl a ha] at hAround
    cases hAround
  · intro hSame
    have hNone : ∀ a ∈ l, ∀ b ∈ l, s.precedes a b = false := fun a ha b hb => by
      simp [precedes_eq, hSame a ha b hb]
    refine ⟨fun a ha => hNone a ha a ha, fun a ha b hb c hc hLess => ?_,
      fun a ha b _ c hc _ _ _ _ => ⟨hNone a ha c hc, hNone c hc a ha⟩⟩
    rw [hNone a ha b hb] at hLess
    cases hLess

theorem sortsByPriority_iff (l : List γ) :
    s.SortsByPriority l ↔ ∀ a ∈ l, ∀ b ∈ l, a = b := by
  constructor
  · exact fun h => (strictWeakOn_iff l).mp h.ordering
  · intro hSame
    have hOrdering := (strictWeakOn_iff (s := s) l).mpr hSame
    refine ⟨hOrdering, fun sort hSort => ?_⟩
    have hPerm := (hSort l hOrdering).1
    refine ⟨hPerm, List.pairwise_of_forall_mem_list fun a ha b hb => ?_⟩
    exact Nat.le_of_eq (by rw [hSame a (hPerm.subset ha) b (hPerm.subset hb)])

/-! ## Registering -/

variable (s)

/-- `AccountManager::registerAccount`: the accounts, and what is returned. `none` is the null
pointer. -/
def registerAccount (r : Rearrangement γ) (accounts : List γ) (account : Option γ) :
    List γ × Option γ :=
  match account with
  | none => (accounts, none)
  | some account =>
    if account ∈ accounts then (accounts, some account)
    else if s.accountId account = "" then (accounts, none)
    else if accounts.any fun curracc => decide (s.protocol account = s.protocol curracc ∧
        s.accountId account = s.accountId curracc) then (accounts, none)
    else (r.sort (accounts ++ [account]), some account)

/-- `AccountManager::unregisterAccount`. -/
def unregisterAccount (accounts : List γ) (account : γ) : List γ := removeAll accounts account

/-- What is done with the accounts, with what a sort makes of them. -/
inductive AccountOp (γ : Type)
  | registerAccount (r : Rearrangement γ) (account : Option γ)
  | unregisterAccount (account : γ)
  | save (r : Rearrangement γ)

def step (accounts : List γ) : AccountOp γ → List γ
  | .registerAccount r account => (s.registerAccount r accounts account).1
  | .unregisterAccount account => unregisterAccount accounts account
  | .save r => r.sort accounts

/-- **No two accounts** share their protocol and their id. -/
def Distinct (accounts : List γ) : Prop :=
  accounts.Pairwise fun a b => ¬ (s.protocol a = s.protocol b ∧ s.accountId a = s.accountId b)

variable {s}

omit [DecidableEq γ] in
theorem distinct_perm {l l' : List γ} (h : l.Perm l') : s.Distinct l ↔ s.Distinct l' :=
  h.pairwise_iff fun hApart hSame => hApart ⟨hSame.1.symm, hSame.2.symm⟩

theorem distinct_registerAccount {accounts : List γ} (h : s.Distinct accounts)
    (r : Rearrangement γ) (account : Option γ) :
    s.Distinct (s.registerAccount r accounts account).1 := by
  rcases account with _ | account
  · exact h
  unfold registerAccount
  dsimp only
  split
  · exact h
  split
  · exact h
  split
  · exact h
  · next hNone =>
    rw [distinct_perm (r.perm _), Distinct, List.pairwise_append]
    refine ⟨h, List.pairwise_singleton _ _, fun a ha b hb hSame => hNone ?_⟩
    rw [List.mem_singleton.mp hb] at hSame
    rw [List.any_eq_true]
    exact ⟨a, ha, decide_eq_true ⟨hSame.1.symm, hSame.2.symm⟩⟩

/-- **One step.** -/
theorem distinct_step (accounts : List γ) (op : AccountOp γ) (h : s.Distinct accounts) :
    s.Distinct (s.step accounts op) := by
  match op with
  | .registerAccount r account => exact distinct_registerAccount h r account
  | .unregisterAccount account => exact h.filter _
  | .save r => exact (distinct_perm (r.perm accounts)).mpr h

/-- **The accounts are sorted** by their priorities exactly when there are no two of them.
Whatever is registered and unregistered, no two share their protocol and their id. -/
theorem accounts_sorted_iff (s : AccountKeys γ) :
    (∀ l, s.SortsByPriority l ↔ ∀ a ∈ l, ∀ b ∈ l, a = b) ∧
      ∀ ops : List (AccountOp γ), ∀ l ∈ Run.states s.step [] ops, s.Distinct l :=
  ⟨sortsByPriority_iff, fun ops =>
    have hAll : Run.StepsMeet s.step (fun _ _ => True) [] ops :=
      Run.stepsMeet_of_forall (fun _ _ => trivial) [] ops
    Run.inv_of_stepsMeet (fun l op h _ => distinct_step l op h) List.Pairwise.nil hAll⟩

/-- **Two accounts**, one of a higher priority. -/
theorem two_accounts_unordered :
    ¬ (⟨fun _ => 0, fun a => if a = 0 then "a" else "b", id⟩ : AccountKeys Nat).SortsByPriority
      [0, 1] := by
  intro h
  have hAround := h.ordering.trans 0 (by decide) 1 (by decide) 0 (by decide) (by decide)
    (by decide)
  exact absurd hAround (by decide)

end AccountKeys

end Kopete
