import Kopete.Lib.FirstGreatest
import Kopete.Libkopete.MetaContactStatus
import Mathlib

/-!
# libkopete — the preferred contact

`preferredContact` goes over the contacts once. It takes the first one with a chat session
whatever its state, exchanges a contact for a later one that is greater, and passes over
contacts without a session while the one it holds has been taken for its session and can
be reached. What it holds at the end need not be one that can be reached, nor one with a
session.

Main results:

* `foldlM_plain`, `foldlM_reached`, `foldlM_stays` — the loop before the first session, from
  a contact that is reached, and while it holds one that is not;
* `preferredContact_iff` — when the contact is the preferred one.
-/

namespace Kopete

open FirstGreatest

/-- What is asked of an account. -/
structure AccountState where
  isConnected : Bool
  priority : Nat
deriving DecidableEq, Repr

/-- What is asked of contacts: `manager( CannotCreate )`, the account, `isReachable` and
`onlineStatus`. -/
structure ContactStates (γ : Type) where
  hasManager : γ → Bool
  account : γ → Option AccountState
  isReachable : γ → Bool
  onlineStatus : γ → OnlineStatus

namespace ContactStates

variable {γ : Type} (s : ContactStates γ)

/-! ## The loop -/

/-- The contact can be reached on an account that is connected. -/
def reached (c : γ) : Bool :=
  match s.account c with
  | some account => account.isConnected && s.isReachable c
  | none => false

/-- The three comparisons; `none` if an account is missing. -/
def better (c contact : γ) : Option Bool :=
  match s.account c, s.account contact with
  | some account, some account' =>
    let status := s.onlineStatus c
    let status' := s.onlineStatus contact
    if status'.status.value < status.status.value then some true
    else if status.status = status'.status then
      if account'.priority < account.priority then some true
      else some (decide (account.priority = account'.priority ∧ status'.weight < status.weight))
    else some false
  | _, _ => none

/-- `contact` and `hasOpenView`. -/
structure Chosen (γ : Type) where
  contact : Option γ
  hasOpenView : Bool

/-- The part of the loop behind the look at the sessions. -/
def consider (r : Chosen γ) (c : γ) : Option (Chosen γ) :=
  if s.reached c then
    match r.contact with
    | none => some { r with contact := some c }
    | some contact =>
      (s.better c contact).map fun b => if b then { r with contact := some c } else r
  else some r -- continue

/-- One round of the loop of `preferredContact`. -/
def preferredStep (r : Chosen γ) (c : γ) : Option (Chosen γ) :=
  if s.hasManager c then
    if r.hasOpenView then s.consider r c
    else if s.isReachable c then some ⟨some c, true⟩ -- continue
    else s.consider ⟨some c, true⟩ c
  else if r.hasOpenView && r.contact.any s.isReachable then some r -- continue
  else s.consider r c

/-- `MetaContact::preferredContact`; `none` if it follows a null pointer. -/
def preferredContact (contacts : List γ) : Option (Option γ) :=
  (contacts.foldlM s.preferredStep ⟨none, false⟩).map Chosen.contact

/-! ## What is preferred -/

/-- A contact that is reached, and has a session if one that is reached has. -/
structure Candidate (contacts : List γ) (c : γ) : Prop where
  mem : c ∈ contacts
  reached : s.reached c = true
  session : (∃ d ∈ contacts, s.reached d = true ∧ s.hasManager d = true) → s.hasManager c = true

/-- **The preferred contact** is none if none is reached, and else a candidate than which no
other is better. -/
def Preferred (contacts : List γ) : Option γ → Prop
  | none => ∀ c ∈ contacts, s.reached c = false
  | some c => s.Candidate contacts c ∧ ∀ d, s.Candidate contacts d → s.better d c = some false

/-- `preferredContact` returns the preferred contact. -/
def PrefersRight (contacts : List γ) : Prop :=
  ∃ r, s.preferredContact contacts = some r ∧ s.Preferred contacts r

/-- What the loop looks at while it holds a contact that is not reached: the contacts that are,
those with a session only if `isReachable` says yes nevertheless, and of them the ones that
compare with it as better, or not at all. -/
def outbids (f c : γ) : Bool :=
  s.reached c && (s.hasManager c || !s.isReachable f) && decide (s.better c f ≠ some false)

/-- **If the first contact with a session is not reached**, the first one behind it that
outbids it is better, and has a session itself or is left for one that has or, if there is
none, is the best of all. -/
def SessionGivenUp (contacts : List γ) : Prop :=
  match contacts.dropWhile fun c => !s.hasManager c with
  | [] => True
  | f :: post =>
    s.reached f = true ∨
    ∃ x, post.find? (s.outbids f) = some x ∧ s.better x f = some true ∧
      (s.hasManager x = true ∨
        (∃ d ∈ contacts, s.reached d = true ∧ s.hasManager d = true ∧ s.better d x = some true) ∨
        ((∀ d ∈ contacts, s.reached d = true → s.hasManager d = false) ∧
          ∀ d ∈ contacts, s.reached d = true → s.better d x = some false))

/-! ## Contacts by what they are compared by -/

/-- Status type, priority of the account and weight. -/
def rank (c : γ) : Nat ×ₗ Nat ×ₗ Nat :=
  toLex ((s.onlineStatus c).status.value,
    toLex (((s.account c).map AccountState.priority).getD 0, (s.onlineStatus c).weight))

variable {s}

theorem better_eq {c d : γ} (hc : (s.account c).isSome = true) (hd : (s.account d).isSome = true) :
    s.better c d = some (decide (s.rank d < s.rank c)) := by
  obtain ⟨a, ha⟩ := Option.isSome_iff_exists.mp hc
  obtain ⟨a', ha'⟩ := Option.isSome_iff_exists.mp hd
  have hRank : s.rank d < s.rank c ↔
      (s.onlineStatus d).status.value < (s.onlineStatus c).status.value ∨
        (s.onlineStatus d).status.value = (s.onlineStatus c).status.value ∧
          (a'.priority < a.priority ∨
            a'.priority = a.priority ∧ (s.onlineStatus d).weight < (s.onlineStatus c).weight) := by
    simp only [rank, ha, ha', Prod.Lex.toLex_lt_toLex, Option.map_some, Option.getD_some]
  have hSame : (s.onlineStatus c).status = (s.onlineStatus d).status ↔
      (s.onlineStatus d).status.value = (s.onlineStatus c).status.value :=
    ⟨fun h => by rw [h], fun h => (StatusType.value_injective h).symm⟩
  simp only [better, ha, ha', hRank, hSame]
  split
  · next hLess => simp [hLess]
  · next hNotLess =>
    split
    · next hEqual =>
      split
      · next hPriority => simp [hEqual, hPriority]
      · next hPriority => simp [hEqual, hPriority, eq_comm]
    · next hOther => simp [hNotLess, hOther]

theorem isSome_of_reached {c : γ} (h : s.reached c = true) : (s.account c).isSome = true := by
  unfold reached at h
  split at h
  · next hAccount => rw [hAccount]; rfl
  · cases h

theorem better_reached {c d : γ} (hc : s.reached c = true) (hd : s.reached d = true) :
    s.better c d = some (decide (s.rank d < s.rank c)) :=
  better_eq (isSome_of_reached hc) (isSome_of_reached hd)

theorem isReachable_of_reached {c : γ} (h : s.reached c = true) : s.isReachable c = true := by
  unfold reached at h
  split at h
  · exact (Bool.and_eq_true _ _ ▸ h).2
  · cases h

theorem rank_of_better {c d : γ} {b : Bool} (h : s.better c d = some b) :
    b = decide (s.rank d < s.rank c) := by
  have hAccounts : (s.account c).isSome = true ∧ (s.account d).isSome = true := by
    unfold better at h
    split at h
    · next hc hd => simp [hc, hd]
    · cases h
  rw [better_eq hAccounts.1 hAccounts.2] at h
  exact (Option.some.inj h).symm

/-! ## The loop -/

theorem consider_reached {e : γ} (he : s.reached e = true) (view : Bool) (c : γ) :
    s.consider ⟨some e, view⟩ c =
      some ⟨some (if s.reached c && decide (s.rank e < s.rank c) then c else e), view⟩ := by
  unfold consider
  split
  · next hc =>
    dsimp only
    rw [better_reached hc he]
    by_cases hLess : s.rank e < s.rank c <;> simp [hc, hLess]
  · next hc => simp [hc]

/-- **Before the first session** the loop keeps the best of the contacts that are reached. -/
theorem foldlM_plain {l : List γ} (hPlain : ∀ c ∈ l, s.hasManager c = false) {e : γ}
    (he : s.reached e = true) :
    l.foldlM s.preferredStep ⟨some e, false⟩ =
      some ⟨some (scan s.rank s.reached e l), false⟩ := by
  induction l generalizing e with
  | nil => rfl
  | cons c l ih =>
    have hRest := fun d hd => hPlain d (List.mem_cons_of_mem c hd)
    have hStep : s.preferredStep ⟨some e, false⟩ c =
        some ⟨some (if s.reached c && decide (s.rank e < s.rank c) then c else e), false⟩ := by
      rw [preferredStep, if_neg (by simp [hPlain c List.mem_cons_self]), if_neg (by simp),
        consider_reached he]
    rw [List.foldlM_cons, hStep, scan_cons]
    refine ih hRest ?_
    split
    · next hBetter => exact (Bool.and_eq_true _ _ ▸ hBetter).1
    · exact he

/-- **From a contact that is reached**, behind a session, it keeps the best of those with a
session. -/
theorem foldlM_reached {e : γ} (he : s.reached e = true) (l : List γ) :
    l.foldlM s.preferredStep ⟨some e, true⟩ =
      some ⟨some (scan s.rank (fun c => s.reached c && s.hasManager c) e l), true⟩ := by
  induction l generalizing e with
  | nil => rfl
  | cons c l ih =>
    rw [List.foldlM_cons, scan_cons]
    by_cases hManager : s.hasManager c = true
    · have hStep : s.preferredStep ⟨some e, true⟩ c =
          some ⟨some (if s.reached c && decide (s.rank e < s.rank c) then c else e), true⟩ := by
        rw [preferredStep, if_pos hManager, if_pos rfl, consider_reached he]
      rw [hStep, hManager, Bool.and_true]
      refine ih ?_
      split
      · next hBetter => exact (Bool.and_eq_true _ _ ▸ hBetter).1
      · exact he
    · have hStep : s.preferredStep ⟨some e, true⟩ c = some ⟨some e, true⟩ := by
        rw [preferredStep, if_neg hManager, if_pos (by simp [isReachable_of_reached he])]
      rw [hStep, if_neg (by simp [hManager])]
      exact ih he

/-- One round behind a session: what outbids the contact is exchanged for it, unless an account
is missing. A contact that is reached is not exchanged for one that is not better. -/
theorem preferredStep_outbids (f c : γ) :
    s.preferredStep ⟨some f, true⟩ c =
      if s.outbids f c then (s.better c f).map fun _ => ⟨some c, true⟩
      else some ⟨some f, true⟩ := by
  -- what the round does to a contact it comes to compare
  have hConsider : s.consider ⟨some f, true⟩ c =
      if s.reached c && decide (s.better c f ≠ some false) then
        (s.better c f).map fun _ => ⟨some c, true⟩
      else some ⟨some f, true⟩ := by
    unfold consider
    cases hReached : s.reached c
    · simp
    · rcases hBetter : s.better c f with _ | b
      · simp [hBetter]
      · cases b <;> simp [hBetter]
  unfold preferredStep outbids
  cases hManager : s.hasManager c
  · cases hReachable : s.isReachable f
    · simp [hReachable, hConsider]
    · simp [hReachable]
  · simp [hConsider]

/-- **What does not outbid** the contact is passed over. -/
theorem foldlM_stays {f : γ} {l : List γ} (h : ∀ c ∈ l, s.outbids f c = false) :
    l.foldlM s.preferredStep ⟨some f, true⟩ = some ⟨some f, true⟩ := by
  induction l with
  | nil => rfl
  | cons c l ih =>
    rw [List.foldlM_cons, preferredStep_outbids, h c List.mem_cons_self,
      if_neg Bool.false_ne_true]
    exact ih fun d hd => h d (List.mem_cons_of_mem c hd)

theorem preferredStep_plain {c : γ} (hPlain : s.hasManager c = false) :
    s.preferredStep ⟨none, false⟩ c = some ⟨if s.reached c then some c else none, false⟩ := by
  rw [preferredStep, if_neg (by simp [hPlain]), if_neg (by simp), consider]
  split <;> rfl

/-- The best of the contacts from `c`, which is reached. -/
theorem scan_reached {c : γ} (hc : s.reached c = true) (l : List γ) :
    scan s.rank s.reached c l ∈ c :: l ∧ s.reached (scan s.rank s.reached c l) = true ∧
      ∀ d ∈ c :: l, s.reached d = true → s.rank d ≤ s.rank (scan s.rank s.reached c l) := by
  obtain ⟨hFrom, hStart, hAll⟩ := scan_spec s.rank s.reached c l
  refine ⟨?_, ?_, ?_⟩
  · rcases hFrom with hSame | ⟨hMem, -⟩
    · rw [hSame]
      exact List.mem_cons_self
    · exact List.mem_cons_of_mem c hMem
  · rcases hFrom with hSame | ⟨-, hReached, -⟩
    · rwa [hSame]
    · exact hReached
  · intro d hd hReached
    rcases List.mem_cons.mp hd with rfl | hd
    · exact hStart
    · exact hAll d hd hReached

/-- **Without a session** the loop ends with the best of the contacts that are reached. -/
theorem foldlM_plain_none {l : List γ} (hPlain : ∀ c ∈ l, s.hasManager c = false) :
    ∃ r, l.foldlM s.preferredStep ⟨none, false⟩ = some ⟨r, false⟩ ∧
      ((r = none ∧ ∀ c ∈ l, s.reached c = false) ∨
        ∃ e ∈ l, r = some e ∧ s.reached e = true ∧
          ∀ c ∈ l, s.reached c = true → s.rank c ≤ s.rank e) := by
  induction l with
  | nil => exact ⟨none, rfl, .inl ⟨rfl, fun c hc => by cases hc⟩⟩
  | cons c l ih =>
    have hRest := fun d hd => hPlain d (List.mem_cons_of_mem c hd)
    rw [List.foldlM_cons, preferredStep_plain (hPlain c List.mem_cons_self)]
    by_cases hc : s.reached c = true
    · rw [if_pos hc]
      obtain ⟨hMem, hReached, hBest⟩ := scan_reached hc l
      exact ⟨_, foldlM_plain hRest hc, .inr ⟨_, hMem, rfl, hReached, hBest⟩⟩
    · rw [if_neg hc]
      obtain ⟨r, hRun, hResult⟩ := ih hRest
      refine ⟨r, hRun, ?_⟩
      rcases hResult with ⟨rfl, hNone⟩ | ⟨e, he, rfl, hReached, hBest⟩
      · left
        refine ⟨rfl, fun d hd => ?_⟩
        rcases List.mem_cons.mp hd with rfl | hd
        · exact Bool.not_eq_true _ ▸ hc
        · exact hNone d hd
      · right
        refine ⟨e, List.mem_cons_of_mem c he, rfl, hReached, fun d hd hd' => ?_⟩
        rcases List.mem_cons.mp hd with rfl | hd
        · exact absurd hd' hc
        · exact hBest d hd hd'

/-! ## The contact that is returned -/

theorem preferred_some {contacts : List γ} {r : γ} : s.Preferred contacts (some r) ↔
    s.Candidate contacts r ∧ ∀ d, s.Candidate contacts d → s.rank d ≤ s.rank r := by
  refine and_congr_right fun hr => forall₂_congr fun d hd => ?_
  rw [better_reached hd.reached hr.reached, Option.some.injEq, decide_eq_false_iff_not, not_lt]

theorem prefersRight_plain {contacts : List γ} (hPlain : ∀ c ∈ contacts, s.hasManager c = false) :
    s.PrefersRight contacts := by
  obtain ⟨r, hRun, hResult⟩ := foldlM_plain_none hPlain
  refine ⟨r, by rw [preferredContact, hRun]; rfl, ?_⟩
  rcases hResult with ⟨rfl, hNone⟩ | ⟨e, he, rfl, hReached, hBest⟩
  · exact hNone
  · refine preferred_some.mpr ⟨⟨he, hReached, ?_⟩, fun d hd => hBest d hd.mem hd.reached⟩
    rintro ⟨d, hd, -, hManager⟩
    rw [hPlain d hd] at hManager
    cases hManager

theorem preferredContact_session {pre post : List γ} {f : γ}
    (hPlain : ∀ c ∈ pre, s.hasManager c = false) (hManager : s.hasManager f = true) :
    s.preferredContact (pre ++ f :: post) =
      (post.foldlM s.preferredStep ⟨some f, true⟩).map Chosen.contact := by
  obtain ⟨r, hRun, -⟩ := foldlM_plain_none hPlain
  have hStep : s.preferredStep ⟨r, false⟩ f = some ⟨some f, true⟩ := by
    rw [preferredStep, if_pos hManager, if_neg Bool.false_ne_true]
    split
    · rfl
    · next hUnreachable =>
      rw [consider, if_neg fun hReached => hUnreachable (isReachable_of_reached hReached)]
  rw [preferredContact, List.foldlM_append, hRun]
  show ((f :: post).foldlM s.preferredStep ⟨r, false⟩).map _ = _
  rw [List.foldlM_cons, hStep]
  rfl

theorem preferred_session {contacts : List γ} {e r : γ} (he : e ∈ contacts)
    (hReached : s.reached e = true) (hManager : s.hasManager e = true)
    (hr : r ∈ contacts) (hr' : s.reached r = true ∧ s.hasManager r = true)
    (hBest : ∀ d ∈ contacts, s.reached d = true → s.hasManager d = true → s.rank d ≤ s.rank r) :
    s.Preferred contacts (some r) :=
  preferred_some.mpr ⟨⟨hr, hr'.1, fun _ => hr'.2⟩, fun d hd =>
    hBest d hd.mem hd.reached (hd.session ⟨e, he, hReached, hManager⟩)⟩

/-- **A first session that is reached.** -/
theorem prefersRight_reached {pre : List γ} (post : List γ) {f : γ}
    (hPlain : ∀ c ∈ pre, s.hasManager c = false) (hManager : s.hasManager f = true)
    (hReached : s.reached f = true) : s.PrefersRight (pre ++ f :: post) := by
  obtain ⟨hFrom, hStart, hAll⟩ := scan_spec s.rank
    (fun c => s.reached c && s.hasManager c) f post
  refine ⟨_, by rw [preferredContact_session hPlain hManager, foldlM_reached hReached]; rfl, ?_⟩
  refine preferred_session (e := f) (by simp) hReached hManager ?_ ?_ ?_
  · rcases hFrom with hSame | ⟨hMem, -⟩
    · simp [hSame]
    · simp [hMem]
  · rcases hFrom with hSame | ⟨-, hEligible, -⟩
    · rw [hSame]
      exact ⟨hReached, hManager⟩
    · simpa using hEligible
  · intro d hd hReached' hManager'
    rcases List.mem_append.mp hd with hPre | hRest
    · rw [hPlain d hPre] at hManager'
      cases hManager'
    · rcases List.mem_cons.mp hRest with rfl | hPost
      · exact hStart
      · exact hAll d hPost (by simp [hReached', hManager'])

theorem rank_le_of_not_outbids {f c : γ} (h : s.outbids f c = false) (hc : s.reached c = true)
    (hManager : s.hasManager c = true) : s.rank c ≤ s.rank f := by
  rw [outbids, hc, hManager, Bool.true_and, Bool.true_or, Bool.true_and,
    decide_eq_false_iff_not, not_not] at h
  exact not_lt.mp (of_decide_eq_false (rank_of_better h).symm)

section Held

variable {l : List γ} {x r : γ}

theorem held_of_preferred (hx : s.reached x = true) (hr : r ∈ l)
    (hFrom : r = x ∨ (s.reached r = true ∧ s.hasManager r = true) ∧ s.rank x < s.rank r)
    (hPreferred : s.Preferred l (some r)) :
    s.hasManager x = true ∨
      (∃ d ∈ l, s.reached d = true ∧ s.hasManager d = true ∧ s.better d x = some true) ∨
      ((∀ d ∈ l, s.reached d = true → s.hasManager d = false) ∧
        ∀ d ∈ l, s.reached d = true → s.better d x = some false) := by
  obtain ⟨hCandidate, hNone⟩ := preferred_some.mp hPreferred
  by_cases hSession : ∃ d ∈ l, s.reached d = true ∧ s.hasManager d = true
  · have hManager := hCandidate.session hSession
    rcases hFrom with rfl | ⟨hEligible, hGreater⟩
    · exact .inl hManager
    · right; left
      refine ⟨r, hr, hEligible.1, hManager, ?_⟩
      rw [better_reached hEligible.1 hx, decide_eq_true hGreater]
  · have hNoSession : ∀ d ∈ l, s.reached d = true → s.hasManager d = false := by
      intro d hd hReached
      by_contra hManager
      exact hSession ⟨d, hd, hReached, by simpa using hManager⟩
    right; right
    refine ⟨hNoSession, fun d hd hReached => ?_⟩
    obtain rfl : r = x := hFrom.resolve_right fun ⟨hEligible, _⟩ => hSession ⟨r, hr, hEligible⟩
    rw [better_reached hReached hx, decide_eq_false]
    exact not_lt.mpr (hNone d ⟨hd, hReached, fun h => absurd h hSession⟩)

theorem preferred_of_held (hx : s.reached x = true) (hr : r ∈ l)
    (hFrom : r = x ∨ (s.reached r = true ∧ s.hasManager r = true) ∧ s.rank x < s.rank r)
    (hBest : ∀ d ∈ l, s.reached d = true → s.hasManager d = true → s.rank d ≤ s.rank r)
    (hCases : s.hasManager x = true ∨
      (∃ d ∈ l, s.reached d = true ∧ s.hasManager d = true ∧ s.better d x = some true) ∨
      ((∀ d ∈ l, s.reached d = true → s.hasManager d = false) ∧
        ∀ d ∈ l, s.reached d = true → s.better d x = some false)) :
    s.Preferred l (some r) := by
  by_cases hManager : s.reached r = true ∧ s.hasManager r = true
  · exact preferred_session hr hManager.1 hManager.2 hr hManager hBest
  · obtain rfl : r = x := hFrom.resolve_right fun h => hManager h.1
    rcases hCases with hSession | ⟨d, hd, hReached, hSession, hBetter⟩ | ⟨hNoSession, hNone⟩
    · exact absurd ⟨hx, hSession⟩ hManager
    · have hGreater := of_decide_eq_true (rank_of_better hBetter).symm
      exact absurd (hBest d hd hReached hSession) (not_le.mpr hGreater)
    · refine ⟨⟨hr, hx, ?_⟩, fun d hd => hNone d hd.mem hd.reached⟩
      rintro ⟨d, hd, hReached, hSession⟩
      rw [hNoSession d hd hReached] at hSession
      cases hSession

end Held

/-- **A contact that was exchanged** for the first one with a session: whether the one that the
loop ends with is preferred. -/
theorem preferred_exchanged {pre as bs : List γ} {f x : γ}
    (hPlain : ∀ c ∈ pre, s.hasManager c = false) (hf : s.reached f = false)
    (hStays : ∀ c ∈ as, s.outbids f c = false) (hx : s.reached x = true)
    (hLess : s.rank f < s.rank x) :
    s.Preferred (pre ++ f :: (as ++ x :: bs))
        (some (scan s.rank (fun c => s.reached c && s.hasManager c) x bs)) ↔
      s.hasManager x = true ∨
        (∃ d ∈ pre ++ f :: (as ++ x :: bs),
          s.reached d = true ∧ s.hasManager d = true ∧ s.better d x = some true) ∨
        ((∀ d ∈ pre ++ f :: (as ++ x :: bs), s.reached d = true → s.hasManager d = false) ∧
          ∀ d ∈ pre ++ f :: (as ++ x :: bs), s.reached d = true → s.better d x = some false) := by
  obtain ⟨hFrom, hStart, hAll⟩ := scan_spec s.rank
    (fun c => s.reached c && s.hasManager c) x bs
  generalize scan s.rank (fun c => s.reached c && s.hasManager c) x bs = r at *
  have hr : r ∈ pre ++ f :: (as ++ x :: bs) := by
    rcases hFrom with rfl | ⟨hMem, -⟩
    · simp
    · simp [hMem]
  have hHeld : r = x ∨ (s.reached r = true ∧ s.hasManager r = true) ∧ s.rank x < s.rank r :=
    hFrom.imp id fun ⟨_, hEligible, hGreater⟩ => ⟨by simpa using hEligible, hGreater⟩
  -- no contact with a session is better than the last one held
  have hBest : ∀ d ∈ pre ++ f :: (as ++ x :: bs), s.reached d = true → s.hasManager d = true →
      s.rank d ≤ s.rank r := by
    intro d hd hReached hManager
    simp only [List.mem_append, List.mem_cons] at hd
    rcases hd with hPre | rfl | hAs | rfl | hBs
    · rw [hPlain d hPre] at hManager
      cases hManager
    · rw [hf] at hReached
      cases hReached
    · exact ((rank_le_of_not_outbids (hStays d hAs) hReached hManager).trans hLess.le).trans hStart
    · exact hStart
    · exact hAll d hBs (by simp [hReached, hManager])
  exact ⟨held_of_preferred hx hr hHeld, preferred_of_held hx hr hHeld hBest⟩

theorem outbids_cases {f x : γ} (h : s.outbids f x = true) :
    s.better x f = none ∨
      s.better x f = some true ∧ s.reached x = true ∧ s.rank f < s.rank x := by
  obtain ⟨hx, hCompared⟩ : s.reached x = true ∧ s.better x f ≠ some false := by
    rw [outbids, Bool.and_eq_true, Bool.and_eq_true] at h
    exact ⟨h.1.1, of_decide_eq_true h.2⟩
  rcases hBetter : s.better x f with _ | b
  · exact .inl rfl
  · cases b with
    | false => exact absurd hBetter hCompared
    | true => exact .inr ⟨rfl, hx, of_decide_eq_true (rank_of_better hBetter).symm⟩

/-- **A first session that is not reached.** -/
theorem prefersRight_unreached {pre : List γ} (post : List γ) {f : γ}
    (hPlain : ∀ c ∈ pre, s.hasManager c = false) (hManager : s.hasManager f = true)
    (hf : s.reached f = false) : s.PrefersRight (pre ++ f :: post) ↔
      ∃ x, post.find? (s.outbids f) = some x ∧ s.better x f = some true ∧
        (s.hasManager x = true ∨
          (∃ d ∈ pre ++ f :: post,
            s.reached d = true ∧ s.hasManager d = true ∧ s.better d x = some true) ∨
          ((∀ d ∈ pre ++ f :: post, s.reached d = true → s.hasManager d = false) ∧
            ∀ d ∈ pre ++ f :: post, s.reached d = true → s.better d x = some false)) := by
  rw [PrefersRight, preferredContact_session hPlain hManager]
  rcases hFind : post.find? (s.outbids f) with _ | x
  · -- nothing outbids it, and it is returned
    have hStays : ∀ c ∈ post, s.outbids f c = false := by
      simpa using List.find?_eq_none.mp hFind
    rw [foldlM_stays hStays]
    constructor
    · rintro ⟨r, hr, hPreferred⟩
      obtain rfl := Option.some.inj hr
      have hReached := (preferred_some.mp hPreferred).1.reached
      rw [hf] at hReached
      cases hReached
    · rintro ⟨x, hx, -⟩
      cases hx
  · obtain ⟨hOutbids, as, bs, rfl, hStays⟩ := List.find?_eq_some_iff_append.mp hFind
    have hStays : ∀ c ∈ as, s.outbids f c = false := by simpa using hStays
    rw [List.foldlM_append, foldlM_stays hStays]
    show (∃ r, (((x :: bs).foldlM s.preferredStep ⟨some f, true⟩).map Chosen.contact) = some r ∧
      _) ↔ _
    rw [List.foldlM_cons, preferredStep_outbids, if_pos hOutbids]
    rcases outbids_cases hOutbids with hBetter | ⟨hBetter, hx, hLess⟩
    · -- an account is missing
      rw [hBetter]
      constructor
      · rintro ⟨r, hr, -⟩
        cases hr
      · rintro ⟨x', hx', hTrue, -⟩
        obtain rfl := Option.some.inj hx'
        rw [hBetter] at hTrue
        cases hTrue
    · rw [hBetter]
      have hRun : ((some (Chosen.mk (some x) true)).bind fun r =>
          bs.foldlM s.preferredStep r).map Chosen.contact =
          some (some (scan s.rank (fun c => s.reached c && s.hasManager c) x bs)) := by
        rw [Option.bind_some, foldlM_reached hx]
        rfl
      have hExchanged : s.Preferred (pre ++ f :: (as ++ x :: bs)) (some _) ↔ _ :=
        preferred_exchanged hPlain hf hStays hx hLess
      constructor
      · rintro ⟨r, hr, hPreferred⟩
        obtain rfl := Option.some.inj (hRun.symm.trans hr)
        exact ⟨x, rfl, hBetter, hExchanged.mp hPreferred⟩
      · rintro ⟨x', hx', -, hCases⟩
        obtain rfl := Option.some.inj hx'
        exact ⟨_, hRun, hExchanged.mpr hCases⟩

/-- **The preferred contact is returned** exactly when the first one with a session is reached,
if there is one, or has been given up for the right one. -/
theorem preferredContact_iff (s : ContactStates γ) (contacts : List γ) :
    s.PrefersRight contacts ↔ s.SessionGivenUp contacts := by
  unfold SessionGivenUp
  split
  · next hNone =>
    have hPlain : ∀ c ∈ contacts, s.hasManager c = false := by
      simpa using List.dropWhile_eq_nil_iff.mp hNone
    exact ⟨fun _ => trivial, fun _ => prefersRight_plain hPlain⟩
  · next f post hFirst =>
    have hSplit : contacts.takeWhile (fun c => !s.hasManager c) ++ f :: post = contacts := by
      rw [← hFirst, List.takeWhile_append_dropWhile]
    have hPlain : ∀ c ∈ contacts.takeWhile (fun c => !s.hasManager c), s.hasManager c = false :=
      fun c hc => by simpa using List.mem_takeWhile_imp hc
    have hManager : s.hasManager f = true := by
      have hHead := List.head_dropWhile_not (l := contacts) (fun c => !s.hasManager c)
        (by rw [hFirst]; exact List.cons_ne_nil f post)
      simpa [hFirst] using hHead
    cases hReached : s.reached f
    · have hUnreached := prefersRight_unreached post hPlain hManager hReached
      rw [hSplit] at hUnreached
      simpa using hUnreached
    · have hRight := prefersRight_reached post hPlain hManager hReached
      rw [hSplit] at hRight
      exact ⟨fun _ => .inl rfl, fun _ => hRight⟩

/-- Contacts with a session, reached or not, on one account. -/
def someContacts : ContactStates Nat where
  hasManager c := c = 0
  account _ := some ⟨true, 0⟩
  isReachable c := c ≠ 0
  onlineStatus _ := .ofType .online

/-- **A session with a contact that cannot be reached**: it is returned, though none is
reached. -/
theorem unreachable_preferred : ¬ someContacts.PrefersRight [0] := by
  rintro ⟨r, hr, hPreferred⟩
  obtain rfl : some 0 = r := Option.some.inj hr
  exact absurd hPreferred.1.reached (by decide)

end ContactStates

end Kopete
