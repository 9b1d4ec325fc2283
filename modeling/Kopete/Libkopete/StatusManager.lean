import Kopete.Lib.QList
import Kopete.Lib.Run
import Kopete.Libkopete.Account

/-!
# libkopete — auto-away

When nobody has been at the desktop for a while, the accounts that are online are set away
and remembered; when somebody is back, those remembered are set online. The list is
appended to each time, but emptied only where the return sets accounts online: after a
return without it, the accounts of more than one absence are on the list.

Main results:

* `setOnline_spec` — whom a return sets online, and when nobody twice;
* `setActive_iff` — in which runs these are accounts of the last absence only.
-/

namespace Kopete

/-- `Kopete::OnlineStatusManager::Categories`, those that the status manager asks for. -/
inductive AskedCategory where
  | idle
  | online
deriving DecidableEq, Repr

/-- A call of `Account::setOnlineStatus`. -/
structure AskedStatus (α : Type*) where
  account : α
  category : AskedCategory
  message : StatusMessage
deriving DecidableEq, Repr

/-- `StatusManager`. -/
structure StatusManager (α : Type*) where
  globalStatusMessage : StatusMessage
  customStatusMessage : StatusMessage
  useCustomStatus : Bool
  away : Bool
  goAvailable : Bool
  autoAwayAccounts : List α

/-- The status manager, the accounts registered with the account manager, and the status of
each. The last two fields are not in the program: whom the last `setAutoAway` that did
anything set away, and who was still remembered from before; both without the accounts that
have been unregistered since. -/
structure Desktop (α : Type*) where
  manager : StatusManager α
  accounts : List α
  status : α → StatusType
  setAway : List α
  leftover : List α

namespace Desktop

variable {α : Type*} [DecidableEq α]

/-- How the protocols answer `setOnlineStatus`: the status that an account has when the call
returns, which is the old one where the server is still to be heard. -/
abbrev Answer (α : Type*) := α → AskedCategory → StatusType → StatusType

/-- `Account::isConnected` and `Account::isAway`. -/
def isAway : StatusType → Bool
  | .away | .busy => true
  | .unknown | .offline | .connecting | .invisible | .online => false

def isConnected : StatusType → Bool
  | .offline | .connecting | .unknown => false
  | .invisible | .away | .busy | .online => true

/-- A loop that asks for a status of the accounts on a list that are `due`: the calls, and
the statuses behind it. -/
def askAll (answer : Answer α) (due : StatusType → Bool) (category : AskedCategory)
    (message : StatusMessage) : (α → StatusType) → List α → List (AskedStatus α) × (α → StatusType)
  | status, [] => ([], status)
  | status, a :: as =>
    if due (status a) then
      let rest := askAll answer due category message
        (Function.update status a (answer a category (status a))) as
      (⟨a, category, message⟩ :: rest.1, rest.2)
    else askAll answer due category message status as

variable (s : Desktop α)

/-- The loop of `setActive`. -/
def setOnline (answer : Answer α) : List (AskedStatus α) × (α → StatusType) :=
  askAll answer (fun st => isConnected st && isAway st) .online s.manager.globalStatusMessage
    s.status s.manager.autoAwayAccounts

/-- `StatusManager::setActive`: the calls, and what is behind it. -/
def setActive (answer : Answer α) : List (AskedStatus α) × Desktop α :=
  if s.manager.away then
    let s := { s with manager := { s.manager with away := false } }
    if s.manager.goAvailable then
      let (calls, status) := s.setOnline answer
      (calls, { s with
        manager := { s.manager with autoAwayAccounts := [] }
        status := status
        setAway := []
        leftover := [] })
    else ([], s)
  else ([], s)

/-- `StatusManager::setAutoAway`. -/
def setAutoAway (answer : Answer α) : List (AskedStatus α) × Desktop α :=
  if s.manager.away then ([], s)
  else
    let message :=
      if s.manager.useCustomStatus then s.manager.customStatusMessage
      else s.manager.globalStatusMessage
    let (calls, status) := askAll answer (· = .online) .idle message s.status s.accounts
    let away := calls.map AskedStatus.account
    (calls, { s with
      manager := { s.manager with
        away := true
        autoAwayAccounts := s.manager.autoAwayAccounts ++ away }
      status := status
      setAway := away
      leftover := s.manager.autoAwayAccounts })

/-- `StatusManager::accountUnregistered`, called by the account manager. -/
def accountUnregistered (a : α) : Desktop α where
  manager := { s.manager with autoAwayAccounts := QList.removeAll s.manager.autoAwayAccounts a }
  accounts := QList.removeAll s.accounts a
  status := s.status
  setAway := QList.removeAll s.setAway a
  leftover := QList.removeAll s.leftover a

/-- `AccountManager::registerAccount`. -/
def registerAccount (a : α) : Desktop α :=
  if a ∈ s.accounts then s else { s with accounts := s.accounts ++ [a] }

/-- `StatusManager::loadBehaviorSettings`. -/
def loadBehaviorSettings (goAvailable useCustomStatus : Bool) (message : StatusMessage) :
    Desktop α :=
  { s with manager := { s.manager with
      goAvailable := goAvailable
      useCustomStatus := useCustomStatus
      customStatusMessage := message } }

inductive Event (α : Type*) where
  | setAutoAway (answer : Answer α)
  | setActive (answer : Answer α)
  | loadBehaviorSettings (goAvailable useCustomStatus : Bool) (message : StatusMessage)
  | setGlobalStatusMessage (message : StatusMessage)
  | accountRegistered (a : α)
  | accountUnregistered (a : α)
  | statusChanged (a : α) (status : StatusType)

def step : Event α → Desktop α
  | .setAutoAway answer => (s.setAutoAway answer).2
  | .setActive answer => (s.setActive answer).2
  | .loadBehaviorSettings goAvailable useCustomStatus message =>
    s.loadBehaviorSettings goAvailable useCustomStatus message
  | .setGlobalStatusMessage message =>
    { s with manager := { s.manager with globalStatusMessage := message } }
  | .accountRegistered a => s.registerAccount a
  | .accountUnregistered a => s.accountUnregistered a
  | .statusChanged a status => { s with status := Function.update s.status a status }

/-- Before anything has happened. -/
def start (message : StatusMessage) (goAvailable useCustomStatus : Bool) : Desktop α where
  manager := ⟨message, message, useCustomStatus, false, goAvailable, []⟩
  accounts := []
  status := fun _ => .offline
  setAway := []
  leftover := []

/-- What a return is to do: it asks for the status Online only, of accounts that the last
absence set away and that are still connected and away, and of none twice. -/
structure ActiveRight (answer : Answer α) : Prop where
  category : ∀ call ∈ (s.setActive answer).1, call.category = .online
  setAway : ∀ call ∈ (s.setActive answer).1, call.account ∈ s.setAway
  still : ∀ call ∈ (s.setActive answer).1,
    isConnected (s.status call.account) ∧ isAway (s.status call.account)
  once : ((s.setActive answer).1.map AskedStatus.account).Nodup

def Right : Event α → Prop
  | .setActive answer => s.ActiveRight answer
  | _ => True

/-- Of the accounts remembered from before, those that are connected and away were set away
by the last absence too, and are no longer away when they have been set online. -/
def ActiveOk (answer : Answer α) : Prop :=
  s.manager.away = true → s.manager.goAvailable = true → ∀ a ∈ s.leftover,
    isConnected (s.status a) = true → isAway (s.status a) = true →
      a ∈ s.setAway ∧ isAway (answer a .online (s.status a)) = false

def Ok : Event α → Prop
  | .setActive answer => s.ActiveOk answer
  | _ => True

/-- The list is of those two. -/
structure Inv : Prop where
  nodup : s.accounts.Nodup
  setAway : s.setAway.Nodup
  list : s.manager.autoAwayAccounts = s.leftover ++ s.setAway

variable {s}

theorem isConnected_of_isAway {st : StatusType} (h : isAway st = true) : isConnected st = true := by
  cases st <;> first | rfl | cases h

/-! ## The loop -/

section AskAll

variable {answer : Answer α} {due : StatusType → Bool} {category : AskedCategory}
  {message : StatusMessage}

/-- An account is asked for if it was due when the loop began. -/
theorem mem_askAll {status : α → StatusType} {as : List α} {call : AskedStatus α} :
    call ∈ (askAll answer due category message status as).1 ↔
      ∃ a ∈ as, due (status a) = true ∧ call = ⟨a, category, message⟩ := by
  induction as generalizing status with
  | nil => simp [askAll]
  | cons b as ih =>
    by_cases hDue : due (status b) = true
    · simp only [askAll, if_pos hDue, List.mem_cons, ih]
      constructor
      · rintro (rfl | ⟨a, ha, hAgain, rfl⟩)
        · exact ⟨b, .inl rfl, hDue, rfl⟩
        · by_cases hSame : a = b
          · exact ⟨b, .inl rfl, hDue, by rw [hSame]⟩
          · rw [Function.update_of_ne hSame] at hAgain
            exact ⟨a, .inr ha, hAgain, rfl⟩
      · rintro ⟨a, ha, hFirst, rfl⟩
        by_cases hSame : a = b
        · exact .inl (by rw [hSame])
        · refine .inr ⟨a, ha.resolve_left hSame, ?_, rfl⟩
          rw [Function.update_of_ne hSame]
          exact hFirst
    · simp only [askAll, if_neg hDue, List.mem_cons, ih]
      constructor
      · rintro ⟨a, ha, hFirst, rfl⟩
        exact ⟨a, .inr ha, hFirst, rfl⟩
      · rintro ⟨a, rfl | ha, hFirst, rfl⟩
        · exact absurd hFirst hDue
        · exact ⟨a, ha, hFirst, rfl⟩

theorem mem_askAll_account {status : α → StatusType} {as : List α} {a : α} :
    a ∈ (askAll answer due category message status as).1.map AskedStatus.account ↔
      a ∈ as ∧ due (status a) = true := by
  rw [List.mem_map]
  constructor
  · rintro ⟨call, hCall, rfl⟩
    obtain ⟨b, hb, hDue, rfl⟩ := mem_askAll.1 hCall
    exact ⟨hb, hDue⟩
  · rintro ⟨ha, hDue⟩
    exact ⟨⟨a, category, message⟩, mem_askAll.2 ⟨a, ha, hDue, rfl⟩, rfl⟩

/-- And asked for twice if it stands on the list twice and is still due after the first call. -/
theorem nodup_askAll {status : α → StatusType} {as : List α} :
    ((askAll answer due category message status as).1.map AskedStatus.account).Nodup ↔
      ∀ a, due (status a) = true → due (answer a category (status a)) = true → as.count a ≤ 1 := by
  induction as generalizing status with
  | nil => simp [askAll]
  | cons b as ih =>
    by_cases hDue : due (status b) = true
    · simp only [askAll, if_pos hDue, List.map_cons, List.nodup_cons, mem_askAll_account, ih,
        Function.update_self]
      constructor
      · rintro ⟨hFirst, hRest⟩ a ha hAfter
        by_cases hSame : a = b
        · subst hSame
          have hNot : a ∉ as := fun hMem => hFirst ⟨hMem, hAfter⟩
          have hOne : (a :: as).count a = 1 := by
            rw [List.count_cons_self, List.count_eq_zero_of_not_mem hNot]
          exact Nat.le_of_eq hOne
        · rw [List.count_cons_of_ne (Ne.symm hSame)]
          refine hRest a ?_ ?_ <;> rw [Function.update_of_ne hSame] <;> assumption
      · refine fun h => ⟨?_, ?_⟩
        · rintro ⟨hMem, hAfter⟩
          have hOne := h b hDue hAfter
          rw [List.count_cons_self] at hOne
          exact Nat.not_lt.2 hOne (Nat.succ_lt_succ (List.count_pos_iff.2 hMem))
        · intro a ha hAfter
          by_cases hSame : a = b
          · subst hSame
            rw [Function.update_self] at ha
            have hOne := h a hDue ha
            rw [List.count_cons_self] at hOne
            omega
          · rw [Function.update_of_ne hSame] at ha hAfter
            have hOne := h a ha hAfter
            rwa [List.count_cons_of_ne (Ne.symm hSame)] at hOne
    · simp only [askAll, if_neg hDue, ih]
      refine forall_congr' fun a => ?_
      refine imp_congr_right fun ha => ?_
      have hNe : b ≠ a := fun hSame => hDue (hSame ▸ ha)
      rw [List.count_cons_of_ne hNe]

end AskAll

/-! ## The return -/

/-- A return asks for something only after an absence, and if the settings say so. -/
theorem setActive_calls (answer : Answer α) :
    (s.setActive answer).1 =
      if s.manager.away = true ∧ s.manager.goAvailable = true then (s.setOnline answer).1
      else [] := by
  unfold setActive
  by_cases hAway : s.manager.away = true
  · by_cases hGo : s.manager.goAvailable = true
    · rw [if_pos hAway, if_pos hGo, if_pos ⟨hAway, hGo⟩]
      rfl
    · rw [if_pos hAway, if_neg hGo, if_neg fun h => hGo h.2]
  · rw [if_neg hAway, if_neg fun h => hAway h.1]

theorem due_iff {st : StatusType} : (isConnected st && isAway st) = true ↔ isAway st = true := by
  rw [Bool.and_eq_true]
  exact and_iff_right_of_imp isConnected_of_isAway

/-- **Whom a return sets online**: those remembered that are away. -/
theorem setOnline_spec {answer : Answer α} {call : AskedStatus α} :
    call ∈ (s.setOnline answer).1 ↔ ∃ a ∈ s.manager.autoAwayAccounts, isAway (s.status a) = true ∧
      call = ⟨a, .online, s.manager.globalStatusMessage⟩ := by
  unfold setOnline
  rw [mem_askAll]
  simp only [due_iff]

/-- On the list twice is who was remembered and is set away again. -/
theorem Inv.one_lt_count (h : s.Inv) {a : α} (hBefore : a ∈ s.leftover) (hLast : a ∈ s.setAway) :
    1 < s.manager.autoAwayAccounts.count a := by
  rw [h.list, List.count_append]
  have hFirst := List.count_pos_iff.2 hBefore
  have hSecond := List.count_pos_iff.2 hLast
  omega

theorem Inv.activeRight_iff (h : s.Inv) (answer : Answer α) :
    s.ActiveRight answer ↔ s.ActiveOk answer := by
  by_cases hReturn : s.manager.away = true ∧ s.manager.goAvailable = true
  case neg =>
    have hNone : (s.setActive answer).1 = [] := by rw [setActive_calls, if_neg hReturn]
    refine iff_of_true ⟨?_, ?_, ?_, ?_⟩ fun hAway hGo => absurd ⟨hAway, hGo⟩ hReturn
    · simp [hNone]
    · simp [hNone]
    · simp [hNone]
    · simp [hNone]
  case pos =>
    have hCalls : (s.setActive answer).1 = (s.setOnline answer).1 := by
      rw [setActive_calls, if_pos hReturn]
    constructor
    · intro hRight _ _ a hBefore hConnected hAway
      have hOn : a ∈ s.manager.autoAwayAccounts := by
        rw [h.list]
        exact List.mem_append_left _ hBefore
      have hLast : a ∈ s.setAway :=
        hRight.setAway ⟨a, .online, s.manager.globalStatusMessage⟩
          (by rw [hCalls]; exact setOnline_spec.2 ⟨a, hOn, hAway, rfl⟩)
      refine ⟨hLast, Bool.eq_false_iff.2 fun hAfter => ?_⟩
      have hOnce := hRight.once
      rw [hCalls] at hOnce
      have hOne := nodup_askAll.1 hOnce a (due_iff.2 hAway) (due_iff.2 hAfter)
      exact Nat.not_lt.2 hOne (h.one_lt_count hBefore hLast)
    · intro hOk
      have hOk := hOk hReturn.1 hReturn.2
      refine ⟨?_, ?_, ?_, ?_⟩
      · intro call hCall
        obtain ⟨a, -, -, rfl⟩ := setOnline_spec.1 (hCalls ▸ hCall)
        rfl
      · intro call hCall
        obtain ⟨a, hOn, hAway, rfl⟩ := setOnline_spec.1 (hCalls ▸ hCall)
        rw [h.list] at hOn
        rcases List.mem_append.1 hOn with hBefore | hLast
        · exact (hOk a hBefore (isConnected_of_isAway hAway) hAway).1
        · exact hLast
      · intro call hCall
        obtain ⟨a, -, hAway, rfl⟩ := setOnline_spec.1 (hCalls ▸ hCall)
        exact ⟨isConnected_of_isAway hAway, hAway⟩
      · rw [hCalls]
        refine nodup_askAll.2 fun a hDue hAfter => ?_
        rw [due_iff] at hDue hAfter
        have hNot : a ∉ s.leftover := by
          intro hBefore
          have hGone := (hOk a hBefore (isConnected_of_isAway hDue) hDue).2
          rw [hAfter] at hGone
          cases hGone
        rw [h.list, List.count_append, List.count_eq_zero_of_not_mem hNot, Nat.zero_add]
        exact List.nodup_iff_count_le_one.1 h.setAway a

/-! ## Runs -/

theorem Inv.setAutoAway (h : s.Inv) (answer : Answer α) : (s.setAutoAway answer).2.Inv := by
  unfold Desktop.setAutoAway
  split
  · exact h
  · refine ⟨h.nodup, nodup_askAll.2 fun a _ _ => ?_, rfl⟩
    exact List.nodup_iff_count_le_one.1 h.nodup a

theorem Inv.setActive (h : s.Inv) (answer : Answer α) : (s.setActive answer).2.Inv := by
  unfold Desktop.setActive
  split
  · simp only
    split
    · exact ⟨h.nodup, List.nodup_nil, rfl⟩
    · exact ⟨h.nodup, h.setAway, h.list⟩
  · exact h

theorem Inv.step (h : s.Inv) (e : Event α) : (s.step e).Inv := by
  cases e with
  | setAutoAway answer => exact h.setAutoAway answer
  | setActive answer => exact h.setActive answer
  | loadBehaviorSettings goAvailable useCustomStatus message => exact ⟨h.nodup, h.setAway, h.list⟩
  | setGlobalStatusMessage message => exact ⟨h.nodup, h.setAway, h.list⟩
  | accountRegistered a =>
    rw [Desktop.step, registerAccount]
    split
    · exact h
    · exact ⟨QList.nodup_append_iff.2 ⟨h.nodup, ‹_›⟩, h.setAway, h.list⟩
  | accountUnregistered a =>
    refine ⟨QList.nodup_removeAll h.nodup a, QList.nodup_removeAll h.setAway a, ?_⟩
    simp only [Desktop.step, Desktop.accountUnregistered, h.list]
    exact List.filter_append ..
  | statusChanged a status => exact ⟨h.nodup, h.setAway, h.list⟩

/-- **Auto-away.** Whatever the accounts, the users and the settings do, every return sets
online only accounts that the last absence set away and that are still connected and away,
and each once, exactly if at every return that does anything, the accounts remembered from
before the last absence that are away were set away by it too and answer at once. -/
theorem setActive_iff {message : StatusMessage} {goAvailable useCustomStatus : Bool}
    {es : List (Event α)} :
    Run.StepsMeet step Right (start message goAvailable useCustomStatus) es ↔
      Run.StepsMeet step Ok (start message goAvailable useCustomStatus) es := by
  have hStart : Inv (start message goAvailable useCustomStatus : Desktop α) :=
    ⟨List.nodup_nil, List.nodup_nil, rfl⟩
  have hAll : Run.StepsMeet step (fun _ _ => True) (start message goAvailable useCustomStatus) es :=
    Run.stepsMeet_of_forall (fun _ _ => trivial) _ es
  refine Run.stepsMeet_iff (fun s e h _ => ?_) (fun s e h _ _ => h.step e) hStart hAll
  cases e with
  | setActive answer => exact h.activeRight_iff answer
  | _ => exact Iff.rfl

/-- Protocols that answer at once with what they are asked for. -/
def atOnce : Answer Nat := fun _ category _ =>
  match category with
  | .idle => .away
  | .online => .online

/-- The user comes back without the setting, sets the account online and then away by hand.
The next absence does not touch it, but the return after that, with the setting, sets it
online. -/
theorem setActive_leftover :
    let s := [.accountRegistered 1, .statusChanged 1 .online, .setAutoAway atOnce,
      .setActive atOnce, .statusChanged 1 .online, .statusChanged 1 .away, .setAutoAway atOnce,
      .loadBehaviorSettings true false ⟨"", ""⟩].foldl step (start ⟨"", ""⟩ false false)
    s.setAway = [] ∧ (s.setActive atOnce).1 = [⟨1, .online, ⟨"", ""⟩⟩] ∧
      ¬ s.ActiveRight atOnce := by
  intro s
  have hCalls : (s.setActive atOnce).1 = [⟨1, .online, ⟨"", ""⟩⟩] := by decide
  have hAway : s.setAway = [] := by decide
  refine ⟨hAway, hCalls, fun hRight => ?_⟩
  have hMem := hRight.setAway ⟨1, .online, ⟨"", ""⟩⟩ (hCalls ▸ List.mem_singleton_self _)
  rw [hAway] at hMem
  cases hMem

end Desktop

end Kopete
