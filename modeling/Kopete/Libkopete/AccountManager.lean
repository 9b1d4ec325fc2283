import Kopete.Libkopete.Account
import Mathlib

/-!
# libkopete — the account manager, over a suspension

The account manager suspends every account when the system goes to sleep or the network
is lost, and resumes them when the one wakes up or the other is back. It has a flag of its
own for this, and each account has one; the manager's stays up from the first suspension
to the resume, but an account's falls with the next change of its own status. So a
suspension is only resumed for an account that had gone offline before its
`Account::suspend` returned, or still has not when it is resumed.

Main results:

* `recorded_of_reached` — in every state that is reached, an account that is suspended and
  online has its status remembered;
* `run_heard` — what is left of a suspension after any quiet run;
* `resumed_iff` — when a resume sets every account back to where it was, exactly.
-/

namespace Kopete

/-- A child of the root group of `StatusManager`. -/
structure StatusItem where
  isGroup : Bool
  category : Nat
  title : String
  message : String
deriving DecidableEq, Repr

/-- `AccountManager`, with what it reads of the status managers: the global status, the
statuses to choose from, and (`statusOf`) which status a protocol has for a category. -/
structure AccountManager where
  accounts : List Account
  suspended : Bool
  suspendedStatusMessage : StatusMessage
  suspendedStatusCategory : Nat
  globalStatusMessage : StatusMessage
  globalStatusCategory : Nat
  statusItems : List StatusItem
  statusOf : Nat → Nat → OnlineStatus
  reconnectOnDisconnect : Bool

namespace AccountManager

/-- `OnlineStatusManager::Offline`. -/
def offlineCategory : Nat := 1

/-- `AccountManager::ConnectIfOffline`. -/
def connectIfOffline : Nat := 1

variable (m : AccountManager)

/-- `foreach` over the accounts. -/
def forEach (f : Nat → Account → Account) : AccountManager :=
  { m with accounts := m.accounts.mapIdx f }

/-- One account does something on its own. -/
def atAccount (i : Nat) (f : Account → Account) : AccountManager :=
  { m with accounts := m.accounts.modify i f }

/-- `AccountManager::isAnyAccountConnected`. -/
def isAnyAccountConnected : Bool := m.accounts.any Account.isConnected

/-- `StatusManager::setGlobalStatus`. -/
def setGlobalStatus (category : Nat) (message : StatusMessage) : AccountManager :=
  { m with globalStatusCategory := category, globalStatusMessage := message }

/-- What `AccountManager::setOnlineStatus` does with one account. -/
def setStatusOf (category : Nat) (message : StatusMessage) (flags : Nat)
    (onlyChangeConnectedAccounts : Bool) (a : Account) (answer : List OwnChange) : Account :=
  let status := m.statusOf a.protocol category
  if category &&& offlineCategory ≠ 0 then a.setOnlineStatus status message answer
  else if onlyChangeConnectedAccounts then
    if a.isConnected || ((flags &&& connectIfOffline ≠ 0 ||
        m.globalStatusCategory = offlineCategory) && !a.excludeConnect) then
      a.setOnlineStatus status message answer
    else a
  else if !a.excludeConnect then a.setOnlineStatus status message answer
  else a

/-- `AccountManager::setOnlineStatus`. -/
def setOnlineStatus (category : Nat) (message : StatusMessage) (flags : Nat) (forced : Bool)
    (answer : Nat → List OwnChange) : AccountManager :=
  let onlyChangeConnectedAccounts := !forced && m.isAnyAccountConnected
  let m : AccountManager := { m with suspended := false }
  (m.forEach fun i a =>
    m.setStatusOf category message flags onlyChangeConnectedAccounts a
      (answer i)).setGlobalStatus category message

/-- The title and message of the first status for Offline, or the usual ones. -/
def offlineMessage : StatusMessage :=
  match m.statusItems.find? fun item => !item.isGroup && item.category = offlineCategory with
  | some item => ⟨item.title, item.message⟩
  | none => ⟨"Offline", ""⟩

/-- `AccountManager::suspend`. -/
def suspend (answer : Nat → List OwnChange) : AccountManager :=
  if m.suspended then m
  else
    let m : AccountManager :=
      { m with
        suspended := true
        suspendedStatusMessage := m.globalStatusMessage
        suspendedStatusCategory := m.globalStatusCategory }
    let message := m.offlineMessage
    (m.forEach fun i a => (a.suspend message (answer i)).2).setGlobalStatus offlineCategory message

/-- `AccountManager::resume`. -/
def resume (networkAvailable : Bool) (answer : Nat → List OwnChange) : Bool × AccountManager :=
  if !m.suspended || !networkAvailable then (false, m)
  else
    let m := m.forEach fun i a => (a.resume (answer i)).2
    let m := m.setGlobalStatus m.suspendedStatusCategory m.suspendedStatusMessage
    (true, { m with suspended := false })

/-- `AccountManager::networkConnected`. -/
def networkConnected (networkAvailable : Bool) (answer : Nat → List OwnChange) : AccountManager :=
  let (resumed, m) := m.resume networkAvailable answer
  if !resumed then m.setOnlineStatus m.globalStatusCategory m.globalStatusMessage 0 true answer
  else m

/-- `AccountManager::networkDisconnected`. -/
def networkDisconnected (answer : Nat → List OwnChange) : AccountManager := m.suspend answer

/-! ## Runs -/

/-- What happens to the manager and its accounts, one at a time. `answer` is what the
protocols report before a call returns; what they report later is an `ownChange`. -/
inductive Event where
  /-- The system goes to sleep. -/
  | suspend (answer : Nat → List OwnChange)
  | networkDisconnected (answer : Nat → List OwnChange)
  | resume (networkAvailable : Bool) (answer : Nat → List OwnChange)
  | networkConnected (networkAvailable : Bool) (answer : Nat → List OwnChange)
  | networkingStatusChanged (i : Nat) (status : NetworkingStatus) (answer : List OwnChange)
  | ownChange (i : Nat) (change : OwnChange)
  /-- The reconnect timer of an account. -/
  | reconnect (i : Nat) (answer : List OwnChange)
  /-- The user chooses a status for all accounts. -/
  | setOnlineStatus (category : Nat) (message : StatusMessage) (flags : Nat) (forced : Bool)
      (answer : Nat → List OwnChange)
  /-- The user chooses a status for one account. -/
  | setAccountStatus (i : Nat) (status : OnlineStatus) (message : StatusMessage)
      (answer : List OwnChange)

/-- One event. -/
def step : Event → AccountManager
  | .suspend answer => m.suspend answer
  | .networkDisconnected answer => m.networkDisconnected answer
  | .resume networkAvailable answer => (m.resume networkAvailable answer).2
  | .networkConnected networkAvailable answer => m.networkConnected networkAvailable answer
  | .networkingStatusChanged i status answer =>
    m.atAccount i fun a => a.networkingStatusChanged m.reconnectOnDisconnect status answer
  | .ownChange i change => m.atAccount i fun a => a.setMyself change
  | .reconnect i answer => m.atAccount i fun a => a.reconnect answer
  | .setOnlineStatus category message flags forced answer =>
    m.setOnlineStatus category message flags forced answer
  | .setAccountStatus i status message answer =>
    m.atAccount i fun a => a.setOnlineStatus status message answer

/-- The protocols do as they are told: no answer to a suspension is online. -/
def Event.Obeys : Event → Prop
  | .suspend answer | .networkDisconnected answer => ∀ i, Account.Obeys (answer i)
  | _ => True

/-- The states of a manager, from an empty one on, as accounts come and go. -/
inductive Reached : AccountManager → Prop
  | start {m : AccountManager} : m.accounts = [] → m.suspended = false → Reached m
  | registerAccount {m : AccountManager} {a : Account} {accounts : List Account} :
      Reached m → a.New → accounts.Perm (a :: m.accounts) →
      Reached { m with accounts := accounts }
  | unregisterAccount {m : AccountManager} (i : Nat) :
      Reached m → Reached { m with accounts := m.accounts.eraseIdx i }
  | step {m : AccountManager} {e : Event} : Reached m → e.Obeys → Reached (m.step e)

/-- What may come between a suspension and the resume: suspended again, losing the
network, a resume without one, and the accounts' own changes. -/
def Event.Quiet : Event → Prop
  | .suspend _ | .networkDisconnected _ | .ownChange _ _ => True
  | .resume networkAvailable _ => networkAvailable = false
  | .networkingStatusChanged _ status _ => status ≠ .connected
  | _ => False

/-- The own changes that an event brings to the account at `i` while the manager is
suspended. -/
def Event.changes (i : Nat) : Event → List OwnChange
  | .networkingStatusChanged j status answer =>
    if j = i then Account.networkChanges status answer else []
  | .ownChange j change => if j = i then [change] else []
  | _ => []

/-- The own changes that a run brings to the account at `i`. -/
def changesOf (i : Nat) (es : List Event) : List OwnChange := es.flatMap (Event.changes i)

/-- `m'` becomes `m''` by a resume that sets every account that was online in `m` back to
its status, and does not touch those that were offline. -/
def Resumed (m' m'' : AccountManager) : Prop :=
  ∀ (i : Nat) (a : Account), m.accounts[i]? = some a →
    ∃ b c : Account, m'.accounts[i]? = some b ∧ m''.accounts[i]? = some c ∧
    (a.onlineStatus.isDefinitelyOnline = true → Account.Restored a.onlineStatus b c) ∧
    (a.onlineStatus.status = .offline → c = b)

/-- Once it is suspended, an account that was online hears of no change of its own, and
one that was offline does, unless its status, or the one that an earlier suspension
remembers, is `OnlineStatus::Offline` itself. -/
def Resumable (answer : Nat → List OwnChange) (es : List Event) : Prop :=
  ∀ (i : Nat) (a : Account), m.accounts[i]? = some a →
    (a.onlineStatus.isDefinitelyOnline = true →
      ¬ Account.Hears (a.settledStatus (answer i)) (changesOf i es) ∧
        a.onlineStatus.same (.ofType .offline) = false) ∧
    (a.onlineStatus.status = .offline →
      Account.Hears (a.settledStatus (answer i)) (changesOf i es) ∨
        (if a.suspended then a.suspendStatus else a.onlineStatus).same (.ofType .offline) = true)

/-! ## What a suspended account remembers, over runs -/

variable {m : AccountManager}

theorem getElem?_forEach (m : AccountManager) (f : Nat → Account → Account) (i : Nat) :
    (m.forEach f).accounts[i]? = m.accounts[i]?.map (f i) :=
  List.getElem?_mapIdx

theorem getElem?_atAccount (m : AccountManager) (j : Nat) (f : Account → Account) (i : Nat) :
    (m.atAccount j f).accounts[i]? = m.accounts[i]?.map fun a => if j = i then f a else a :=
  List.getElem?_modify ..

/-- Every account remembers its status if it is suspended and online. -/
def Recorded (m : AccountManager) : Prop := ∀ a ∈ m.accounts, a.Recorded

theorem Recorded.forEach (hm : m.Recorded) {f : Nat → Account → Account}
    (hf : ∀ i a, a.Recorded → (f i a).Recorded) : (m.forEach f).Recorded := by
  intro b hb
  obtain ⟨i, hi, rfl⟩ := List.mem_mapIdx.mp hb
  exact hf i _ (hm _ (List.getElem_mem hi))

theorem Recorded.atAccount (hm : m.Recorded) (j : Nat) {f : Account → Account}
    (hf : ∀ a, a.Recorded → (f a).Recorded) : (m.atAccount j f).Recorded := by
  intro b hb
  obtain ⟨i, hi⟩ := List.mem_iff_getElem?.mp hb
  rw [getElem?_atAccount] at hi
  obtain ⟨a, ha, rfl⟩ := Option.map_eq_some_iff.mp hi
  have hrecorded := hm a (List.mem_of_getElem? ha)
  split
  · exact hf a hrecorded
  · exact hrecorded

theorem Recorded.suspend (hm : m.Recorded) {answer : Nat → List OwnChange}
    (hobeys : ∀ i, Account.Obeys (answer i)) : (m.suspend answer).Recorded := by
  unfold AccountManager.suspend
  split
  · exact hm
  · have heach : ∀ i (a : Account), a.Recorded →
        (a.suspend m.offlineMessage (answer i)).2.Recorded :=
      fun i a ha => ha.suspend m.offlineMessage (hobeys i)
    exact Recorded.forEach (m := { m with suspended := true }) hm heach

theorem Recorded.resume (hm : m.Recorded) (networkAvailable : Bool)
    (answer : Nat → List OwnChange) : (m.resume networkAvailable answer).2.Recorded := by
  unfold AccountManager.resume
  split
  · exact hm
  · exact hm.forEach fun i a ha => ha.resume (answer i)

theorem Recorded.setOnlineStatus (hm : m.Recorded) (category : Nat) (message : StatusMessage)
    (flags : Nat) (forced : Bool) (answer : Nat → List OwnChange) :
    (m.setOnlineStatus category message flags forced answer).Recorded := by
  refine Recorded.forEach (m := { m with suspended := false }) hm fun i a ha => ?_
  have hset := (Account.setOnlineStatus_heard a (m.statusOf a.protocol category) message
    (answer i)).recorded ha
  unfold setStatusOf
  dsimp only
  split_ifs
  · exact hset
  · exact hset
  · exact ha
  · exact hset
  · exact ha

theorem Recorded.networkConnected (hm : m.Recorded) (networkAvailable : Bool)
    (answer : Nat → List OwnChange) : (m.networkConnected networkAvailable answer).Recorded := by
  have hresume := hm.resume networkAvailable answer
  unfold AccountManager.networkConnected
  dsimp only
  split
  · exact hresume.setOnlineStatus _ _ _ _ _
  · exact hresume

theorem Recorded.step (hm : m.Recorded) {e : Event} (hobeys : e.Obeys) : (m.step e).Recorded := by
  cases e with
  | suspend answer => exact hm.suspend hobeys
  | networkDisconnected answer => exact hm.suspend hobeys
  | resume networkAvailable answer => exact hm.resume networkAvailable answer
  | networkConnected networkAvailable answer => exact hm.networkConnected networkAvailable answer
  | networkingStatusChanged i status answer =>
    exact hm.atAccount i fun a ha => ha.networkingStatusChanged _ status answer
  | ownChange i change =>
    exact hm.atAccount i fun a ha => (Account.setMyself_heard a change).recorded ha
  | reconnect i answer => exact hm.atAccount i fun a ha => ha.reconnect answer
  | setOnlineStatus category message flags forced answer => exact hm.setOnlineStatus _ _ _ _ _
  | setAccountStatus i status message answer =>
    exact hm.atAccount i fun a ha =>
      (Account.setOnlineStatus_heard a status message answer).recorded ha

/-- **In every state a manager reaches, a suspended account that is online has its status
remembered.** -/
theorem recorded_of_reached (hm : m.Reached) : m.Recorded := by
  induction hm with
  | start hnone _ =>
    intro a ha
    rw [hnone] at ha
    exact absurd ha List.not_mem_nil
  | registerAccount _ hnew hperm ih =>
    intro b hb
    cases List.mem_cons.mp (hperm.mem_iff.mp hb) with
    | inl h => exact h ▸ hnew.recorded
    | inr h => exact ih b h
  | unregisterAccount i _ ih => exact fun a ha => ih a (List.mem_of_mem_eraseIdx ha)
  | step _ hobeys ih => exact ih.step hobeys

/-! ## From the suspension to the resume -/

theorem suspended_suspend (m : AccountManager) (answer : Nat → List OwnChange) :
    (m.suspend answer).suspended = true := by
  unfold suspend
  split
  · assumption
  · rfl

/-- Every account is suspended with the manager. -/
theorem getElem?_suspend (hawake : m.suspended = false) (answer : Nat → List OwnChange)
    (i : Nat) : (m.suspend answer).accounts[i]? =
      m.accounts[i]?.map fun a => (a.suspend m.offlineMessage (answer i)).2 := by
  have hm : m.suspend answer = ({ m with
      suspended := true
      suspendedStatusMessage := m.globalStatusMessage
      suspendedStatusCategory := m.globalStatusCategory }.forEach
        fun i a => (a.suspend m.offlineMessage (answer i)).2).setGlobalStatus offlineCategory
          m.offlineMessage := by
    unfold suspend
    rw [if_neg (by rw [hawake]; exact Bool.false_ne_true)]
    rfl
  rw [hm]
  exact getElem?_forEach { m with suspended := true } _ i

theorem suspend_of_suspended (hm : m.suspended = true) (answer : Nat → List OwnChange) :
    m.suspend answer = m := if_pos hm

/-- A quiet step at one account only brings own changes to it. -/
theorem atAccount_heard {i j : Nat} {a : Account} {f : Account → Account} {cs : List OwnChange}
    (ha : m.accounts[i]? = some a) (hf : Account.Heard a cs (f a)) :
    ∃ b, (m.atAccount j f).accounts[i]? = some b ∧
      Account.Heard a (if j = i then cs else []) b := by
  rw [getElem?_atAccount, ha]
  refine ⟨if j = i then f a else a, rfl, ?_⟩
  by_cases hj : j = i
  · rw [if_pos hj, if_pos hj]
    exact hf
  · rw [if_neg hj, if_neg hj]
    exact Account.heard_refl

/-- **A quiet step** leaves the manager suspended, and brings own changes to its
accounts. -/
theorem step_heard {e : Event} (hm : m.suspended = true) (hquiet : e.Quiet) {i : Nat}
    {a : Account} (ha : m.accounts[i]? = some a) :
    (m.step e).suspended = true ∧
      ∃ b, (m.step e).accounts[i]? = some b ∧ Account.Heard a (e.changes i) b := by
  cases e with
  | suspend answer =>
    rw [step, suspend_of_suspended hm]
    exact ⟨hm, a, ha, Account.heard_refl⟩
  | networkDisconnected answer =>
    rw [step, networkDisconnected, suspend_of_suspended hm]
    exact ⟨hm, a, ha, Account.heard_refl⟩
  | resume networkAvailable answer =>
    have hoff : networkAvailable = false := hquiet
    have hsame : (m.resume networkAvailable answer).2 = m := by simp [resume, hoff]
    rw [step, hsame]
    exact ⟨hm, a, ha, Account.heard_refl⟩
  | networkingStatusChanged j status answer =>
    exact ⟨hm, atAccount_heard ha (Account.networkingStatusChanged_heard a _ answer hquiet)⟩
  | ownChange j change =>
    exact ⟨hm, atAccount_heard ha (Account.setMyself_heard a change)⟩
  | networkConnected networkAvailable answer => exact hquiet.elim
  | reconnect j answer => exact hquiet.elim
  | setOnlineStatus category message flags forced answer => exact hquiet.elim
  | setAccountStatus j status message answer => exact hquiet.elim

/-- **A quiet run** leaves the manager suspended, and brings own changes to its accounts. -/
theorem run_heard {es : List Event} (hm : m.suspended = true) (hquiet : ∀ e ∈ es, e.Quiet)
    {i : Nat} {a : Account} (ha : m.accounts[i]? = some a) :
    (es.foldl step m).suspended = true ∧
      ∃ b, (es.foldl step m).accounts[i]? = some b ∧ Account.Heard a (changesOf i es) b := by
  induction es generalizing m a with
  | nil => exact ⟨hm, a, ha, Account.heard_refl⟩
  | cons e es ih =>
    obtain ⟨hsuspended, b, hb, hab⟩ := step_heard hm (hquiet e List.mem_cons_self) ha
    obtain ⟨hrun, c, hc, hbc⟩ :=
      ih hsuspended (fun e' he' => hquiet e' (List.mem_cons_of_mem e he')) hb
    exact ⟨hrun, c, hc, hab.trans hbc⟩

/-- Every account is resumed with the manager. -/
theorem getElem?_resume (hm : m.suspended = true) (answer : Nat → List OwnChange) (i : Nat) :
    (m.resume true answer).2.accounts[i]? =
      m.accounts[i]?.map fun a => (a.resume (answer i)).2 := by
  have hresume : (m.resume true answer).2.accounts =
      (m.forEach fun i a => (a.resume (answer i)).2).accounts := by
    simp [resume, hm, setGlobalStatus]
  rw [hresume]
  exact getElem?_forEach m _ i

/-- An account that is suspended and hears the changes `cs` is asked for something by the
resume exactly if none of them is news to it and it remembers something to ask for. -/
theorem willAsk_iff {a b : Account} {answer : List OwnChange} {reason : StatusMessage}
    {cs : List OwnChange} (hab : Account.Heard (a.suspend reason answer).2 cs b) :
    b.WillAsk ↔ ¬ Account.Hears (a.settledStatus answer) cs ∧
      a.keptStatus.same (.ofType .offline) = false := by
  obtain ⟨hsuspended, hkept, hstatus⟩ := Account.suspend_spec a reason answer
  unfold Account.WillAsk
  rw [hab.suspended, hab.suspendStatus, hsuspended, hkept, hstatus]
  simp

theorem keptStatus_of_offline {a : Account} (ha : a.onlineStatus.status = .offline) :
    a.keptStatus = if a.suspended then a.suspendStatus else a.onlineStatus := by
  unfold Account.keptStatus Account.statusToKeep
  rw [if_neg (by rw [ha]; decide : ¬ a.onlineStatus.status = .connecting)]

/-- What the resume does with one account, after any quiet run. -/
theorem resumed_account {a b : Account} {answer : List OwnChange} {reason : StatusMessage}
    {cs : List OwnChange} (answer' : List OwnChange) (ha : a.Recorded)
    (hab : Account.Heard (a.suspend reason answer).2 cs b) :
    ((a.onlineStatus.isDefinitelyOnline = true →
        Account.Restored a.onlineStatus b (b.resume answer').2) ↔
      (a.onlineStatus.isDefinitelyOnline = true →
        ¬ Account.Hears (a.settledStatus answer) cs ∧
          a.onlineStatus.same (.ofType .offline) = false)) ∧
    ((a.onlineStatus.status = .offline → (b.resume answer').2 = b) ↔
      (a.onlineStatus.status = .offline →
        Account.Hears (a.settledStatus answer) cs ∨
          (if a.suspended then a.suspendStatus else a.onlineStatus).same
            (.ofType .offline) = true)) := by
  constructor
  · refine imp_congr_right fun honline => ?_
    have hkept := Account.keptStatus_of_online ha honline
    have hremembered : b.suspendStatus = a.onlineStatus := by
      rw [hab.suspendStatus, (Account.suspend_spec a reason answer).2.1, hkept]
    rw [Account.restored_iff, willAsk_iff hab, hkept]
    exact and_iff_left hremembered
  · refine imp_congr_right fun hoffline => ?_
    rw [Account.untouched_iff, willAsk_iff hab, keptStatus_of_offline hoffline,
      Classical.not_and_iff_not_or_not, not_not, Bool.not_eq_false]

/-- **What a resume restores.** In every run from a suspension to a resume with the
network available, with the system suspended again, the network lost and own changes of
the accounts in any order between, every account that was online is set back to its
status, and none that was offline is touched, exactly if no account that was online hears
of a change of its own after its `Account::suspend` returned, and every account that was
offline does, or has `OnlineStatus::Offline` itself to go back to. -/
theorem resumed_iff (hreached : m.Reached) (hawake : m.suspended = false)
    (answer : Nat → List OwnChange) {es : List Event} (hquiet : ∀ e ∈ es, e.Quiet)
    (answer' : Nat → List OwnChange) :
    m.Resumed (es.foldl step (m.suspend answer))
        ((es.foldl step (m.suspend answer)).resume true answer').2 ↔
      m.Resumable answer es := by
  refine forall_congr' fun i => forall_congr' fun a => imp_congr_right fun ha => ?_
  have hsuspended := suspended_suspend m answer
  have hstart : (m.suspend answer).accounts[i]? =
      some (a.suspend m.offlineMessage (answer i)).2 := by
    rw [getElem?_suspend hawake, ha]
    rfl
  obtain ⟨hstill, b, hb, hab⟩ := run_heard hsuspended hquiet hstart
  have hc : ((es.foldl step (m.suspend answer)).resume true answer').2.accounts[i]? =
      some (b.resume (answer' i)).2 := by
    rw [getElem?_resume hstill, hb]
    rfl
  have hrecorded := recorded_of_reached hreached a (List.mem_of_getElem? ha)
  obtain ⟨honline, hoffline⟩ := resumed_account (answer' i) hrecorded hab
  rw [← honline, ← hoffline]
  constructor
  · rintro ⟨b', c', hb', hc', h⟩
    rw [hb] at hb'
    rw [hc] at hc'
    cases hb'
    cases hc'
    exact h
  · intro h
    exact ⟨b, _, hb, hc, h⟩

/-- A status of the first protocol. -/
def someStatus (status : StatusType) : OnlineStatus :=
  { OnlineStatus.ofType status with protocol := some 1 }

/-- A new account, offline. -/
def newAccount : Account where
  protocol := 1
  onlineStatus := someStatus .offline
  restoreStatus := .ofType .online
  restoreMessage := ⟨"", ""⟩
  reconnectOnNetworkIsOnline := false
  excludeConnect := false
  suspended := false
  suspendStatus := .ofType .offline
  asked := []

/-- A manager without accounts. -/
def newManager : AccountManager where
  accounts := []
  suspended := false
  suspendedStatusMessage := ⟨"", ""⟩
  suspendedStatusCategory := 0
  globalStatusMessage := ⟨"", ""⟩
  globalStatusCategory := offlineCategory
  statusItems := []
  statusOf := fun _ _ => someStatus .offline
  reconnectOnDisconnect := true

/-- One account, that the user has brought online. -/
def someManager : AccountManager :=
  { newManager with accounts := [newAccount] }.step
    (.setAccountStatus 0 (someStatus .online) ⟨"", ""⟩ [⟨someStatus .online, ⟨"", ""⟩⟩])

theorem someManager_reached : someManager.Reached := by
  have hstart : newManager.Reached := Reached.start rfl rfl
  have hnew : newAccount.New := ⟨rfl, rfl, rfl, rfl, rfl, rfl⟩
  exact (hstart.registerAccount hnew (List.Perm.refl _)).step trivial

/-- The account that goes offline before its `Account::suspend` returns is resumed. -/
theorem resumed_someManager :
    let answer : Nat → List OwnChange := fun _ => [⟨someStatus .offline, ⟨"", ""⟩⟩]
    let m' := someManager.suspend answer
    someManager.Resumed m' (m'.resume true fun _ => []).2 :=
  (resumed_iff someManager_reached rfl (fun _ => [⟨someStatus .offline, ⟨"", ""⟩⟩])
    (List.forall_mem_nil Event.Quiet) fun _ => []).mpr (by
      rintro (_ | i) a ha
      · obtain rfl := Option.some.inj ha
        exact ⟨fun _ => ⟨by decide, by decide⟩, fun h => absurd h (by decide)⟩
      · exact absurd ha (by simp [someManager, step, atAccount]))

/-- The account's own change to Offline comes after `Account::suspend` returned. -/
def lateOffline : List Event := [.ownChange 0 ⟨someStatus .offline, ⟨"", ""⟩⟩]

/-- **The notification that comes later loses the status.** It takes the account's flag
down, and the account is not asked for anything by the resume. -/
theorem late_change_loses_status :
    ¬ ∀ (m : AccountManager) (answer answer' : Nat → List OwnChange) (es : List Event),
      m.Reached → m.suspended = false → (∀ e ∈ es, e.Quiet) →
        m.Resumed (es.foldl step (m.suspend answer))
          ((es.foldl step (m.suspend answer)).resume true answer').2 := by
  intro hclaim
  have hquiet : ∀ e ∈ lateOffline, e.Quiet := by
    intro e he
    rw [List.mem_singleton.mp he]
    trivial
  obtain ⟨b, c, hb, hc, honline, -⟩ := hclaim someManager (fun _ => []) (fun _ => [])
    lateOffline someManager_reached rfl hquiet 0 _ rfl
  obtain ⟨reason, hasked⟩ := honline rfl
  -- Both before and after the resume, the user and the suspension are all that asked.
  let m' := lateOffline.foldl step (someManager.suspend fun _ => [])
  have hbefore : m'.accounts[0]?.map (fun a => a.asked.length) = some 2 := rfl
  have hafter : (m'.resume true fun _ => []).2.accounts[0]?.map (fun a => a.asked.length) =
      some 2 := rfl
  rw [hb] at hbefore
  rw [hc] at hafter
  have hb' : b.asked.length = 2 := Option.some.inj hbefore
  have hc' : c.asked.length = 2 := Option.some.inj hafter
  rw [hasked, List.length_append, hb', List.length_singleton] at hc'
  omega

end AccountManager

end Kopete
