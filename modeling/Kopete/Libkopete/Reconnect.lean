import Kopete.Lib.Run
import Kopete.Lib.Timers
import Kopete.Libkopete.Account

/-!
# libkopete — an account that reconnects

An account whose connection was lost asks for its last status again: after a while, by a
single-shot timer, or when the network comes back, by a flag. A counter makes the while
longer, and after ten times there is no next one; it starts anew when the account has
been connected for twenty seconds. A disconnect that the user wanted takes down the flag
and stops the timer, but what happens after it can set either again.

What a protocol reports while it is asked for a status, and at any other time, is its own
changes of status and the disconnects.

Main results:

* `report_inv`, `step_inv` — what one report, and one event, leaves of the invariant;
* `reconnects_kept` — runs in which nothing sets the flag or starts the timer after the
  user's disconnect.
-/

namespace Kopete

/-- `Account::DisconnectReason`. -/
inductive DisconnectReason where
  | otherClient
  | badPassword
  | badUserName
  | invalidHost
  | manual
  | connectionReset
  | unknown
deriving DecidableEq, Repr

def DisconnectReason.value : DisconnectReason → Int
  | .otherClient => -4
  | .badPassword => -3
  | .badUserName => -2
  | .invalidHost => -1
  | .manual => 0
  | .connectionReset => 1
  | .unknown => 99

/-- The timers of an account. -/
inductive AccountTimer where
  | reconnect
  | suppressStatus
deriving DecidableEq, Repr

/-- What a protocol says of its account: a change of its own status, a new status for all
its contacts, and `Account::disconnected`, with the setting `reconnectOnDisconnect` and
what `Solid::Networking::status` has to say at that time. -/
inductive Report where
  | ownChange (c : OwnChange)
  | allContactsStatus
  | disconnected (reason : DisconnectReason) (reconnectOnDisconnect : Bool)
      (networking : NetworkingStatus)
deriving DecidableEq

/-- `Account` with its timers. The last three fields are not in the program: whether the
user has disconnected the account and not set it online since, the attempts of
`reconnect` with what that was at the time, and how many reconnects were timed since the
account was last connected for the suppression period. -/
structure ReconnectingAccount where
  account : Account
  /-- `uint`. -/
  connectionTry : Nat
  suppressStatusNotification : Bool
  timers : Timers.Loop AccountTimer
  manual : Bool
  attempts : List Bool
  started : Nat

namespace ReconnectingAccount

/-- `Account::Account`. -/
def new (a : Account) : ReconnectingAccount where
  account := a
  connectionTry := 0
  suppressStatusNotification := false
  timers := .idle
  manual := false
  attempts := []
  started := 0

variable (s : ReconnectingAccount)

/-! ## Reports -/

/-- Twenty seconds without notifications, from now on. -/
def suppress : ReconnectingAccount :=
  { s with
    suppressStatusNotification := true
    timers := s.timers.start .suppressStatus 20000 }

/-- `Contact::setOnlineStatus` on `myself`, and `Account::slotOnlineStatusChanged`. -/
def setMyself (c : OwnChange) : ReconnectingAccount :=
  if c.status.same s.account.onlineStatus then s
  else
    let wasOffline := !s.account.onlineStatus.isDefinitelyOnline
    let isOffline := !c.status.isDefinitelyOnline
    let s := { s with account := s.account.setMyself c }
    -- `setAllContactsStatus`
    let s := if !wasOffline && isOffline then s.suppress else s
    if wasOffline || c.status.status = .offline then s.suppress else s

def startReconnectTimer (interval : Nat) : ReconnectingAccount :=
  { s with timers := s.timers.start .reconnect interval }

def stopReconnectTimer : ReconnectingAccount :=
  { s with timers := s.timers.stop .reconnect }

def setReconnectOnNetwork (b : Bool) : ReconnectingAccount :=
  { s with account := { s.account with reconnectOnNetworkIsOnline := b } }

/-- A timed reconnect that is not for a wrong password. -/
def startTimed (interval : Nat) : ReconnectingAccount :=
  { s.startReconnectTimer interval with started := s.started + 1 }

def networkAvailable (networking : NetworkingStatus) : Bool :=
  networking = .unknown || networking = .connected

/-- `Account::disconnected`; what it tells the user is left out. -/
def disconnected (reason : DisconnectReason) (reconnectOnDisconnect : Bool)
    (networking : NetworkingStatus) : ReconnectingAccount :=
  let s := { s with manual := s.manual || reason = .manual }
  if reason = .badPassword then s.startReconnectTimer 0
  else if reconnectOnDisconnect && DisconnectReason.manual.value < reason.value then
    if reason = .connectionReset && !networkAvailable networking then
      (s.setReconnectOnNetwork true).stopReconnectTimer
    else if s.timers.isActive .reconnect then s
    else
      let s := { s with connectionTry := (s.connectionTry + 1) % 2 ^ 32 }
      if s.connectionTry < 3 then s.startTimed 10000
      else if s.connectionTry ≤ 10 then
        s.startTimed ((2 * (s.connectionTry - 2) - 1) * 60000)
      else s
  else (s.setReconnectOnNetwork false).stopReconnectTimer

def report : Report → ReconnectingAccount
  | .ownChange c => s.setMyself c
  | .allContactsStatus => s.suppress
  | .disconnected reason setting networking => s.disconnected reason setting networking

/-! ## Events -/

/-- The protocol is asked for a status. -/
def ask (status : OnlineStatus) (reason : StatusMessage) : ReconnectingAccount :=
  { s with account := { s.account with asked := s.account.asked ++ [(status, reason)] } }

/-- The protocol's `Account::setOnlineStatus`, and its reports before it returns. -/
def setOnlineStatus (status : OnlineStatus) (reason : StatusMessage) (answer : List Report) :
    ReconnectingAccount :=
  answer.foldl report (s.ask status reason)

/-- An attempt of `Account::reconnect`. -/
def attempt : ReconnectingAccount :=
  { s.ask s.account.restoreStatus s.account.restoreMessage with
    attempts := s.attempts ++ [s.manual] }

/-- `Account::reconnect`. -/
def reconnect (answer : List Report) : ReconnectingAccount :=
  if s.account.isConnected then s else answer.foldl report s.attempt

/-- `Account::networkingStatusChanged`. -/
def networkingStatusChanged (reconnectOnDisconnect : Bool) (status : NetworkingStatus)
    (answer : List Report) : ReconnectingAccount :=
  match status with
  | .connected =>
    if s.account.reconnectOnNetworkIsOnline && !s.account.excludeConnect then s.reconnect answer
    else s
  | .unconnected | .disconnecting =>
    let s := s.setOnlineStatus (.ofType .offline) ⟨"", ""⟩ answer
    if reconnectOnDisconnect then s.setReconnectOnNetwork true else s
  | .unknown | .connecting => s

/-- `Account::slotStopSuppression`. -/
def slotStopSuppression : ReconnectingAccount :=
  let s := { s with suppressStatusNotification := false }
  if s.account.isConnected then { s with connectionTry := 0, started := 0 } else s

/-- An entry of the event loop expires. -/
def timeout (id : Nat) (answer : List Report) : ReconnectingAccount :=
  match s.timers.expire id with
  | some (.reconnect, timers) => { s with timers := timers }.reconnect answer
  | some (.suppressStatus, timers) => { s with timers := timers }.slotStopSuppression
  | none => s

/-- The user asks for a status. -/
def userAsks (status : OnlineStatus) (reason : StatusMessage) : ReconnectingAccount :=
  { s.ask status reason with manual := s.manual && !status.isDefinitelyOnline }

inductive Event where
  | report (r : Report)
  | networkingStatusChanged (reconnectOnDisconnect : Bool) (status : NetworkingStatus)
      (answer : List Report)
  | timeout (id : Nat) (answer : List Report)
  | setOnlineStatus (status : OnlineStatus) (reason : StatusMessage) (answer : List Report)
deriving DecidableEq

def step (s : ReconnectingAccount) : Event → ReconnectingAccount
  | .report r => s.report r
  | .networkingStatusChanged setting status answer =>
    s.networkingStatusChanged setting status answer
  | .timeout id answer => s.timeout id answer
  | .setOnlineStatus status reason answer => answer.foldl report (s.userAsks status reason)

/-! ## When a disconnect leads to a reconnect -/

/-- What `Account::disconnected` does about a reason. -/
inductive Reaction where
  | atOnce
  | withNetwork
  | later
  | never
deriving DecidableEq, Repr

def reaction (reason : DisconnectReason) (reconnectOnDisconnect : Bool)
    (networking : NetworkingStatus) : Reaction :=
  if reason = .badPassword then .atOnce
  else if reconnectOnDisconnect && DisconnectReason.manual.value < reason.value then
    if reason = .connectionReset && !networkAvailable networking then .withNetwork else .later
  else .never

/-- A disconnect that lets the account reconnect. -/
def arms : Reaction → Prop
  | .atOnce => True
  | .withNetwork => s.account.excludeConnect = false
  | .later => s.timers.isActive .reconnect = false ∧ s.connectionTry + 1 ≤ 10
  | .never => False

/-- The counter has room for one more try. -/
def HasRoom : Reaction → Prop
  | .later => s.timers.isActive .reconnect = false → s.connectionTry + 1 < 2 ^ 32
  | .atOnce | .withNetwork | .never => True

/-- After the user's disconnect no report lets the account reconnect, and the counter does
not wrap. -/
def ReportOk (s : ReconnectingAccount) : Report → Prop
  | .ownChange _ | .allContactsStatus => True
  | .disconnected reason setting networking =>
    s.HasRoom (reaction reason setting networking) ∧
      (s.manual = true → ¬ s.arms (reaction reason setting networking))

/-- The same for an attempt of `Account::reconnect`, where there is one. -/
def ReconnectOk (s : ReconnectingAccount) (answer : List Report) : Prop :=
  s.account.isConnected = false → Run.StepsMeet report ReportOk s.attempt answer

def Report.IsManual : Report → Prop
  | .disconnected reason _ _ => reason = .manual
  | .ownChange _ | .allContactsStatus => False

/-- The same for an event, and a loss of the network that sets the flag finds no account
that the user has disconnected, and the Offline that it asks for is not answered with a
manual disconnect. -/
def EventOk (s : ReconnectingAccount) : Event → Prop
  | .report r => s.ReportOk r
  | .networkingStatusChanged setting status answer =>
    match status with
    | .connected =>
      s.account.reconnectOnNetworkIsOnline = true → s.account.excludeConnect = false →
        s.ReconnectOk answer
    | .unconnected | .disconnecting =>
      Run.StepsMeet report ReportOk (s.ask (.ofType .offline) ⟨"", ""⟩) answer ∧
        (setting = true → s.account.excludeConnect = false →
          s.manual = false ∧ ∀ r ∈ answer, ¬ Report.IsManual r)
    | .unknown | .connecting => True
  | .timeout id answer =>
    ∀ timers, s.timers.expire id = some (.reconnect, timers) →
      ReconnectOk { s with timers := timers } answer
  | .setOnlineStatus status reason answer =>
    Run.StepsMeet report ReportOk (s.userAsks status reason) answer

variable {s}

/-- `Account::disconnected` by what it does about the reason. -/
theorem disconnected_eq (reason : DisconnectReason) (setting : Bool)
    (networking : NetworkingStatus) :
    s.disconnected reason setting networking =
      let s := { s with manual := s.manual || reason = .manual }
      match reaction reason setting networking with
      | .atOnce => s.startReconnectTimer 0
      | .withNetwork => (s.setReconnectOnNetwork true).stopReconnectTimer
      | .later =>
        if s.timers.isActive .reconnect then s
        else
          let s := { s with connectionTry := (s.connectionTry + 1) % 2 ^ 32 }
          if s.connectionTry < 3 then s.startTimed 10000
          else if s.connectionTry ≤ 10 then
            s.startTimed ((2 * (s.connectionTry - 2) - 1) * 60000)
          else s
      | .never => (s.setReconnectOnNetwork false).stopReconnectTimer := by
  unfold disconnected reaction
  by_cases hPassword : reason = .badPassword
  · simp only [hPassword, if_true]
  · simp only [if_neg hPassword]
    by_cases hLost : (setting && decide (DisconnectReason.manual.value < reason.value)) = true
    · simp only [if_pos hLost]
      by_cases hWait : (decide (reason = .connectionReset) && !networkAvailable networking) = true
      · simp only [if_pos hWait]
      · simp only [if_neg hWait]
    · simp only [if_neg hLost]

/-- A manual disconnect is one that nothing is done about. -/
theorem reaction_of_manual (setting : Bool) (networking : NetworkingStatus) :
    reaction .manual setting networking = .never := by
  simp [reaction, DisconnectReason.value]

/-! ## The invariant -/

/-- Nothing will make the account reconnect. -/
def Quiet (s : ReconnectingAccount) : Prop :=
  s.timers.isActive .reconnect = false ∧
    (s.account.reconnectOnNetworkIsOnline = true → s.account.excludeConnect = true)

structure Inv (s : ReconnectingAccount) : Prop where
  sound : s.timers.Sound
  few : s.started ≤ 10
  counted : s.started ≤ s.connectionTry
  quiet : s.manual = true → s.Quiet
  attempts : true ∉ s.attempts

theorem inv_new (a : Account) : (new a).Inv :=
  ⟨Timers.Loop.sound_idle, Nat.zero_le _, Nat.le_refl _, by simp [new], by simp [new]⟩

theorem flags_setMyself (a : Account) (c : OwnChange) :
    (a.setMyself c).reconnectOnNetworkIsOnline = a.reconnectOnNetworkIsOnline ∧
      (a.setMyself c).excludeConnect = a.excludeConnect := by
  unfold Account.setMyself Account.slotOnlineStatusChanged
  split
  · exact ⟨rfl, rfl⟩
  · dsimp only
    split <;> exact ⟨rfl, rfl⟩

/-- The suppression timer is another one. -/
theorem Inv.suppress (h : s.Inv) : s.suppress.Inv where
  sound := h.sound.start _ _
  few := h.few
  counted := h.counted
  quiet hManual := by
    obtain ⟨hInactive, hFlag⟩ := h.quiet hManual
    refine ⟨?_, hFlag⟩
    simp only [ReconnectingAccount.suppress, Timers.Loop.isActive_start]
    exact hInactive
  attempts := h.attempts

theorem Inv.setMyself (h : s.Inv) (c : OwnChange) : (s.setMyself c).Inv := by
  unfold ReconnectingAccount.setMyself
  split
  · exact h
  · obtain ⟨hFlag, hExclude⟩ := flags_setMyself s.account c
    have hChanged : Inv { s with account := s.account.setMyself c } := by
      refine ⟨h.sound, h.few, h.counted, ?_, h.attempts⟩
      intro hManual
      obtain ⟨hInactive, hWaits⟩ := h.quiet hManual
      refine ⟨hInactive, ?_⟩
      rw [hFlag, hExclude]
      exact hWaits
    dsimp only
    split
    · split
      · exact hChanged.suppress.suppress
      · exact hChanged.suppress
    · split
      · exact hChanged.suppress
      · exact hChanged

/-- The timer is started for a try that is counted. -/
theorem Inv.startTimed (h : s.Inv) (interval : Nat) (hArmed : s.manual = false)
    (hTry : s.started + 1 ≤ s.connectionTry) (hFew : s.connectionTry ≤ 10) :
    (s.startTimed interval).Inv where
  sound := h.sound.start _ _
  few := Nat.le_trans hTry hFew
  counted := hTry
  quiet hManual := by
    rw [show (s.startTimed interval).manual = s.manual from rfl, hArmed] at hManual
    cases hManual
  attempts := h.attempts

theorem Inv.disconnected (h : s.Inv) (reason : DisconnectReason) (setting : Bool)
    (networking : NetworkingStatus) (hOk : s.ReportOk (.disconnected reason setting networking)) :
    (s.disconnected reason setting networking).Inv := by
  obtain ⟨hRoom, hArms⟩ := hOk
  by_cases hReason : reason = .manual
  · subst hReason
    rw [disconnected_eq, reaction_of_manual]
    refine ⟨h.sound.stop _, h.few, h.counted, ?_, h.attempts⟩
    intro _
    refine ⟨?_, ?_⟩
    · simp [stopReconnectTimer, setReconnectOnNetwork]
    · intro hFlag
      cases hFlag
  · have hSame : { s with manual := s.manual || decide (reason = .manual) } = s := by
      simp [hReason]
    rw [disconnected_eq, hSame]
    cases hReaction : reaction reason setting networking with
    | atOnce =>
      rw [hReaction] at hArms
      refine ⟨h.sound.start _ _, h.few, h.counted, ?_, h.attempts⟩
      intro hManual
      exact absurd trivial (hArms hManual)
    | withNetwork =>
      rw [hReaction] at hArms
      refine ⟨h.sound.stop _, h.few, h.counted, ?_, h.attempts⟩
      intro hManual
      refine ⟨by simp [stopReconnectTimer, setReconnectOnNetwork], ?_⟩
      intro _
      exact (Bool.not_eq_false _).mp (hArms hManual)
    | later =>
      rw [hReaction] at hArms hRoom
      dsimp only
      split
      · exact h
      · next hActive =>
        have hInactive : s.timers.isActive .reconnect = false := Bool.eq_false_iff.2 hActive
        have hTry : (s.connectionTry + 1) % 2 ^ 32 = s.connectionTry + 1 :=
          Nat.mod_eq_of_lt (hRoom hInactive)
        rw [hTry]
        have hCounted : Inv { s with connectionTry := s.connectionTry + 1 } :=
          ⟨h.sound, h.few, Nat.le_succ_of_le h.counted, h.quiet, h.attempts⟩
        have hArmed : s.connectionTry + 1 ≤ 10 → s.manual = false := by
          intro hFew
          refine Bool.eq_false_iff.2 ?_
          intro hManual
          exact hArms hManual ⟨hInactive, hFew⟩
        have hNext := Nat.succ_le_succ h.counted
        split
        · next hFew =>
          have hTen : s.connectionTry + 1 ≤ 10 := Nat.le_trans (Nat.le_of_lt hFew) (by decide)
          exact hCounted.startTimed _ (hArmed hTen) hNext hTen
        · split
          · next hFew => exact hCounted.startTimed _ (hArmed hFew) hNext hFew
          · exact hCounted
    | never =>
      refine ⟨h.sound.stop _, h.few, h.counted, ?_, h.attempts⟩
      intro _
      refine ⟨by simp [stopReconnectTimer, setReconnectOnNetwork], ?_⟩
      intro hFlag
      cases hFlag

theorem report_inv (h : s.Inv) (r : Report) (hOk : s.ReportOk r) : (s.report r).Inv := by
  cases r with
  | ownChange c => exact h.setMyself c
  | allContactsStatus => exact h.suppress
  | disconnected reason setting networking => exact h.disconnected reason setting networking hOk

theorem reports_inv (h : s.Inv) {answer : List Report}
    (hOk : Run.StepsMeet report ReportOk s answer) : (answer.foldl report s).Inv := by
  have hStep : ∀ s r, Inv s → ReportOk s r → Inv (report s r) :=
    fun _ r h hOk => report_inv h r hOk
  exact Run.inv_of_stepsMeet hStep h hOk _ (Run.foldl_mem_states s answer)

theorem Inv.ask (h : s.Inv) (status : OnlineStatus) (reason : StatusMessage) :
    (s.ask status reason).Inv :=
  ⟨h.sound, h.few, h.counted, h.quiet, h.attempts⟩

/-- An account that the user has disconnected does not come to an attempt. -/
theorem Inv.reconnect (h : s.Inv) (hArmed : s.manual = false) {answer : List Report}
    (hOk : s.ReconnectOk answer) : (s.reconnect answer).Inv := by
  unfold ReconnectingAccount.reconnect
  split
  · exact h
  · next hOffline =>
    have hAttempt : s.attempt.Inv := by
      refine ⟨h.sound, h.few, h.counted, h.quiet, ?_⟩
      intro hMem
      rcases List.mem_append.1 hMem with hMem | hMem
      · exact h.attempts hMem
      · rw [hArmed, List.mem_singleton] at hMem
        cases hMem
    exact reports_inv hAttempt (hOk (Bool.eq_false_iff.2 hOffline))

/-- Reports without a manual disconnect leave it at what the user wanted before. -/
theorem manual_report (r : Report) (hr : ¬ Report.IsManual r) : (s.report r).manual = s.manual := by
  cases r with
  | ownChange c =>
    simp only [report, setMyself]
    split
    · rfl
    · split <;> split <;> rfl
  | allContactsStatus => rfl
  | disconnected reason setting networking =>
    have hReason : reason ≠ .manual := hr
    simp only [report, disconnected_eq]
    cases reaction reason setting networking with
    | later =>
      dsimp only
      split
      · simp [hReason]
      · split
        · simp [startTimed, startReconnectTimer, hReason]
        · split <;> simp [startTimed, startReconnectTimer, hReason]
    | _ => simp [startReconnectTimer, setReconnectOnNetwork, stopReconnectTimer, hReason]

theorem manual_reports {answer : List Report} (hAnswer : ∀ r ∈ answer, ¬ Report.IsManual r) :
    (answer.foldl report s).manual = s.manual := by
  induction answer generalizing s with
  | nil => rfl
  | cons r answer ih =>
    have hRest : ∀ r' ∈ answer, ¬ Report.IsManual r' :=
      fun r' hr' => hAnswer r' (List.mem_cons_of_mem _ hr')
    rw [List.foldl_cons, ih hRest, manual_report r (hAnswer r List.mem_cons_self)]

theorem excludeConnect_report (r : Report) :
    (s.report r).account.excludeConnect = s.account.excludeConnect := by
  cases r with
  | ownChange c =>
    have hExclude := (flags_setMyself s.account c).2
    simp only [report, setMyself]
    split
    · rfl
    · split <;> split <;> exact hExclude
  | allContactsStatus => rfl
  | disconnected reason setting networking =>
    simp only [report, disconnected_eq]
    cases reaction reason setting networking with
    | later =>
      dsimp only
      split
      · rfl
      · split
        · rfl
        · split <;> rfl
    | _ => rfl

theorem excludeConnect_reports (answer : List Report) :
    (answer.foldl report s).account.excludeConnect = s.account.excludeConnect := by
  induction answer generalizing s with
  | nil => rfl
  | cons r answer ih => rw [List.foldl_cons, ih, excludeConnect_report]

/-- The network is lost: what the loss sets the flag for is an account that the user has not
disconnected, or one that does not reconnect. -/
theorem Inv.networkLost (h : s.Inv) (setting : Bool) {answer : List Report}
    (hOk : Run.StepsMeet report ReportOk (s.ask (.ofType .offline) ⟨"", ""⟩) answer)
    (hFound : setting = true → s.account.excludeConnect = false →
      s.manual = false ∧ ∀ r ∈ answer, ¬ Report.IsManual r) :
    Inv (let s := s.setOnlineStatus (.ofType .offline) ⟨"", ""⟩ answer
      if setting then s.setReconnectOnNetwork true else s) := by
  have hAsked := reports_inv (h.ask (.ofType .offline) ⟨"", ""⟩) hOk
  cases setting with
  | false => exact hAsked
  | true =>
    refine ⟨hAsked.sound, hAsked.few, hAsked.counted, ?_, hAsked.attempts⟩
    intro hManual
    refine ⟨(hAsked.quiet hManual).1, ?_⟩
    intro _
    refine Eq.trans (excludeConnect_reports (s := s.ask _ _) answer) ?_
    by_contra hExclude
    obtain ⟨hBefore, hAnswer⟩ := hFound rfl (Bool.eq_false_iff.2 hExclude)
    have hAfter := manual_reports (s := s.ask (.ofType .offline) ⟨"", ""⟩) hAnswer
    exact Bool.false_ne_true (hBefore.symm.trans (hAfter.symm.trans hManual))

theorem Inv.slotStopSuppression (h : s.Inv) : s.slotStopSuppression.Inv := by
  unfold ReconnectingAccount.slotStopSuppression
  dsimp only
  split
  · exact ⟨h.sound, Nat.zero_le _, Nat.le_refl _, h.quiet, h.attempts⟩
  · exact ⟨h.sound, h.few, h.counted, h.quiet, h.attempts⟩

/-- A timer goes off. -/
theorem Inv.stopped (h : s.Inv) {id : Nat} {o : AccountTimer} {timers : Timers.Loop AccountTimer}
    (hExpire : s.timers.expire id = some (o, timers)) : Inv { s with timers := timers } := by
  obtain ⟨hSound, rfl, -⟩ := h.sound.expire hExpire
  refine ⟨hSound, h.few, h.counted, ?_, h.attempts⟩
  intro hManual
  obtain ⟨hInactive, hFlag⟩ := h.quiet hManual
  refine ⟨?_, hFlag⟩
  simp only [Timers.Loop.isActive_stop]
  split
  · rfl
  · exact hInactive

/-- **One event.** -/
theorem step_inv (h : s.Inv) (e : Event) (hOk : s.EventOk e) : (s.step e).Inv := by
  cases e with
  | report r => exact report_inv h r hOk
  | networkingStatusChanged setting status answer =>
    cases status with
    | connected =>
      simp only [step, networkingStatusChanged]
      split
      · next hFlag =>
        rw [Bool.and_eq_true, Bool.not_eq_true'] at hFlag
        refine h.reconnect ?_ (hOk hFlag.1 hFlag.2)
        refine Bool.eq_false_iff.2 ?_
        intro hManual
        have hExclude := (h.quiet hManual).2 hFlag.1
        rw [hFlag.2] at hExclude
        cases hExclude
      · exact h
    | unconnected => exact h.networkLost setting hOk.1 hOk.2
    | disconnecting => exact h.networkLost setting hOk.1 hOk.2
    | unknown => exact h
    | connecting => exact h
  | timeout id answer =>
    simp only [step, timeout]
    split
    · next timers hExpire =>
      refine (h.stopped hExpire).reconnect ?_ (hOk timers hExpire)
      refine Bool.eq_false_iff.2 ?_
      intro hManual
      exact Timers.Loop.expire_of_inactive (h.quiet hManual).1 id timers hExpire
    · next timers hExpire => exact (h.stopped hExpire).slotStopSuppression
    · exact h
  | setOnlineStatus status reason answer =>
    refine reports_inv (s := s.userAsks status reason) ?_ hOk
    refine ⟨h.sound, h.few, h.counted, ?_, h.attempts⟩
    intro hManual
    exact h.quiet (Bool.and_eq_true_iff.1 hManual).1

/-! ## One timer -/

theorem sound_report (h : s.timers.Sound) (r : Report) : (s.report r).timers.Sound := by
  cases r with
  | ownChange c =>
    simp only [report, setMyself]
    split
    · exact h
    · split
      · split
        · exact (h.start _ _).start _ _
        · exact h.start _ _
      · split
        · exact h.start _ _
        · exact h
  | allContactsStatus => exact h.start _ _
  | disconnected reason setting networking =>
    simp only [report, disconnected_eq]
    cases reaction reason setting networking with
    | atOnce => exact h.start _ _
    | withNetwork => exact h.stop _
    | later =>
      dsimp only
      split
      · exact h
      · split
        · exact h.start _ _
        · split
          · exact h.start _ _
          · exact h
    | never => exact h.stop _

theorem sound_reports (h : s.timers.Sound) (answer : List Report) :
    (answer.foldl report s).timers.Sound := by
  induction answer generalizing s with
  | nil => exact h
  | cons r answer ih => exact ih (sound_report h r)

theorem sound_reconnect (h : s.timers.Sound) (answer : List Report) :
    (s.reconnect answer).timers.Sound := by
  unfold reconnect
  split
  · exact h
  · exact sound_reports (s := s.attempt) h answer

theorem sound_step (h : s.timers.Sound) (e : Event) : (s.step e).timers.Sound := by
  cases e with
  | report r => exact sound_report h r
  | networkingStatusChanged setting status answer =>
    have hLost : (s.setOnlineStatus (.ofType .offline) ⟨"", ""⟩ answer).timers.Sound :=
      sound_reports (s := s.ask _ _) h answer
    cases status with
    | connected =>
      simp only [step, networkingStatusChanged]
      split
      · exact sound_reconnect h answer
      · exact h
    | unconnected => cases setting <;> exact hLost
    | disconnecting => cases setting <;> exact hLost
    | unknown => exact h
    | connecting => exact h
  | timeout id answer =>
    simp only [step, timeout]
    split
    · next timers hExpire =>
      exact sound_reconnect (s := { s with timers := timers }) (h.expire hExpire).1 answer
    · next timers hExpire =>
      unfold slotStopSuppression
      dsimp only
      split <;> exact (h.expire hExpire).1
    · exact h
  | setOnlineStatus status reason answer =>
    exact sound_reports (s := s.userAsks status reason) h answer

/-! ## Runs -/

/-- **Reconnects.** An account never has two reconnect timers running. In a run in which
nothing lets it reconnect after the user has disconnected it, until the user sets it
online, it does not come to an attempt to reconnect in between; and at most ten
reconnects are timed until it has been connected for the suppression period. -/
theorem reconnects_kept (a : Account) (events : List Event) :
    (∀ t ∈ Run.states step (new a) events, (t.timers.entriesOf .reconnect).length ≤ 1) ∧
      (Run.StepsMeet step EventOk (new a) events →
        ∀ t ∈ Run.states step (new a) events, true ∉ t.attempts ∧ t.started ≤ 10) := by
  constructor
  · intro t ht
    have hStep : ∀ s e, s.timers.Sound → True → (step s e).timers.Sound :=
      fun _ e h _ => sound_step h e
    have hSound := Run.inv_of_stepsMeet hStep Timers.Loop.sound_idle
      (Run.stepsMeet_of_forall (fun _ _ => trivial) (new a) events) t ht
    exact hSound.pending_le_one .reconnect
  · intro hOk t ht
    have hStep : ∀ s e, Inv s → EventOk s e → Inv (step s e) := fun _ e h hOk => step_inv h e hOk
    have hInv := Run.inv_of_stepsMeet hStep (inv_new a) hOk t ht
    exact ⟨hInv.attempts, hInv.few⟩

/-- An account that is offline. -/
def someAccount : Account where
  protocol := 1
  onlineStatus := .ofType .offline
  restoreStatus := .ofType .online
  restoreMessage := ⟨"", ""⟩
  reconnectOnNetworkIsOnline := false
  excludeConnect := false
  suspended := false
  suspendStatus := .ofType .offline
  asked := []

/-- The connection is lost, and comes back by the timer; then the user disconnects. -/
def lostAndBack : List Event :=
  [.report (.disconnected .unknown true .connected),
    .timeout 0 [.ownChange ⟨.ofType .online, ⟨"", ""⟩⟩],
    .report (.disconnected .manual true .connected)]

theorem reconnects_kept_lostAndBack :
    ∀ t ∈ Run.states step (new someAccount) lostAndBack, true ∉ t.attempts ∧ t.started ≤ 10 := by
  refine (reconnects_kept someAccount lostAndBack).2 ⟨⟨?_, ?_⟩, ?_, ⟨?_, ?_⟩, trivial⟩
  · intro _
    decide
  · intro hManual
    cases hManual
  · intro timers _ _
    exact ⟨trivial, trivial⟩
  · exact trivial
  · intro _ hArms
    exact hArms

/-- The user disconnects, the network goes and comes back, and the account reconnects. -/
theorem network_undoes_manual :
    ∃ t ∈ Run.states step (new someAccount)
        [.report (.disconnected .manual true .connected),
          .networkingStatusChanged true .unconnected [],
          .networkingStatusChanged true .connected []],
      t.attempts = [true] :=
  ⟨_, Run.foldl_mem_states _ _, by decide⟩

end ReconnectingAccount

end Kopete
