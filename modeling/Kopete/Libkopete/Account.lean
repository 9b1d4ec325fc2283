import Mathlib

/-!
# libkopete — an account, suspended and resumed

An account asks its protocol for a status and learns later, or before the call returns,
which status it has: `myself` reports its own changes. Suspending an account remembers
its status, asks for Offline and sets a flag; resuming it asks for what was remembered.
But the flag falls with any change of the account's own status, the one to Offline that
the suspension asked for included.

Main results:

* `setMyselfAll_heard`, `Heard.trans` — what is left of a suspension after own changes;
* `suspend_spec`, `keptStatus_of_online` — what a suspension remembers;
* `restored_iff`, `untouched_iff` — what resuming an account does, exactly.
-/

namespace Kopete

/-- `OnlineStatus::StatusType`. -/
inductive StatusType where
  | unknown
  | offline
  | connecting
  | invisible
  | away
  | busy
  | online
deriving DecidableEq, Repr

/-- `OnlineStatus`: its type, and what two of them are compared by. `protocol` is `none`
for the null pointer. -/
structure OnlineStatus where
  status : StatusType
  internalStatus : Nat
  weight : Nat
  protocol : Option Nat
  overlayIcons : List String
  description : String
deriving DecidableEq, Repr

namespace OnlineStatus

/-- `OnlineStatus(StatusType)`. -/
def ofType (status : StatusType) : OnlineStatus where
  status := status
  internalStatus := 0
  weight := 0
  protocol := none
  overlayIcons :=
    match status with
    | .online | .away | .connecting | .invisible | .offline => []
    | .unknown | .busy => ["status_unknown"]
  description :=
    match status with
    | .online => "Online"
    | .away => "Away"
    | .connecting => "Connecting"
    | .invisible => "Invisible"
    | .offline => "Offline"
    | .unknown | .busy => "Unknown"

/-- `operator==`, which does not compare the type. -/
def same (s t : OnlineStatus) : Bool :=
  s.internalStatus = t.internalStatus ∧ s.protocol = t.protocol ∧ s.weight = t.weight ∧
    s.overlayIcons = t.overlayIcons ∧ s.description = t.description

/-- `OnlineStatus::isDefinitelyOnline`. -/
def isDefinitelyOnline (s : OnlineStatus) : Bool :=
  s.status ≠ .offline ∧ s.status ≠ .connecting ∧ s.status ≠ .unknown

theorem not_connecting_of_isDefinitelyOnline {s : OnlineStatus}
    (hs : s.isDefinitelyOnline = true) : s.status ≠ .connecting := by
  simp only [isDefinitelyOnline, decide_eq_true_eq] at hs
  exact hs.2.1

end OnlineStatus

/-- `StatusMessage`. -/
structure StatusMessage where
  title : String
  message : String
deriving DecidableEq, Repr

/-- `Solid::Networking::Status`. -/
inductive NetworkingStatus where
  | unknown
  | unconnected
  | disconnecting
  | connecting
  | connected
deriving DecidableEq, Repr

/-- A change of the account's own status: `Contact::setOnlineStatus` on `myself`, and the
status title and message that `myself` has then. -/
structure OwnChange where
  status : OnlineStatus
  message : StatusMessage
deriving DecidableEq, Repr

/-- `Account`: what suspending, resuming and reconnecting read, the status of `myself`, and
every call of the protocol's `setOnlineStatus` so far. -/
structure Account where
  protocol : Nat
  onlineStatus : OnlineStatus
  restoreStatus : OnlineStatus
  restoreMessage : StatusMessage
  reconnectOnNetworkIsOnline : Bool
  excludeConnect : Bool
  suspended : Bool
  suspendStatus : OnlineStatus
  asked : List (OnlineStatus × StatusMessage)
deriving DecidableEq

namespace Account

variable (a : Account)

/-- `Account::slotOnlineStatusChanged`. -/
def slotOnlineStatusChanged (newStatus : OnlineStatus) (message : StatusMessage) : Account :=
  let a : Account := { a with suspended := false }
  if newStatus.isDefinitelyOnline then
    { a with restoreStatus := newStatus, restoreMessage := message }
  else a

/-- `Contact::setOnlineStatus` on `myself`, which says nothing of a status it has already. -/
def setMyself (c : OwnChange) : Account :=
  if c.status.same a.onlineStatus then a
  else { a with onlineStatus := c.status }.slotOnlineStatusChanged c.status c.message

/-- Own changes, one after the other. -/
def setMyselfAll (cs : List OwnChange) : Account := cs.foldl setMyself a

/-- The protocol's `Account::setOnlineStatus`: it is asked for a status, and makes the own
changes in `answer` before it returns; others may come later. -/
def setOnlineStatus (status : OnlineStatus) (reason : StatusMessage) (answer : List OwnChange) :
    Account :=
  { a with asked := a.asked ++ [(status, reason)] }.setMyselfAll answer

/-- `Account::isConnected`. -/
def isConnected : Bool := a.onlineStatus.isDefinitelyOnline

/-- `Account::reconnect`. -/
def reconnect (answer : List OwnChange) : Account :=
  if a.isConnected then a else a.setOnlineStatus a.restoreStatus a.restoreMessage answer

/-- `Account::networkingStatusChanged`. -/
def networkingStatusChanged (reconnectOnDisconnect : Bool) (status : NetworkingStatus)
    (answer : List OwnChange) : Account :=
  match status with
  | .connected =>
    if a.reconnectOnNetworkIsOnline && !a.excludeConnect then a.reconnect answer else a
  | .unconnected | .disconnecting =>
    let a := a.setOnlineStatus (.ofType .offline) ⟨"", ""⟩ answer
    if reconnectOnDisconnect then { a with reconnectOnNetworkIsOnline := true } else a
  | .unknown | .connecting => a

/-- The status that `Account::suspend` remembers. -/
def statusToKeep : OnlineStatus :=
  if a.onlineStatus.status = .connecting then a.restoreStatus else a.onlineStatus

/-- `Account::suspend`. -/
def suspend (reason : StatusMessage) (answer : List OwnChange) : Bool × Account :=
  if a.suspended then (false, a)
  else
    let a : Account := { a with suspendStatus := a.statusToKeep }
    (true, { a.setOnlineStatus (.ofType .offline) reason answer with suspended := true })

/-- `Account::resume`. -/
def resume (answer : List OwnChange) : Bool × Account :=
  if !a.suspended then (false, a)
  else if a.suspendStatus.same (.ofType .offline) then (true, a)
  else (true, a.setOnlineStatus a.suspendStatus a.restoreMessage answer)

/-- A new account: no suspension, and nothing asked for yet. -/
structure New : Prop where
  suspended : a.suspended = false
  suspendStatus : a.suspendStatus = .ofType .offline
  restoreStatus : a.restoreStatus = .ofType .online
  restoreMessage : a.restoreMessage = ⟨"", ""⟩
  reconnectOnNetworkIsOnline : a.reconnectOnNetworkIsOnline = false
  asked : a.asked = []

/-! ## What own changes leave of a suspension -/

/-- Some of the changes is news to an account whose own status is `s`. -/
def Hears (s : OnlineStatus) (cs : List OwnChange) : Prop := ∃ c ∈ cs, c.status.same s = false

instance (s : OnlineStatus) (cs : List OwnChange) : Decidable (Hears s cs) :=
  inferInstanceAs (Decidable (∃ c ∈ cs, c.status.same s = false))

theorem not_hears_nil (s : OnlineStatus) : ¬ Hears s [] := by
  rintro ⟨c, hc, -⟩
  exact List.not_mem_nil hc

theorem hears_append {s : OnlineStatus} {cs ds : List OwnChange} :
    Hears s (cs ++ ds) ↔ Hears s cs ∨ Hears s ds := by
  constructor
  · rintro ⟨c, hc, hnew⟩
    cases List.mem_append.mp hc with
    | inl hc => exact Or.inl ⟨c, hc, hnew⟩
    | inr hc => exact Or.inr ⟨c, hc, hnew⟩
  · rintro (⟨c, hc, hnew⟩ | ⟨c, hc, hnew⟩)
    · exact ⟨c, List.mem_append_left ds hc, hnew⟩
    · exact ⟨c, List.mem_append_right cs hc, hnew⟩

/-- `b` is `a` after the own changes `cs`, and perhaps some requests: what was remembered
stays, and the flag stays up until the first change that is news. -/
structure Heard (a : Account) (cs : List OwnChange) (b : Account) : Prop where
  suspendStatus : b.suspendStatus = a.suspendStatus
  suspended : b.suspended = true ↔ a.suspended = true ∧ ¬ Hears a.onlineStatus cs
  onlineStatus : ¬ Hears a.onlineStatus cs → b.onlineStatus = a.onlineStatus

variable {a}

theorem heard_refl : Heard a [] a where
  suspendStatus := rfl
  suspended := ⟨fun ha => ⟨ha, not_hears_nil _⟩, fun ha => ha.1⟩
  onlineStatus _ := rfl

theorem Heard.trans {b c : Account} {cs ds : List OwnChange} (hab : Heard a cs b)
    (hbc : Heard b ds c) : Heard a (cs ++ ds) c where
  suspendStatus := hbc.suspendStatus.trans hab.suspendStatus
  suspended := by
    rw [hbc.suspended, hab.suspended, hears_append, not_or]
    constructor
    · rintro ⟨⟨ha, hcs⟩, hds⟩
      rw [hab.onlineStatus hcs] at hds
      exact ⟨ha, hcs, hds⟩
    · rintro ⟨ha, hcs, hds⟩
      rw [hab.onlineStatus hcs]
      exact ⟨⟨ha, hcs⟩, hds⟩
  onlineStatus h := by
    rw [hears_append, not_or] at h
    have hb := hab.onlineStatus h.1
    rw [hbc.onlineStatus (by rw [hb]; exact h.2), hb]

theorem setMyself_heard (a : Account) (c : OwnChange) : Heard a [c] (a.setMyself c) := by
  unfold setMyself
  cases hc : c.status.same a.onlineStatus with
  | true =>
    have hquiet : ¬ Hears a.onlineStatus [c] := by
      rintro ⟨d, hd, hnew⟩
      rw [List.mem_singleton.mp hd, hc] at hnew
      exact Bool.noConfusion hnew
    exact ⟨rfl, ⟨fun ha => ⟨ha, hquiet⟩, fun ha => ha.1⟩, fun _ => rfl⟩
  | false =>
    have hnews : Hears a.onlineStatus [c] := ⟨c, List.mem_singleton_self c, hc⟩
    rw [if_neg Bool.false_ne_true]
    refine ⟨?_, ⟨fun h => ?_, fun ha => absurd hnews ha.2⟩, fun hquiet => absurd hnews hquiet⟩
    · unfold slotOnlineStatusChanged
      split <;> rfl
    · unfold slotOnlineStatusChanged at h
      split at h <;> exact Bool.noConfusion h

theorem setMyselfAll_heard (a : Account) (cs : List OwnChange) :
    Heard a cs (a.setMyselfAll cs) := by
  induction cs generalizing a with
  | nil => exact heard_refl
  | cons c cs ih => exact (setMyself_heard a c).trans (ih (a.setMyself c))

theorem setOnlineStatus_heard (a : Account) (status : OnlineStatus) (reason : StatusMessage)
    (answer : List OwnChange) : Heard a answer (a.setOnlineStatus status reason answer) :=
  let h := setMyselfAll_heard { a with asked := a.asked ++ [(status, reason)] } answer
  ⟨h.suspendStatus, h.suspended, h.onlineStatus⟩

/-- The own changes an account makes when the network is lost. -/
def networkChanges (status : NetworkingStatus) (answer : List OwnChange) : List OwnChange :=
  match status with
  | .unconnected | .disconnecting => answer
  | .unknown | .connecting | .connected => []

theorem networkingStatusChanged_heard (a : Account) (setting : Bool) {status : NetworkingStatus}
    (answer : List OwnChange) (hstatus : status ≠ .connected) :
    Heard a (networkChanges status answer) (a.networkingStatusChanged setting status answer) := by
  have hlost : Heard a answer
      (let a := a.setOnlineStatus (.ofType .offline) ⟨"", ""⟩ answer
       if setting then { a with reconnectOnNetworkIsOnline := true } else a) := by
    have h := setOnlineStatus_heard a (.ofType .offline) ⟨"", ""⟩ answer
    cases setting with
    | true => exact ⟨h.suspendStatus, h.suspended, h.onlineStatus⟩
    | false => exact h
  cases status with
  | unconnected => exact hlost
  | disconnecting => exact hlost
  | unknown => exact heard_refl
  | connecting => exact heard_refl
  | connected => exact absurd rfl hstatus

/-! ## What a suspended account remembers -/

/-- An account that is suspended and online has its status remembered: any change of it
since the suspension would have taken the flag down. -/
def Recorded (a : Account) : Prop :=
  a.suspended = true → a.onlineStatus.isDefinitelyOnline = true →
    a.suspendStatus = a.onlineStatus

/-- An answer to a request for Offline: whatever the protocol reports, it is not online. -/
def Obeys (answer : List OwnChange) : Prop := ∀ c ∈ answer, c.status.isDefinitelyOnline = false

instance (answer : List OwnChange) : Decidable (Obeys answer) :=
  inferInstanceAs (Decidable (∀ c ∈ answer, c.status.isDefinitelyOnline = false))

theorem New.recorded (ha : a.New) : a.Recorded := by
  intro hsuspended
  rw [ha.suspended] at hsuspended
  exact Bool.noConfusion hsuspended

theorem Heard.recorded {cs : List OwnChange} {b : Account} (hab : Heard a cs b)
    (ha : a.Recorded) : b.Recorded := by
  intro hb honline
  obtain ⟨hsuspended, hquiet⟩ := hab.suspended.mp hb
  have hsame := hab.onlineStatus hquiet
  rw [hsame] at honline ⊢
  rw [hab.suspendStatus, ha hsuspended honline]

theorem Recorded.reconnect (ha : a.Recorded) (answer : List OwnChange) :
    (a.reconnect answer).Recorded := by
  unfold Account.reconnect
  split
  · exact ha
  · exact (setOnlineStatus_heard a _ _ answer).recorded ha

theorem Recorded.networkingStatusChanged (ha : a.Recorded) (setting : Bool)
    (status : NetworkingStatus) (answer : List OwnChange) :
    (a.networkingStatusChanged setting status answer).Recorded := by
  by_cases hstatus : status = .connected
  · subst hstatus
    unfold Account.networkingStatusChanged
    dsimp only
    split
    · exact ha.reconnect answer
    · exact ha
  · exact (networkingStatusChanged_heard a setting answer hstatus).recorded ha

/-- The account's own status after a run of own changes. -/
def statusAfter (s : OnlineStatus) (cs : List OwnChange) : OnlineStatus :=
  cs.foldl (fun s c => if c.status.same s then s else c.status) s

theorem onlineStatus_setMyself (a : Account) (c : OwnChange) :
    (a.setMyself c).onlineStatus =
      if c.status.same a.onlineStatus then a.onlineStatus else c.status := by
  unfold setMyself slotOnlineStatusChanged
  split
  · rfl
  · dsimp only
    split <;> rfl

theorem onlineStatus_setMyselfAll (a : Account) (cs : List OwnChange) :
    (a.setMyselfAll cs).onlineStatus = statusAfter a.onlineStatus cs := by
  induction cs generalizing a with
  | nil => rfl
  | cons c cs ih =>
    have hrest := ih (a.setMyself c)
    rw [onlineStatus_setMyself] at hrest
    exact hrest

theorem onlineStatus_setOnlineStatus (a : Account) (status : OnlineStatus)
    (reason : StatusMessage) (answer : List OwnChange) :
    (a.setOnlineStatus status reason answer).onlineStatus = statusAfter a.onlineStatus answer :=
  onlineStatus_setMyselfAll { a with asked := a.asked ++ [(status, reason)] } answer

/-- An account whose answer is never online is online afterwards only with the status it
had. -/
theorem statusAfter_eq_of_obeys {s : OnlineStatus} {answer : List OwnChange}
    (hobeys : Obeys answer) (honline : (statusAfter s answer).isDefinitelyOnline = true) :
    statusAfter s answer = s := by
  induction answer generalizing s with
  | nil => rfl
  | cons c cs ih =>
    have hcs : Obeys cs := fun d hd => hobeys d (List.mem_cons_of_mem c hd)
    have hcons : statusAfter s (c :: cs) =
        statusAfter (if c.status.same s then s else c.status) cs := rfl
    rw [hcons] at honline ⊢
    have hrest := ih hcs honline
    rw [hrest] at honline ⊢
    split
    · rfl
    · rename_i hnew
      rw [if_neg hnew, hobeys c List.mem_cons_self] at honline
      exact Bool.noConfusion honline

/-- The account's own status when `Account::suspend` returns. -/
def settledStatus (a : Account) (answer : List OwnChange) : OnlineStatus :=
  if a.suspended then a.onlineStatus else statusAfter a.onlineStatus answer

/-- What is remembered when `Account::suspend` returns. -/
def keptStatus (a : Account) : OnlineStatus :=
  if a.suspended then a.suspendStatus else a.statusToKeep

/-- What `Account::suspend` leaves, whether or not the account was suspended already. -/
theorem suspend_spec (a : Account) (reason : StatusMessage) (answer : List OwnChange) :
    (a.suspend reason answer).2.suspended = true ∧
      (a.suspend reason answer).2.suspendStatus = a.keptStatus ∧
      (a.suspend reason answer).2.onlineStatus = a.settledStatus answer := by
  unfold suspend keptStatus settledStatus
  by_cases ha : a.suspended = true
  · rw [if_pos ha, if_pos ha, if_pos ha]
    exact ⟨ha, rfl, rfl⟩
  · rw [if_neg ha, if_neg ha, if_neg ha]
    refine ⟨rfl, ?_, ?_⟩
    · exact (setOnlineStatus_heard { a with suspendStatus := a.statusToKeep } _ reason
        answer).suspendStatus
    · exact onlineStatus_setOnlineStatus { a with suspendStatus := a.statusToKeep } _ reason answer

/-- An online account that is suspended has its own status remembered. -/
theorem keptStatus_of_online (ha : a.Recorded)
    (honline : a.onlineStatus.isDefinitelyOnline = true) : a.keptStatus = a.onlineStatus := by
  unfold keptStatus
  split
  · rename_i hsuspended
    exact ha hsuspended honline
  · unfold statusToKeep
    rw [if_neg (OnlineStatus.not_connecting_of_isDefinitelyOnline honline)]

theorem Recorded.suspend (ha : a.Recorded) (reason : StatusMessage) {answer : List OwnChange}
    (hobeys : Obeys answer) : (a.suspend reason answer).2.Recorded := by
  obtain ⟨-, hkept, hstatus⟩ := suspend_spec a reason answer
  intro _ honline
  rw [hstatus] at honline ⊢
  have hsettled : a.settledStatus answer = a.onlineStatus := by
    unfold settledStatus at honline ⊢
    split
    · rfl
    · rename_i hsuspended
      rw [if_neg hsuspended] at honline
      exact statusAfter_eq_of_obeys hobeys honline
  rw [hsettled] at honline
  rw [hkept, hsettled, keptStatus_of_online ha honline]

/-! ## What resuming does -/

theorem Recorded.resume (ha : a.Recorded) (answer : List OwnChange) :
    (a.resume answer).2.Recorded := by
  unfold Account.resume
  split
  · exact ha
  · split
    · exact ha
    · exact (setOnlineStatus_heard a _ _ answer).recorded ha

/-- Resuming an account asks its protocol for something. -/
def WillAsk (a : Account) : Prop :=
  a.suspended = true ∧ a.suspendStatus.same (.ofType .offline) = false

theorem asked_setMyself (a : Account) (c : OwnChange) : (a.setMyself c).asked = a.asked := by
  unfold setMyself slotOnlineStatusChanged
  split
  · rfl
  · dsimp only
    split <;> rfl

theorem asked_setMyselfAll (a : Account) (cs : List OwnChange) :
    (a.setMyselfAll cs).asked = a.asked := by
  induction cs generalizing a with
  | nil => rfl
  | cons c cs ih => exact (ih (a.setMyself c)).trans (asked_setMyself a c)

theorem asked_setOnlineStatus (a : Account) (status : OnlineStatus) (reason : StatusMessage)
    (answer : List OwnChange) :
    (a.setOnlineStatus status reason answer).asked = a.asked ++ [(status, reason)] :=
  asked_setMyselfAll { a with asked := a.asked ++ [(status, reason)] } answer

theorem resume_eq_of_willAsk (ha : a.WillAsk) (answer : List OwnChange) :
    (a.resume answer).2 = a.setOnlineStatus a.suspendStatus a.restoreMessage answer := by
  simp [Account.resume, ha.1, ha.2]

theorem resume_eq_of_not_willAsk (ha : ¬ a.WillAsk) (answer : List OwnChange) :
    (a.resume answer).2 = a := by
  unfold Account.resume
  split
  · rfl
  · split
    · rfl
    · rename_i hsuspended hkept
      refine absurd ⟨?_, Bool.eq_false_iff.mpr hkept⟩ ha
      simpa using hsuspended

/-- The last thing that was asked of the protocol between `b` and `c` is the status `s`. -/
def Restored (s : OnlineStatus) (b c : Account) : Prop :=
  ∃ reason, c.asked = b.asked ++ [(s, reason)]

/-- **An account is asked for its status exactly if it is still suspended and remembers
it.** -/
theorem restored_iff (a : Account) (s : OnlineStatus) (answer : List OwnChange) :
    Restored s a (a.resume answer).2 ↔ a.WillAsk ∧ a.suspendStatus = s := by
  by_cases ha : a.WillAsk
  · unfold Restored
    rw [resume_eq_of_willAsk ha, asked_setOnlineStatus]
    constructor
    · rintro ⟨reason, hr⟩
      have hpair := List.singleton_inj.mp (List.append_cancel_left hr)
      exact ⟨ha, congrArg Prod.fst hpair⟩
    · rintro ⟨-, rfl⟩
      exact ⟨a.restoreMessage, rfl⟩
  · constructor
    · rintro ⟨reason, hr⟩
      rw [resume_eq_of_not_willAsk ha] at hr
      have hlen := congrArg List.length hr
      simp at hlen
    · rintro ⟨h, -⟩
      exact absurd h ha

/-- **An account is left alone exactly if there is nothing to ask for.** -/
theorem untouched_iff (a : Account) (answer : List OwnChange) :
    (a.resume answer).2 = a ↔ ¬ a.WillAsk := by
  constructor
  · intro h ha
    have hasked : (a.resume answer).2.asked = a.asked := congrArg Account.asked h
    rw [resume_eq_of_willAsk ha, asked_setOnlineStatus] at hasked
    simp at hasked
  · intro ha
    exact resume_eq_of_not_willAsk ha answer

end Account

end Kopete
