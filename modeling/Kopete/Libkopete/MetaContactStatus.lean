import Kopete.Lib.QList
import Kopete.Lib.Run
import Kopete.Libkopete.Account
import Mathlib

/-!
# libkopete — the status of a metacontact

A metacontact keeps the status type of its contact that is most online. The status of a
contact is hidden while its account is not connected, so that it changes with the status
of the account's own contact, too: the account hears of that change, says that it has
come online or gone offline, each of its contacts says that its status has changed, and
the metacontact looks at all of its contacts again. Signals are delivered in any order.

Main results:

* `greatestType_iff` — what the loop over the contacts finds;
* `inv_setOnlineStatus`, `inv_deliver`, `step_inv` — a metacontact is right about its
  status, or a signal is under way that will make it look again;
* `status_greatest_iff` — which metacontacts are right once all signals are delivered.
-/

namespace Kopete

/-! ## The order of statuses -/

def StatusType.value : StatusType → Nat
  | .unknown => 0
  | .offline => 10
  | .connecting => 20
  | .invisible => 30
  | .away => 40
  | .busy => 45
  | .online => 50

theorem StatusType.value_injective {s t : StatusType} (h : s.value = t.value) : s = t := by
  cases s <;> cases t <;> first | rfl | cases h

namespace OnlineStatus

/-- `OnlineStatus()`. -/
def empty : OnlineStatus where
  status := .unknown
  internalStatus := 0
  weight := 0
  protocol := none
  overlayIcons := ["status_unknown"]
  description := ""

/-- `Protocol::accountOfflineStatus`. -/
def accountOffline (protocol : Nat) : OnlineStatus where
  status := .unknown
  internalStatus := 0x80000001
  weight := 0
  protocol := some protocol
  overlayIcons := ["account_offline_overlay"]
  description := "Account Offline"

/-- `operator>`. -/
def gt (s t : OnlineStatus) : Bool :=
  if s.status = t.status then t.weight < s.weight else t.status.value < s.status.value

/-- The loop of `MetaContact::updateOnlineStatus`. -/
def mostSignificant (l : List OnlineStatus) : OnlineStatus :=
  l.foldl (fun most s => if s.gt most then s else most) empty

/-- The status type of the greatest of the statuses, Unknown for none. -/
def GreatestType (l : List OnlineStatus) (t : StatusType) : Prop :=
  (l = [] ∧ t = .unknown) ∨ ∃ s ∈ l, t = s.status ∧ ∀ s' ∈ l, s'.gt s = false

theorem value_empty : empty.status.value = 0 := rfl

theorem weight_empty : empty.weight = 0 := rfl

theorem gt_iff {s t : OnlineStatus} : s.gt t = true ↔
    t.status.value < s.status.value ∨ (t.status.value = s.status.value ∧ t.weight < s.weight) := by
  unfold gt
  split
  · next hSame => simp [hSame]
  · next hOther =>
    have hValue : t.status.value ≠ s.status.value :=
      fun h => hOther (StatusType.value_injective h).symm
    simp [hValue]

theorem gt_eq_false_iff {s t : OnlineStatus} : s.gt t = false ↔
    s.status.value < t.status.value ∨ (s.status.value = t.status.value ∧ s.weight ≤ t.weight) := by
  rw [← Bool.not_eq_true, gt_iff]
  omega

theorem foldl_gt (l : List OnlineStatus) (most : OnlineStatus) :
    let r := l.foldl (fun most s => if s.gt most then s else most) most
    (r = most ∨ r ∈ l) ∧ most.gt r = false ∧ ∀ s ∈ l, s.gt r = false := by
  induction l generalizing most with
  | nil =>
    refine ⟨Or.inl rfl, ?_, by simp⟩
    simp [gt]
  | cons s l ih =>
    simp only [List.foldl_cons]
    obtain ⟨hFrom, hMost, hAll⟩ := ih (if s.gt most then s else most)
    by_cases hGreater : s.gt most = true
    · rw [if_pos hGreater] at hFrom hMost hAll ⊢
      refine ⟨Or.inr ?_, ?_, ?_⟩
      · rcases hFrom with hFrom | hFrom
        · simp [hFrom]
        · exact List.mem_cons_of_mem _ hFrom
      · rw [gt_iff] at hGreater
        rw [gt_eq_false_iff] at hMost ⊢
        omega
      · intro s' hs'
        rcases List.mem_cons.1 hs' with rfl | hs'
        · exact hMost
        · exact hAll s' hs'
    · rw [if_neg hGreater] at hFrom hMost hAll ⊢
      refine ⟨?_, hMost, ?_⟩
      · rcases hFrom with hFrom | hFrom
        · exact Or.inl hFrom
        · exact Or.inr (List.mem_cons_of_mem _ hFrom)
      · intro s' hs'
        rcases List.mem_cons.1 hs' with rfl | hs'
        · rw [Bool.not_eq_true, gt_eq_false_iff] at hGreater
          rw [gt_eq_false_iff] at hMost ⊢
          omega
        · exact hAll s' hs'

/-- **What the loop finds** is the type of the greatest. -/
theorem greatestType_iff (l : List OnlineStatus) (t : StatusType) :
    GreatestType l t ↔ t = (mostSignificant l).status := by
  obtain ⟨hFrom, -, hAll⟩ := foldl_gt l empty
  change mostSignificant l = empty ∨ mostSignificant l ∈ l at hFrom
  change ∀ s ∈ l, s.gt (mostSignificant l) = false at hAll
  constructor
  · rintro (⟨rfl, rfl⟩ | ⟨s, hs, rfl, hGreatest⟩)
    · rfl
    · refine StatusType.value_injective ?_
      have hBelow := gt_eq_false_iff.1 (hAll s hs)
      rcases hFrom with hEmpty | hMem
      · rw [hEmpty, value_empty, weight_empty] at hBelow
        rw [hEmpty, value_empty]
        omega
      · have hAbove := gt_eq_false_iff.1 (hGreatest _ hMem)
        omega
  · rintro rfl
    cases l with
    | nil => exact Or.inl ⟨rfl, rfl⟩
    | cons s l =>
      right
      rcases hFrom with hEmpty | hMem
      · -- all of them are Unknown, with no weight: the first one will do
        rw [hEmpty] at hAll ⊢
        have hNone : ∀ s' ∈ s :: l, s'.status.value = 0 ∧ s'.weight = 0 := by
          intro s' hs'
          have hBelow := gt_eq_false_iff.1 (hAll s' hs')
          rw [value_empty, weight_empty] at hBelow
          omega
        have hFirst := hNone s List.mem_cons_self
        refine ⟨s, List.mem_cons_self, (StatusType.value_injective hFirst.1).symm, ?_⟩
        intro s' hs'
        have hOther := hNone s' hs'
        rw [gt_eq_false_iff]
        omega
      · exact ⟨_, hMem, rfl, hAll⟩

theorem status_mostSignificant (l : List OnlineStatus) (t : StatusType) :
    (mostSignificant l).status = t ↔
      (∀ s ∈ l, s.status.value ≤ t.value) ∧ (t = .unknown ∨ ∃ s ∈ l, s.status = t) := by
  obtain ⟨hFrom, -, hAll⟩ := foldl_gt l empty
  change mostSignificant l = empty ∨ mostSignificant l ∈ l at hFrom
  change ∀ s ∈ l, s.gt (mostSignificant l) = false at hAll
  have hBelow : ∀ s ∈ l, s.status.value ≤ (mostSignificant l).status.value := by
    intro s hs
    have hNot := gt_eq_false_iff.1 (hAll s hs)
    omega
  constructor
  · rintro rfl
    refine ⟨hBelow, ?_⟩
    rcases hFrom with hEmpty | hMem
    · exact Or.inl (by rw [hEmpty]; rfl)
    · exact Or.inr ⟨_, hMem, rfl⟩
  · rintro ⟨hLe, hIs⟩
    refine StatusType.value_injective ?_
    have hUpper : (mostSignificant l).status.value ≤ t.value := by
      rcases hFrom with hEmpty | hMem
      · rw [hEmpty]
        exact Nat.zero_le _
      · exact hLe _ hMem
    rcases hIs with rfl | ⟨s, hs, rfl⟩
    · exact Nat.le_antisymm hUpper (Nat.zero_le _)
    · exact Nat.le_antisymm hUpper (hBelow s hs)

end OnlineStatus

/-! ## Contacts, accounts and metacontacts -/

/-- Signals on their way to a metacontact, to an account, and to the contacts of one. -/
inductive StatusSignal where
  /-- `Contact::onlineStatusChanged`, to the metacontacts of the contact. -/
  | contactStatusChanged (c : Nat)
  /-- `Contact::onlineStatusChanged` of `myself`, to its account. -/
  | ownStatusChanged (a : Nat) (newStatus oldStatus : OnlineStatus)
  /-- `Account::isConnectedChanged`. -/
  | isConnectedChanged (a : Nat)
deriving DecidableEq

/-- The account of a signal that is for one, or comes from one. -/
def StatusSignal.account? : StatusSignal → Option Nat
  | .contactStatusChanged _ => none
  | .ownStatusChanged a _ _ | .isConnectedChanged a => some a

/-- Contacts, accounts and metacontacts by their addresses, what they know of statuses, and
the signals that are not delivered yet. -/
structure StatusWorld where
  /-- The contacts there are. -/
  contacts : List Nat
  /-- `Contact::account`. -/
  account : Nat → Nat
  /-- Whether its account has the contact in its list. -/
  registered : Nat → Bool
  /-- The status of a contact as it was last set. -/
  ownStatus : Nat → OnlineStatus
  /-- `Account::myself`. -/
  myself : Nat → Option Nat
  /-- `Account::protocol`. -/
  protocol : Nat → Nat
  /-- `MetaContact::contacts`. -/
  members : Nat → List Nat
  /-- `MetaContact::status`. -/
  status : Nat → StatusType
  pending : List StatusSignal

namespace StatusWorld

/-- No contacts, and new metacontacts. -/
def init (protocol : Nat → Nat) : StatusWorld where
  contacts := []
  account := fun _ => 0
  registered := fun _ => false
  ownStatus := fun _ => .empty
  myself := fun _ => none
  protocol := protocol
  members := fun _ => []
  status := fun _ => .offline
  pending := []

variable (s : StatusWorld)

/-- `Account::isConnected`. -/
def isConnected (a : Nat) : Bool :=
  match s.myself a with
  | none => false
  | some c => (s.ownStatus c).isDefinitelyOnline

/-- Its status is not hidden. -/
def isShown (c : Nat) : Bool :=
  s.myself (s.account c) = some c || s.isConnected (s.account c)

/-- `Contact::onlineStatus`. -/
def onlineStatus (c : Nat) : OnlineStatus :=
  if s.isShown c then s.ownStatus c else .accountOffline (s.protocol (s.account c))

/-- The statuses of the contacts of a metacontact. -/
def statuses (m : Nat) : List OnlineStatus := (s.members m).map s.onlineStatus

/-- The status type that `MetaContact::updateOnlineStatus` comes to. -/
def newStatus (m : Nat) : StatusType := (OnlineStatus.mostSignificant (s.statuses m)).status

/-- `MetaContact::updateOnlineStatus`. -/
def updateOnlineStatus (m : Nat) : StatusWorld :=
  { s with status := Function.update s.status m (s.newStatus m) }

def setMembers (m : Nat) (cs : List Nat) : StatusWorld :=
  { s with members := Function.update s.members m cs }

def emit (signals : List StatusSignal) : StatusWorld :=
  { s with pending := s.pending ++ signals }

/-- The receivers of `Contact::onlineStatusChanged`. -/
def statusSignals (c : Nat) (newStatus oldStatus : OnlineStatus) : List StatusSignal :=
  .contactStatusChanged c ::
    if s.myself (s.account c) = some c then [.ownStatusChanged (s.account c) newStatus oldStatus]
    else []

def setOwn (c : Nat) (status : OnlineStatus) : StatusWorld :=
  { s with ownStatus := Function.update s.ownStatus c status }

/-- `Contact::setOnlineStatus`. -/
def setOnlineStatus (c : Nat) (status : OnlineStatus) : StatusWorld :=
  if status.same (s.ownStatus c) then s
  else
    let oldStatus := s.ownStatus c
    let s := s.setOwn c status
    if s.isShown c then s.emit (s.statusSignals c status oldStatus) else s

/-- `Account::setAllContactsStatus`. -/
def setAllContactsStatus (a : Nat) (status : OnlineStatus) : StatusWorld :=
  (s.contacts.filter fun c => s.account c = a && s.registered c).foldl
    (fun s c => s.setOnlineStatus c status) s

/-- `Account::slotOnlineStatusChanged`. -/
def slotOnlineStatusChanged (a : Nat) (newStatus oldStatus : OnlineStatus) : StatusWorld :=
  let wasOffline := !oldStatus.isDefinitelyOnline
  let isOffline := !newStatus.isDefinitelyOnline
  let s := if !wasOffline && isOffline then s.setAllContactsStatus a (.ofType .offline) else s
  if wasOffline ≠ isOffline then s.emit [.isConnectedChanged a] else s

/-- `Contact::slotAccountIsConnectedChanged` of all contacts of an account. -/
def slotAccountIsConnectedChanged (a : Nat) : StatusWorld :=
  s.emit ((s.contacts.filter fun c => s.account c = a && s.myself a ≠ some c).map
    .contactStatusChanged)

/-- A signal arrives. -/
def receive : StatusSignal → StatusWorld
  | .contactStatusChanged c =>
    -- `MetaContact::slotContactStatusChanged`
    { s with status := fun m => if c ∈ s.members m then s.newStatus m else s.status m }
  | .ownStatusChanged a newStatus oldStatus => s.slotOnlineStatusChanged a newStatus oldStatus
  | .isConnectedChanged a => s.slotAccountIsConnectedChanged a

/-- What happens to statuses. -/
inductive StatusOp where
  /-- A contact is made, and its account takes it into its list or not. -/
  | newContact (c a : Nat) (registered : Bool)
  /-- `Account::setMyself`. -/
  | setMyself (a c : Nat)
  /-- `MetaContact::addContact`. -/
  | addContact (m c : Nat)
  /-- `MetaContact::removeContact`. -/
  | removeContact (m c : Nat)
  /-- `Contact::setOnlineStatus`. -/
  | setOnlineStatus (c : Nat) (status : OnlineStatus)
  /-- One of the pending signals is delivered. -/
  | deliver (i : Nat)
deriving DecidableEq

def step (s : StatusWorld) : StatusOp → StatusWorld
  | .newContact c a registered =>
    { s with
      contacts := s.contacts ++ [c]
      account := Function.update s.account c a
      registered := Function.update s.registered c registered
      ownStatus := Function.update s.ownStatus c .empty }
  | .setMyself a c =>
    let s := { s with myself := Function.update s.myself a (some c) }
    if s.isConnected a then s.emit [.isConnectedChanged a] else s
  | .addContact m c =>
    if c ∈ s.members m then s
    else (s.setMembers m (s.members m ++ [c])).updateOnlineStatus m
  | .removeContact m c =>
    (s.setMembers m (QList.removeAll (s.members m) c)).updateOnlineStatus m
  | .setOnlineStatus c status => s.setOnlineStatus c status
  | .deliver i =>
    match s.pending[i]? with
    | none => s
    | some sig => { s with pending := s.pending.eraseIdx i }.receive sig

/-- The operation is about contacts that there are; the own contact is set once. -/
def Possible (s : StatusWorld) : StatusOp → Prop
  | .newContact c _ _ => c ∉ s.contacts
  | .setMyself a c => s.myself a = none ∧ c ∈ s.contacts ∧ s.account c = a
  | .addContact _ c => c ∈ s.contacts
  | .removeContact _ _ | .setOnlineStatus _ _ | .deliver _ => True

/-- The own contact that an account is given has a status that its metacontact does not go
by. -/
def MyselfOk (s : StatusWorld) : StatusOp → Prop
  | .setMyself _ c =>
    ∀ m, c ∈ s.members m → (s.ownStatus c).status.value ≤ (s.newStatus m).value
  | .newContact .. | .addContact .. | .removeContact .. | .setOnlineStatus .. | .deliver _ => True

/-- The metacontact is given a contact, or one is taken from it. -/
def StatusOp.Touches (m : Nat) : StatusOp → Prop
  | .addContact m' _ | .removeContact m' _ => m' = m
  | .newContact .. | .setMyself .. | .setOnlineStatus .. | .deliver _ => False

/-! ## Who will look again -/

/-- A contact of the account, and not its own, is in the metacontact. -/
def HasContactOf (m a : Nat) : Prop :=
  ∃ c ∈ s.members m, s.account c = a ∧ s.myself a ≠ some c

/-- The signal will make the metacontact look at its contacts. -/
def Concerns (m : Nat) : StatusSignal → Prop
  | .contactStatusChanged c => c ∈ s.members m
  | .ownStatusChanged a newStatus oldStatus =>
    newStatus.isDefinitelyOnline ≠ oldStatus.isDefinitelyOnline ∧ s.HasContactOf m a
  | .isConnectedChanged a => s.HasContactOf m a

/-- The metacontact is right, or one of the signals makes it look. -/
def Covered (signals : List StatusSignal) (m : Nat) : Prop :=
  s.status m = s.newStatus m ∨ ∃ sig ∈ signals, s.Concerns m sig

/-- Metacontacts that have been touched are covered by the pending signals and by `extra`,
the others are new. -/
structure Inv (touched : Nat → Prop) (extra : List StatusSignal) (s : StatusWorld) : Prop where
  known : ∀ m, ∀ c ∈ s.members m, c ∈ s.contacts
  own : ∀ a c, s.myself a = some c → s.account c = a ∧ c ∈ s.contacts
  live : ∀ sig ∈ s.pending, ∀ a, sig.account? = some a → s.myself a ≠ none
  covered : ∀ m, touched m → s.Covered (s.pending ++ extra) m
  new : ∀ m, ¬ touched m → s.members m = [] ∧ s.status m = .offline

variable {s} {touched : Nat → Prop} {extra : List StatusSignal}

theorem newStatus_congr {t : StatusWorld} {m : Nat} (hMembers : t.members m = s.members m)
    (hStatus : ∀ c ∈ s.members m, t.onlineStatus c = s.onlineStatus c) :
    t.newStatus m = s.newStatus m := by
  unfold newStatus statuses
  rw [hMembers, List.map_congr_left hStatus]

theorem hasContactOf_congr {t : StatusWorld} {m a : Nat} (hMembers : t.members m = s.members m)
    (hAccount : ∀ c ∈ s.members m, t.account c = s.account c) (hMyself : t.myself a = s.myself a) :
    t.HasContactOf m a ↔ s.HasContactOf m a := by
  unfold HasContactOf
  rw [hMembers, hMyself]
  refine exists_congr ?_
  intro c
  refine and_congr_right ?_
  intro hc
  rw [hAccount c hc]

theorem concerns_congr {t : StatusWorld} {m : Nat} {sig : StatusSignal}
    (hMembers : t.members m = s.members m)
    (hAccount : ∀ c ∈ s.members m, t.account c = s.account c)
    (hMyself : ∀ a, sig.account? = some a → t.myself a = s.myself a) :
    t.Concerns m sig ↔ s.Concerns m sig := by
  cases sig with
  | contactStatusChanged c =>
    simp only [Concerns]
    rw [hMembers]
  | ownStatusChanged a newStatus oldStatus =>
    exact and_congr_right fun _ => hasContactOf_congr hMembers hAccount (hMyself a rfl)
  | isConnectedChanged a => exact hasContactOf_congr hMembers hAccount (hMyself a rfl)

theorem isConnected_congr {t : StatusWorld} {a : Nat} (hMyself : t.myself a = s.myself a)
    (hOwn : ∀ c, s.myself a = some c →
      (t.ownStatus c).isDefinitelyOnline = (s.ownStatus c).isDefinitelyOnline) :
    t.isConnected a = s.isConnected a := by
  unfold isConnected
  rw [hMyself]
  cases hSome : s.myself a with
  | none => rfl
  | some c => exact hOwn c hSome

theorem onlineStatus_congr {t : StatusWorld} {c : Nat} (hAccount : t.account c = s.account c)
    (hProtocol : t.protocol = s.protocol) (hMyself : t.myself (s.account c) = s.myself (s.account c))
    (hConnected : t.isConnected (s.account c) = s.isConnected (s.account c))
    (hOwn : s.isShown c = true → t.ownStatus c = s.ownStatus c) :
    t.onlineStatus c = s.onlineStatus c := by
  have hShown : t.isShown c = s.isShown c := by
    unfold isShown
    rw [hAccount, hMyself, hConnected]
  unfold onlineStatus
  rw [hShown, hAccount, hProtocol]
  split
  · next h => exact hOwn h
  · rfl

/-! ## A contact changes its status -/

theorem isConnected_setOwn {c a : Nat} {status : OnlineStatus}
    (h : s.myself a = some c →
      status.isDefinitelyOnline = (s.ownStatus c).isDefinitelyOnline) :
    (s.setOwn c status).isConnected a = s.isConnected a := by
  refine isConnected_congr rfl ?_
  intro d hMyself
  by_cases hSame : d = c
  · subst hSame
    simp only [setOwn, Function.update_self]
    exact h hMyself
  · simp only [setOwn, Function.update_of_ne hSame]

theorem setOnlineStatus_eq (c : Nat) (status : OnlineStatus) :
    s.setOnlineStatus c status = s ∨
      ∃ signals, s.setOnlineStatus c status = (s.setOwn c status).emit signals ∧
        (signals = s.statusSignals c status (s.ownStatus c) ∨
          (signals = [] ∧ s.isShown c = false)) := by
  unfold setOnlineStatus
  split
  · exact Or.inl rfl
  · right
    dsimp only
    split
    · exact ⟨_, rfl, Or.inl rfl⟩
    · next hHidden =>
      refine ⟨[], by simp [emit], Or.inr ⟨rfl, ?_⟩⟩
      -- it is not its account's own, so that the account is as before
      simp only [isShown, Bool.or_eq_true, not_or, decide_eq_true_eq] at hHidden
      obtain ⟨hNotOwn, hOffline⟩ := hHidden
      have hConnected : (s.setOwn c status).isConnected (s.account c) =
          s.isConnected (s.account c) :=
        isConnected_setOwn fun hMyself => absurd hMyself hNotOwn
      unfold isShown
      rw [Bool.or_eq_false_iff]
      exact ⟨decide_eq_false hNotOwn, hConnected.symm.trans (Bool.eq_false_iff.2 hOffline)⟩

theorem onlineStatus_setOwn (hOwn : ∀ a c, s.myself a = some c → s.account c = a ∧ c ∈ s.contacts)
    {c : Nat} {status : OnlineStatus} {signals : List StatusSignal}
    (hSignals : signals = s.statusSignals c status (s.ownStatus c) ∨
      (signals = [] ∧ s.isShown c = false)) {m : Nat}
    (hDeaf : ∀ sig ∈ signals, ¬ s.Concerns m sig) {d : Nat} (hd : d ∈ s.members m) :
    (s.setOwn c status).onlineStatus d = s.onlineStatus d := by
  have hConnected : (s.setOwn c status).isConnected (s.account d) =
      s.isConnected (s.account d) := by
    refine isConnected_setOwn ?_
    intro hMyself
    have hAccount := (hOwn _ _ hMyself).1
    rcases hSignals with rfl | ⟨rfl, hHidden⟩
    · by_contra hFlips
      have hHere : d ≠ c := by
        rintro rfl
        exact hDeaf (.contactStatusChanged d) List.mem_cons_self hd
      refine hDeaf (.ownStatusChanged (s.account c) status (s.ownStatus c)) ?_ ⟨hFlips, d, hd, ?_⟩
      · rw [statusSignals, hAccount, if_pos hMyself]
        simp
      · refine ⟨hAccount.symm, ?_⟩
        rw [hAccount, hMyself]
        exact fun hSame => hHere (Option.some.inj hSame).symm
    · simp [isShown, hAccount, hMyself] at hHidden
  refine onlineStatus_congr rfl rfl rfl hConnected ?_
  intro hShown
  have hOther : d ≠ c := by
    rintro rfl
    rcases hSignals with rfl | ⟨rfl, hHidden⟩
    · exact hDeaf (.contactStatusChanged d) List.mem_cons_self hd
    · rw [hShown] at hHidden
      cases hHidden
  exact Function.update_of_ne hOther _ _

theorem myself_of_mem_statusSignals {c : Nat} {newStatus oldStatus : OnlineStatus}
    {sig : StatusSignal} (h : sig ∈ s.statusSignals c newStatus oldStatus) {a : Nat}
    (ha : sig.account? = some a) : s.myself a ≠ none := by
  rw [statusSignals, List.mem_cons] at h
  rcases h with rfl | h
  · cases ha
  · split at h
    · next hMyself =>
      rw [List.mem_singleton] at h
      subst h
      obtain rfl := Option.some.inj ha
      rw [hMyself]
      exact Option.some_ne_none c
    · cases h

/-- **A contact's status.** Who does not hear of the change does not see it. -/
theorem inv_setOnlineStatus (h : Inv touched extra s) (c : Nat) (status : OnlineStatus) :
    Inv touched extra (s.setOnlineStatus c status) := by
  rcases setOnlineStatus_eq (s := s) c status with hSame | ⟨signals, hEq, hSignals⟩
  · rw [hSame]
    exact h
  · rw [hEq]
    refine ⟨h.known, h.own, ?_, ?_, h.new⟩
    · intro sig hsig a ha
      rcases List.mem_append.1 hsig with hsig | hsig
      · exact h.live sig hsig a ha
      · rcases hSignals with rfl | ⟨rfl, -⟩
        · exact myself_of_mem_statusSignals hsig ha
        · cases hsig
    · intro m hm
      by_cases hHears : ∃ sig ∈ signals, s.Concerns m sig
      · obtain ⟨sig, hsig, hConcerns⟩ := hHears
        exact Or.inr ⟨sig, by simp [emit, hsig], hConcerns⟩
      · rcases h.covered m hm with hRight | ⟨sig, hsig, hConcerns⟩
        · left
          have hDeaf : ∀ sig ∈ signals, ¬ s.Concerns m sig :=
            fun sig hsig hConcerns => hHears ⟨sig, hsig, hConcerns⟩
          have hNew : ((s.setOwn c status).emit signals).newStatus m = s.newStatus m :=
            newStatus_congr rfl fun d hd => onlineStatus_setOwn h.own hSignals hDeaf hd
          exact hRight.trans hNew.symm
        · refine Or.inr ⟨sig, ?_, hConcerns⟩
          simp only [emit, setOwn, List.mem_append] at hsig ⊢
          tauto

theorem inv_setAllContactsStatus (h : Inv touched extra s) (a : Nat) (status : OnlineStatus) :
    Inv touched extra (s.setAllContactsStatus a status) := by
  unfold setAllContactsStatus
  generalize s.contacts.filter _ = cs
  induction cs generalizing s with
  | nil => exact h
  | cons c cs ih => exact ih (inv_setOnlineStatus h c status)

theorem myself_setAllContactsStatus (a : Nat) (status : OnlineStatus) :
    (s.setAllContactsStatus a status).myself = s.myself := by
  unfold setAllContactsStatus
  generalize s.contacts.filter _ = cs
  induction cs generalizing s with
  | nil => rfl
  | cons c cs ih =>
    rw [List.foldl_cons, ih]
    rcases setOnlineStatus_eq (s := s) c status with hSame | ⟨signals, hEq, -⟩
    · rw [hSame]
    · rw [hEq]
      rfl

/-! ## A signal is delivered -/

theorem Inv.replace (h : Inv touched extra s) {extra' : List StatusSignal}
    (hConcerns : ∀ m, ∀ sig ∈ extra, s.Concerns m sig → ∃ sig' ∈ extra', s.Concerns m sig') :
    Inv touched extra' s := by
  refine ⟨h.known, h.own, h.live, ?_, h.new⟩
  intro m hm
  rcases h.covered m hm with hRight | ⟨sig, hsig, hHears⟩
  · exact Or.inl hRight
  · rcases List.mem_append.1 hsig with hsig | hsig
    · exact Or.inr ⟨sig, List.mem_append_left _ hsig, hHears⟩
    · obtain ⟨sig', hsig', hHears'⟩ := hConcerns m sig hsig hHears
      exact Or.inr ⟨sig', List.mem_append_right _ hsig', hHears'⟩

theorem Inv.emit {signals : List StatusSignal} (h : Inv touched signals s)
    (hLive : ∀ sig ∈ signals, ∀ a, sig.account? = some a → s.myself a ≠ none) :
    Inv touched [] (s.emit signals) := by
  refine ⟨h.known, h.own, ?_, ?_, h.new⟩
  · intro sig hsig a ha
    rcases List.mem_append.1 hsig with hsig | hsig
    · exact h.live sig hsig a ha
    · exact hLive sig hsig a ha
  · intro m hm
    rcases h.covered m hm with hRight | ⟨sig, hsig, hHears⟩
    · exact Or.inl hRight
    · exact Or.inr ⟨sig, List.mem_append_left _ hsig, hHears⟩

theorem inv_slotOnlineStatusChanged {a : Nat} {newStatus oldStatus : OnlineStatus}
    (h : Inv touched [.ownStatusChanged a newStatus oldStatus] s) (hMyself : s.myself a ≠ none) :
    Inv touched [] (s.slotOnlineStatusChanged a newStatus oldStatus) := by
  unfold slotOnlineStatusChanged
  by_cases hFlips : newStatus.isDefinitelyOnline = oldStatus.isDefinitelyOnline
  · -- it has not gone offline, and has nothing to say
    rw [hFlips]
    simp only [Bool.not_not, Bool.and_not_self, Bool.false_eq_true, if_false, ne_eq, not_true_eq_false]
    refine h.replace ?_
    intro m sig hsig hConcerns
    rw [List.mem_singleton] at hsig
    subst hsig
    exact absurd hFlips hConcerns.1
  · have hHears : Inv touched [.isConnectedChanged a] s := by
      refine h.replace ?_
      intro m sig hsig hConcerns
      rw [List.mem_singleton] at hsig
      subst hsig
      exact ⟨_, List.mem_singleton_self _, hConcerns.2⟩
    have hOther : (!oldStatus.isDefinitelyOnline) ≠ !newStatus.isDefinitelyOnline :=
      fun hSame => hFlips (Bool.not_inj hSame).symm
    have hLive : ∀ sig ∈ [StatusSignal.isConnectedChanged a], ∀ a', sig.account? = some a' →
        s.myself a' ≠ none := by
      intro sig hsig a' ha'
      rw [List.mem_singleton] at hsig
      subst hsig
      obtain rfl := Option.some.inj ha'
      exact hMyself
    dsimp only
    rw [if_pos hOther]
    split
    · refine (inv_setAllContactsStatus hHears a _).emit ?_
      rw [myself_setAllContactsStatus]
      exact hLive
    · exact hHears.emit hLive

/-- **A signal arrives.** It does what it was to do, or sends on the signals that will. -/
theorem inv_receive {sig : StatusSignal} (h : Inv touched [sig] s)
    (hMyself : ∀ a, sig.account? = some a → s.myself a ≠ none) :
    Inv touched [] (s.receive sig) := by
  cases sig with
  | contactStatusChanged c =>
    refine ⟨h.known, h.own, h.live, ?_, ?_⟩
    · intro m hm
      by_cases hc : c ∈ s.members m
      · exact Or.inl (if_pos hc)
      · rcases h.covered m hm with hRight | ⟨sig, hsig, hHears⟩
        · exact Or.inl ((if_neg hc).trans hRight)
        · rcases List.mem_append.1 hsig with hsig | hsig
          · exact Or.inr ⟨sig, List.mem_append_left _ hsig, hHears⟩
          · rw [List.mem_singleton] at hsig
            subst hsig
            exact absurd hHears hc
    · intro m hm
      obtain ⟨hEmpty, hOffline⟩ := h.new m hm
      refine ⟨hEmpty, ?_⟩
      have hNot : c ∉ s.members m := by simp [hEmpty]
      exact (if_neg hNot).trans hOffline
  | ownStatusChanged a newStatus oldStatus =>
    exact inv_slotOnlineStatusChanged h (hMyself a rfl)
  | isConnectedChanged a =>
    have hHears : Inv touched ((s.contacts.filter fun c => s.account c = a && s.myself a ≠ some c).map
        .contactStatusChanged) s := by
      refine h.replace ?_
      intro m sig hsig hConcerns
      rw [List.mem_singleton] at hsig
      subst hsig
      obtain ⟨c, hc, hAccount, hOther⟩ := hConcerns
      refine ⟨.contactStatusChanged c, List.mem_map_of_mem ?_, hc⟩
      simp [h.known m c hc, hAccount, hOther]
    refine hHears.emit ?_
    intro sig hsig a' ha'
    obtain ⟨c, -, rfl⟩ := List.mem_map.1 hsig
    cases ha'

theorem inv_deliver (h : Inv touched [] s) (i : Nat) : Inv touched [] (s.step (.deliver i)) := by
  simp only [step]
  split
  · exact h
  · next sig hSig =>
    have hMem : sig ∈ s.pending := List.mem_of_getElem? hSig
    have hLeft : ∀ sig' ∈ s.pending, sig' = sig ∨ sig' ∈ s.pending.eraseIdx i := by
      intro sig' hsig'
      by_cases hSame : sig' = sig
      · exact Or.inl hSame
      · right
        obtain ⟨k, hk⟩ := List.getElem?_of_mem hsig'
        have hOther : k ≠ i := by
          rintro rfl
          rw [hSig] at hk
          exact hSame (Option.some.inj hk).symm
        rw [List.mem_eraseIdx_iff_getElem?]
        exact ⟨k, hOther, hk⟩
    refine inv_receive (s := { s with pending := s.pending.eraseIdx i }) ?_ (h.live sig hMem)
    refine ⟨h.known, h.own, ?_, ?_, h.new⟩
    · intro sig' hsig'
      exact h.live sig' (List.mem_of_mem_eraseIdx hsig')
    · intro m hm
      rcases h.covered m hm with hRight | ⟨sig', hsig', hHears⟩
      · exact Or.inl hRight
      · rw [List.append_nil] at hsig'
        refine Or.inr ⟨sig', ?_, hHears⟩
        rcases hLeft sig' hsig' with hSame | hStill
        · exact List.mem_append_right _ (List.mem_singleton.2 hSame)
        · exact List.mem_append_left _ hStill

/-! ## Contacts come and go -/

theorem inv_updateOnlineStatus (h : Inv touched [] s) (m : Nat) {cs : List Nat}
    (hKnown : ∀ c ∈ cs, c ∈ s.contacts) :
    Inv (fun m' => touched m' ∨ m' = m) []
      ((s.setMembers m cs).updateOnlineStatus m) := by
  refine ⟨?_, h.own, h.live, ?_, ?_⟩
  · intro m' c hc
    simp only [updateOnlineStatus, setMembers, Function.update_apply] at hc
    split at hc
    · exact hKnown c hc
    · exact h.known m' c hc
  · intro m' hm'
    by_cases hHere : m' = m
    · subst hHere
      exact Or.inl (Function.update_self ..)
    · let t := (s.setMembers m cs).updateOnlineStatus m
      have hMembers : t.members m' = s.members m' := Function.update_of_ne hHere _ _
      rcases h.covered m' (hm'.resolve_right hHere) with hRight | ⟨sig, hsig, hHears⟩
      · left
        have hNew : t.newStatus m' = s.newStatus m' := newStatus_congr hMembers fun _ _ => rfl
        exact (Function.update_of_ne hHere _ _).trans (hRight.trans hNew.symm)
      · refine Or.inr ⟨sig, hsig, ?_⟩
        have hConcerns : t.Concerns m' sig ↔ s.Concerns m' sig :=
          concerns_congr hMembers (fun _ _ => rfl) fun _ _ => rfl
        exact hConcerns.2 hHears
  · intro m' hm'
    rw [not_or] at hm'
    obtain ⟨hEmpty, hOffline⟩ := h.new m' hm'.1
    exact ⟨(Function.update_of_ne hm'.2 _ _).trans hEmpty,
      (Function.update_of_ne hm'.2 _ _).trans hOffline⟩

theorem inv_addContact (h : Inv touched [] s) (m : Nat) {c : Nat} (hc : c ∈ s.contacts) :
    Inv (fun m' => touched m' ∨ m' = m) [] (s.step (.addContact m c)) := by
  simp only [step]
  split
  · next hIn =>
    -- it has been given contacts before
    have hTouched : touched m := by
      by_contra hNew
      rw [(h.new m hNew).1] at hIn
      cases hIn
    refine ⟨h.known, h.own, h.live, ?_, ?_⟩
    · rintro m' (hm' | rfl)
      · exact h.covered m' hm'
      · exact h.covered m' hTouched
    · intro m' hm'
      exact h.new m' fun hOld => hm' (Or.inl hOld)
  · refine inv_updateOnlineStatus h m ?_
    intro d hd
    rcases List.mem_append.1 hd with hd | hd
    · exact h.known m d hd
    · rw [List.mem_singleton.1 hd]
      exact hc

theorem inv_newContact (h : Inv touched [] s) {c : Nat} (hc : c ∉ s.contacts) (a : Nat)
    (registered : Bool) : Inv touched [] (s.step (.newContact c a registered)) := by
  -- no metacontact and no account has it yet
  have hMember : ∀ m, ∀ d ∈ s.members m, d ≠ c := fun m d hd hSame => hc (hSame ▸ h.known m d hd)
  have hOwn : ∀ a d, s.myself a = some d → d ≠ c :=
    fun a d hMyself hSame => hc (hSame ▸ (h.own a d hMyself).2)
  let t := s.step (.newContact c a registered)
  have hAccount : ∀ d, d ≠ c → t.account d = s.account d :=
    fun d hd => Function.update_of_ne hd _ _
  have hStatus : ∀ d, d ≠ c → t.ownStatus d = s.ownStatus d :=
    fun d hd => Function.update_of_ne hd _ _
  have hConnected : ∀ a', t.isConnected a' = s.isConnected a' := by
    intro a'
    refine isConnected_congr rfl ?_
    intro d hMyself
    rw [hStatus d (hOwn a' d hMyself)]
  refine ⟨?_, ?_, h.live, ?_, h.new⟩
  · intro m d hd
    exact List.mem_append_left _ (h.known m d hd)
  · intro a' d hMyself
    obtain ⟨hOf, hIn⟩ := h.own a' d hMyself
    exact ⟨(hAccount d (hOwn a' d hMyself)).trans hOf, List.mem_append_left _ hIn⟩
  · intro m hm
    rcases h.covered m hm with hRight | ⟨sig, hsig, hHears⟩
    · left
      have hNew : t.newStatus m = s.newStatus m := by
        refine newStatus_congr rfl ?_
        intro d hd
        have hOther := hMember m d hd
        exact onlineStatus_congr (hAccount d hOther) rfl rfl (hConnected _) fun _ =>
          hStatus d hOther
      exact hRight.trans hNew.symm
    · refine Or.inr ⟨sig, hsig, ?_⟩
      have hConcerns : t.Concerns m sig ↔ s.Concerns m sig :=
        concerns_congr rfl (fun d hd => hAccount d (hMember m d hd)) fun _ _ => rfl
      exact hConcerns.2 hHears

/-- The own contact of an account is set. -/
def withMyself (s : StatusWorld) (a c : Nat) : StatusWorld :=
  { s with myself := Function.update s.myself a (some c) }

theorem withMyself_self (s : StatusWorld) (a c : Nat) : (s.withMyself a c).myself a = some c :=
  Function.update_self ..

theorem withMyself_of_ne (s : StatusWorld) {a a' : Nat} (c : Nat) (h : a' ≠ a) :
    (s.withMyself a c).myself a' = s.myself a' :=
  Function.update_of_ne h _ _

theorem onlineStatus_of_myself_none {a : Nat} (hNone : s.myself a = none) {d : Nat}
    (hd : s.account d = a) : s.onlineStatus d = .accountOffline (s.protocol a) := by
  have hOffline : s.isConnected a = false := by
    unfold isConnected
    rw [hNone]
  have hNot : s.isShown d = false := by simp [isShown, hd, hNone, hOffline]
  simp [onlineStatus, hNot, hd]

theorem onlineStatus_withMyself_self {a c : Nat} (hAccount : s.account c = a) :
    (s.withMyself a c).onlineStatus c = s.ownStatus c := by
  have hIs : (s.withMyself a c).isShown c = true := by
    simp only [isShown, Bool.or_eq_true, decide_eq_true_eq]
    left
    rw [show (s.withMyself a c).account c = a from hAccount]
    exact withMyself_self s a c
  rw [onlineStatus, if_pos hIs]
  rfl

/-- The other contacts of the account are hidden still, where it is not connected or the
metacontact has none of them. -/
theorem onlineStatus_withMyself_of_ne {a c m : Nat} (hNone : s.myself a = none)
    (hQuiet : ¬ ((s.withMyself a c).isConnected a = true ∧ (s.withMyself a c).HasContactOf m a))
    {d : Nat} (hd : d ∈ s.members m) (hOther : d ≠ c) :
    (s.withMyself a c).onlineStatus d = s.onlineStatus d := by
  by_cases hOf : s.account d = a
  · have hForeign : (s.withMyself a c).myself a ≠ some d := by
      rw [withMyself_self]
      exact fun hEq => hOther (Option.some.inj hEq).symm
    have hOffline : (s.withMyself a c).isConnected a = false := by
      rw [← Bool.not_eq_true]
      intro hConnected
      exact hQuiet ⟨hConnected, d, hd, hOf, hForeign⟩
    have hNot : (s.withMyself a c).isShown d = false := by
      unfold isShown
      rw [show (s.withMyself a c).account d = a from hOf, hOffline, decide_eq_false hForeign]
      rfl
    rw [onlineStatus_of_myself_none hNone hOf, onlineStatus, if_neg (by simp [hNot])]
    show OnlineStatus.accountOffline (s.protocol (s.account d)) = _
    rw [hOf]
  · exact onlineStatus_congr rfl rfl (withMyself_of_ne s c hOf)
      (isConnected_congr (withMyself_of_ne s c hOf) fun _ _ => rfl) fun _ => rfl

theorem newStatus_withMyself {a c m : Nat} (hNone : s.myself a = none)
    (hAccount : s.account c = a)
    (hSmall : c ∈ s.members m → (s.ownStatus c).status.value ≤ (s.newStatus m).value)
    (hQuiet :
      ¬ ((s.withMyself a c).isConnected a = true ∧ (s.withMyself a c).HasContactOf m a)) :
    (s.withMyself a c).newStatus m = s.newStatus m := by
  have hStill : ∀ d ∈ s.members m, d ≠ c → (s.withMyself a c).onlineStatus d = s.onlineStatus d :=
    fun d hd hOther => onlineStatus_withMyself_of_ne hNone hQuiet hd hOther
  obtain ⟨hBelow, hIs⟩ := (OnlineStatus.status_mostSignificant (s.statuses m) _).1 rfl
  refine (OnlineStatus.status_mostSignificant ((s.withMyself a c).statuses m) _).2 ⟨?_, ?_⟩
  · intro status hStatus
    obtain ⟨d, hd, rfl⟩ := List.mem_map.1 hStatus
    by_cases hHere : d = c
    · subst hHere
      rw [onlineStatus_withMyself_self hAccount]
      exact hSmall hd
    · rw [hStill d hd hHere]
      exact hBelow _ (List.mem_map_of_mem hd)
  · rcases hIs with hUnknown | ⟨status, hStatus, hEq⟩
    · exact Or.inl hUnknown
    · obtain ⟨d, hd, rfl⟩ := List.mem_map.1 hStatus
      by_cases hHere : d = c
      · subst hHere
        rw [onlineStatus_of_myself_none hNone hAccount] at hEq
        exact Or.inl hEq.symm
      · refine Or.inr ⟨(s.withMyself a c).onlineStatus d, List.mem_map_of_mem hd, ?_⟩
        rw [hStill d hd hHere]
        exact hEq

/-- What `setMyself` emits. -/
def connectedSignals (s : StatusWorld) (a : Nat) : List StatusSignal :=
  if s.isConnected a then [.isConnectedChanged a] else []

theorem step_setMyself (s : StatusWorld) (a c : Nat) :
    s.step (.setMyself a c) =
      (s.withMyself a c).emit ((s.withMyself a c).connectedSignals a) := by
  change (if (s.withMyself a c).isConnected a then
    (s.withMyself a c).emit [.isConnectedChanged a] else s.withMyself a c) = _
  unfold connectedSignals
  split
  · rfl
  · simp [emit]

theorem Inv.covered_withMyself (h : Inv touched [] s) {a c : Nat} (hNone : s.myself a = none)
    (hAccount : s.account c = a)
    (hSmall : ∀ m, c ∈ s.members m → (s.ownStatus c).status.value ≤ (s.newStatus m).value)
    {m : Nat} (hm : touched m) :
    (s.withMyself a c).Covered (s.pending ++ (s.withMyself a c).connectedSignals a) m := by
  by_cases hTold : (s.withMyself a c).isConnected a = true ∧ (s.withMyself a c).HasContactOf m a
  · refine Or.inr ⟨.isConnectedChanged a, ?_, hTold.2⟩
    simp [connectedSignals, hTold.1]
  · rcases h.covered m hm with hRight | ⟨sig, hsig, hHears⟩
    · exact Or.inl (hRight.trans (newStatus_withMyself hNone hAccount (hSmall m) hTold).symm)
    · rw [List.append_nil] at hsig
      refine Or.inr ⟨sig, List.mem_append_left _ hsig, ?_⟩
      have hConcerns : (s.withMyself a c).Concerns m sig ↔ s.Concerns m sig := by
        refine concerns_congr rfl (fun _ _ => rfl) ?_
        intro a' ha'
        refine withMyself_of_ne s c ?_
        rintro rfl
        exact h.live sig hsig a' ha' hNone
      exact hConcerns.2 hHears

/-- The account's own contact is set. What it shows now is not more than its metacontact goes
by, and the other contacts are told if they are shown now. -/
theorem inv_setMyself (h : Inv touched [] s) {a c : Nat} (hNone : s.myself a = none)
    (hIn : c ∈ s.contacts) (hAccount : s.account c = a)
    (hSmall : ∀ m, c ∈ s.members m → (s.ownStatus c).status.value ≤ (s.newStatus m).value) :
    Inv touched [] (s.step (.setMyself a c)) := by
  rw [step_setMyself]
  refine ⟨h.known, fun a' d hd => ?_, fun sig hsig a' ha' => ?_, fun m hm => ?_, h.new⟩
  · change (s.withMyself a c).myself a' = some d at hd
    by_cases hHere : a' = a
    · subst hHere
      rw [withMyself_self] at hd
      obtain rfl := Option.some.inj hd
      exact ⟨hAccount, hIn⟩
    · rw [withMyself_of_ne s c hHere] at hd
      exact h.own a' d hd
  · show (s.withMyself a c).myself a' ≠ none
    by_cases hHere : a' = a
    · rw [hHere, withMyself_self]
      exact Option.some_ne_none c
    · rw [withMyself_of_ne s c hHere]
      rcases List.mem_append.1 hsig with hsig | hsig
      · exact h.live sig hsig a' ha'
      · unfold connectedSignals at hsig
        split at hsig
        · rw [List.mem_singleton] at hsig
          subst hsig
          exact absurd (Option.some.inj ha').symm hHere
        · cases hsig
  · rw [List.append_nil]
    exact h.covered_withMyself hNone hAccount hSmall hm

/-! ## Runs -/

/-- **One step.** -/
theorem step_inv (h : Inv touched [] s) (op : StatusOp) (hPossible : s.Possible op)
    (hOk : s.MyselfOk op) : Inv (fun m => touched m ∨ op.Touches m) [] (s.step op) := by
  cases op with
  | newContact c a registered =>
    simpa [StatusOp.Touches] using inv_newContact h hPossible a registered
  | setMyself a c =>
    obtain ⟨hNone, hIn, hAccount⟩ := hPossible
    simpa [StatusOp.Touches] using inv_setMyself h hNone hIn hAccount hOk
  | addContact m c => simpa [StatusOp.Touches, eq_comm] using inv_addContact h m hPossible
  | removeContact m c =>
    have hKnown : ∀ d ∈ QList.removeAll (s.members m) c, d ∈ s.contacts :=
      fun d hd => h.known m d (QList.mem_removeAll.1 hd).1
    simpa [StatusOp.Touches, eq_comm, step] using inv_updateOnlineStatus h m hKnown
  | setOnlineStatus c status =>
    simpa [StatusOp.Touches, step] using inv_setOnlineStatus h c status
  | deliver i => simpa [StatusOp.Touches] using inv_deliver h i

theorem inv_init (protocol : Nat → Nat) : Inv (fun _ => False) [] (init protocol) := by
  refine ⟨?_, ?_, ?_, ?_, ?_⟩
  · intro m c hc
    cases hc
  · intro a c hc
    cases hc
  · intro sig hsig
    cases hsig
  · intro m hm
    exact hm.elim
  · intro m _
    exact ⟨rfl, rfl⟩

theorem run_inv (h : Inv touched [] s) {ops : List StatusOp}
    (hRun : Run.StepsMeet step (fun s op => s.Possible op ∧ s.MyselfOk op) s ops) :
    Inv (fun m => touched m ∨ ∃ op ∈ ops, op.Touches m) [] (ops.foldl step s) := by
  induction ops generalizing s touched with
  | nil => simpa using h
  | cons op ops ih =>
    have hNext := ih (step_inv h op hRun.1.1 hRun.1.2) hRun.2
    simpa only [List.foldl_cons, List.exists_mem_cons_iff, or_assoc] using hNext

/-- **The status of a metacontact.** Once all signals are delivered, the metacontacts that
have been given a contact, or asked to remove one, have the status type of the greatest
status among their contacts, and a new one does not. -/
theorem status_greatest_iff (protocol : Nat → Nat) (ops : List StatusOp)
    (hRun : Run.StepsMeet step (fun s op => s.Possible op ∧ s.MyselfOk op) (init protocol) ops)
    (hDone : (ops.foldl step (init protocol)).pending = []) (m : Nat) :
    OnlineStatus.GreatestType ((ops.foldl step (init protocol)).statuses m)
        ((ops.foldl step (init protocol)).status m) ↔
      ∃ op ∈ ops, op.Touches m := by
  have h := run_inv (inv_init protocol) hRun
  rw [OnlineStatus.greatestType_iff]
  constructor
  · intro hRight
    by_contra hNew
    obtain ⟨hEmpty, hOffline⟩ := h.new m fun hTouched => hNew (hTouched.resolve_left id)
    rw [hOffline, statuses, hEmpty] at hRight
    change StatusType.offline = .unknown at hRight
    cases hRight
  · intro hTouched
    rcases h.covered m (Or.inr hTouched) with hRight | ⟨sig, hsig, -⟩
    · exact hRight
    · rw [hDone] at hsig
      cases hsig

/-- A contact whose account comes online, and which is away. -/
def comesOnline : List StatusOp :=
  [.newContact 0 7 false, .setMyself 7 0, .newContact 1 7 true, .addContact 3 1,
    .setOnlineStatus 1 (.ofType .away), .setOnlineStatus 0 (.ofType .online), .deliver 1,
    .deliver 0, .deliver 0, .deliver 0]

theorem status_greatest_comesOnline :
    OnlineStatus.GreatestType ((comesOnline.foldl step (init id)).statuses 3) .away := by
  have hRun : Run.StepsMeet step (fun s op => s.Possible op ∧ s.MyselfOk op) (init id)
      comesOnline := by
    refine ⟨⟨?_, trivial⟩, ⟨⟨rfl, ?_, rfl⟩, ?_⟩, ⟨?_, trivial⟩, ⟨?_, trivial⟩, ⟨trivial, trivial⟩,
      ⟨trivial, trivial⟩, ⟨trivial, trivial⟩, ⟨trivial, trivial⟩, ⟨trivial, trivial⟩,
      ⟨trivial, trivial⟩, trivial⟩
    · exact List.not_mem_nil
    · exact List.mem_singleton_self 0
    · intro m hm
      cases hm
    · show 1 ∉ [0]
      decide
    · show 1 ∈ [0, 1]
      decide
  exact (status_greatest_iff id comesOnline hRun (by decide) 3).2
    ⟨.addContact 3 1, by simp [comesOnline], rfl⟩

/-- A new metacontact is Offline. -/
theorem status_new : ¬ OnlineStatus.GreatestType ((init id).statuses 0) ((init id).status 0) := by
  rw [OnlineStatus.greatestType_iff]
  decide

end StatusWorld

end Kopete
