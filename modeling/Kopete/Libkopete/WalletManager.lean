import Kopete.Lib.Run
import Mathlib

/-!
# libkopete — who waits for the wallet

Requests for the wallet are connected to one signal object until they are answered; then the
object is put aside and emits. While it does, the slots it calls can ask again, and the
events of the wallet and of the timers can come in between. The wallet tells that it has been
opened, or has not, once for each time it was asked, and when it is closed it is no longer
open; both are what the wallet service does, and so is whether it gives a wallet at all.

Main results:

* `Inv.step` — what every event keeps: a wallet that is not open is being opened, and a
  pending request has something that will wake it up;
* `accounted_run` — every request is pending, being delivered or delivered, and only one of
  these;
* `wakeUp_pending` — no request is stranded, and none is answered twice.
-/

namespace Kopete

/-- `KWallet::Wallet`. -/
structure Wallet where
  isOpen : Bool
  /-- `walletOpened` is still to come. -/
  opening : Bool
  /-- `walletClosed` is connected to `closeWallet`. -/
  closedConnected : Bool
deriving DecidableEq, Repr

/-- An emission of `walletOpened`: whether it is with a wallet, and the requests whose slots are
still to be called. -/
structure Delivery where
  given : Bool
  requests : List Nat
deriving DecidableEq, Repr

/-- `WalletManager`, with the timers and the calls that are going on. Requests are numbered in the
order of the calls of `openWallet`. -/
structure WalletManager where
  signal : Option (List Nat)
  wallet : Option Wallet
  /-- How many times `slotGiveExistingWallet` is scheduled. -/
  singleShots : Nat
  /-- The innermost emission first. -/
  deliveries : List Delivery
  /-- The requests whose slots have been called, the last one first. -/
  invoked : List Nat
  calls : Nat
deriving DecidableEq, Repr

namespace WalletManager

/-! ## The code -/

def start : WalletManager := ⟨none, none, 0, [], [], 0⟩

/-- `WalletManager::emitWalletOpened`, up to where the first slot is called. -/
def emitWalletOpened (m : WalletManager) (given : Bool) : WalletManager :=
  match m.signal with
  | none => m
  | some requests =>
    { m with signal := none, deliveries := ⟨given, requests⟩ :: m.deliveries }

/-- `WalletManager::openWalletInner`; `answer` is whether the service gives a wallet. -/
def openWalletInner (m : WalletManager) (answer : Bool) : WalletManager :=
  match m.wallet with
  | some wallet =>
    if wallet.isOpen then { m with singleShots := m.singleShots + 1 } else m
  | none =>
    if answer then { m with wallet := some ⟨false, true, false⟩ } else m.emitWalletOpened false

/-- `WalletManager::openWallet`. -/
def openWallet (m : WalletManager) (answer : Bool) : WalletManager :=
  { m with
    signal := some (m.signal.getD [] ++ [m.calls])
    calls := m.calls + 1 }.openWalletInner answer

/-- `WalletManager::slotWalletChangedStatus`, with this wallet; `setFolder` is whether the folder
can be used. -/
def slotWalletChangedStatus (m : WalletManager) (wallet : Wallet) (setFolder : Bool) :
    WalletManager :=
  if wallet.isOpen ∧ setFolder = true then
    { m with wallet := some { wallet with closedConnected := true } }.emitWalletOpened true
  else { m with wallet := none }.emitWalletOpened false

/-- `WalletManager::slotGiveExistingWallet`. -/
def slotGiveExistingWallet (m : WalletManager) (answer : Bool) : WalletManager :=
  match m.wallet with
  | some wallet => if wallet.isOpen then m.emitWalletOpened true else m
  | none => m.openWalletInner answer

/-- `WalletManager::closeWallet`. -/
def closeWallet (m : WalletManager) : WalletManager := { m with wallet := none }

inductive WalletEvent where
  /-- A call of `openWallet`, from wherever it comes. -/
  | openWallet (answer : Bool)
  /-- The wallet has been opened, or it has not. -/
  | walletOpened (isOpen setFolder : Bool)
  | walletClosed
  /-- A timer that calls `slotGiveExistingWallet`. -/
  | timeout (answer : Bool)
  /-- The innermost emission calls its next slot, or it is at its end. -/
  | deliver
deriving DecidableEq, Repr

/-- Where an event cannot happen nothing does. -/
def step (m : WalletManager) : WalletEvent → WalletManager
  | .openWallet answer => m.openWallet answer
  | .walletOpened isOpen setFolder =>
    match m.wallet with
    | some wallet =>
      if wallet.opening then
        m.slotWalletChangedStatus { wallet with isOpen := isOpen, opening := false } setFolder
      else m
    | none => m
  | .walletClosed =>
    match m.wallet with
    | some wallet =>
      if wallet.isOpen then
        let m := { m with wallet := some { wallet with isOpen := false } }
        if wallet.closedConnected then m.closeWallet else m
      else m
    | none => m
  | .timeout answer =>
    if 0 < m.singleShots then
      { m with singleShots := m.singleShots - 1 }.slotGiveExistingWallet answer
    else m
  | .deliver =>
    match m.deliveries with
    | [] => m
    | ⟨_, []⟩ :: rest => { m with deliveries := rest }
    | ⟨given, request :: requests⟩ :: rest =>
      { m with deliveries := ⟨given, requests⟩ :: rest, invoked := request :: m.invoked }

/-! ## What wakes up a request -/

variable (m : WalletManager)

/-- The wallet is asked to open and has not answered. -/
def OpenOutstanding : Prop := ∃ wallet, m.wallet = some wallet ∧ wallet.opening = true

/-- An outstanding open, or a scheduled `slotGiveExistingWallet`. -/
def WakeUpPending : Prop := m.OpenOutstanding ∨ 0 < m.singleShots

structure Inv : Prop where
  /-- A wallet is either open or about to tell. -/
  opening_iff : ∀ wallet, m.wallet = some wallet → wallet.opening = !wallet.isOpen
  closedConnected : ∀ wallet, m.wallet = some wallet → wallet.isOpen = true →
    wallet.closedConnected = true
  wakeUp : m.signal.isSome = true → m.WakeUpPending

variable {m}

theorem inv_start : Inv start where
  opening_iff _ h := nomatch h
  closedConnected _ h := nomatch h
  wakeUp h := nomatch h

/-- Where the wallet is as it should be, and the pending requests have been put aside, there is
nothing to wake up. -/
theorem Inv.emitWalletOpened (given : Bool)
    (hOpening : ∀ wallet, m.wallet = some wallet → wallet.opening = !wallet.isOpen)
    (hClosed : ∀ wallet, m.wallet = some wallet → wallet.isOpen = true →
      wallet.closedConnected = true) : Inv (m.emitWalletOpened given) := by
  unfold WalletManager.emitWalletOpened
  cases hSignal : m.signal with
  | none => exact ⟨hOpening, hClosed, fun h => by rw [hSignal] at h; cases h⟩
  | some requests => exact ⟨hOpening, hClosed, fun h => nomatch h⟩

theorem Inv.openWalletInner (answer : Bool)
    (hOpening : ∀ wallet, m.wallet = some wallet → wallet.opening = !wallet.isOpen)
    (hClosed : ∀ wallet, m.wallet = some wallet → wallet.isOpen = true →
      wallet.closedConnected = true) : Inv (m.openWalletInner answer) := by
  unfold WalletManager.openWalletInner
  split
  · next wallet hWallet =>
    have hThis := hOpening wallet hWallet
    split
    · exact ⟨hOpening, hClosed, fun _ => .inr (Nat.succ_pos _)⟩
    · next hNotOpen =>
      rw [Bool.not_eq_true] at hNotOpen
      rw [hNotOpen] at hThis
      exact ⟨hOpening, hClosed, fun _ => .inl ⟨wallet, hWallet, hThis⟩⟩
  · next hNone =>
    split
    · refine ⟨fun wallet h => ?_, fun wallet h hOpen => ?_, fun _ => .inl ⟨_, rfl, rfl⟩⟩
      · cases h
        rfl
      · cases h
        cases hOpen
    · exact .emitWalletOpened false hOpening hClosed

/-- Once the wallet has told, nothing is pending. -/
theorem Inv.slotWalletChangedStatus (m : WalletManager) {wallet : Wallet}
    (hTold : wallet.opening = false) (setFolder : Bool) :
    Inv (m.slotWalletChangedStatus wallet setFolder) := by
  unfold WalletManager.slotWalletChangedStatus
  split
  · next hUsable =>
    refine .emitWalletOpened true (fun wallet' h' => ?_) fun wallet' h' _ => ?_
    · cases h'
      rw [hUsable.1]
      exact hTold
    · cases h'
      rfl
  · exact .emitWalletOpened false (fun _ h' => nomatch h') fun _ h' => nomatch h'

theorem Inv.slotGiveExistingWallet (answer : Bool)
    (hOpening : ∀ wallet, m.wallet = some wallet → wallet.opening = !wallet.isOpen)
    (hClosed : ∀ wallet, m.wallet = some wallet → wallet.isOpen = true →
      wallet.closedConnected = true) : Inv (m.slotGiveExistingWallet answer) := by
  unfold WalletManager.slotGiveExistingWallet
  split
  · next wallet hWallet =>
    have hThis := hOpening wallet hWallet
    split
    · exact .emitWalletOpened true hOpening hClosed
    · next hNotOpen =>
      rw [Bool.not_eq_true] at hNotOpen
      rw [hNotOpen] at hThis
      exact ⟨hOpening, hClosed, fun _ => .inl ⟨wallet, hWallet, hThis⟩⟩
  · exact .openWalletInner answer hOpening hClosed

/-- An open wallet is not about to tell, so what is pending has been given a timer. -/
theorem Inv.closeWallet (h : Inv m) {wallet : Wallet} (hWallet : m.wallet = some wallet)
    (hOpen : wallet.isOpen = true) : Inv m.closeWallet := by
  refine ⟨fun _ h' => (nomatch h'), fun _ h' => (nomatch h'), fun hSignal => ?_⟩
  rcases h.wakeUp hSignal with ⟨wallet', hWallet', hOpening⟩ | hTimer
  · rw [hWallet] at hWallet'
    cases hWallet'
    rw [h.opening_iff wallet hWallet, hOpen] at hOpening
    cases hOpening
  · exact .inr hTimer

/-- **Every event keeps it.** -/
theorem Inv.step (h : Inv m) (event : WalletEvent) : Inv (m.step event) := by
  cases event with
  | openWallet answer => exact .openWalletInner answer h.opening_iff h.closedConnected
  | walletOpened isOpen setFolder =>
    simp only [WalletManager.step]
    split
    · split
      · exact .slotWalletChangedStatus m rfl setFolder
      · exact h
    · exact h
  | walletClosed =>
    simp only [WalletManager.step]
    split
    · next wallet hWallet =>
      split
      · next hOpen =>
        rw [if_pos (h.closedConnected wallet hWallet hOpen)]
        exact h.closeWallet hWallet hOpen
      · exact h
    · exact h
  | timeout answer =>
    simp only [WalletManager.step]
    split
    · exact .slotGiveExistingWallet answer h.opening_iff h.closedConnected
    · exact h
  | deliver =>
    simp only [WalletManager.step]
    split
    · exact h
    · exact ⟨h.opening_iff, h.closedConnected, h.wakeUp⟩
    · exact ⟨h.opening_iff, h.closedConnected, h.wakeUp⟩

/-! ## Where the requests are -/

variable (m)

/-- The requests that are being delivered. -/
def delivering : List Nat := m.deliveries.flatMap Delivery.requests

def pending : List Nat := m.signal.getD []

/-- Every request is in one place. -/
def Accounted : Prop :=
  (m.invoked ++ (m.delivering ++ m.pending)).Perm (List.range m.calls)

variable {m}

/-- An emission only moves the requests. -/
theorem Accounted.emitWalletOpened (h : Accounted m) (given : Bool) :
    Accounted (m.emitWalletOpened given) := by
  unfold WalletManager.emitWalletOpened
  cases hSignal : m.signal with
  | none => exact h
  | some requests =>
    unfold Accounted delivering pending at h ⊢
    rw [hSignal] at h
    refine List.Perm.trans ?_ h
    rw [List.flatMap_cons, Option.getD_none, List.append_nil, Option.getD_some]
    exact List.perm_append_comm.append_left m.invoked

theorem Accounted.openWalletInner (h : Accounted m) (answer : Bool) :
    Accounted (m.openWalletInner answer) := by
  unfold WalletManager.openWalletInner
  split
  · split
    · exact h
    · exact h
  · split
    · exact h
    · exact h.emitWalletOpened false

theorem Accounted.openWallet (h : Accounted m) (answer : Bool) :
    Accounted (m.openWallet answer) := by
  refine Accounted.openWalletInner ?_ answer
  unfold Accounted delivering pending at h ⊢
  rw [Option.getD_some, List.range_succ, ← List.append_assoc, ← List.append_assoc]
  rw [← List.append_assoc] at h
  exact h.append_right [m.calls]

theorem Accounted.slotWalletChangedStatus (h : Accounted m) (wallet : Wallet)
    (setFolder : Bool) : Accounted (m.slotWalletChangedStatus wallet setFolder) := by
  unfold WalletManager.slotWalletChangedStatus
  split
  · refine Accounted.emitWalletOpened ?_ true
    exact h
  · refine Accounted.emitWalletOpened ?_ false
    exact h

theorem Accounted.slotGiveExistingWallet (h : Accounted m) (answer : Bool) :
    Accounted (m.slotGiveExistingWallet answer) := by
  unfold WalletManager.slotGiveExistingWallet
  split
  · split
    · exact h.emitWalletOpened true
    · exact h
  · exact h.openWalletInner answer

/-- A slot that is called is the first one of the innermost emission. -/
theorem Accounted.deliver (h : Accounted m) : Accounted (m.step .deliver) := by
  unfold Accounted delivering pending at h
  simp only [WalletManager.step]
  split
  · exact h
  · next given rest hDeliveries =>
    rw [hDeliveries] at h
    exact h
  · next given request requests rest hDeliveries =>
    rw [hDeliveries, List.flatMap_cons] at h
    refine List.Perm.trans ?_ h
    unfold delivering pending
    rw [List.flatMap_cons]
    exact List.perm_middle.symm

theorem Accounted.step (h : Accounted m) (event : WalletEvent) : Accounted (m.step event) := by
  cases event with
  | openWallet answer => exact h.openWallet answer
  | walletOpened isOpen setFolder =>
    simp only [WalletManager.step]
    split
    · split
      · exact h.slotWalletChangedStatus _ setFolder
      · exact h
    · exact h
  | walletClosed =>
    simp only [WalletManager.step]
    split
    · split
      · split
        · exact h
        · exact h
      · exact h
    · exact h
  | timeout answer =>
    simp only [WalletManager.step]
    split
    · refine Accounted.slotGiveExistingWallet ?_ answer
      exact h
    · exact h
  | deliver => exact h.deliver

/-- **Every request is pending, being delivered or delivered.** -/
theorem accounted_run (events : List WalletEvent) :
    ∀ m ∈ Run.states step start events, Accounted m := by
  have hStep : ∀ m event, Accounted m → Accounted (step m event) := fun _ event h => h.step event
  have hStart : Accounted start := List.Perm.refl _
  exact Run.inv_of_forall hStep hStart events

/-- **No request is stranded, and none is answered twice.** -/
theorem wakeUp_pending (events : List WalletEvent) :
    ∀ m ∈ Run.states step start events,
      (m.signal.isSome = true → m.WakeUpPending) ∧ m.invoked.Nodup := by
  intro m hm
  have hStep : ∀ m event, Inv m → Inv (step m event) := fun _ event h => h.step event
  have hInv : Inv m := Run.inv_of_forall hStep inv_start events m hm
  have hNodup := (accounted_run events m hm).nodup_iff.2 List.nodup_range
  exact ⟨hInv.wakeUp, (List.nodup_append.1 hNodup).1⟩

/-- Two requests wait for the wallet; the slot of the first one is called, and asks again. -/
def askAgain : WalletManager :=
  [.openWallet true, .openWallet true, .walletOpened true true, .deliver, .openWallet true].foldl
    step start

theorem wakeUp_pending_askAgain : askAgain.signal = some [2] ∧ askAgain.WakeUpPending ∧
    askAgain.invoked.Nodup := by
  obtain ⟨hPending, hNodup⟩ := wakeUp_pending _ askAgain (Run.foldl_mem_states start _)
  exact ⟨rfl, hPending rfl, hNodup⟩

end WalletManager

end Kopete
