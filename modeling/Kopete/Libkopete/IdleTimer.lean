import Kopete.Lib.Run
import Mathlib

/-!
# libkopete — when the user has been away

The timer asks now and then for how many seconds nobody has done anything, and tells its
receivers when that has become more than their timeouts, and when somebody is back. Both
numbers are made milliseconds first, in an `int`: after some 25 days the product does not fit
any more.

Main results:

* `Toggles.update` — what a receiver is told, one way and the other, in turn;
* `rightlyTold_iff` — the runs in which everybody is told the right thing.
-/

namespace Kopete.IdleTimer

/-- Which slot of a receiver is called. -/
inductive Member where
  | active
  | idle
deriving DecidableEq, Repr

/-- `IdleTimer::Private::TimeoutReceiver`. The last two fields are not in the program: the seconds
that have been registered, and the slots that have been called, in order. -/
structure TimeoutReceiver where
  active : Bool
  msec : Int
  receiver : Nat
  idleSeconds : Int
  told : List Member
deriving DecidableEq, Repr

/-! ## The code -/

/-- A number of seconds times 1000, as an `int`. -/
def toMsec (seconds : Int) : Int := (seconds * 1000).bmod (2 ^ 32)

/-- `IdleTimer::registerTimeout`. -/
def registerTimeout (receiverList : List TimeoutReceiver) (idleSeconds : Int) (receiver : Nat) :
    List TimeoutReceiver :=
  receiverList ++ [⟨true, toMsec idleSeconds, receiver, idleSeconds, []⟩]

/-- `IdleTimer::unregisterTimeout`. -/
def unregisterTimeout (receiverList : List TimeoutReceiver) (receiver : Nat) :
    List TimeoutReceiver :=
  receiverList.filter (·.receiver ≠ receiver)

/-- Which slot is called when this is how long nobody has done anything, in milliseconds. -/
def TimeoutReceiver.notified (item : TimeoutReceiver) (idle : Int) : Option Member :=
  let activity : Bool := idle < 10
  if item.active ≠ activity ∧ (activity = true ∨ item.msec < idle) then
    some (if activity then .active else .idle)
  else none

def TimeoutReceiver.update (item : TimeoutReceiver) (idle : Int) : TimeoutReceiver :=
  match item.notified idle with
  | none => item
  | some member => { item with active := member = .active, told := item.told ++ [member] }

/-- `IdleTimer::updateIdleTime`, where the platform says that it has been so many seconds. -/
def updateIdleTime (receiverList : List TimeoutReceiver) (seconds : Nat) : List TimeoutReceiver :=
  receiverList.map (·.update (toMsec seconds))

inductive IdleOp where
  | registerTimeout (idleSeconds : Int) (receiver : Nat)
  | unregisterTimeout (receiver : Nat)
  | updateIdleTime (seconds : Nat)
deriving DecidableEq, Repr

def step (receiverList : List TimeoutReceiver) : IdleOp → List TimeoutReceiver
  | .registerTimeout idleSeconds receiver => registerTimeout receiverList idleSeconds receiver
  | .unregisterTimeout receiver => unregisterTimeout receiverList receiver
  | .updateIdleTime seconds => updateIdleTime receiverList seconds

/-! ## In turn -/

/-- Idle, active, idle, ... -/
def InTurn (told : List Member) : Prop :=
  ∀ i member, told[i]? = some member → (member = .idle ↔ i % 2 = 0)

/-- The receiver is told in turn, and the flag says what comes next. -/
structure Toggles (item : TimeoutReceiver) : Prop where
  inTurn : InTurn item.told
  active_iff : item.active = true ↔ item.told.length % 2 = 0

theorem InTurn.append {told : List Member} (h : InTurn told) {member : Member}
    (hLast : member = .idle ↔ told.length % 2 = 0) : InTurn (told ++ [member]) := by
  intro i other hOther
  rcases Nat.lt_trichotomy i told.length with hBefore | rfl | hBehind
  · rw [List.getElem?_append_left hBefore] at hOther
    exact h i other hOther
  · rw [List.getElem?_concat_length] at hOther
    cases hOther
    exact hLast
  · rw [List.getElem?_eq_none (by rw [List.length_append, List.length_singleton]; omega)] at hOther
    cases hOther

/-- What is told is the other thing than the flag says. -/
theorem notified_cases {item : TimeoutReceiver} {idle : Int} {member : Member}
    (h : item.notified idle = some member) :
    (member = .active ∧ item.active = false ∧ idle < 10) ∨
      (member = .idle ∧ item.active = true ∧ 10 ≤ idle ∧ item.msec < idle) := by
  unfold TimeoutReceiver.notified at h
  simp only at h
  split at h
  · next hTold =>
    obtain ⟨hDiffers, hEnough⟩ := hTold
    cases h
    by_cases hActivity : idle < 10
    · simp only [hActivity, decide_true] at hDiffers
      exact .inl ⟨by simp [hActivity], by simpa using hDiffers, hActivity⟩
    · simp only [hActivity, decide_false, Bool.false_eq_true, false_or] at hDiffers hEnough
      exact .inr ⟨by simp [hActivity], by simpa using hDiffers, by omega, hEnough⟩
  · cases h

theorem notified_active_iff (item : TimeoutReceiver) (idle : Int) :
    item.notified idle = some .active ↔ item.active = false ∧ idle < 10 := by
  constructor
  · intro h
    rcases notified_cases h with ⟨-, hActive⟩ | ⟨hMember, -⟩
    · exact hActive
    · cases hMember
  · rintro ⟨hActive, hIdle⟩
    simp [TimeoutReceiver.notified, hActive, hIdle]

theorem notified_idle_iff (item : TimeoutReceiver) (idle : Int) :
    item.notified idle = some .idle ↔ item.active = true ∧ 10 ≤ idle ∧ item.msec < idle := by
  constructor
  · intro h
    rcases notified_cases h with ⟨hMember, -⟩ | ⟨-, hActive⟩
    · cases hMember
    · exact hActive
  · rintro ⟨hActive, hIdle, hEnough⟩
    simp [TimeoutReceiver.notified, hActive, hEnough, Int.not_lt.2 hIdle]

/-- **What a receiver is told**, in turn. -/
theorem Toggles.update {item : TimeoutReceiver} (h : Toggles item) (idle : Int) :
    Toggles (item.update idle) := by
  unfold TimeoutReceiver.update
  split
  · exact h
  · next member hMember =>
    have hLength : (item.told ++ [member]).length = item.told.length + 1 :=
      List.length_append
    rcases notified_cases hMember with ⟨rfl, hActive, -⟩ | ⟨rfl, hActive, -⟩
    · have hOdd : ¬ item.told.length % 2 = 0 := by rw [← h.active_iff, hActive]; simp
      refine ⟨h.inTurn.append (iff_of_false (by simp) hOdd), ?_⟩
      rw [hLength]
      simp only [decide_true, true_iff]
      omega
    · have hEven : item.told.length % 2 = 0 := h.active_iff.1 hActive
      refine ⟨h.inTurn.append (iff_of_true rfl hEven), ?_⟩
      rw [hLength]
      simp only [reduceCtorEq, decide_false, Bool.false_eq_true, false_iff]
      omega

theorem toggles_step {receiverList : List TimeoutReceiver} (h : ∀ item ∈ receiverList, Toggles item)
    (op : IdleOp) : ∀ item ∈ step receiverList op, Toggles item := by
  intro item hItem
  cases op with
  | registerTimeout idleSeconds receiver =>
    rcases List.mem_append.1 hItem with hOld | hNew
    · exact h item hOld
    · rw [List.mem_singleton.1 hNew]
      exact ⟨fun i member hMember => by simp at hMember, by simp⟩
  | unregisterTimeout receiver => exact h item (List.mem_filter.1 hItem).1
  | updateIdleTime seconds =>
    obtain ⟨old, hOld, rfl⟩ := List.mem_map.1 hItem
    exact (h old hOld).update _

/-! ## The right thing -/

/-- Who is told that the user is idle has a timeout that is exceeded, and who is told that he is
active is told in a sample of 0 seconds. -/
def RightlyTold (receiverList : List TimeoutReceiver) : IdleOp → Prop
  | .updateIdleTime seconds => ∀ item ∈ receiverList,
      (item.notified (toMsec seconds) = some .idle → item.idleSeconds < seconds) ∧
      (item.notified (toMsec seconds) = some .active → seconds = 0)
  | _ => True

/-- The milliseconds do not deceive: where they are below 10 and the seconds are not 0, nobody has
been told that the user is idle; and where they are not, they exceed only those timeouts that
the seconds exceed, of receivers to be told. -/
def Undeceived (receiverList : List TimeoutReceiver) : IdleOp → Prop
  | .updateIdleTime seconds =>
      (toMsec seconds < 10 → seconds ≠ 0 → ∀ item ∈ receiverList, item.active = true) ∧
      (10 ≤ toMsec seconds → ∀ item ∈ receiverList, item.active = true →
        (seconds : Int) ≤ item.idleSeconds → toMsec seconds ≤ toMsec item.idleSeconds)
  | _ => True

/-- The timeout is kept in milliseconds. -/
def Scaled (receiverList : List TimeoutReceiver) : Prop :=
  ∀ item ∈ receiverList, item.msec = toMsec item.idleSeconds

/-- A receiver keeps its timeout; a new one has that of the registration. -/
theorem mem_step {receiverList : List TimeoutReceiver} {op : IdleOp} {item : TimeoutReceiver}
    (h : item ∈ step receiverList op) :
    (∃ old ∈ receiverList, item.msec = old.msec ∧ item.idleSeconds = old.idleSeconds) ∨
      ∃ idleSeconds receiver, op = .registerTimeout idleSeconds receiver ∧
        item.msec = toMsec idleSeconds ∧ item.idleSeconds = idleSeconds := by
  cases op with
  | registerTimeout idleSeconds receiver =>
    rcases List.mem_append.1 h with hOld | hNew
    · exact .inl ⟨item, hOld, rfl, rfl⟩
    · rw [List.mem_singleton.1 hNew]
      exact .inr ⟨idleSeconds, receiver, rfl, rfl, rfl⟩
  | unregisterTimeout receiver => exact .inl ⟨item, (List.mem_filter.1 h).1, rfl, rfl⟩
  | updateIdleTime seconds =>
    obtain ⟨old, hOld, rfl⟩ := List.mem_map.1 h
    refine .inl ⟨old, hOld, ?_⟩
    unfold TimeoutReceiver.update
    split
    · exact ⟨rfl, rfl⟩
    · exact ⟨rfl, rfl⟩

theorem scaled_step {receiverList : List TimeoutReceiver} (h : Scaled receiverList)
    (op : IdleOp) : Scaled (step receiverList op) := by
  intro item hItem
  rcases mem_step hItem with ⟨old, hOld, hMsec, hSeconds⟩ | ⟨_, _, _, hMsec, hSeconds⟩
  · rw [hMsec, hSeconds]
    exact h old hOld
  · rw [hMsec, hSeconds]

theorem rightlyTold_step {receiverList : List TimeoutReceiver} (h : Scaled receiverList)
    (op : IdleOp) : RightlyTold receiverList op ↔ Undeceived receiverList op := by
  cases op with
  | registerTimeout idleSeconds receiver => exact Iff.rfl
  | unregisterTimeout receiver => exact Iff.rfl
  | updateIdleTime seconds =>
    simp only [RightlyTold, Undeceived, notified_idle_iff, notified_active_iff]
    constructor
    · intro hRight
      refine ⟨fun hLow hSeconds item hItem => ?_, fun hHigh item hItem hActive hLess => ?_⟩
      · by_contra hIdle
        exact hSeconds ((hRight item hItem).2 ⟨by simpa using hIdle, hLow⟩)
      · by_contra hMore
        rw [← h item hItem] at hMore
        have hExceeded := (hRight item hItem).1 ⟨hActive, hHigh, Int.not_le.1 hMore⟩
        omega
    · rintro ⟨hLow, hHigh⟩ item hItem
      refine ⟨fun hIdle => ?_, fun hActive => ?_⟩
      · by_contra hLess
        have hNotMore := hHigh hIdle.2.1 item hItem hIdle.1 (Int.not_lt.1 hLess)
        rw [← h item hItem] at hNotMore
        exact absurd hIdle.2.2 (Int.not_lt.2 hNotMore)
      · by_contra hSeconds
        have hFlag := hLow hActive.2 hSeconds item hItem
        rw [hActive.1] at hFlag
        cases hFlag

theorem stepsMeet_rightlyTold (ops : List IdleOp) :
    Run.StepsMeet step RightlyTold [] ops ↔ Run.StepsMeet step Undeceived [] ops := by
  have hExact : ∀ receiverList op, Scaled receiverList →
      (RightlyTold receiverList op ↔ Undeceived receiverList op) :=
    fun _ op h => rightlyTold_step h op
  exact Run.stepsMeet_iff_of_inv hExact (fun _ op h _ => scaled_step h op)
    (List.forall_mem_nil _) ops

/-- **The runs in which everybody is told the right thing.** In turn they are told in all. -/
theorem rightlyTold_iff (ops : List IdleOp) :
    ((∀ receiverList ∈ Run.states step [] ops, ∀ item ∈ receiverList, InTurn item.told) ∧
      Run.StepsMeet step RightlyTold [] ops) ↔ Run.StepsMeet step Undeceived [] ops := by
  have hStep : ∀ receiverList op, (∀ item ∈ receiverList, Toggles item) →
      ∀ item ∈ step receiverList op, Toggles item := fun _ op h => toggles_step h op
  have hToggles : ∀ receiverList ∈ Run.states step [] ops, ∀ item ∈ receiverList, Toggles item :=
    Run.inv_of_forall hStep (List.forall_mem_nil _) ops
  rw [and_iff_right fun receiverList hList item hItem => (hToggles receiverList hList item hItem).1]
  exact stepsMeet_rightlyTold ops

/-- Five minutes, ten minutes, and almost 25 days. -/
theorem rightlyTold_long : ¬ Run.StepsMeet step RightlyTold []
    [.registerTimeout 300 0, .updateIdleTime 600, .updateIdleTime 2147484] := by
  rintro ⟨-, -, hLong, -⟩
  have hActive : (⟨false, 300000, 0, 300, [.idle]⟩ : TimeoutReceiver).notified
      (toMsec (2147484 : Nat)) = some .active := by decide
  have hZero := (hLong _ List.mem_cons_self).2 hActive
  cases hZero

end Kopete.IdleTimer
