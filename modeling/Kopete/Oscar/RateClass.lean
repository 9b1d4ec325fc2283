import Kopete.Oscar.Buffer

/-!
# Oscar — rate classes

A `RateClass` holds back transfers so that its level, a moving average of the
time between two of them, stays above the one at which the server takes offence.
`enqueue`, `setupTimer` and `slotSend` call each other around the flag
`m_waitingToSend`.

`τ` is the type of the transfers. The environment is a `Clock`: the time at each
of the readings that are ever made of it, so nothing is known about how much
time passes between two of them. `singleShots` are the timers that will call
`slotSend`, by the time they are due. What a function does on the outside is
listed, in order, as `Action`s.

Main results:

* `enqueue_sends`, `timeout_sends` — what is sent is the front of the queue, and
  a timer runs if and only if something is left in it.
-/

namespace Oscar

/-- The time at every reading, in milliseconds. -/
structure Clock where
  time : Nat → Nat
  mono : Monotone time

/-- `RateInfo`, as far as it decides when to send. -/
structure RateInfo where
  windowSize : UInt32
  initialLevel : UInt32
  alertLevel : UInt32
  disconnectLevel : UInt32
  currentLevel : UInt32
deriving DecidableEq, Repr

def RATE_SAFETY_TIME : UInt32 := 50

namespace RateInfo

/-- `calcNewLevel`. A window of 0, by which one cannot divide, gives 0. -/
def calcNewLevel (m_rateInfo : RateInfo) (timeDifference : Nat) : UInt32 :=
  let newLevel := ((m_rateInfo.windowSize - 1) * m_rateInfo.currentLevel +
    UInt32.ofNat timeDifference) / m_rateInfo.windowSize
  if newLevel > m_rateInfo.initialLevel then m_rateInfo.initialLevel else newLevel

/-- `alertLevel + RATE_SAFETY_TIME`: the level at which a packet may be sent. -/
def maxPacket (m_rateInfo : RateInfo) : UInt32 := m_rateInfo.alertLevel + RATE_SAFETY_TIME

/-- `timeToNextSend`, `timeDiff` milliseconds after the last packet. -/
def timeToNextSend (m_rateInfo : RateInfo) (timeDiff : Nat) : Int :=
  let windowSize := m_rateInfo.windowSize
  let newLevel := m_rateInfo.calcNewLevel timeDiff
  if newLevel < m_rateInfo.maxPacket ∨ newLevel < m_rateInfo.disconnectLevel then
    asInt (windowSize * m_rateInfo.maxPacket - (windowSize - 1) * m_rateInfo.currentLevel).toNat
  else 0

end RateInfo

/-- `RateClass`. -/
structure RateClass (τ : Type) where
  m_rateInfo : RateInfo
  m_members : List (Nat × Nat)
  m_packetQueue : List τ
  m_packetTimer : Nat
  m_waitingToSend : Bool
  singleShots : List Nat
deriving DecidableEq, Repr

/-- What a rate class does: it reads the time since the last packet, hands over
a transfer, or records a level. -/
inductive Action (τ : Type) where
  | elapsed (ms : Nat)
  | dataReady (t : τ)
  | recorded (level : UInt32)
deriving DecidableEq, Repr

/-- The transfers handed over. -/
def Action.sent {τ : Type} (log : List (Action τ)) : List τ :=
  log.filterMap fun
    | .dataReady t => some t
    | _ => none

namespace RateClass

variable {τ : Type}

/-- `RateClass()`, with the information and the members it gets, at a time. -/
def new (m_rateInfo : RateInfo) (m_members : List (Nat × Nat)) (now : Nat) : RateClass τ :=
  ⟨m_rateInfo, m_members, [], now, false, []⟩

/-- `isMember`. -/
def isMember (c : RateClass τ) (family subtype : Nat) : Bool :=
  c.m_members.any fun m => m.1 == family && m.2 == subtype

/-- `m_packetTimer.elapsed()`, at the `k`-th reading: the time since it was
started. (A `QTime` starts over after a day.) -/
def elapsed (clock : Clock) (k : Nat) (c : RateClass τ) : Nat := clock.time k - c.m_packetTimer

/-- `updateRateInfo`, from the `k`-th reading on; the next one restarts the timer. -/
def updateRateInfo (clock : Clock) (k : Nat) (c : RateClass τ) : RateClass τ :=
  { c with
    m_rateInfo := { c.m_rateInfo with
      currentLevel := c.m_rateInfo.calcNewLevel (c.elapsed clock k) }
    m_packetTimer := clock.time (k + 1) }

mutual

/-- `setupTimer`, from the `k`-th reading on: the class, the number of readings
made by then, and what has been done. -/
def setupTimer (clock : Clock) (k : Nat) (c : RateClass τ) :
    RateClass τ × Nat × List (Action τ) :=
  if c.m_waitingToSend then (c, k, [])
  else
    let timeDiff := c.elapsed clock k
    let ttns := c.m_rateInfo.timeToNextSend timeDiff
    if ttns ≤ 0 then -- send now
      let r := slotSend clock (k + 1) { c with m_waitingToSend := true }
      (r.1, r.2.1, .elapsed timeDiff :: r.2.2)
    else -- or send later
      ({ c with
          m_waitingToSend := true
          singleShots := c.singleShots ++ [clock.time k + ttns.toNat] },
        k + 1, [.elapsed timeDiff])
termination_by 2 * c.m_packetQueue.length + 1

/-- `slotSend`. -/
def slotSend (clock : Clock) (k : Nat) (c : RateClass τ) :
    RateClass τ × Nat × List (Action τ) :=
  match _h : c.m_packetQueue with
  | [] => (c, k, [])
  | t :: rest =>
    let d := { c with m_packetQueue := rest }.updateRateInfo clock k
    let d := { d with m_waitingToSend := false }
    let log := [.dataReady t, .elapsed (c.elapsed clock k), .recorded d.m_rateInfo.currentLevel]
    -- check if we still have packets to send
    if rest.isEmpty then (d, k + 2, log)
    else
      let r := setupTimer clock (k + 2) d
      (r.1, r.2.1, log ++ r.2.2)
termination_by 2 * c.m_packetQueue.length
decreasing_by
  simp only [updateRateInfo, _h, List.length_cons]
  omega

end

/-- `enqueue`. -/
def enqueue (clock : Clock) (k : Nat) (t : τ) (c : RateClass τ) :
    RateClass τ × Nat × List (Action τ) :=
  setupTimer clock k { c with m_packetQueue := c.m_packetQueue ++ [t] }

/-- The event loop calls `slotSend` for the first of its timers. -/
def timeout (clock : Clock) (k : Nat) (c : RateClass τ) : RateClass τ × Nat × List (Action τ) :=
  match c.singleShots with
  | [] => (c, k, [])
  | _ :: singleShots => slotSend clock k { c with singleShots := singleShots }

/-! ## What is sent -/

/-- Between two calls: a class waits if and only if something is in its queue,
and then one timer runs. -/
structure Waits (c : RateClass τ) : Prop where
  waitingToSend : c.m_waitingToSend = !c.m_packetQueue.isEmpty
  singleShots : c.singleShots.length = if c.m_packetQueue.isEmpty then 0 else 1

/-- The front of the queue has been sent, and the class waits for the rest. -/
structure Sends (c : RateClass τ) (r : RateClass τ × Nat × List (Action τ)) : Prop where
  queue : Action.sent r.2.2 ++ r.1.m_packetQueue = c.m_packetQueue
  members : r.1.m_members = c.m_members
  waits : r.1.Waits

theorem sent_append (log log' : List (Action τ)) :
    Action.sent (log ++ log') = Action.sent log ++ Action.sent log' :=
  List.filterMap_append

theorem setupTimer_waiting (clock : Clock) (k : Nat) {c : RateClass τ}
    (h : c.m_waitingToSend = true) : setupTimer clock k c = (c, k, []) := by
  rw [setupTimer, if_pos h]

theorem slotSend_nil (clock : Clock) (k : Nat) {c : RateClass τ} (h : c.m_packetQueue = []) :
    slotSend clock k c = (c, k, []) := by
  rw [slotSend]
  split
  · rfl
  · next hCons => rw [h] at hCons; cases hCons

/-- The class once its first transfer is gone. -/
def sentFirst (clock : Clock) (k : Nat) (rest : List τ) (c : RateClass τ) : RateClass τ :=
  { { c with m_packetQueue := rest }.updateRateInfo clock k with m_waitingToSend := false }

theorem slotSend_cons (clock : Clock) (k : Nat) {c : RateClass τ} {t : τ} {rest : List τ}
    (h : c.m_packetQueue = t :: rest) :
    slotSend clock k c =
      let d := c.sentFirst clock k rest
      let log := [.dataReady t, .elapsed (c.elapsed clock k), .recorded d.m_rateInfo.currentLevel]
      if rest.isEmpty then (d, k + 2, log)
      else ((setupTimer clock (k + 2) d).1, (setupTimer clock (k + 2) d).2.1,
        log ++ (setupTimer clock (k + 2) d).2.2) := by
  rw [slotSend]
  split
  · next hNil => rw [h] at hNil; cases hNil
  · next t' rest' hCons =>
    rw [h] at hCons
    obtain ⟨rfl, rfl⟩ := List.cons.inj hCons
    rfl

/-- With the queue to be sent from and no timer running, both send. -/
theorem sends (clock : Clock) :
    (∀ k (c : RateClass τ), c.m_packetQueue ≠ [] → c.m_waitingToSend = false →
      c.singleShots = [] → c.Sends (setupTimer clock k c)) ∧
    ∀ k (c : RateClass τ), c.m_packetQueue ≠ [] → c.singleShots = [] →
      c.Sends (slotSend clock k c) ∧ 0 < (Action.sent (slotSend clock k c).2.2).length := by
  apply setupTimer.mutual_induct clock
  case case1 =>
    intro k c hWaiting _ hIdle _
    rw [hIdle] at hWaiting
    cases hWaiting
  case case2 =>
    intro k c hIdle timeDiff ttns hNow ih hQueue _ hShots
    obtain ⟨⟨hSent, hMembers, hWaits⟩, -⟩ := ih hQueue hShots
    rw [setupTimer, if_neg hIdle, if_pos hNow]
    exact ⟨hSent, hMembers, hWaits⟩
  case case3 =>
    intro k c hIdle timeDiff ttns hLater hQueue _ hShots
    rw [setupTimer, if_neg hIdle, if_neg hLater]
    refine ⟨rfl, rfl, ?_, ?_⟩
    · simp [hQueue]
    · simp [hQueue, hShots]
  case case4 =>
    intro k c hNil hQueue
    exact absurd hNil hQueue
  case case5 =>
    intro k c t rest hCons hLast hQueue hShots
    have hNil : rest = [] := List.isEmpty_iff.mp hLast
    rw [slotSend_cons clock k hCons]
    simp only [if_pos hLast]
    refine ⟨⟨?_, rfl, ?_, ?_⟩, Nat.one_pos⟩
    · rw [hCons, hNil]
      rfl
    · simp [sentFirst, updateRateInfo, hNil]
    · simp [sentFirst, updateRateInfo, hNil, hShots]
  case case6 =>
    intro k c t rest hCons d' d hMore ih hQueue hShots
    have hRest : rest ≠ [] := fun hNil => hMore (List.isEmpty_iff.mpr hNil)
    obtain ⟨hSent, hMembers, hWaits⟩ := ih hRest rfl hShots
    rw [slotSend_cons clock k hCons]
    simp only [if_neg hMore]
    refine ⟨⟨?_, hMembers, hWaits⟩, Nat.succ_pos _⟩
    rw [sent_append, hCons, List.append_assoc]
    exact congrArg (t :: ·) hSent

/-- A transfer that is enqueued is sent in its turn. -/
theorem enqueue_sends (clock : Clock) (k : Nat) (t : τ) {c : RateClass τ} (h : c.Waits) :
    Sends { c with m_packetQueue := c.m_packetQueue ++ [t] } (enqueue clock k t c) := by
  have hWaiting := h.waitingToSend
  have hShots := h.singleShots
  cases hQueue : c.m_packetQueue with
  | nil =>
    rw [hQueue] at hWaiting hShots
    have hSends := (sends clock).1 k { c with m_packetQueue := [] ++ [t] } (List.cons_ne_nil _ _)
      hWaiting (List.length_eq_zero_iff.mp hShots)
    rw [enqueue, hQueue]
    exact hSends
  | cons u rest =>
    rw [hQueue] at hWaiting hShots
    have hOn : { c with m_packetQueue := c.m_packetQueue ++ [t] }.m_waitingToSend = true := hWaiting
    rw [enqueue, setupTimer_waiting clock k hOn, hQueue]
    exact ⟨rfl, rfl, hWaiting, hShots⟩

/-- A timer sends what is first in the queue, at least. -/
theorem timeout_sends (clock : Clock) (k : Nat) {c : RateClass τ} (h : c.Waits) :
    c.Sends (timeout clock k c) ∧
      (timeout clock k c).1.m_packetQueue.length ≤ c.m_packetQueue.length - 1 := by
  have hShots := h.singleShots
  unfold timeout
  split
  · next hNone =>
    rw [hNone] at hShots
    have hQueue : c.m_packetQueue = [] := by
      by_contra hCons
      simp [hCons] at hShots
    exact ⟨⟨rfl, rfl, h⟩, by simp [hQueue]⟩
  · next due singleShots hOne =>
    rw [hOne] at hShots
    have hQueue : c.m_packetQueue ≠ [] := by
      intro hNil
      simp [hNil] at hShots
    have hLast : singleShots = [] := by
      simp only [List.length_cons, List.isEmpty_iff, if_neg hQueue] at hShots
      exact List.length_eq_zero_iff.mp (by omega)
    obtain ⟨hSends, hFirst⟩ := (sends clock).2 k { c with singleShots := singleShots } hQueue hLast
    refine ⟨⟨hSends.queue, hSends.members, hSends.waits⟩, ?_⟩
    have hLength := congrArg List.length hSends.queue
    rw [List.length_append] at hLength
    replace hLength : _ = c.m_packetQueue.length := hLength
    omega

end RateClass

end Oscar
