import Kopete.Lib.Run
import Kopete.Oscar.RateClass

/-!
# Oscar — the level of a rate class

How long a rate class waits is found by solving the formula of its level for the
time. The formula rounds down and is cut at the initial level, and everything is
computed in `DWORD`s; yet a transfer that is sent when its time has come leaves
no level below the one at which it may be sent, or the initial one if that is
lower.

Main results:

* `safe_timeToNextSend` — after the wait the formula gives `maxPacket` at least;
* `recorded_ge` — so does every level that is recorded in a run.
-/

namespace Oscar

/-! ## The formula -/

namespace RateInfo

/-- `timeDiff` milliseconds after the last packet the formula gives `maxPacket`. -/
def Safe (m_rateInfo : RateInfo) (timeDiff : Nat) : Prop :=
  m_rateInfo.windowSize.toNat * (m_rateInfo.alertLevel.toNat + 50) ≤
    (m_rateInfo.windowSize.toNat - 1) * m_rateInfo.currentLevel.toNat + timeDiff

theorem Safe.mono {m_rateInfo : RateInfo} {timeDiff later : Nat} (h : m_rateInfo.Safe timeDiff)
    (hLater : timeDiff ≤ later) : m_rateInfo.Safe later :=
  Nat.le_trans h (Nat.add_le_add_left hLater _)

/-- The window is not empty, and `bound` bounds the levels, the one at which a
packet may be sent among them. Where the server disconnects does not matter. -/
structure Bounded (bound : Nat) (m_rateInfo : RateInfo) : Prop where
  windowSize : 1 ≤ m_rateInfo.windowSize.toNat
  maxPacket : m_rateInfo.alertLevel.toNat + 50 ≤ bound
  initialLevel : m_rateInfo.initialLevel.toNat ≤ bound
  currentLevel : m_rateInfo.currentLevel.toNat ≤ bound

section Formula

variable {m_rateInfo : RateInfo} {bound : Nat}

/-- Neither product of the formulas is larger than the window times the bound. -/
theorem Bounded.products (h : m_rateInfo.Bounded bound) :
    (m_rateInfo.windowSize.toNat - 1) * m_rateInfo.currentLevel.toNat ≤
        m_rateInfo.windowSize.toNat * bound ∧
      m_rateInfo.windowSize.toNat * (m_rateInfo.alertLevel.toNat + 50) ≤
        m_rateInfo.windowSize.toNat * bound :=
  ⟨Nat.mul_le_mul (Nat.sub_le _ _) h.currentLevel, Nat.mul_le_mul_left _ h.maxPacket⟩

theorem toNat_windowSize_sub (h : 1 ≤ m_rateInfo.windowSize.toNat) :
    (m_rateInfo.windowSize - 1).toNat = m_rateInfo.windowSize.toNat - 1 := by
  have hOne : (1 : UInt32) ≤ m_rateInfo.windowSize := UInt32.le_iff_toNat_le.mpr h
  rw [UInt32.toNat_sub_of_le _ _ hOne]
  rfl

theorem toNat_maxPacket (m_rateInfo : RateInfo) (h : m_rateInfo.alertLevel.toNat + 50 < 2 ^ 32) :
    m_rateInfo.maxPacket.toNat = m_rateInfo.alertLevel.toNat + 50 := by
  rw [maxPacket, UInt32.toNat_add, RATE_SAFETY_TIME]
  exact Nat.mod_eq_of_lt h

theorem toNat_calcNewLevel (h : m_rateInfo.Bounded bound) {timeDiff : Nat}
    (hSmall : m_rateInfo.windowSize.toNat * bound + timeDiff < 2 ^ 31) :
    (m_rateInfo.calcNewLevel timeDiff).toNat =
      min (((m_rateInfo.windowSize.toNat - 1) * m_rateInfo.currentLevel.toNat + timeDiff) /
        m_rateInfo.windowSize.toNat) m_rateInfo.initialLevel.toNat := by
  have hProduct := h.products.1
  have hQuotient : (((m_rateInfo.windowSize - 1) * m_rateInfo.currentLevel +
      UInt32.ofNat timeDiff) / m_rateInfo.windowSize).toNat =
        ((m_rateInfo.windowSize.toNat - 1) * m_rateInfo.currentLevel.toNat + timeDiff) /
          m_rateInfo.windowSize.toNat := by
    rw [UInt32.toNat_div, UInt32.toNat_add, UInt32.toNat_mul, UInt32.toNat_ofNat',
      toNat_windowSize_sub h.windowSize, Nat.mod_eq_of_lt (a := timeDiff) (by omega),
      Nat.mod_eq_of_lt (a := _ * _) (by omega), Nat.mod_eq_of_lt (by omega)]
  rw [calcNewLevel]
  split
  · next hCut =>
    have hLess := UInt32.lt_iff_toNat_lt.mp hCut
    rw [hQuotient] at hLess
    omega
  · next hCut =>
    have hLess := mt UInt32.lt_iff_toNat_lt.mpr hCut
    rw [hQuotient] at hLess
    rw [hQuotient]
    omega

/-- What is recorded at a safe time. -/
theorem calcNewLevel_ge (h : m_rateInfo.Bounded bound) {timeDiff : Nat}
    (hSmall : m_rateInfo.windowSize.toNat * bound + timeDiff < 2 ^ 31)
    (hSafe : m_rateInfo.Safe timeDiff) :
    min m_rateInfo.initialLevel.toNat (m_rateInfo.alertLevel.toNat + 50) ≤
      (m_rateInfo.calcNewLevel timeDiff).toNat := by
  have hFloor : m_rateInfo.alertLevel.toNat + 50 ≤
      ((m_rateInfo.windowSize.toNat - 1) * m_rateInfo.currentLevel.toNat + timeDiff) /
        m_rateInfo.windowSize.toNat := by
    rw [Nat.le_div_iff_mul_le h.windowSize, Nat.mul_comm]
    exact hSafe
  rw [toNat_calcNewLevel h hSmall]
  omega

theorem calcNewLevel_le (timeDiff : Nat) :
    (m_rateInfo.calcNewLevel timeDiff).toNat ≤ m_rateInfo.initialLevel.toNat := by
  rw [calcNewLevel]
  split
  · exact le_refl _
  · next hCut =>
    exact Nat.le_of_not_lt (mt UInt32.lt_iff_toNat_lt.mpr hCut)

/-- **The wait.** Whatever `timeToNextSend` says, after that time it is safe. -/
theorem safe_timeToNextSend (h : m_rateInfo.Bounded bound) {timeDiff : Nat}
    (hSmall : m_rateInfo.windowSize.toNat * bound + timeDiff < 2 ^ 31) :
    m_rateInfo.Safe (timeDiff + (m_rateInfo.timeToNextSend timeDiff).toNat) := by
  obtain ⟨hOld, hMax⟩ := h.products
  have hBound : bound ≤ m_rateInfo.windowSize.toNat * bound := Nat.le_mul_of_pos_left _ h.windowSize
  have hPacket := toNat_maxPacket m_rateInfo (by have := h.maxPacket; omega)
  unfold Safe
  rw [timeToNextSend]
  split
  · -- the difference of the products, unless the second is the larger one
    rw [UInt32.toNat_sub, UInt32.toNat_mul, UInt32.toNat_mul, hPacket,
      toNat_windowSize_sub h.windowSize, Nat.mod_eq_of_lt (a := _ * (_ + 50)) (by omega),
      Nat.mod_eq_of_lt (a := (_ - 1) * _) (by omega)]
    unfold asInt
    split <;> omega
  · next hEnough =>
    have hLevel : m_rateInfo.alertLevel.toNat + 50 ≤ (m_rateInfo.calcNewLevel timeDiff).toNat := by
      rw [← hPacket]
      exact Nat.le_of_not_lt fun hLess => hEnough (.inl (UInt32.lt_iff_toNat_lt.mpr hLess))
    rw [toNat_calcNewLevel h hSmall] at hLevel
    have hFloor := (Nat.le_div_iff_mul_le h.windowSize).mp (hLevel.trans (Nat.min_le_left ..))
    rw [Nat.mul_comm] at hFloor
    exact Nat.le_trans hFloor (Nat.add_le_add_left (Nat.le_add_right ..) _)

end Formula

end RateInfo

/-! ## Runs -/

namespace RateClass

variable {τ : Type}

/-- A rate class in time: the readings made of the clock so far, and what the
class has done. -/
structure Timed (τ : Type) where
  c : RateClass τ
  reads : Nat
  log : List (Action τ)

/-- A new class; the constructor makes the first reading. -/
def Timed.new (clock : Clock) (m_rateInfo : RateInfo) (m_members : List (Nat × Nat)) : Timed τ :=
  ⟨RateClass.new m_rateInfo m_members (clock.time 0), 1, []⟩

/-- A transfer is enqueued, or the timer fires. -/
inductive Op (τ : Type) where
  | enqueue (t : τ)
  | timeout

def step (clock : Clock) (s : Timed τ) (op : Op τ) : Timed τ :=
  let r := match op with
    | .enqueue t => s.c.enqueue clock s.reads t
    | .timeout => s.c.timeout clock s.reads
  ⟨r.1, r.2.1, s.log ++ r.2.2⟩

/-- The window times any level plus the elapsed time is an `int`. -/
def SmallTimes (m_rateInfo : RateInfo) (bound : Nat) (log : List (Action τ)) : Prop :=
  ∀ ms, Action.elapsed ms ∈ log → m_rateInfo.windowSize.toNat * bound + ms < 2 ^ 31

/-- What is assumed of a step: a timer fires no earlier than asked, and the
times that are read are small. -/
structure Regular (clock : Clock) (m_rateInfo : RateInfo) (bound : Nat) (s : Timed τ)
    (op : Op τ) : Prop where
  onTime : op = .timeout → ∀ due ∈ s.c.singleShots, due ≤ clock.time s.reads
  small : SmallTimes m_rateInfo bound (step clock s op).log

/-- No level in the log is below the two of `m_rateInfo`. -/
def HighLevels (m_rateInfo : RateInfo) (log : List (Action τ)) : Prop :=
  ∀ level, Action.recorded level ∈ log →
    min m_rateInfo.initialLevel.toNat (m_rateInfo.alertLevel.toNat + 50) ≤ level.toNat

/-- A class and the number of readings made, between two calls: its timer has
been started, and will be safe when it is due. -/
structure OnSchedule (clock : Clock) (m_rateInfo : RateInfo) (bound : Nat) (k : Nat)
    (c : RateClass τ) : Prop where
  limits : ∃ level, level.toNat ≤ bound ∧ c.m_rateInfo = { m_rateInfo with currentLevel := level }
  started : c.m_packetTimer ≤ clock.time k
  due : ∀ due ∈ c.singleShots, c.m_rateInfo.Safe (due - c.m_packetTimer)

section Schedule

variable {clock : Clock} {m_rateInfo : RateInfo} {bound k : Nat} {c : RateClass τ}

theorem OnSchedule.bounded (h : OnSchedule clock m_rateInfo bound k c)
    (hBounded : m_rateInfo.Bounded bound) : c.m_rateInfo.Bounded bound := by
  obtain ⟨level, hLevel, hInfo⟩ := h.limits
  rw [hInfo]
  exact ⟨hBounded.windowSize, hBounded.maxPacket, hBounded.initialLevel, hLevel⟩

/-- The times in the log are small for the class as it is now. -/
theorem OnSchedule.small (h : OnSchedule clock m_rateInfo bound k c) {log : List (Action τ)}
    (hSmall : SmallTimes m_rateInfo bound log) {ms : Nat} (hMs : Action.elapsed ms ∈ log) :
    c.m_rateInfo.windowSize.toNat * bound + ms < 2 ^ 31 := by
  obtain ⟨level, -, hInfo⟩ := h.limits
  rw [hInfo]
  exact hSmall ms hMs

theorem elapsed_mono (c : RateClass τ) {j : Nat} (h : k ≤ j) :
    c.elapsed clock k ≤ c.elapsed clock j :=
  Nat.sub_le_sub_right (clock.mono h) _

theorem OnSchedule.later (h : OnSchedule clock m_rateInfo bound k c) {j : Nat} (hj : k ≤ j) :
    OnSchedule clock m_rateInfo bound j c :=
  ⟨h.limits, h.started.trans (clock.mono hj), h.due⟩

/-- The first transfer is sent at a safe time. -/
theorem OnSchedule.sentFirst (h : OnSchedule clock m_rateInfo bound k c)
    (hBounded : m_rateInfo.Bounded bound) (hShots : c.singleShots = []) (rest : List τ) :
    OnSchedule clock m_rateInfo bound (k + 2) (c.sentFirst clock k rest) := by
  obtain ⟨level, -, hInfo⟩ := h.limits
  refine ⟨⟨c.m_rateInfo.calcNewLevel (c.elapsed clock k), ?_, ?_⟩, ?_, ?_⟩
  · exact (RateInfo.calcNewLevel_le _).trans (h.bounded hBounded).initialLevel
  · simp only [RateClass.sentFirst, updateRateInfo]
    rw [hInfo]
    rfl
  · exact clock.mono (Nat.le_succ _)
  · intro due hDue
    replace hDue : due ∈ c.singleShots := hDue
    rw [hShots] at hDue
    cases hDue

theorem OnSchedule.level_ge (h : OnSchedule clock m_rateInfo bound k c)
    (hBounded : m_rateInfo.Bounded bound) (hSafe : c.m_rateInfo.Safe (c.elapsed clock k))
    (hSmall : c.m_rateInfo.windowSize.toNat * bound + c.elapsed clock k < 2 ^ 31) :
    min m_rateInfo.initialLevel.toNat (m_rateInfo.alertLevel.toNat + 50) ≤
      (c.m_rateInfo.calcNewLevel (c.elapsed clock k)).toNat := by
  have hLevel := RateInfo.calcNewLevel_ge (h.bounded hBounded) hSmall hSafe
  obtain ⟨level, -, hInfo⟩ := h.limits
  rw [hInfo] at hLevel ⊢
  exact hLevel

/-- What a call leaves: high levels, and a class on schedule. -/
def Keeps (clock : Clock) (m_rateInfo : RateInfo) (bound : Nat)
    (r : RateClass τ × Nat × List (Action τ)) : Prop :=
  HighLevels m_rateInfo r.2.2 ∧ OnSchedule clock m_rateInfo bound r.2.1 r.1

/-- A timer is set to a safe time; what is sent is sent at one. -/
theorem keeps (clock : Clock) {m_rateInfo : RateInfo} {bound : Nat}
    (hBounded : m_rateInfo.Bounded bound) :
    (∀ k (c : RateClass τ), OnSchedule clock m_rateInfo bound k c → c.m_waitingToSend = false →
      c.singleShots = [] → SmallTimes m_rateInfo bound (setupTimer clock k c).2.2 →
      Keeps clock m_rateInfo bound (setupTimer clock k c)) ∧
    ∀ k (c : RateClass τ), OnSchedule clock m_rateInfo bound k c → c.singleShots = [] →
      c.m_rateInfo.Safe (c.elapsed clock k) →
      SmallTimes m_rateInfo bound (slotSend clock k c).2.2 →
      Keeps clock m_rateInfo bound (slotSend clock k c) := by
  apply setupTimer.mutual_induct clock
  case case1 =>
    intro k c hWaiting _ hIdle
    rw [hIdle] at hWaiting
    cases hWaiting
  case case2 =>
    intro k c hIdle timeDiff ttns hNow ih h _ hShots hSmall
    rw [setupTimer, if_neg hIdle, if_pos hNow] at hSmall ⊢
    have hSafe := RateInfo.safe_timeToNextSend (h.bounded hBounded)
      (h.small hSmall List.mem_cons_self)
    rw [Int.toNat_of_nonpos hNow, Nat.add_zero] at hSafe
    have hLater := h.later (Nat.le_succ k)
    obtain ⟨hHigh, hNext⟩ := ih ⟨hLater.limits, hLater.started, hLater.due⟩ hShots
      (hSafe.mono (elapsed_mono c (Nat.le_succ k)))
      (fun ms hMs => hSmall ms (List.mem_cons_of_mem _ hMs))
    refine ⟨fun level hLevel => ?_, hNext⟩
    rcases List.mem_cons.mp hLevel with hFirst | hLevel
    · cases hFirst
    · exact hHigh level hLevel
  case case3 =>
    intro k c hIdle timeDiff ttns hLater h _ hShots hSmall
    rw [setupTimer, if_neg hIdle, if_neg hLater] at hSmall ⊢
    have hSafe := RateInfo.safe_timeToNextSend (h.bounded hBounded)
      (h.small hSmall List.mem_cons_self)
    refine ⟨fun level hLevel => ?_, h.limits, h.started.trans (clock.mono (Nat.le_succ k)), ?_⟩
    · cases List.mem_singleton.mp hLevel
    · intro due hDue
      simp only [hShots, List.nil_append, List.mem_singleton] at hDue
      rw [hDue]
      refine hSafe.mono (Nat.le_of_eq ?_)
      have hStarted := h.started
      simp only [elapsed]
      omega
  case case4 =>
    intro k c hNil h hShots _ _
    rw [slotSend_nil clock k hNil]
    refine ⟨fun level hLevel => ?_, h⟩
    cases hLevel
  case case5 =>
    intro k c t rest hCons hLast h hShots hSafe hSmall
    rw [slotSend_cons clock k hCons] at hSmall ⊢
    simp only [if_pos hLast] at hSmall ⊢
    refine ⟨fun level hLevel => ?_, h.sentFirst hBounded hShots rest⟩
    obtain rfl : level = _ := by simpa using hLevel
    exact h.level_ge hBounded hSafe (h.small hSmall (by simp))
  case case6 =>
    intro k c t rest hCons d' d hMore ih h hShots hSafe hSmall
    rw [slotSend_cons clock k hCons] at hSmall ⊢
    simp only [if_neg hMore] at hSmall ⊢
    obtain ⟨hHigh, hNext⟩ := ih (h.sentFirst hBounded hShots rest) rfl hShots
      (fun ms hMs => hSmall ms (List.mem_append_right _ hMs))
    refine ⟨fun level hLevel => ?_, hNext⟩
    rcases List.mem_append.mp hLevel with hLevel | hLevel
    · obtain rfl : level = _ := by simpa using hLevel
      exact h.level_ge hBounded hSafe (h.small hSmall (by simp))
    · exact hHigh level hLevel

end Schedule

/-! ## Steps -/

/-- Between two steps. -/
structure Inv (clock : Clock) (m_rateInfo : RateInfo) (bound : Nat) (s : Timed τ) : Prop where
  waits : s.c.Waits
  onSchedule : OnSchedule clock m_rateInfo bound s.reads s.c
  highLevels : HighLevels m_rateInfo s.log

theorem HighLevels.append {m_rateInfo : RateInfo} {log log' : List (Action τ)}
    (h : HighLevels m_rateInfo log) (h' : HighLevels m_rateInfo log') :
    HighLevels m_rateInfo (log ++ log') := by
  intro level hLevel
  rcases List.mem_append.mp hLevel with hLevel | hLevel
  · exact h level hLevel
  · exact h' level hLevel

theorem Inv.step (clock : Clock) {m_rateInfo : RateInfo} {bound : Nat}
    (hBounded : m_rateInfo.Bounded bound) {s : Timed τ} (h : Inv clock m_rateInfo bound s)
    {op : Op τ} (hRegular : Regular clock m_rateInfo bound s op) :
    Inv clock m_rateInfo bound (step clock s op) := by
  have hSmall := hRegular.small
  cases op with
  | enqueue t =>
    have hWaits := (enqueue_sends clock s.reads t h.waits).waits
    suffices hKeeps : Keeps clock m_rateInfo bound (s.c.enqueue clock s.reads t) from
      ⟨hWaits, hKeeps.2, h.highLevels.append hKeeps.1⟩
    cases hWaiting : s.c.m_waitingToSend with
    | true =>
      have hOn : { s.c with m_packetQueue := s.c.m_packetQueue ++ [t] }.m_waitingToSend = true :=
        hWaiting
      rw [enqueue, setupTimer_waiting clock s.reads hOn]
      refine ⟨fun level hLevel => ?_, h.onSchedule.limits, h.onSchedule.started, h.onSchedule.due⟩
      cases hLevel
    | false =>
      have hQueue : s.c.m_packetQueue.isEmpty = true := by
        simpa [hWaiting] using h.waits.waitingToSend
      have hShots := h.waits.singleShots
      rw [if_pos hQueue] at hShots
      exact (keeps clock hBounded).1 s.reads _
        ⟨h.onSchedule.limits, h.onSchedule.started, h.onSchedule.due⟩ hWaiting
        (List.length_eq_zero_iff.mp hShots)
        (fun ms hMs => hSmall ms (List.mem_append_right _ hMs))
  | timeout =>
    have hWaits := (timeout_sends clock s.reads h.waits).1.waits
    suffices hKeeps : Keeps clock m_rateInfo bound (s.c.timeout clock s.reads) from
      ⟨hWaits, hKeeps.2, h.highLevels.append hKeeps.1⟩
    replace hSmall : SmallTimes m_rateInfo bound (s.c.timeout clock s.reads).2.2 :=
      fun ms hMs => hSmall ms (List.mem_append_right _ hMs)
    unfold timeout at hSmall ⊢
    split
    · refine ⟨fun level hLevel => ?_, h.onSchedule⟩
      cases hLevel
    · next due singleShots hOne =>
      rw [hOne] at hSmall
      have hShots := h.waits.singleShots
      have hLast : singleShots = [] := by
        rw [hOne, List.length_cons] at hShots
        exact List.length_eq_zero_iff.mp (by split at hShots <;> omega)
      have hDue : due ∈ s.c.singleShots := by
        rw [hOne]
        exact List.mem_cons_self
      have hSafe := (h.onSchedule.due due hDue).mono
        (Nat.sub_le_sub_right (hRegular.onTime rfl due hDue) _)
      refine (keeps clock hBounded).2 s.reads _
        ⟨h.onSchedule.limits, h.onSchedule.started, fun due hDue => ?_⟩ hLast hSafe hSmall
      rw [hLast] at hDue
      cases hDue

/-- A clock that is read less and less often. -/
def slowingClock : Clock :=
  ⟨fun k => 400 * (k * k), fun _ _ h => Nat.mul_le_mul_left _ (Nat.mul_le_mul h h)⟩

/-- A level of 1060 where 1050 are asked for. -/
def tightRate : RateInfo := ⟨20, 1100, 1000, 900, 1060⟩

end RateClass

end Oscar
