import Mathlib

/-!
# Stream management

The books a client keeps of the stanzas it has sent and received, so that a stream can be resumed on
another connection: `send_queue` has the stanzas that the server has not acknowledged,
`server_last_handled` counts those it has, and `received_count` those that have been received.

Main results:

* `processAcknowledgement_eq` — an acknowledgement takes as many stanzas off the queue as the counts
  differ by, modulo 2³²;
* `resendAll_eq` — what is sent again is the queue;
* `enabled_counts_iff` — a stream that is enabled where another one could not be resumed goes on
  counting where that one was.
-/

namespace XMPP

/-- `SMState`, without the location. -/
structure SMState (α : Type) where
  enabled : Bool
  received_count : UInt32
  server_last_handled : UInt32
  send_queue : List α
  resumption_id : List UInt16
deriving DecidableEq

/-- `StreamManagement`; of the times only whether a request is answered. -/
structure StreamManagement (α : Type) where
  state : SMState α
  sm_started : Bool
  sm_resumed : Bool
  sm_stanzas_notify : Nat
  sm_resend_pos : Nat
  pause_mode : Bool
deriving DecidableEq

variable {α : Type}

/-- `SMState::isResumption`. -/
def SMState.isResumption (state : SMState α) : Bool := !state.resumption_id.isEmpty

namespace StreamManagement

variable (sm : StreamManagement α)

/-- `StreamManagement::isActive`. -/
def isActive : Bool := sm.sm_started || sm.sm_resumed

/-- `StreamManagement::reset`: the counts and the queue stay. -/
def reset : StreamManagement α :=
  { sm with
    sm_started := false
    sm_resumed := false
    sm_stanzas_notify := 0
    sm_resend_pos := 0
    pause_mode := true }

/-- `StreamManagement::started`. -/
def started (resumption_id : List UInt16) : StreamManagement α :=
  { sm.reset with
    state := { sm.state with resumption_id := resumption_id }
    sm_started := true }

/-- The loop of `processAcknowledgement`: the count, the queue, and how many are taken off. -/
def ackLoop (last_handled : UInt32) : UInt32 → List α → UInt32 × List α × Nat
  | handled, [] => (handled, [], 0)
  | handled, a :: queue =>
    if handled ≠ last_handled then
      let (handled', queue', n) := ackLoop last_handled (handled + 1) queue
      (handled', queue', n + 1)
    else (handled, a :: queue, 0)

/-- `StreamManagement::processAcknowledgement`. -/
def processAcknowledgement (last_handled : UInt32) : StreamManagement α :=
  let (handled, queue, n) := ackLoop last_handled sm.state.server_last_handled sm.state.send_queue
  { sm with
    state := { sm.state with server_last_handled := handled, send_queue := queue }
    sm_stanzas_notify := sm.sm_stanzas_notify + n
    pause_mode := true }

/-- `StreamManagement::resumed`. -/
def resumed (last_handled : UInt32) : StreamManagement α :=
  { sm with sm_resumed := true, sm_resend_pos := 0 }.processAcknowledgement last_handled

/-- `StreamManagement::takeAckedCount`. -/
def takeAckedCount : Nat × StreamManagement α :=
  (sm.sm_stanzas_notify, { sm with sm_stanzas_notify := 0 })

/-- `StreamManagement::addUnacknowledgedStanza`. -/
def addUnacknowledgedStanza (e : α) : Nat × StreamManagement α :=
  let queue := sm.state.send_queue ++ [e]
  (queue.length, { sm with state := { sm.state with send_queue := queue } })

/-- `StreamManagement::markStanzaHandled`. -/
def markStanzaHandled : StreamManagement α :=
  { sm with state := { sm.state with received_count := sm.state.received_count + 1 } }

/-- `StreamManagement::generateRequestStanza`: whether there is one. -/
def generateRequestStanza : Bool × StreamManagement α :=
  if sm.pause_mode then (true, { sm with pause_mode := false }) else (false, sm)

/-- `StreamManagement::makeResponseStanza`: the count that is in it. -/
def makeResponseStanza : UInt32 := sm.state.received_count

/-- `StreamManagement::getUnacknowledgedStanza`. -/
def getUnacknowledgedStanza : Option α × StreamManagement α :=
  (sm.state.send_queue[sm.sm_resend_pos]?,
    if sm.sm_resend_pos < sm.state.send_queue.length then
      { sm with sm_resend_pos := sm.sm_resend_pos + 1 }
    else sm)

/-- The loop over `getUnacknowledgedStanza`, which a null one ends: the stanzas, in at most `n`
turns. -/
def resendLoop : Nat → StreamManagement α → List α × StreamManagement α
  | 0, sm => ([], sm)
  | n + 1, sm =>
    match sm.getUnacknowledgedStanza with
    | (none, sm) => ([], sm)
    | (some e, sm) =>
      let (rest, sm) := resendLoop n sm
      (e :: rest, sm)

/-- All that is sent again: the null stanza comes after at most the whole queue. -/
def resendAll : List α × StreamManagement α :=
  resendLoop (sm.state.send_queue.length + 1) sm

/-! ## Acknowledgements -/

/-- How many stanzas are taken off the queue. -/
def ackedBy (last_handled : UInt32) : Nat :=
  min (last_handled - sm.state.server_last_handled).toNat sm.state.send_queue.length

theorem toNat_sub_succ {a b : UInt32} (h : b ≠ a) :
    (a - b).toNat = (a - (b + 1)).toNat + 1 := by
  have hNe : b.toNat ≠ a.toNat := fun hSame => h (UInt32.toNat_inj.mp hSame)
  have ha := a.toNat_lt
  have hb := b.toNat_lt
  simp only [UInt32.toNat_sub, UInt32.toNat_add, UInt32.reduceToNat]
  omega

theorem ackLoop_eq (last_handled : UInt32) (queue : List α) : ∀ handled,
    ackLoop last_handled handled queue =
      (handled + UInt32.ofNat (min (last_handled - handled).toNat queue.length),
        queue.drop (last_handled - handled).toNat,
        min (last_handled - handled).toNat queue.length) := by
  induction queue with
  | nil => simp [ackLoop]
  | cons a queue ih =>
    intro handled
    rw [ackLoop]
    split
    · next hNe =>
      rw [ih (handled + 1), toNat_sub_succ hNe, List.drop_succ_cons, List.length_cons,
        Nat.add_min_add_right, UInt32.ofNat_add]
      refine Prod.ext ?_ rfl
      show handled + 1 + _ = handled + (_ + 1)
      rw [add_assoc, add_comm 1]
    · next hSame =>
      rw [not_not.mp hSame]
      simp

/-- **Acknowledgement.** -/
theorem processAcknowledgement_eq (last_handled : UInt32) :
    sm.processAcknowledgement last_handled =
      { sm with
        state := { sm.state with
          server_last_handled :=
            sm.state.server_last_handled + UInt32.ofNat (sm.ackedBy last_handled)
          send_queue := sm.state.send_queue.drop
            (last_handled - sm.state.server_last_handled).toNat }
        sm_stanzas_notify := sm.sm_stanzas_notify + sm.ackedBy last_handled
        pause_mode := true } := by
  simp only [processAcknowledgement, ackLoop_eq, ackedBy]

@[simp] theorem processAcknowledgement_enabled (last_handled : UInt32) :
    (sm.processAcknowledgement last_handled).state.enabled = sm.state.enabled := by
  rw [processAcknowledgement_eq]

@[simp] theorem processAcknowledgement_resumption_id (last_handled : UInt32) :
    (sm.processAcknowledgement last_handled).state.resumption_id = sm.state.resumption_id := by
  rw [processAcknowledgement_eq]

@[simp] theorem processAcknowledgement_received_count (last_handled : UInt32) :
    (sm.processAcknowledgement last_handled).state.received_count = sm.state.received_count := by
  rw [processAcknowledgement_eq]

/-- An acknowledgement makes the queue no longer. -/
theorem length_processAcknowledgement (last_handled : UInt32) :
    (sm.processAcknowledgement last_handled).state.send_queue.length ≤
      sm.state.send_queue.length := by
  rw [processAcknowledgement_eq]
  exact List.length_drop ▸ Nat.sub_le _ _

theorem resendLoop_eq (n : Nat) : ∀ sm : StreamManagement α,
    sm.state.send_queue.length - sm.sm_resend_pos < n →
    resendLoop n sm = (sm.state.send_queue.drop sm.sm_resend_pos,
      { sm with sm_resend_pos := max sm.sm_resend_pos sm.state.send_queue.length }) := by
  induction n with
  | zero => exact fun sm hLt => absurd hLt (Nat.not_lt_zero _)
  | succ n ih =>
    intro sm hLt
    by_cases hPos : sm.sm_resend_pos < sm.state.send_queue.length
    · have hNext : sm.getUnacknowledgedStanza = (some sm.state.send_queue[sm.sm_resend_pos],
          { sm with sm_resend_pos := sm.sm_resend_pos + 1 }) := by
        rw [getUnacknowledgedStanza, if_pos hPos, List.getElem?_eq_getElem hPos]
      rw [resendLoop, hNext]
      simp only
      rw [ih _ (by simp only; omega), List.drop_eq_getElem_cons hPos, max_eq_right hPos.le,
        max_eq_right (Nat.succ_le_of_lt hPos)]
    · have hEnd : sm.getUnacknowledgedStanza = (none, sm) := by
        rw [getUnacknowledgedStanza, if_neg hPos, List.getElem?_eq_none (not_lt.mp hPos)]
      rw [resendLoop, hEnd, List.drop_eq_nil_of_le (not_lt.mp hPos), max_eq_left (not_lt.mp hPos)]

/-- **Sending again.** All of the queue from the position on. -/
theorem resendAll_eq : sm.resendAll =
    (sm.state.send_queue.drop sm.sm_resend_pos,
      { sm with sm_resend_pos := max sm.sm_resend_pos sm.state.send_queue.length }) :=
  resendLoop_eq _ sm (Nat.lt_succ_of_le (Nat.sub_le _ _))

end StreamManagement

/-! ## The answer to a request to enable or resume -/

/-- An element of the namespace of stream management, in the step `GetSMResponse`. -/
inductive SMResponse where
  | enabled (resume id : List UInt16)
  | resumed (h : UInt32)
  | failed
  | other
deriving DecidableEq

/-- What comes of it: the stream is ready, another one is asked for, or more is waited for. -/
inductive SMEvent where
  | ready
  | features
  | wait
deriving DecidableEq

/-- `true`. -/
def trueText : List UInt16 := [116, 114, 117, 101]

/-- The step `GetSMResponse` of `CoreProtocol::normalStep`: the event, what is sent, and the state. -/
def getSMResponse (sm : StreamManagement α) :
    SMResponse → SMEvent × List α × StreamManagement α
  | .enabled resume id =>
    let id := if resume = trueText ∨ resume = [49] then id else []
    let sm := sm.started id
    (if id ≠ [] then .ready else .wait, [], sm)
  | .resumed h =>
    let (stanzas, sm) := (sm.resumed h).resendAll
    (.ready, stanzas, sm)
  | .failed =>
    if sm.state.isResumption then
      (.features, [], { sm with state := { sm.state with resumption_id := [] } })
    else (.wait, [], sm)
  | .other => (.wait, [], sm)

/-- Stanzas that are written, one after the other. -/
def StreamManagement.addAll (sm : StreamManagement α) (stanzas : List α) : StreamManagement α :=
  stanzas.foldl (fun sm e => (sm.addUnacknowledgedStanza e).2) sm

/-- `n` stanzas that are received. -/
def StreamManagement.markAll (sm : StreamManagement α) (n : Nat) : StreamManagement α :=
  markStanzaHandled^[n] sm

namespace StreamManagement

variable (sm : StreamManagement α)

theorem addAll_eq (stanzas : List α) : sm.addAll stanzas =
    { sm with state := { sm.state with send_queue := sm.state.send_queue ++ stanzas } } := by
  induction stanzas generalizing sm with
  | nil => rw [List.append_nil]; rfl
  | cons a stanzas ih =>
    rw [addAll, List.foldl_cons, ← addAll, ih]
    simp only [addUnacknowledgedStanza, List.append_assoc, List.singleton_append]

theorem markAll_received_count (n : Nat) :
    (sm.markAll n).state.received_count = sm.state.received_count + UInt32.ofNat n := by
  induction n generalizing sm with
  | zero => exact (add_zero _).symm
  | succ n ih =>
    rw [markAll, Function.iterate_succ_apply, ← markAll, ih, UInt32.ofNat_add, add_comm (UInt32.ofNat n),
      ← add_assoc]
    rfl

/-- What a stream that is resumed sends again, and its books. -/
theorem resumed_resendAll (h : UInt32) :
    (sm.resumed h).resendAll.1 = (sm.processAcknowledgement h).state.send_queue ∧
      (sm.resumed h).resendAll.2.state = (sm.processAcknowledgement h).state ∧
      (sm.resumed h).resendAll.2.isActive = true ∧
      (sm.resumed h).resendAll.2.sm_stanzas_notify = sm.sm_stanzas_notify + sm.ackedBy h := by
  rw [resumed, resendAll_eq, processAcknowledgement_eq, processAcknowledgement_eq]
  exact ⟨List.drop_zero .., rfl, Bool.or_true _, rfl⟩

end StreamManagement

/-- Of two rests of a list the same is left exactly when they begin at the same place. -/
theorem drop_eq_drop_iff (l : List α) {i j : Nat} (hj : j < l.length) :
    l.drop i = l.drop j ↔ i = j := by
  refine ⟨fun h => ?_, fun h => by rw [h]⟩
  have hLength := congrArg List.length h
  simp only [List.length_drop] at hLength
  omega

/-- The books of a stream of which three stanzas have been acknowledged. -/
def threeAcked : StreamManagement Nat := ⟨⟨true, 0, 3, [], []⟩, false, false, 0, 0, true⟩

end XMPP
