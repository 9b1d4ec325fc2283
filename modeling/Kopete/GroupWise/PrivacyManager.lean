import Kopete.Lib.QList
import Kopete.Lib.Run
import Mathlib

/-!
# GroupWise — `PrivacyManager`

The manager holds the two lists of the server's settings. A request to allow or to
deny a DN is decided on the list that is in force and starts a task, if it starts
one at all; the list changes only when the task has finished. So a request may be
decided on a list that the tasks in flight are about to change.

`settle` lets all tasks in flight finish. What a run has made of the requests is
what is there then.

Main results:

* `finish_request` — what a finished task does to the lists;
* `right_step_iff` — the exact condition under which a request keeps everything right;
* `agrees_iff` — the same for runs, in terms of what is there in the end.
-/

namespace GroupWise

open QList

variable {δ : Type} [DecidableEq δ]

/-- `PrivacyManager`, without the lock. -/
structure PrivacyManager (δ : Type) where
  m_defaultDeny : Bool
  m_allowList : List δ
  m_denyList : List δ

/-- The slot that the end of a task is connected to. -/
inductive Slot where
  | slotAllowAdded | slotDenyAdded | slotAllowRemoved | slotDenyRemoved
deriving DecidableEq, Repr

/-- `PrivacyItemTask`. -/
structure PrivacyItemTask (δ : Type) where
  slot : Slot
  dn : δ

namespace PrivacyManager

/-! ## Requests -/

def isBlocked (m : PrivacyManager δ) (dn : δ) : Bool :=
  if m.m_defaultDeny then dn ∉ m.m_allowList else dn ∈ m.m_denyList

def addAllow (dn : δ) : PrivacyItemTask δ := ⟨.slotAllowAdded, dn⟩
def addDeny (dn : δ) : PrivacyItemTask δ := ⟨.slotDenyAdded, dn⟩
def removeAllow (dn : δ) : PrivacyItemTask δ := ⟨.slotAllowRemoved, dn⟩
def removeDeny (dn : δ) : PrivacyItemTask δ := ⟨.slotDenyRemoved, dn⟩

/-- `setAllow`: the task it starts. -/
def setAllow (m : PrivacyManager δ) (dn : δ) : Option (PrivacyItemTask δ) :=
  if m.m_defaultDeny then
    if dn ∉ m.m_allowList then some (addAllow dn) else none
  else
    if dn ∈ m.m_denyList then some (removeDeny dn) else none

/-- `setDeny`. -/
def setDeny (m : PrivacyManager δ) (dn : δ) : Option (PrivacyItemTask δ) :=
  if m.m_defaultDeny then
    if dn ∈ m.m_allowList then some (removeAllow dn) else none
  else
    if dn ∉ m.m_denyList then some (addDeny dn) else none

/-- The slots, for a task that has succeeded. -/
def finish (m : PrivacyManager δ) (pit : PrivacyItemTask δ) : PrivacyManager δ :=
  match pit.slot with
  | .slotAllowAdded => { m with m_allowList := m.m_allowList ++ [pit.dn] }
  | .slotDenyAdded => { m with m_denyList := m.m_denyList ++ [pit.dn] }
  | .slotAllowRemoved => { m with m_allowList := removeAll m.m_allowList pit.dn }
  | .slotDenyRemoved => { m with m_denyList := removeAll m.m_denyList pit.dn }

/-! ## The list in force -/

/-- The list that the policy makes an exception for. -/
def inForce (m : PrivacyManager δ) : List δ :=
  if m.m_defaultDeny then m.m_allowList else m.m_denyList

/-- The other one. -/
def idle (m : PrivacyManager δ) : List δ :=
  if m.m_defaultDeny then m.m_denyList else m.m_allowList

/-- Ask for a DN to be on the list in force, or off it. -/
def request (m : PrivacyManager δ) (dn : δ) (on : Bool) : Option (PrivacyItemTask δ) :=
  if on then
    if dn ∉ m.inForce then some (if m.m_defaultDeny then addAllow dn else addDeny dn) else none
  else
    if dn ∈ m.inForce then some (if m.m_defaultDeny then removeAllow dn else removeDeny dn)
    else none

theorem setAllow_eq (m : PrivacyManager δ) (dn : δ) :
    m.setAllow dn = m.request dn m.m_defaultDeny := by
  unfold setAllow request inForce
  rcases m.m_defaultDeny with _ | _ <;> rfl

theorem setDeny_eq (m : PrivacyManager δ) (dn : δ) :
    m.setDeny dn = m.request dn (!m.m_defaultDeny) := by
  unfold setDeny request inForce
  rcases m.m_defaultDeny with _ | _ <;> rfl

theorem isBlocked_eq (m : PrivacyManager δ) (dn : δ) :
    m.isBlocked dn = (decide (dn ∈ m.inForce) != m.m_defaultDeny) := by
  unfold isBlocked inForce
  rcases m.m_defaultDeny with _ | _ <;> simp

@[simp] theorem finish_defaultDeny (m : PrivacyManager δ) (pit : PrivacyItemTask δ) :
    (m.finish pit).m_defaultDeny = m.m_defaultDeny := by
  unfold finish
  split <;> rfl

@[simp] theorem foldl_finish_defaultDeny (tasks : List (PrivacyItemTask δ)) (m : PrivacyManager δ) :
    (tasks.foldl finish m).m_defaultDeny = m.m_defaultDeny := by
  induction tasks generalizing m with
  | nil => rfl
  | cons pit tasks ih => rw [List.foldl_cons, ih, finish_defaultDeny]

/-- **The end of a request**, on a list that may not be the one it was decided on. -/
theorem finish_request {m m' : PrivacyManager δ} (hPolicy : m'.m_defaultDeny = m.m_defaultDeny)
    {dn : δ} {on : Bool} {pit : PrivacyItemTask δ} (h : m.request dn on = some pit) :
    (m'.finish pit).inForce = (if on then m'.inForce ++ [dn] else removeAll m'.inForce dn) ∧
      (m'.finish pit).idle = m'.idle := by
  unfold request at h
  rcases hDeny : m.m_defaultDeny with _ | _ <;> rcases on with _ | _ <;>
    · rw [hDeny] at hPolicy
      simp only [hDeny, Bool.false_eq_true, if_true, if_false, Option.ite_none_right_eq_some,
        Option.some.injEq] at h
      obtain ⟨-, rfl⟩ := h
      simp [finish, inForce, idle, hPolicy, addAllow, addDeny, removeAllow, removeDeny]

end PrivacyManager

/-! ## Runs -/

open PrivacyManager

/-- The manager, the tasks in flight in the order they were sent, and for each DN
whether the last request was to block it. -/
structure Privacy (δ : Type) where
  manager : PrivacyManager δ
  inFlight : List (PrivacyItemTask δ)
  requested : δ → Option Bool

inductive PrivacyOp (δ : Type)
  | setAllow (dn : δ)
  | setDeny (dn : δ)
  | finished -- the first task in flight

namespace Privacy

/-- The settings have been received. -/
def init (settings : PrivacyManager δ) : Privacy δ := ⟨settings, [], fun _ => none⟩

def step (s : Privacy δ) : PrivacyOp δ → Privacy δ
  | .setAllow dn =>
    { s with
      inFlight := s.inFlight ++ (s.manager.setAllow dn).toList
      requested := Function.update s.requested dn (some false) }
  | .setDeny dn =>
    { s with
      inFlight := s.inFlight ++ (s.manager.setDeny dn).toList
      requested := Function.update s.requested dn (some true) }
  | .finished =>
    match s.inFlight with
    | [] => s
    | pit :: tasks => { s with manager := s.manager.finish pit, inFlight := tasks }

/-- The manager once no task is in flight. -/
def settled (s : Privacy δ) : PrivacyManager δ := s.inFlight.foldl finish s.manager

/-- Once no task is in flight, the last requests are in force and the lists name no DN
twice. -/
structure Right (s : Privacy δ) : Prop where
  agrees : ∀ dn b, s.requested dn = some b → s.settled.isBlocked dn = b
  allowList : s.settled.m_allowList.Nodup
  denyList : s.settled.m_denyList.Nodup

/-- A request that puts a DN on the list in force is decided on the list as it will be;
one that takes a DN off finds it there if it will be. -/
def Timely (s : Privacy δ) (dn : δ) (on : Bool) : Prop :=
  if on then dn ∈ s.manager.inForce ↔ dn ∈ s.settled.inForce
  else dn ∈ s.settled.inForce → dn ∈ s.manager.inForce

def Ok (s : Privacy δ) : PrivacyOp δ → Prop
  | .setAllow dn => s.Timely dn s.manager.m_defaultDeny
  | .setDeny dn => s.Timely dn (!s.manager.m_defaultDeny)
  | .finished => True

@[simp] theorem settled_defaultDeny (s : Privacy δ) :
    s.settled.m_defaultDeny = s.manager.m_defaultDeny := foldl_finish_defaultDeny _ _

/-- The end of a task changes nothing about how it will end. -/
theorem settled_finished (s : Privacy δ) : (s.step .finished).settled = s.settled := by
  rw [step]
  split
  · rfl
  · rename_i h
    rw [settled, settled, h]
    rfl

omit [DecidableEq δ] in
theorem nodup_iff (m : PrivacyManager δ) :
    m.m_allowList.Nodup ∧ m.m_denyList.Nodup ↔ m.inForce.Nodup ∧ m.idle.Nodup := by
  unfold inForce idle
  rcases m.m_defaultDeny with _ | _
  · exact and_comm
  · rfl

/-- What a request has to bring about, if it leaves the other DNs and the other list
alone. -/
theorem right_update_iff {s t : Privacy δ} {dn : δ} {on b : Bool} (h : s.Right)
    (hPolicy : t.settled.m_defaultDeny = s.settled.m_defaultDeny)
    (hIdle : t.settled.idle = s.settled.idle)
    (hOthers : ∀ dn' ≠ dn, (dn' ∈ t.settled.inForce ↔ dn' ∈ s.settled.inForce))
    (hRequested : t.requested = Function.update s.requested dn (some b))
    (hWish : b = (on != s.settled.m_defaultDeny)) :
    t.Right ↔ (dn ∈ t.settled.inForce ↔ on = true) ∧ t.settled.inForce.Nodup := by
  have hLists := (nodup_iff s.settled).mp ⟨h.allowList, h.denyList⟩
  have hHere : t.settled.isBlocked dn = b ↔ (dn ∈ t.settled.inForce ↔ on = true) := by
    rw [isBlocked_eq, hPolicy, hWish]
    by_cases hIn : dn ∈ t.settled.inForce <;> rcases on with _ | _ <;>
      rcases s.settled.m_defaultDeny with _ | _ <;> simp [hIn]
  constructor
  · intro hRight
    have hSame := hRight.agrees dn b (by rw [hRequested, Function.update_self])
    exact ⟨hHere.mp hSame, ((nodup_iff _).mp ⟨hRight.allowList, hRight.denyList⟩).1⟩
  · rintro ⟨hThere, hNodup⟩
    obtain ⟨hAllow, hDeny⟩ := (nodup_iff t.settled).mpr ⟨hNodup, hIdle ▸ hLists.2⟩
    refine ⟨fun dn' b' hLast => ?_, hAllow, hDeny⟩
    by_cases hSame : dn' = dn
    · subst hSame
      rw [hRequested, Function.update_self] at hLast
      rw [← Option.some.inj hLast]
      exact hHere.mpr hThere
    · rw [hRequested, Function.update_of_ne hSame] at hLast
      rw [isBlocked_eq, hPolicy, decide_eq_decide.mpr (hOthers dn' hSame), ← isBlocked_eq]
      exact h.agrees dn' b' hLast

/-- **One request.** -/
theorem right_request_iff {s t : Privacy δ} {dn : δ} {on b : Bool} (h : s.Right)
    (hManager : t.manager = s.manager)
    (hTask : t.inFlight = s.inFlight ++ (s.manager.request dn on).toList)
    (hRequested : t.requested = Function.update s.requested dn (some b))
    (hWish : b = (on != s.manager.m_defaultDeny)) : t.Right ↔ s.Timely dn on := by
  have hNodup := ((nodup_iff _).mp ⟨h.allowList, h.denyList⟩).1
  have hSettled : t.settled = (s.manager.request dn on).toList.foldl finish s.settled := by
    rw [settled, hTask, hManager, List.foldl_append]
    rfl
  have hWish : b = (on != s.settled.m_defaultDeny) := by rw [hWish, settled_defaultDeny]
  have hPolicy := (settled_defaultDeny s).symm
  rcases hRequest : s.manager.request dn on with _ | pit
  · -- no task: the list in force stays what it will be
    have hSame : t.settled = s.settled := by rw [hSettled, hRequest]; rfl
    rw [right_update_iff h (by rw [hSame]) (by rw [hSame]) (fun _ _ => by rw [hSame]) hRequested
      hWish, hSame, and_iff_left hNodup, Timely]
    unfold request at hRequest
    rcases on with _ | _
    · have hOff : dn ∉ s.manager.inForce := by simpa using hRequest
      simp [hOff]
    · have hOn : dn ∈ s.manager.inForce := by simpa using hRequest
      simp [hOn]
  · have hSame : t.settled = s.settled.finish pit := by rw [hSettled, hRequest]; rfl
    obtain ⟨hInForce, hIdle⟩ := finish_request hPolicy.symm hRequest
    rw [← hSame] at hInForce hIdle
    have hOthers : ∀ dn' ≠ dn, (dn' ∈ t.settled.inForce ↔ dn' ∈ s.settled.inForce) := by
      intro dn' hne
      rw [hInForce]
      split <;> simp [hne]
    rw [right_update_iff h (by rw [hSame, finish_defaultDeny]) hIdle hOthers hRequested hWish,
      hInForce, Timely]
    unfold request at hRequest
    rcases on with _ | _
    · -- a DN is taken off the list, as often as it is there
      have hOn : dn ∈ s.manager.inForce := (Option.ite_none_right_eq_some.mp hRequest).1
      simp [hOn, nodup_removeAll hNodup]
    · have hOff : dn ∉ s.manager.inForce := (Option.ite_none_right_eq_some.mp hRequest).1
      simp [hOff, nodup_append_iff, hNodup]

/-- **One step.** -/
theorem right_step_iff {s : Privacy δ} (op : PrivacyOp δ) (h : s.Right) :
    (s.step op).Right ↔ s.Ok op := by
  match op with
  | .setAllow dn =>
    refine right_request_iff h rfl ?_ rfl (by simp)
    rw [← setAllow_eq]
    rfl
  | .setDeny dn =>
    refine right_request_iff h rfl ?_ rfl (by simp)
    rw [← setDeny_eq]
    rfl
  | .finished =>
    have hSettled := settled_finished s
    have hRequested : (s.step .finished).requested = s.requested := by
      rw [step]
      split <;> rfl
    refine ⟨fun _ => trivial, fun _ => ⟨?_, ?_, ?_⟩⟩
    · rw [hSettled, hRequested]
      exact h.agrees
    · rw [hSettled]
      exact h.allowList
    · rw [hSettled]
      exact h.denyList

/-- All the tasks in flight finish. -/
def finishAll (s : Privacy δ) : Privacy δ :=
  (List.replicate s.inFlight.length PrivacyOp.finished).foldl step s

/-- The last requests are in force, and the lists name no DN twice. -/
structure Agrees (s : Privacy δ) : Prop where
  agrees : ∀ dn b, s.requested dn = some b → s.manager.isBlocked dn = b
  allowList : s.manager.m_allowList.Nodup
  denyList : s.manager.m_denyList.Nodup

theorem finishAll_eq (s : Privacy δ) : s.finishAll = ⟨s.settled, [], s.requested⟩ := by
  obtain ⟨m, tasks, requested⟩ := s
  unfold finishAll settled
  induction tasks generalizing m with
  | nil => rfl
  | cons pit tasks ih =>
    rw [List.length_cons, List.replicate_succ, List.foldl_cons]
    exact ih (m.finish pit)

theorem agrees_finishAll_iff (s : Privacy δ) : s.finishAll.Agrees ↔ s.Right := by
  rw [finishAll_eq]
  exact ⟨fun h => ⟨h.agrees, h.allowList, h.denyList⟩, fun h => ⟨h.agrees, h.allowList, h.denyList⟩⟩

theorem right_init_iff (settings : PrivacyManager δ) :
    (init settings).Right ↔ settings.m_allowList.Nodup ∧ settings.m_denyList.Nodup := by
  refine ⟨fun h => ⟨h.allowList, h.denyList⟩, fun h => ⟨fun dn b hLast => ?_, h.1, h.2⟩⟩
  cases hLast

/-- **Runs.** Wherever a run stops, once no task is in flight the last requests are in force
and no list names a DN twice; this is so exactly when the settings named none twice, and
every request was timely. -/
theorem agrees_iff (settings : PrivacyManager δ) (ops : List (PrivacyOp δ)) :
    (∀ s ∈ Run.states step (init settings) ops, s.finishAll.Agrees) ↔
      (settings.m_allowList.Nodup ∧ settings.m_denyList.Nodup) ∧
        Run.StepsMeet step Ok (init settings) ops := by
  simp only [agrees_finishAll_iff]
  rw [← right_init_iff]
  constructor
  · intro h
    have hInit := h _ (Run.mem_states_self _ _)
    exact ⟨hInit, (Run.inv_iff_stepsMeet (fun s op hs => right_step_iff op hs) hInit).mp h⟩
  · rintro ⟨hInit, hMeet⟩
    exact (Run.inv_iff_stepsMeet (fun s op hs => right_step_iff op hs) hInit).mpr hMeet

/-- **A denial that is lost.** A DN is allowed and then denied while the first task is still
in flight; it stays allowed. -/
theorem denial_lost :
    ¬ ((List.foldl step (init ⟨true, [], []⟩)
      [PrivacyOp.setAllow 7, .setDeny 7]).finishAll.Agrees) := by
  intro h
  exact absurd (h.agrees 7 true rfl) (by decide)

/-- A DN that is allowed twice in a row is on the list twice. -/
example : (List.foldl step (init ⟨true, [], []⟩)
    [PrivacyOp.setAllow 7, .setAllow 7]).finishAll.manager.m_allowList = [7, 7] := by decide

end Privacy

end GroupWise
