import Kopete.Lib.Run
import Kopete.Libkopete.ChatSession

/-!
# libkopete — who is in a chat

The members of a session beside what has happened: who has come and has neither left nor
been destroyed, who has left, and whether it was a leaving or a destruction that took the
last one away. The session is a function of these.

Main results:

* `session_step` — what an event does to the session is what it does to that function;
* `members_spec` — the list and the flag in every session that can be.
-/

namespace Kopete

/-- What happens to the members of a session. -/
inductive MemberEvent (μ : Type*) where
  | addContact (c : μ)
  | removeContact (c : μ)
  | contactDestroyed (c : μ)

namespace ChatSession

variable {μ : Type*} [DecidableEq μ]

def memberStep (d : ChatSession μ) : MemberEvent μ → ChatSession μ
  | .addContact c => d.addContact c
  | .removeContact c => d.removeContact c
  | .contactDestroyed c => d.slotContactDestroyed c

end ChatSession

/-- What has happened in a session: who is there, in the order of joining; who has left, in
the order of leaving; who has been destroyed since; and whether the last one to be there
was destroyed. -/
structure Attendance (μ : Type*) where
  present : List μ
  left : List μ
  destroyed : List μ
  lastDestroyed : Bool

namespace Attendance

variable {μ : Type*} [DecidableEq μ] (k : Attendance μ)

def addContact (c : μ) : Attendance μ where
  present := if c ∈ k.present then k.present else k.present ++ [c]
  left := k.left
  destroyed := QList.removeAll k.destroyed c
  lastDestroyed := false

def removeContact (c : μ) : Attendance μ :=
  if c ∈ k.present then
    { k with present := QList.removeAll k.present c, left := k.left ++ [c] }
  else k

def contactDestroyed (c : μ) : Attendance μ where
  present := QList.removeAll k.present c
  left := k.left
  destroyed := k.destroyed ++ [c]
  lastDestroyed := k.lastDestroyed || k.present = [c]

def step : MemberEvent μ → Attendance μ
  | .addContact c => k.addContact c
  | .removeContact c => k.removeContact c
  | .contactDestroyed c => k.contactDestroyed c

/-- When the session is made. -/
def new (others : List μ) : Attendance μ := others.foldl addContact ⟨[], [], [], false⟩

/-- The one who stays in the list: the last to leave, where it left nobody behind and is
still there. -/
def placeholder : List μ :=
  if k.lastDestroyed then [] else k.left.getLast?.toList.filter (· ∉ k.destroyed)

/-- The session after all that. -/
def session : ChatSession μ where
  contacts := if k.present = [] then k.placeholder else k.present
  isEmpty := k.present = [] && !k.lastDestroyed

/-- Nobody is there twice, and nobody who has been destroyed is. -/
structure Inv : Prop where
  nodup : k.present.Nodup
  alive : ∀ c ∈ k.present, c ∉ k.destroyed
  lastDestroyed : k.present ≠ [] → k.lastDestroyed = false

variable {k}

/-! ## What is kept -/

theorem Inv.addContact (h : k.Inv) (c : μ) : (k.addContact c).Inv := by
  refine ⟨?_, ?_, fun _ => rfl⟩
  · simp only [Attendance.addContact]
    split
    · exact h.nodup
    · exact QList.nodup_append_iff.2 ⟨h.nodup, ‹_›⟩
  · intro m hm hGone
    obtain ⟨hGone, hNe⟩ := QList.mem_removeAll.1 hGone
    refine h.alive m ?_ hGone
    simp only [Attendance.addContact] at hm
    split at hm
    · exact hm
    · exact (List.mem_append.1 hm).resolve_right fun hLast => hNe (List.mem_singleton.1 hLast)

theorem Inv.removeContact (h : k.Inv) (c : μ) : (k.removeContact c).Inv := by
  unfold Attendance.removeContact
  split
  · rename_i hMem
    refine ⟨QList.nodup_removeAll h.nodup c, fun m hm => h.alive m (QList.mem_removeAll.1 hm).1,
      fun _ => h.lastDestroyed (List.ne_nil_of_mem hMem)⟩
  · exact h

theorem Inv.contactDestroyed (h : k.Inv) (c : μ) : (k.contactDestroyed c).Inv := by
  refine ⟨QList.nodup_removeAll h.nodup c, ?_, ?_⟩
  · intro m hm hGone
    obtain ⟨hMem, hNe⟩ := QList.mem_removeAll.1 hm
    rcases List.mem_append.1 hGone with hGone | hLast
    · exact h.alive m hMem hGone
    · exact hNe (List.mem_singleton.1 hLast)
  · intro hSome
    have hNot : k.present ≠ [c] := by
      intro hOnly
      refine hSome ?_
      simp only [Attendance.contactDestroyed, hOnly, QList.removeAll_cons_self]
      rfl
    have hBefore : k.present ≠ [] := by
      intro hNil
      refine hSome ?_
      simp only [Attendance.contactDestroyed, hNil]
      rfl
    simp only [Attendance.contactDestroyed, h.lastDestroyed hBefore, hNot, decide_false,
      Bool.or_false]

theorem Inv.step (h : k.Inv) (e : MemberEvent μ) : (k.step e).Inv := by
  cases e with
  | addContact c => exact h.addContact c
  | removeContact c => exact h.removeContact c
  | contactDestroyed c => exact h.contactDestroyed c

omit [DecidableEq μ] in
theorem inv_nobody : (⟨[], [], [], false⟩ : Attendance μ).Inv :=
  ⟨List.nodup_nil, fun _ h => absurd h List.not_mem_nil, fun h => absurd rfl h⟩

/-! ## The session -/

theorem session_of_present (h : k.present ≠ []) : k.session = ⟨k.present, false⟩ := by
  rw [session, if_neg h, decide_eq_false h, Bool.false_and]

theorem session_of_empty (h : k.present = []) : k.session = ⟨k.placeholder, !k.lastDestroyed⟩ := by
  rw [session, if_pos h, decide_eq_true h, Bool.true_and]

/-- There is at most one placeholder, and it has the flag beside it. -/
theorem placeholder_cases (k : Attendance μ) :
    k.placeholder = [] ∨
      ∃ c, k.placeholder = [c] ∧ k.left.getLast? = some c ∧ c ∉ k.destroyed ∧
        k.lastDestroyed = false := by
  unfold placeholder
  split
  case isTrue => exact .inl rfl
  case isFalse hLast =>
    cases hLeft : k.left.getLast? with
    | none => exact .inl rfl
    | some c =>
      by_cases hGone : c ∈ k.destroyed
      · exact .inl (by simp [hGone])
      · exact .inr ⟨c, by simp [hGone], rfl, hGone, Bool.eq_false_iff.2 hLast⟩

theorem session_addContact (c : μ) :
    (k.addContact c).session = k.session.addContact c := by
  have hPresent : (k.addContact c).present ≠ [] := by
    simp only [addContact]
    split
    · exact List.ne_nil_of_mem ‹_›
    · exact List.append_ne_nil_of_right_ne_nil _ (List.cons_ne_nil c [])
  rw [session_of_present hPresent]
  by_cases hEmpty : k.present = []
  · have hNow : (k.addContact c).present = [c] := by simp [addContact, hEmpty]
    rw [hNow, session_of_empty hEmpty]
    rcases k.placeholder_cases with hNone | ⟨old, hOld, -, -, hLast⟩
    · rw [hNone]
      rfl
    · -- the flag is set, so the placeholder goes
      rw [hOld, hLast]
      by_cases hSame : c = old
      · simp [ChatSession.addContact, hSame]
      · simp [ChatSession.addContact, hSame, QList.removeAll]
  · rw [session_of_present hEmpty]
    unfold addContact ChatSession.addContact
    simp only
    split
    · rfl
    · split
      · rename_i hOne
        simp [hOne]
      · rfl

theorem session_removeContact (h : k.Inv) (c : μ) :
    (k.removeContact c).session = k.session.removeContact c := by
  by_cases hEmpty : k.present = []
  · have hSame : k.removeContact c = k := by
      rw [removeContact, if_neg (by simp [hEmpty])]
    rw [hSame, session_of_empty hEmpty]
    rcases k.placeholder_cases with hNone | ⟨old, hOld, -, -, hLast⟩
    · rw [hNone, ChatSession.removeContact, if_neg List.not_mem_nil]
    · -- to leave again changes nothing
      rw [hOld, hLast, ChatSession.removeContact]
      split <;> rfl
  · rw [session_of_present hEmpty]
    unfold removeContact ChatSession.removeContact
    by_cases hMem : c ∈ k.present
    · rw [if_pos hMem, if_pos hMem]
      by_cases hOne : k.present = [c]
      · -- the last one stays in the list
        have hNobody : QList.removeAll k.present c = [] :=
          (QList.removeAll_eq_nil_iff h.nodup).2 (.inr hOne)
        have hAlive : c ∉ k.destroyed := h.alive c hMem
        rw [session_of_empty hNobody]
        simp [placeholder, h.lastDestroyed hEmpty, hAlive, hOne]
      · have hOthers : QList.removeAll k.present c ≠ [] := by
          rw [Ne, QList.removeAll_eq_nil_iff h.nodup]
          exact not_or.2 ⟨hEmpty, hOne⟩
        have hMore : k.present.length ≠ 1 := by
          intro hLength
          obtain ⟨m, hm⟩ := List.length_eq_one_iff.1 hLength
          rw [hm] at hMem hOne
          exact hOne (by rw [List.mem_singleton.1 hMem])
        rw [if_neg hMore, session_of_present hOthers]
    · rw [if_neg hMem, if_neg hMem, session_of_present hEmpty]

theorem session_contactDestroyed (h : k.Inv) (c : μ) :
    (k.contactDestroyed c).session = k.session.slotContactDestroyed c := by
  unfold ChatSession.slotContactDestroyed
  by_cases hEmpty : k.present = []
  · have hStill : (k.contactDestroyed c).present = [] := by
      simp only [contactDestroyed, hEmpty]
      rfl
    have hLast : (k.contactDestroyed c).lastDestroyed = k.lastDestroyed := by
      simp [contactDestroyed, hEmpty]
    rw [session_of_empty hStill, session_of_empty hEmpty, hLast]
    congr 1
    -- the placeholder goes if it is the one
    unfold placeholder QList.removeAll
    rw [hLast]
    split
    · rfl
    · rw [List.filter_filter]
      refine List.filter_congr fun m _ => ?_
      simp [contactDestroyed, and_comm]
  · rw [session_of_present hEmpty]
    by_cases hOne : k.present = [c]
    · have hNobody : (k.contactDestroyed c).present = [] :=
        (QList.removeAll_eq_nil_iff h.nodup).2 (.inr hOne)
      have hLast : (k.contactDestroyed c).lastDestroyed = true := by
        simp [contactDestroyed, hOne]
      rw [session_of_empty hNobody, placeholder, if_pos hLast, hLast, ← hNobody]
      rfl
    · have hOthers : (k.contactDestroyed c).present ≠ [] := by
        rw [contactDestroyed, Ne, QList.removeAll_eq_nil_iff h.nodup]
        exact not_or.2 ⟨hEmpty, hOne⟩
      rw [session_of_present hOthers]
      rfl

/-- **An event in the session is the event in what has happened.** -/
theorem session_step (h : k.Inv) (e : MemberEvent μ) :
    (k.step e).session = k.session.memberStep e := by
  cases e with
  | addContact c => exact session_addContact c
  | removeContact c => exact session_removeContact h c
  | contactDestroyed c => exact session_contactDestroyed h c

theorem session_foldl (h : k.Inv) (es : List (MemberEvent μ)) :
    (es.foldl step k).Inv ∧
      (es.foldl step k).session = es.foldl ChatSession.memberStep k.session := by
  induction es generalizing k with
  | nil => exact ⟨h, rfl⟩
  | cons e es ih =>
    rw [List.foldl_cons, List.foldl_cons, ← session_step h e]
    exact ih (h.step e)

/-- The constructor is as many joinings. -/
theorem session_new (others : List μ) :
    (new others).Inv ∧ (new others).session = ChatSession.new others := by
  have hEvents := session_foldl (inv_nobody (μ := μ)) (others.map MemberEvent.addContact)
  rw [List.foldl_map, List.foldl_map] at hEvents
  refine ⟨hEvents.1, hEvents.2.trans ?_⟩
  cases others with
  | nil => rfl
  | cons c others => rfl

/-! ## Members -/

/-- The members and the flag that a session has after what has happened. -/
structure Members (k : Attendance μ) (d : ChatSession μ) : Prop where
  nodup : d.contacts.Nodup
  present : k.present ≠ [] → d.contacts = k.present
  never : k.present = [] → k.left = [] → d.contacts = []
  lastLeft : k.present = [] → k.lastDestroyed = false → ∀ c, k.left.getLast? = some c →
    d.contacts = if c ∈ k.destroyed then [] else [c]
  lastDestroyed : k.present = [] → k.lastDestroyed = true → d.contacts = []
  isEmpty : d.isEmpty = true ↔ k.present = [] ∧ k.lastDestroyed = false

theorem members_session (h : k.Inv) : Members k k.session := by
  refine ⟨?_, fun hSome => ?_, fun hNone hLeft => ?_, fun hNone hLast c hc => ?_,
    fun hNone hLast => ?_, ?_⟩
  · by_cases hEmpty : k.present = []
    · rw [session_of_empty hEmpty]
      rcases k.placeholder_cases with hNo | ⟨c, hc, -⟩
      · rw [hNo]
        exact List.nodup_nil
      · rw [hc]
        exact List.nodup_singleton c
    · rw [session_of_present hEmpty]
      exact h.nodup
  · rw [session_of_present hSome]
  · rw [session_of_empty hNone]
    simp [placeholder, hLeft]
  · rw [session_of_empty hNone]
    by_cases hGone : c ∈ k.destroyed <;> simp [placeholder, hLast, hc, hGone]
  · rw [session_of_empty hNone]
    simp [placeholder, hLast]
  · simp [session]

/-- **The members of a session.** Whatever comes, leaves and is destroyed, and in which
order: nobody is in the list twice; it is those who are there, as long as there is one;
after the last one has left, it is that one until it is destroyed; and after the last one
has been destroyed it is empty. The flag says that the last one has left, or that nobody
was ever there. -/
theorem members_spec (others : List μ) (es : List (MemberEvent μ)) :
    Members (es.foldl step (new others))
      (es.foldl ChatSession.memberStep (ChatSession.new others)) := by
  obtain ⟨hInv, hNew⟩ := session_new others
  obtain ⟨hInv, hRun⟩ := session_foldl hInv es
  rw [← hNew, ← hRun]
  exact members_session hInv

/-- Two are there; one leaves, the other is destroyed. The one that left is still there and
was the last to leave, but is not in the list, and the flag is not set. -/
theorem members_lost :
    let es : List (MemberEvent Nat) := [.removeContact 1, .contactDestroyed 2]
    let k := es.foldl step (new [1, 2])
    let d := es.foldl ChatSession.memberStep (ChatSession.new [1, 2])
    k.present = [] ∧ k.left.getLast? = some 1 ∧ 1 ∉ k.destroyed ∧
      d.contacts ≠ [1] ∧ d.isEmpty = false := by
  decide

end Attendance

end Kopete
