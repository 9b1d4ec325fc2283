import Kopete.GroupWise.ChatSession
import Kopete.Lib.Run
import Mathlib

/-!
# GroupWise — the placeholders of invited contacts

When a contact joins or declines, its placeholder is looked for as the first one whose id
starts with the id of the contact. Where there is none, the loop leaves the last
placeholder in its variable, and that one is deleted.

The session is followed together with those who are invited and have not answered.

Main results:

* `Inv.removePlaceholder_iff` — what an answer deletes, and when that is right;
* `placed_iff` — the same for runs.
-/

namespace GroupWise

namespace GroupWiseChatSession

variable {κ M : Type} [DecidableEq κ]

/-- What happens to invitations. -/
inductive InvitationEvent (κ : Type)
  | addInvitee (c : κ)
  | joined (c : κ)
  | left (c : κ)
  | inviteDeclined (c : κ)

/-- A session, and who has neither joined nor declined since the invitation. -/
structure Invitations (κ M : Type) where
  session : GroupWiseChatSession κ M
  waiting : Finset κ

variable (contactId : κ → QString) (label : QString)

def inviteStep (s : Invitations κ M) : InvitationEvent κ → Invitations κ M
  | .addInvitee c => ⟨s.session.addInvitee contactId label c, insert c s.waiting⟩
  | .joined c => ⟨s.session.joined contactId c, s.waiting.erase c⟩
  | .left c => ⟨s.session.left c, s.waiting⟩
  | .inviteDeclined c => ⟨s.session.inviteDeclined contactId c, s.waiting.erase c⟩

/-- Whom a placeholder stands for, if it is there. -/
def owner (d : GroupWiseChatSession κ M) (p : Nat) : Option κ :=
  (d.heap.get? p).map Placeholder.invited

/-- One placeholder for each who is waiting, and no others. -/
structure Placed (s : Invitations κ M) : Prop where
  one : (s.session.invitees.map s.session.owner).Nodup
  each : ∀ c, some c ∈ s.session.invitees.map s.session.owner ↔ c ∈ s.waiting
  alive : ∀ p ∈ s.session.invitees, s.session.heap.Live p
  deletedOnce : s.session.deletedTwice = false
  gone : ∀ p, .placeholder p ∈ s.session.chat.contacts →
    p ∈ s.session.invitees ∨ s.session.chat.contacts = [.placeholder p]

structure PlacedInv (s : Invitations κ M) : Prop extends Placed s where
  member : ∀ p, .placeholder p ∈ s.session.chat.contacts → p ∈ s.session.invitees

/-- Nobody is invited twice, and what the loop finds for who answers is their placeholder. -/
def InviteOk (contactId : κ → QString) (s : Invitations κ M) : InvitationEvent κ → Prop
  | .addInvitee c => ∀ p ∈ s.session.invitees, s.session.owner p ≠ some c
  | .joined c | .inviteDeclined c =>
    ∀ p, s.session.loopVariable contactId c = some p → s.session.owner p = some c
  | .left _ => True

variable {contactId label} {d d' : GroupWiseChatSession κ M} {waiting : Finset κ}

omit [DecidableEq κ] in
/-- The loop leaves an invitee, if there is one. -/
theorem loopVariable_cases (contactId : κ → QString) (d : GroupWiseChatSession κ M) (c : κ) :
    (d.loopVariable contactId c = none ∧ d.invitees = [] ∧ d.matching contactId c = none) ∨
      ∃ p ∈ d.invitees, d.loopVariable contactId c = some p := by
  unfold loopVariable matching
  cases hFind : d.invitees.find? (d.startsWith contactId c) with
  | some p => exact .inr ⟨p, List.mem_of_find?_eq_some hFind, rfl⟩
  | none =>
    cases hLast : d.invitees.getLast? with
    | none => exact .inl ⟨rfl, List.getLast?_eq_none_iff.1 hLast, rfl⟩
    | some p => exact .inr ⟨p, List.mem_of_getLast? hLast, rfl⟩

omit [DecidableEq κ] in
theorem owner_isSome {p : Nat} (h : d.heap.Live p) : ∃ c, d.owner p = some c := by
  obtain ⟨i, hi⟩ := Option.isSome_iff_exists.1 h
  exact ⟨i.invited, by rw [owner, hi]; rfl⟩

/-- What an answer does to the session. -/
structure Removed (d : GroupWiseChatSession κ M) (p : Nat) (d' : GroupWiseChatSession κ M) :
    Prop where
  invitees : d'.invitees = QList.removeAll d.invitees p
  heap : d'.heap = d.heap.delete p
  deletedTwice : d'.deletedTwice = (d.deletedTwice || !decide (d.heap.Live p))
  members : ∀ q, .placeholder q ∈ d'.chat.contacts → .placeholder q ∈ d.chat.contacts ∧ q ≠ p

theorem removePlaceholder_spec (contactId : κ → QString) (d : GroupWiseChatSession κ M) (c : κ) :
    (d.invitees = [] ∧ d.removePlaceholder contactId c = d) ∨
      ∃ p ∈ d.invitees, d.loopVariable contactId c = some p ∧
        Removed d p (d.removePlaceholder contactId c) := by
  rcases loopVariable_cases contactId d c with
    ⟨hNone, hEmpty, hMatching⟩ | ⟨p, hp, hSome⟩
  · exact .inl ⟨hEmpty, by simp only [removePlaceholder, hNone, hMatching]⟩
  · refine .inr ⟨p, hp, hSome, ?_⟩
    unfold removePlaceholder
    simp only [hSome]
    split
    · refine ⟨rfl, rfl, rfl, fun q hq => ?_⟩
      obtain ⟨hMem, hNe⟩ := QList.mem_removeAll.1 hq
      exact ⟨Kopete.ChatSession.mem_removeContact hMem, fun h => hNe (by rw [h])⟩
    · refine ⟨rfl, rfl, rfl, fun q hq => ?_⟩
      obtain ⟨hMem, hNe⟩ := QList.mem_removeAll.1 hq
      exact ⟨hMem, fun h => hNe (by rw [h])⟩

omit [DecidableEq κ] in
/-- The other placeholders stand for whom they stood for. -/
theorem Removed.owner {p q : Nat} (h : Removed d p d') (hq : q ≠ p) : d'.owner q = d.owner q := by
  unfold GroupWiseChatSession.owner
  rw [h.heap, Heap.get?_delete_ne hq]

omit [DecidableEq κ] in
/-- Who is left among the invitees. -/
theorem Removed.mem_owners {p : Nat} (h : Removed d p d') (c : κ) :
    some c ∈ d'.invitees.map d'.owner ↔ ∃ q ∈ d.invitees, q ≠ p ∧ d.owner q = some c := by
  rw [h.invitees, List.mem_map]
  constructor
  · rintro ⟨q, hq, hOwner⟩
    obtain ⟨hMem, hNe⟩ := QList.mem_removeAll.1 hq
    exact ⟨q, hMem, hNe, by rw [← h.owner hNe, hOwner]⟩
  · rintro ⟨q, hMem, hNe, hOwner⟩
    exact ⟨q, QList.mem_removeAll.2 ⟨hMem, hNe⟩, by rw [h.owner hNe, hOwner]⟩

/-- **An answer** is right exactly if the placeholder that goes is the one of who answers. -/
theorem PlacedInv.removed_iff (h : PlacedInv ⟨d, waiting⟩) {p : Nat} (hp : p ∈ d.invitees)
    (hRemoved : Removed d p d') (c : κ) :
    (Placed ⟨d', waiting.erase c⟩ ↔ d.owner p = some c) ∧
      (d.owner p = some c → PlacedInv ⟨d', waiting.erase c⟩) := by
  have hLive : d.heap.Live p := h.alive p hp
  obtain ⟨o, ho⟩ := owner_isSome hLive
  have hInj : ∀ q ∈ d.invitees, d.owner q = d.owner p → q = p := fun q hq hSame =>
    List.inj_on_of_nodup_map h.one hq hp hSame
  have hKept : ∀ q, q ∈ d'.invitees ↔ q ∈ d.invitees ∧ q ≠ p := by
    intro q
    rw [hRemoved.invitees, QList.mem_removeAll]
  have hInv : d.owner p = some c → PlacedInv ⟨d', waiting.erase c⟩ := by
    intro hOwner
    have hMember : ∀ q, .placeholder q ∈ d'.chat.contacts → q ∈ d'.invitees := by
      intro q hq
      obtain ⟨hMem, hNe⟩ := hRemoved.members q hq
      exact (hKept q).2 ⟨h.member q hMem, hNe⟩
    refine ⟨⟨?_, ?_, ?_, ?_, fun q hq => .inl (hMember q hq)⟩, hMember⟩
    · have hSame : d'.invitees.map d'.owner = d'.invitees.map d.owner :=
        List.map_congr_left fun q hq => hRemoved.owner ((hKept q).1 hq).2
      rw [hSame, hRemoved.invitees]
      exact h.one.sublist (List.filter_sublist.map _)
    · intro c'
      rw [hRemoved.mem_owners, Finset.mem_erase, ← h.each c', List.mem_map]
      constructor
      · rintro ⟨q, hq, hNe, hOwner'⟩
        refine ⟨?_, q, hq, hOwner'⟩
        rintro rfl
        exact hNe (hInj q hq (hOwner'.trans hOwner.symm))
      · rintro ⟨hNe, q, hq, hOwner'⟩
        refine ⟨q, hq, ?_, hOwner'⟩
        rintro rfl
        exact hNe (Option.some.inj (hOwner'.symm.trans hOwner))
    · intro q hq
      obtain ⟨hMem, hNe⟩ := (hKept q).1 hq
      show (d'.heap.get? q).isSome
      rw [hRemoved.heap, Heap.get?_delete_ne hNe]
      exact h.alive q hMem
    · show d'.deletedTwice = false
      have hOnce : d.deletedTwice = false := h.deletedOnce
      rw [hRemoved.deletedTwice, hOnce, decide_eq_true hLive]
      rfl
  refine ⟨⟨fun hPlaced => ?_, fun hOwner => (hInv hOwner).toPlaced⟩, hInv⟩
  -- Otherwise whose placeholder is gone still waits.
  by_contra hOther
  have hNe : o ≠ c := fun hSame => hOther (by rw [ho, hSame])
  have hWaits : o ∈ waiting := (h.each o).1 (List.mem_map.2 ⟨p, hp, ho⟩)
  have hStill := (hPlaced.each o).2 (Finset.mem_erase.2 ⟨hNe, hWaits⟩)
  obtain ⟨q, hq, hqNe, hOwner⟩ := (hRemoved.mem_owners o).1 hStill
  exact hqNe (hInj q hq (hOwner.trans ho.symm))

/-- Nobody waits where nobody is invited. -/
theorem PlacedInv.erase_of_empty (h : PlacedInv ⟨d, waiting⟩) (hEmpty : d.invitees = []) (c : κ) :
    waiting.erase c = waiting := by
  refine Finset.erase_eq_of_notMem fun hMem => ?_
  have hNot := (h.each c).2 hMem
  rw [hEmpty] at hNot
  exact absurd hNot List.not_mem_nil

theorem PlacedInv.removePlaceholder_iff (contactId : κ → QString) (h : PlacedInv ⟨d, waiting⟩)
    (c : κ) :
    (Placed ⟨d.removePlaceholder contactId c, waiting.erase c⟩ ↔
        ∀ p, d.loopVariable contactId c = some p → d.owner p = some c) ∧
      (Placed ⟨d.removePlaceholder contactId c, waiting.erase c⟩ →
        PlacedInv ⟨d.removePlaceholder contactId c, waiting.erase c⟩) := by
  rcases removePlaceholder_spec contactId d c with
    ⟨hEmpty, hSame⟩ | ⟨p, hp, hSome, hRemoved⟩
  · rw [hSame, h.erase_of_empty hEmpty]
    refine ⟨iff_of_true h.toPlaced fun p hp => ?_, fun _ => h⟩
    rcases loopVariable_cases contactId d c with ⟨hNone, -⟩ | ⟨q, hq, -⟩
    · rw [hNone] at hp
      exact absurd hp (by simp)
    · rw [hEmpty] at hq
      exact absurd hq List.not_mem_nil
  · obtain ⟨hIff, hInv⟩ := h.removed_iff hp hRemoved c
    refine ⟨hIff.trans ?_, fun hPlaced => hInv (hIff.1 hPlaced)⟩
    rw [hSome]
    exact ⟨fun hOwner q hq => by rw [← Option.some.inj hq, hOwner], fun hAll => hAll p rfl⟩

omit [DecidableEq κ] in
/-- The session with other real members. -/
theorem PlacedInv.withChat (h : PlacedInv ⟨d, waiting⟩) (chat : Kopete.ChatSession (Member κ))
    (hChat : ∀ q, .placeholder q ∈ chat.contacts → .placeholder q ∈ d.chat.contacts) :
    PlacedInv ⟨{ d with chat := chat }, waiting⟩ := by
  have hMember : ∀ q, .placeholder q ∈ chat.contacts → q ∈ d.invitees := fun q hq =>
    h.member q (hChat q hq)
  exact ⟨⟨h.one, h.each, h.alive, h.deletedOnce, fun q hq => .inl (hMember q hq)⟩, hMember⟩

theorem owners_addInvitee (contactId : κ → QString) (label : QString) (h : PlacedInv ⟨d, waiting⟩) (c : κ) :
    (d.addInvitee contactId label c).invitees.map (d.addInvitee contactId label c).owner =
      d.invitees.map d.owner ++ [some c] := by
  show (d.invitees ++ [d.heap.next]).map _ = _
  rw [List.map_append]
  congr 1
  · refine List.map_congr_left fun p hp => ?_
    show ((d.heap.new _).get? p).map _ = _
    rw [Heap.get?_new_of_live _ (h.alive p hp)]
    rfl
  · show [((d.heap.new _).get? d.heap.next).map _] = _
    rw [Heap.get?_new_self]
    rfl

/-- **An invitation** is right exactly if it is the only one of the contact. -/
theorem PlacedInv.addInvitee_iff (h : PlacedInv ⟨d, waiting⟩) (c : κ) :
    (Placed ⟨d.addInvitee contactId label c, insert c waiting⟩ ↔
        ∀ p ∈ d.invitees, d.owner p ≠ some c) ∧
      (Placed ⟨d.addInvitee contactId label c, insert c waiting⟩ →
        PlacedInv ⟨d.addInvitee contactId label c, insert c waiting⟩) := by
  have hOwners := owners_addInvitee contactId label h c
  have hMember : ∀ q, .placeholder q ∈ (d.addInvitee contactId label c).chat.contacts →
      q ∈ (d.addInvitee contactId label c).invitees := by
    intro q hq
    rcases Kopete.ChatSession.mem_addContact hq with hq | hq
    · exact List.mem_append_left _ (h.member q hq)
    · rw [Member.placeholder.inj hq]
      exact List.mem_append_right _ (List.mem_singleton_self _)
  refine ⟨⟨fun hPlaced p hp hOwner => ?_, fun hNew => ?_⟩, fun hPlaced => ⟨hPlaced, hMember⟩⟩
  · have hOne := hPlaced.one
    rw [hOwners, QList.nodup_append_iff] at hOne
    exact hOne.2 (List.mem_map.2 ⟨p, hp, hOwner⟩)
  · refine ⟨?_, ?_, ?_, h.deletedOnce, fun q hq => .inl (hMember q hq)⟩
    · rw [hOwners, QList.nodup_append_iff]
      refine ⟨h.one, fun hMem => ?_⟩
      obtain ⟨p, hp, hOwner⟩ := List.mem_map.1 hMem
      exact hNew p hp hOwner
    · intro c'
      rw [hOwners, List.mem_append, h.each c', List.mem_singleton, Option.some.injEq]
      rw [Finset.mem_insert, or_comm]
    · intro p hp
      rcases List.mem_append.1 hp with hp | hp
      · exact (h.alive p hp).new _
      · rw [List.mem_singleton.1 hp]
        exact Heap.live_new_self _

theorem PlacedInv.left (h : PlacedInv ⟨d, waiting⟩) (c : κ) :
    PlacedInv ⟨d.left c, waiting⟩ := by
  have hChat := h.withChat (d.chat.removeContact (.contact c)) fun q hq =>
    Kopete.ChatSession.mem_removeContact hq
  have hSame : ∀ d' : GroupWiseChatSession κ M, d'.invitees = d.invitees → d'.heap = d.heap →
      d'.deletedTwice = d.deletedTwice → d'.chat = d.chat.removeContact (.contact c) →
      PlacedInv ⟨d', waiting⟩ := by
    rintro ⟨chat, guid, memberCount, invitees, pending, heap, deletedTwice⟩ rfl rfl rfl rfl
    exact ⟨⟨hChat.one, hChat.each, hChat.alive, hChat.deletedOnce, hChat.gone⟩, hChat.member⟩
  unfold GroupWiseChatSession.left
  dsimp only
  split
  · split <;> exact hSame _ rfl rfl rfl rfl
  · exact hSame _ rfl rfl rfl rfl

theorem PlacedInv.joined_iff (h : PlacedInv ⟨d, waiting⟩) (c : κ) :
    (Placed ⟨d.joined contactId c, waiting.erase c⟩ ↔
        ∀ p, d.loopVariable contactId c = some p → d.owner p = some c) ∧
      (Placed ⟨d.joined contactId c, waiting.erase c⟩ →
        PlacedInv ⟨d.joined contactId c, waiting.erase c⟩) := by
  have hChat := h.withChat (d.chat.addContact (.contact c)) fun q hq =>
    (Kopete.ChatSession.mem_addContact hq).resolve_right (by simp)
  obtain ⟨hIff, hInv⟩ := hChat.removePlaceholder_iff contactId c
  -- The count of the members has no part in it.
  have hCount : Placed ⟨d.joined contactId c, waiting.erase c⟩ ↔
      Placed ⟨removePlaceholder contactId { d with chat := d.chat.addContact (.contact c) } c,
        waiting.erase c⟩ :=
    ⟨fun hp => ⟨hp.one, hp.each, hp.alive, hp.deletedOnce, hp.gone⟩,
      fun hp => ⟨hp.one, hp.each, hp.alive, hp.deletedOnce, hp.gone⟩⟩
  exact ⟨hCount.trans hIff, fun hPlaced => ⟨hPlaced, (hInv (hCount.1 hPlaced)).member⟩⟩

/-! ## Runs -/

theorem inviteStep_iff {s : Invitations κ M} (h : PlacedInv s) (e : InvitationEvent κ) :
    (Placed (inviteStep contactId label s e) ↔ InviteOk contactId s e) ∧
      (Placed (inviteStep contactId label s e) → PlacedInv (inviteStep contactId label s e)) := by
  obtain ⟨d, waiting⟩ := s
  cases e with
  | addInvitee c => exact h.addInvitee_iff c
  | joined c => exact h.joined_iff c
  | left c => exact ⟨iff_of_true (h.left c).toPlaced trivial, fun _ => h.left c⟩
  | inviteDeclined c => exact h.removePlaceholder_iff contactId c

/-- A new session. -/
def uninvited (others : List κ) (guid : QString) : Invitations κ M := ⟨.new others guid, ∅⟩

theorem placedInv_uninvited (others : List κ) (guid : QString) :
    PlacedInv (uninvited others guid : Invitations κ M) := by
  have hMember : ∀ q,
      .placeholder q ∈ (uninvited others guid : Invitations κ M).session.chat.contacts →
        q ∈ (uninvited others guid : Invitations κ M).session.invitees := by
    intro q hq
    obtain ⟨c, -, hNot⟩ := List.mem_map.1 (Kopete.ChatSession.mem_new hq)
    exact absurd hNot (by simp)
  refine ⟨⟨List.nodup_nil, fun c => ?_, fun p hp => absurd hp List.not_mem_nil, rfl,
    fun q hq => .inl (hMember q hq)⟩, hMember⟩
  exact iff_of_false List.not_mem_nil (Finset.notMem_empty c)

/-- **The invitees.** In all runs of all sessions, each contact that is invited and has not
answered has one placeholder, and no others are left, exactly if nobody is invited twice
and what the loop leaves for each answer is the placeholder of who answers. -/
theorem placed_iff (contactId : κ → QString) (label : QString) (others : List κ) (guid : QString)
    (events : List (InvitationEvent κ)) :
    (∀ s ∈ Run.states (inviteStep contactId label) (uninvited others guid : Invitations κ M) events,
        Placed s) ↔
      Run.StepsMeet (inviteStep contactId label) (InviteOk contactId)
        (uninvited others guid : Invitations κ M) events := by
  refine Run.holds_iff_stepsMeet (fun s (h : PlacedInv s) => h.toPlaced) ?_ ?_
    (placedInv_uninvited others guid)
  · exact fun s e h => (inviteStep_iff h e).1.1
  · exact fun s e h hOk => (inviteStep_iff h e).2 ((inviteStep_iff h e).1.2 hOk)

/-- Two contacts, one of whom has an id that begins with that of the other. -/
def someIds : Nat → QString
  | 0 => [98]
  | _ => [98, 98]

/-- Both are invited, and the first one comes. -/
def bothInvited : List (InvitationEvent Nat) := [.addInvitee 1, .addInvitee 0, .joined 0]

theorem bothInvited_wrongOne :
    ¬ ∀ s ∈ Run.states (inviteStep someIds [40, 41])
      (uninvited [2] [7] : Invitations Nat Nat) bothInvited, Placed s := by
  intro h
  have hEach := (h _ (Run.foldl_mem_states _ _)).each 1
  exact absurd (hEach.2 (by decide)) (by decide)

end GroupWiseChatSession

end GroupWise
