import Kopete.GroupWise.ChatSession
import Kopete.Lib.Run
import Mathlib

/-!
# GroupWise — messages and conferences of a session

A message that comes before the conference is there is queued, and the server is asked
for a conference, for each such message anew.

Main results:

* `dequeue_spec` — the queue is sent in order, once there is a conference with members;
* `Inv.message_iff`, `Inv.created_iff` — the two events that can go wrong;
* `delivers_iff` — in all runs each message is sent once and in order, with one request at
  a time, exactly if no message comes while a request is unanswered.
-/

namespace GroupWise

namespace GroupWiseChatSession

variable {κ M : Type}

/-- What happens to a session that has no invitees. A reply of the server that creates a
conference gives it a GUID. -/
inductive Event (κ M : Type)
  | message (message : M)
  | created (guid : { g : QString // g ≠ [] })
  | creationFailed
  | joined (c : κ)
  | left (c : κ)

/-- A session, and the messages accepted from the user. -/
structure Conversation (κ M : Type) where
  session : GroupWiseChatSession κ M
  accepted : List M

variable (contactId : κ → QString) (status : Status)

/-- One event; `none` where the handler does not return. Replies are to requests. -/
def step [DecidableEq κ] (s : Option (Conversation κ M)) (e : Event κ M) : Option (Conversation κ M) :=
  s.bind fun ⟨d, accepted⟩ =>
    match e with
    | .message m =>
      some ⟨d.slotMessageSent status m, if status = .available then accepted ++ [m] else accepted⟩
    | .created guid =>
      if d.unanswered = 0 then some ⟨d, accepted⟩
      else (conferenceCreated status guid.1 d.connections
        { d with unanswered := d.unanswered - 1 }).map fun d => ⟨d, accepted⟩
    | .creationFailed =>
      if d.unanswered = 0 then some ⟨d, accepted⟩
      else some ⟨conferenceCreationFailed d.connections
        { d with unanswered := d.unanswered - 1 }, accepted⟩
    | .joined c => some ⟨d.joined contactId c, accepted⟩
    | .left c => some ⟨d.left c, accepted⟩

/-- Each message accepted has been sent once, in order, or waits for a conference, and there
is at most one request for that. -/
structure Delivers (s : Conversation κ M) : Prop where
  once : s.session.sent.map (·.2) ++ s.session.pendingOutgoingMessages = s.accepted
  prompt : s.session.guid ≠ [] → s.session.pendingOutgoingMessages = []
  oneRequest : s.session.unanswered ≤ 1

/-- The same of a state, where the last event has been handled. -/
def Delivered (s : Option (Conversation κ M)) : Prop := ∃ c, s = some c ∧ Delivers c

structure Inv (status : Status) (s : Conversation κ M) : Prop extends Delivers s where
  noInvitees : s.session.invitees = []
  noGuid : s.session.unanswered ≠ 0 → s.session.guid = []
  connected : s.session.unanswered ≠ 0 → s.session.connections ≠ 0
  available : s.session.pendingOutgoingMessages ≠ [] → status = .available

/-- A message that has to wait for a conference comes when none is being created, and a
conference that messages wait for is created with members. -/
def StepOk (status : Status) (s : Option (Conversation κ M)) (e : Event κ M) : Prop :=
  ∀ c, s = some c →
    match e with
    | .message _ =>
      status = .available → c.session.guid = [] ∨ c.session.memberCount = 0 →
        c.session.unanswered = 0
    | .created _ =>
      c.session.unanswered ≠ 0 → c.session.pendingOutgoingMessages ≠ [] →
        UInt32.ofNat c.session.chat.contacts.length ≠ 0
    | .creationFailed | .joined _ | .left _ => True

/-! ## The queue -/

section Queue

variable {contactId status} {d : GroupWiseChatSession κ M}

/-- With a conference and members a message is sent at once. -/
theorem slotMessageSent_of_guid (m : M) (hGuid : d.guid ≠ []) (hCount : d.memberCount ≠ 0) :
    d.slotMessageSent .available m = { d with sent := d.sent ++ [(d.guid, m)] } := by
  show (if d.guid = [] ∨ d.memberCount = 0 then _ else _) = _
  rw [if_neg (not_or.2 ⟨hGuid, hCount⟩)]

/-- Otherwise it is queued, and a conference asked for. -/
theorem slotMessageSent_queued (m : M) (hNone : d.guid = [] ∨ d.memberCount = 0)
    (hInvitees : d.invitees = []) :
    d.slotMessageSent .available m =
      { d with
        guid := []
        connections := d.connections + 1
        unanswered := d.unanswered + 1
        pendingOutgoingMessages := d.pendingOutgoingMessages ++ [m] } := by
  show (if d.guid = [] ∨ d.memberCount = 0 then _ else _) = _
  rw [if_pos hNone, if_neg (not_not_intro hInvitees)]
  rfl

theorem dequeueFrom_of_guid (hGuid : d.guid ≠ []) (hCount : d.memberCount ≠ 0) (i fuel : Nat)
    (hi : i ≤ d.pendingOutgoingMessages.length)
    (hFuel : d.pendingOutgoingMessages.length < i + fuel) :
    dequeueFrom .available fuel i d =
      some { d with
        sent := d.sent ++ (d.pendingOutgoingMessages.drop i).map fun m => (d.guid, m)
        pendingOutgoingMessages := [] } := by
  induction fuel generalizing i d with
  | zero => omega
  | succ fuel ih =>
    rw [dequeueFrom]
    cases hMessage : d.pendingOutgoingMessages[i]? with
    | none =>
      rw [List.drop_eq_nil_of_le (List.getElem?_eq_none_iff.1 hMessage)]
      simp
    | some m =>
      obtain ⟨hLt, rfl⟩ := List.getElem?_eq_some_iff.1 hMessage
      have hNext := ih (d := { d with sent := d.sent ++ [(d.guid, d.pendingOutgoingMessages[i])] })
        hGuid hCount (i + 1) hLt (by rw [Nat.add_right_comm]; exact hFuel)
      simp only [slotMessageSent_of_guid _ hGuid hCount]
      rw [hNext]
      simp only [List.drop_eq_getElem_cons hLt, List.map_cons, List.append_assoc,
        List.cons_append, List.nil_append]

/-- Without members the loop runs after its own tail. -/
theorem dequeueFrom_of_memberless (hCount : d.memberCount = 0) (hInvitees : d.invitees = [])
    (i fuel : Nat) (hi : i < d.pendingOutgoingMessages.length) :
    dequeueFrom .available fuel i d = none := by
  induction fuel generalizing i d with
  | zero => rfl
  | succ fuel ih =>
    rw [dequeueFrom, List.getElem?_eq_getElem hi]
    simp only [slotMessageSent_queued _ (.inr hCount) hInvitees]
    refine ih (d := { d with
      guid := []
      connections := d.connections + 1
      unanswered := d.unanswered + 1
      pendingOutgoingMessages := d.pendingOutgoingMessages ++ [d.pendingOutgoingMessages[i]] })
      hCount hInvitees (i + 1) ?_
    simp only [List.length_append, List.length_singleton]
    omega

/-- What the signal of a created conference leaves. -/
structure Created (d : GroupWiseChatSession κ M) (g : QString)
    (d' : GroupWiseChatSession κ M) : Prop where
  guid : d'.guid = g
  pending : d'.pendingOutgoingMessages = []
  sent : d'.sent = d.sent ++ d.pendingOutgoingMessages.map fun m => (g, m)
  unanswered : d'.unanswered = d.unanswered
  connections : d'.connections = d.connections
  invitees : d'.invitees = d.invitees

theorem conferenceCreationFailed_eq (n : Nat) (hn : n ≠ 0) :
    conferenceCreationFailed n d = d.setClosed := by
  obtain ⟨n, rfl⟩ := Nat.exists_eq_succ_of_ne_zero hn
  induction n generalizing d with
  | zero => rfl
  | succ n ih =>
    rw [conferenceCreationFailed, ih (Nat.succ_ne_zero n)]
    rfl

variable [DecidableEq κ]

/-- There is nothing to send. -/
theorem receiveGuid_of_idle (status : Status) (guid : QString) (hPending : d.pendingOutgoingMessages = []) :
    ∃ d', receiveGuid status d guid = some d' ∧
      Created d (if d.guid = [] then guid else d.guid) d' := by
  unfold receiveGuid dequeueMessagesAndInvites setGuid
  split
  all_goals
    refine ⟨_, by simp only [hPending]; rfl, ?_⟩
    exact ⟨rfl, rfl, by simp [hPending], rfl, rfl, rfl⟩

/-- **The queue**, in order, when the conference is there. -/
theorem receiveGuid_of_waiting {guid : QString} (hGuid : guid ≠ []) (hNone : d.guid = [])
    (hCount : UInt32.ofNat d.chat.contacts.length ≠ 0) :
    ∃ d', receiveGuid .available d guid = some d' ∧ Created d guid d' := by
  unfold receiveGuid setGuid
  rw [if_pos hNone]
  refine ⟨_, dequeueFrom_of_guid hGuid hCount 0 _ (Nat.zero_le _) (by omega), ?_⟩
  exact ⟨rfl, rfl, rfl, rfl, rfl, rfl⟩

theorem receiveGuid_of_memberless {guid : QString} (hNone : d.guid = [])
    (hCount : UInt32.ofNat d.chat.contacts.length = 0) (hInvitees : d.invitees = [])
    (hPending : d.pendingOutgoingMessages ≠ []) : receiveGuid .available d guid = none := by
  unfold receiveGuid setGuid
  rw [if_pos hNone]
  exact dequeueFrom_of_memberless (d := { d with
    memberCount := UInt32.ofNat d.chat.contacts.length
    guid := guid
    chat := d.chat.contacts.foldl Kopete.ChatSession.addContact d.chat })
    hCount hInvitees 0 _ (List.length_pos_of_ne_nil hPending)

/-- Further connections of the signal find nothing to do. -/
theorem conferenceCreated_of_idle (status : Status) (guid : QString) (n : Nat) (hGuid : d.guid ≠ [])
    (hPending : d.pendingOutgoingMessages = []) :
    ∃ d', conferenceCreated status guid n d = some d' ∧ Created d d.guid d' := by
  induction n generalizing d with
  | zero => exact ⟨d, rfl, rfl, hPending, by simp [hPending], rfl, rfl, rfl⟩
  | succ n ih =>
    obtain ⟨d', hFirst, hd'⟩ := receiveGuid_of_idle status guid hPending
    rw [if_neg hGuid] at hd'
    obtain ⟨d'', hRest, hd''⟩ := ih (by rw [hd'.guid]; exact hGuid) hd'.pending
    refine ⟨d'', by rw [conferenceCreated, hFirst, Option.bind_some, hRest], ?_⟩
    refine ⟨hd''.guid.trans hd'.guid, hd''.pending, ?_, hd''.unanswered.trans hd'.unanswered,
      hd''.connections.trans hd'.connections, hd''.invitees.trans hd'.invitees⟩
    rw [hd''.sent, hd'.sent, hd'.pending]
    simp

/-- The signal, where its first connection has been dealt with. -/
theorem conferenceCreated_succ {guid : QString} (n : Nat) (hGuid : guid ≠ [])
    {d' : GroupWiseChatSession κ M} (hFirst : receiveGuid status d guid = some d')
    (hd' : Created d guid d') :
    ∃ d'', conferenceCreated status guid (n + 1) d = some d'' ∧ Created d guid d'' := by
  obtain ⟨d'', hRest, hd''⟩ := conferenceCreated_of_idle status guid n
    (by rw [hd'.guid]; exact hGuid) hd'.pending
  refine ⟨d'', by rw [conferenceCreated, hFirst, Option.bind_some, hRest], ?_⟩
  refine ⟨hd''.guid.trans hd'.guid, hd''.pending, ?_, hd''.unanswered.trans hd'.unanswered,
    hd''.connections.trans hd'.connections, hd''.invitees.trans hd'.invitees⟩
  rw [hd''.sent, hd'.sent, hd'.pending]
  simp

end Queue

/-! ## Events -/

section Events

variable [DecidableEq κ] {contactId status} {d : GroupWiseChatSession κ M} {accepted : List M}

theorem joined_of_noInvitees (hInvitees : d.invitees = []) (c : κ) :
    d.joined contactId c =
      { d with
        chat := d.chat.addContact (.contact c)
        memberCount := d.memberCount + 1 } := by
  simp [joined, removePlaceholder, loopVariable, matching, hInvitees]

/-- A member that leaves may close the conference. -/
theorem left_cases (c : κ) :
    ∃ guid memberCount, (guid = d.guid ∨ guid = []) ∧
      d.left c =
        { d with
          chat := d.chat.removeContact (.contact c)
          memberCount := memberCount
          guid := guid } := by
  unfold left
  dsimp only
  split
  · split
    · exact ⟨d.guid, _, .inl rfl, rfl⟩
    · exact ⟨[], _, .inr rfl, rfl⟩
  · exact ⟨d.guid, _, .inl rfl, rfl⟩

theorem Inv.joined (contactId : κ → QString) (h : Inv status ⟨d, accepted⟩) (c : κ) :
    Inv status ⟨d.joined contactId c, accepted⟩ := by
  rw [joined_of_noInvitees h.noInvitees]
  exact ⟨⟨h.once, h.prompt, h.oneRequest⟩, h.noInvitees, h.noGuid, h.connected, h.available⟩

theorem Inv.left (h : Inv status ⟨d, accepted⟩) (c : κ) :
    Inv status ⟨d.left c, accepted⟩ := by
  obtain ⟨guid, memberCount, hGuid, hLeft⟩ := left_cases (d := d) c
  rw [hLeft]
  refine ⟨⟨h.once, ?_, h.oneRequest⟩, h.noInvitees, ?_, h.connected, h.available⟩
  · rcases hGuid with rfl | rfl
    · exact h.prompt
    · exact fun hNe => absurd rfl hNe
  · intro hAsked
    rcases hGuid with rfl | rfl
    · exact h.noGuid hAsked
    · rfl

omit [DecidableEq κ] in
/-- A message, which is sent, or queued with another request. -/
theorem Inv.message_iff (h : Inv status ⟨d, accepted⟩) (m : M) :
    let next : Conversation κ M :=
      ⟨d.slotMessageSent status m, if status = .available then accepted ++ [m] else accepted⟩
    (Delivers next ↔ (status = .available → d.guid = [] ∨ d.memberCount = 0 → d.unanswered = 0)) ∧
      (Delivers next → Inv status next) := by
  intro next
  cases status with
  | disconnected =>
    exact ⟨iff_of_true h.toDelivers fun hNot => absurd hNot (by decide), fun _ => h⟩
  | appearOffline =>
    exact ⟨iff_of_true h.toDelivers fun hNot => absurd hNot (by decide), fun _ => h⟩
  | available =>
    by_cases hWait : d.guid = [] ∨ d.memberCount = 0
    · have hNext : next = ⟨{ d with
          guid := []
          connections := d.connections + 1
          unanswered := d.unanswered + 1
          pendingOutgoingMessages := d.pendingOutgoingMessages ++ [m] }, accepted ++ [m]⟩ := by
        show Conversation.mk (slotMessageSent .available d m) _ = _
        rw [slotMessageSent_queued m hWait h.noInvitees]
        rfl
      have hOnce : d.sent.map (·.2) ++ (d.pendingOutgoingMessages ++ [m]) = accepted ++ [m] := by
        rw [← List.append_assoc]
        exact congrArg (· ++ [m]) h.once
      rw [hNext]
      refine ⟨⟨fun hDelivers _ _ => ?_, fun hOk => ?_⟩, fun hDelivers => ?_⟩
      · have hOne : d.unanswered + 1 ≤ 1 := hDelivers.oneRequest
        omega
      · refine ⟨hOnce, fun hNe => absurd rfl hNe, ?_⟩
        show d.unanswered + 1 ≤ 1
        have hNone := hOk rfl hWait
        omega
      · exact ⟨hDelivers, h.noInvitees, fun _ => rfl, fun _ => Nat.succ_ne_zero _, fun _ => rfl⟩
    · obtain ⟨hGuid, hCount⟩ := not_or.1 hWait
      have hNext : next = ⟨{ d with sent := d.sent ++ [(d.guid, m)] }, accepted ++ [m]⟩ := by
        show Conversation.mk (slotMessageSent .available d m) _ = _
        rw [slotMessageSent_of_guid m hGuid hCount]
        rfl
      have hEmpty : d.pendingOutgoingMessages = [] := h.prompt hGuid
      have hDelivers : Delivers next := by
        rw [hNext]
        refine ⟨?_, h.prompt, h.oneRequest⟩
        have hSent : d.sent.map (·.2) ++ d.pendingOutgoingMessages = accepted := h.once
        simp only [← hSent, hEmpty, List.map_append, List.append_nil, List.map_cons, List.map_nil]
      refine ⟨iff_of_true hDelivers fun _ hNot => absurd hNot hWait, fun _ => ?_⟩
      rw [hNext] at hDelivers ⊢
      exact ⟨hDelivers, h.noInvitees, h.noGuid, h.connected, h.available⟩

omit [DecidableEq κ] in
theorem Inv.failed (h : Inv status ⟨d, accepted⟩) (hAsked : d.unanswered ≠ 0) :
    Inv status ⟨conferenceCreationFailed d.connections
      { d with unanswered := d.unanswered - 1 }, accepted⟩ := by
  rw [conferenceCreationFailed_eq _ (h.connected hAsked)]
  have hOne : d.unanswered ≤ 1 := h.oneRequest
  refine ⟨⟨h.once, fun hNe => absurd rfl hNe, ?_⟩, h.noInvitees, fun _ => rfl, ?_, h.available⟩
  · show d.unanswered - 1 ≤ 1
    omega
  · exact fun _ => h.connected hAsked

/-- The conference that the messages have waited for. -/
theorem Inv.created_iff (h : Inv status ⟨d, accepted⟩) {guid : QString} (hGuid : guid ≠ [])
    (hAsked : d.unanswered ≠ 0) :
    let next := conferenceCreated status guid d.connections { d with unanswered := d.unanswered - 1 }
    (next = none ∧ d.pendingOutgoingMessages ≠ [] ∧
        UInt32.ofNat d.chat.contacts.length = 0) ∨
      (d.pendingOutgoingMessages ≠ [] → UInt32.ofNat d.chat.contacts.length ≠ 0) ∧
        ∃ d', next = some d' ∧ Inv status ⟨d', accepted⟩ := by
  intro next
  have hNone : d.guid = [] := h.noGuid hAsked
  have hConnected : d.connections ≠ 0 := h.connected hAsked
  obtain ⟨n, hn⟩ := Nat.exists_eq_succ_of_ne_zero hConnected
  have hOne : d.unanswered ≤ 1 := h.oneRequest
  -- It is enough that the first connection returns.
  have hEnough : ∀ d₁, receiveGuid status { d with unanswered := d.unanswered - 1 } guid = some d₁ →
      Created { d with unanswered := d.unanswered - 1 } guid d₁ →
      ∃ d', next = some d' ∧ Inv status ⟨d', accepted⟩ := by
    intro d₁ hFirst hd₁
    obtain ⟨d', hNext, hd'⟩ := conferenceCreated_succ n hGuid hFirst hd₁
    have hUnanswered : d'.unanswered = 0 := by
      rw [hd'.unanswered]
      show d.unanswered - 1 = 0
      omega
    refine ⟨d', by rw [← hNext, ← Nat.succ_eq_add_one, ← hn], ?_⟩
    refine ⟨⟨?_, fun _ => hd'.pending, ?_⟩, hd'.invitees.trans h.noInvitees, ?_, ?_, ?_⟩
    · have hOnce : d.sent.map (·.2) ++ d.pendingOutgoingMessages = accepted := h.once
      rw [hd'.sent, hd'.pending, ← hOnce]
      simp [Function.comp_def]
    · rw [hUnanswered]
      exact Nat.zero_le 1
    · exact fun hNot => absurd hUnanswered hNot
    · exact fun hNot => absurd hUnanswered hNot
    · exact fun hNot => absurd hd'.pending hNot
  by_cases hPending : d.pendingOutgoingMessages = []
  · refine .inr ⟨fun hNot => absurd hPending hNot, ?_⟩
    obtain ⟨d₁, hFirst, hd₁⟩ := receiveGuid_of_idle status
      (d := { d with unanswered := d.unanswered - 1 }) guid hPending
    rw [if_pos hNone] at hd₁
    exact hEnough d₁ hFirst hd₁
  · obtain rfl := h.available hPending
    by_cases hCount : UInt32.ofNat d.chat.contacts.length = 0
    · refine .inl ⟨?_, hPending, hCount⟩
      have hHangs : conferenceCreated .available guid (n + 1)
          { d with unanswered := d.unanswered - 1 } = none := by
        rw [conferenceCreated, receiveGuid_of_memberless
          (d := { d with unanswered := d.unanswered - 1 }) hNone hCount h.noInvitees hPending]
        rfl
      rw [← Nat.succ_eq_add_one, ← hn] at hHangs
      exact hHangs
    · refine .inr ⟨fun _ => hCount, ?_⟩
      obtain ⟨d₁, hFirst, hd₁⟩ := receiveGuid_of_waiting
        (d := { d with unanswered := d.unanswered - 1 }) hGuid hNone hCount
      exact hEnough d₁ hFirst hd₁

end Events

/-! ## Runs -/

variable [DecidableEq κ]

/-- One event, from a state with the invariant: when it delivers, and that it then keeps the
invariant. -/
theorem step_iff {status : Status} {c : Conversation κ M} (h : Inv status c) (e : Event κ M) :
    (Delivered (step contactId status (some c) e) ↔ StepOk status (some c) e) ∧
      (Delivered (step contactId status (some c) e) →
        ∃ c', step contactId status (some c) e = some c' ∧ Inv status c') := by
  obtain ⟨d, accepted⟩ := c
  cases e with
  | message m =>
    obtain ⟨hIff, hInv⟩ := h.message_iff m
    refine ⟨⟨?_, ?_⟩, ?_⟩
    · rintro ⟨_, ⟨rfl⟩, hDelivers⟩ _ ⟨rfl⟩
      exact hIff.1 hDelivers
    · intro hOk
      exact ⟨_, rfl, hIff.2 (hOk _ rfl)⟩
    · rintro ⟨_, ⟨rfl⟩, hDelivers⟩
      exact ⟨_, rfl, hInv hDelivers⟩
  | created guid =>
    by_cases hAsked : d.unanswered = 0
    · have hStep : step contactId status (some ⟨d, accepted⟩) (.created guid) = some ⟨d, accepted⟩ :=
        if_pos hAsked
      rw [hStep]
      refine ⟨iff_of_true ⟨_, rfl, h.toDelivers⟩ ?_, fun _ => ⟨_, rfl, h⟩⟩
      rintro _ ⟨rfl⟩ hNot
      exact absurd hAsked hNot
    · have hStep : step contactId status (some ⟨d, accepted⟩) (.created guid) =
          (conferenceCreated status guid.1 d.connections
            { d with unanswered := d.unanswered - 1 }).map fun d => ⟨d, accepted⟩ :=
        if_neg hAsked
      rw [hStep]
      rcases h.created_iff guid.2 hAsked with ⟨hNone, hPending, hCount⟩ | ⟨hOk, d', hSome, hInv⟩
      · rw [hNone]
        refine ⟨iff_of_false ?_ ?_, ?_⟩
        · rintro ⟨_, hNot, -⟩
          exact absurd hNot (by simp)
        · intro hOk
          exact hOk _ rfl hAsked hPending hCount
        · rintro ⟨_, hNot, -⟩
          exact absurd hNot (by simp)
      · rw [hSome]
        refine ⟨iff_of_true ⟨_, rfl, hInv.toDelivers⟩ ?_, fun _ => ⟨_, rfl, hInv⟩⟩
        rintro _ ⟨rfl⟩ -
        exact hOk
  | creationFailed =>
    by_cases hAsked : d.unanswered = 0
    · have hStep : step contactId status (some ⟨d, accepted⟩) .creationFailed = some ⟨d, accepted⟩ :=
        if_pos hAsked
      rw [hStep]
      exact ⟨iff_of_true ⟨_, rfl, h.toDelivers⟩ fun _ _ => trivial, fun _ => ⟨_, rfl, h⟩⟩
    · have hStep : step contactId status (some ⟨d, accepted⟩) .creationFailed =
          some ⟨conferenceCreationFailed d.connections
            { d with unanswered := d.unanswered - 1 }, accepted⟩ := if_neg hAsked
      rw [hStep]
      have hNext := h.failed hAsked
      exact ⟨iff_of_true ⟨_, rfl, hNext.toDelivers⟩ fun _ _ => trivial, fun _ => ⟨_, rfl, hNext⟩⟩
  | joined c =>
    have hNext := h.joined contactId c
    exact ⟨iff_of_true ⟨_, rfl, hNext.toDelivers⟩ fun _ _ => trivial, fun _ => ⟨_, rfl, hNext⟩⟩
  | left c =>
    have hNext := h.left c
    exact ⟨iff_of_true ⟨_, rfl, hNext.toDelivers⟩ fun _ _ => trivial, fun _ => ⟨_, rfl, hNext⟩⟩

/-- A new session. -/
def start (others : List κ) (guid : QString) : Option (Conversation κ M) :=
  some ⟨.new others guid, []⟩

theorem inv_start (others : List κ) (guid : QString) :
    Inv status (⟨.new others guid, []⟩ : Conversation κ M) :=
  ⟨⟨rfl, fun _ => rfl, Nat.zero_le 1⟩, rfl, fun h => absurd rfl h, fun h => absurd rfl h,
    fun h => absurd rfl h⟩

/-- **Messages of a session.** In all runs of all sessions, each message accepted is sent once
and in order as soon as there is a conference, and one conference is asked for at a time,
exactly if no message that has to wait comes while a request is unanswered, and no
conference that messages wait for is created without members. -/
theorem delivers_iff (contactId : κ → QString) (status : Status) (others : List κ)
    (guid : QString) (events : List (Event κ M)) :
    (∀ s ∈ Run.states (step contactId status) (start others guid) events, Delivered s) ↔
      Run.StepsMeet (step contactId status) (StepOk status) (start others guid) events := by
  refine Run.holds_iff_stepsMeet
    (fun s (h : ∃ c, s = some c ∧ Inv status c) => ?_) ?_ ?_
    ⟨_, rfl, inv_start status others guid⟩
  · obtain ⟨c, rfl, h⟩ := h
    exact ⟨c, rfl, h.toDelivers⟩
  · rintro _ e ⟨c, rfl, h⟩ hDelivered
    exact (step_iff contactId h e).1.1 hDelivered
  · rintro _ e ⟨c, rfl, h⟩ hOk
    have hIff := step_iff contactId h e
    exact hIff.2 (hIff.1.2 hOk)

/-- Two messages before the conference is there. -/
def twoMessages : List (Event Nat Nat) := [.message 1, .message 2]

theorem twoMessages_twoRequests :
    ¬ ∀ s ∈ Run.states (step (fun _ => [97]) .available) (start [7] []) twoMessages, Delivered s := by
  intro h
  obtain ⟨c, hc, hDelivers⟩ := h _ (Run.foldl_mem_states _ _)
  have hTwo : c.session.unanswered = 2 := by
    rw [← Option.some.inj hc]
    decide
  exact absurd hDelivers.oneRequest (by omega)

end GroupWiseChatSession

end GroupWise
