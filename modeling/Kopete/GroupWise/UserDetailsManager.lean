import Kopete.Lib.QList
import Kopete.Lib.Run
import Mathlib

/-!
# GroupWise — `UserDetailsManager`

The manager keeps the details of users that have been added or received, and the
DNs it has asked the server for. A DN leaves the list of pending ones only when
details for it arrive: a request that fails, or that does not find a DN, leaves it
there, and it is never asked for again. And `details` looks its DN up with an
operator that inserts what it does not find.

The state is followed together with what it ought to say: the requests that are
unanswered, and the DNs whose details are there.

Main results:

* `collect_spec` — what a request asks for;
* `faithful_step` — what each operation keeps, and under which condition;
* `details_faithful_iff` — the same for runs.
-/

namespace GroupWise

open QList

variable {δ κ : Type} [DecidableEq δ]

/-- `ContactDetails`: the DN, and the rest. -/
structure ContactDetails (δ κ : Type) where
  dn : δ
  info : κ
deriving Inhabited

/-- `UserDetailsManager`. The map has a value for each of its keys. -/
structure UserDetailsManager (δ κ : Type) where
  m_pendingDNs : List δ
  m_detailsMap : δ → Option (ContactDetails δ κ)

/-- The user's own DN, and `QString::toLower`. -/
structure Client (δ : Type) where
  userDN : δ
  toLower : δ → δ

namespace UserDetailsManager

/-! ## Operations -/

def known (client : Client δ) (m : UserDetailsManager δ κ) (dn : δ) : Bool :=
  if dn = client.userDN then true else (m.m_detailsMap dn).isSome

/-- `details`: `m_detailsMap[ dn ]`, which inserts. -/
def details [Inhabited δ] [Inhabited κ] (m : UserDetailsManager δ κ) (dn : δ) :
    ContactDetails δ κ × UserDetailsManager δ κ :=
  let value := (m.m_detailsMap dn).getD default
  (value, { m with m_detailsMap := Function.update m.m_detailsMap dn (some value) })

def addDetails (m : UserDetailsManager δ κ) (details : ContactDetails δ κ) :
    UserDetailsManager δ κ :=
  { m with m_detailsMap := Function.update m.m_detailsMap details.dn (some details) }

def removeContact (m : UserDetailsManager δ κ) (dn : δ) : UserDetailsManager δ κ :=
  { m with m_detailsMap := Function.update m.m_detailsMap dn none }

/-- The loop of `requestDetails`: `requestList` and `m_pendingDNs`. -/
def collect (client : Client δ) (m : UserDetailsManager δ κ) (onlyUnknown : Bool) :
    List δ → List δ × List δ → List δ × List δ
  | [], r => r
  | dn :: it, r =>
    if dn = client.userDN then r -- break
    else if onlyUnknown && m.known client dn then r -- break
    else if dn ∉ r.2 then collect client m onlyUnknown it (r.1 ++ [dn], r.2 ++ [dn])
    else collect client m onlyUnknown it r

/-- `requestDetails`: the manager, and the DNs of the task it starts, if any. -/
def requestDetails (client : Client δ) (m : UserDetailsManager δ κ) (dnList : List δ)
    (onlyUnknown : Bool) : UserDetailsManager δ κ × Option (List δ) :=
  let r := collect client m onlyUnknown dnList ([], m.m_pendingDNs)
  ({ m with m_pendingDNs := r.2 }, if r.1 ≠ [] then some r.1 else none)

/-- `slotReceiveContactDetails`. -/
def slotReceiveContactDetails (m : UserDetailsManager δ κ) (details : ContactDetails δ κ) :
    UserDetailsManager δ κ :=
  { m with m_pendingDNs := removeAll m.m_pendingDNs details.dn }.addDetails details

/-- `extractUserDetails`: the DN is lowercased. -/
def extractUserDetails (client : Client δ) (details : ContactDetails δ κ) : ContactDetails δ κ :=
  { details with dn := client.toLower details.dn }

/-- `GetDetailsTask::take`, for the results in a response. -/
def take (client : Client δ) (m : UserDetailsManager δ κ) (results : List (ContactDetails δ κ)) :
    UserDetailsManager δ κ :=
  (results.map (extractUserDetails client)).foldl slotReceiveContactDetails m

end UserDetailsManager

open UserDetailsManager

/-! ## Runs -/

/-- The manager, the DNs of each request that is unanswered, and the DNs whose details
were added or received and not removed since. -/
structure UserDetails (δ κ : Type) where
  manager : UserDetailsManager δ κ
  unanswered : List (List δ)
  present : δ → Bool

inductive UserDetailsOp (δ κ : Type)
  | addDetails (details : ContactDetails δ κ)
  | removeContact (dn : δ)
  | details (dn : δ)
  | requestDetails (dnList : List δ) (onlyUnknown : Bool)
  | answered (request : Nat) (results : List (ContactDetails δ κ)) -- none, if it has failed

namespace UserDetails

variable (client : Client δ)

def init : UserDetails δ κ := ⟨⟨[], fun _ => none⟩, [], fun _ => false⟩

/-- The DNs that the results of a response are about. -/
def resultDNs (results : List (ContactDetails δ κ)) : List δ :=
  results.map fun r => client.toLower r.dn

/-- The pending DNs are those of the unanswered requests, and the known ones of others those
whose details are there; and a DN that is neither can be requested. -/
structure Faithful (s : UserDetails δ κ) : Prop where
  pending : ∀ dn, dn ∈ s.manager.m_pendingDNs ↔ ∃ asked ∈ s.unanswered, dn ∈ asked
  known : ∀ dn ≠ client.userDN, s.manager.known client dn = s.present dn
  again : ∀ dn ≠ client.userDN, s.present dn = false → (∀ asked ∈ s.unanswered, dn ∉ asked) →
    (s.manager.requestDetails client [dn] true).2 = some [dn]

/-- A lookup is for a DN that is known, and the answer to a request has details for each DN
that was asked for, and none for a DN that another request is about. -/
def Ok (s : UserDetails δ κ) : UserDetailsOp δ κ → Prop
  | .details dn => dn = client.userDN ∨ s.present dn = true
  | .answered request results =>
    ∀ asked, s.unanswered[request]? = some asked →
      (∀ dn ∈ asked, dn ∈ resultDNs client results) ∧
      ∀ dn ∈ (s.unanswered.eraseIdx request).flatten, dn ∉ resultDNs client results
  | _ => True

/-- Faithful, and no DN is asked for twice. -/
structure Tracked (s : UserDetails δ κ) : Prop where
  faithful : s.Faithful client
  nodup : s.unanswered.flatten.Nodup

/-! ## Requests and answers -/

/-- **A request** asks for some DNs that were not pending, each once, and they are pending
then. -/
theorem collect_spec (m : UserDetailsManager δ κ) (onlyUnknown : Bool) (dnList : List δ)
    (r : List δ × List δ) :
    ∃ new, collect client m onlyUnknown dnList r = (r.1 ++ new, r.2 ++ new) ∧ new.Nodup ∧
      ∀ dn ∈ new, dn ∉ r.2 := by
  have hNone : ∃ new, r = (r.1 ++ new, r.2 ++ new) ∧ new.Nodup ∧ ∀ dn ∈ new, dn ∉ r.2 :=
    ⟨[], by simp, List.nodup_nil, fun _ h => by cases h⟩
  induction dnList generalizing r with
  | nil => exact hNone
  | cons dn it ih =>
    rw [collect]
    split
    · exact hNone
    split
    · exact hNone
    split
    · rename_i hNew
      obtain ⟨new, hSame, hNodup, hApart⟩ := ih (r.1 ++ [dn], r.2 ++ [dn]) ⟨[], by simp,
        List.nodup_nil, fun _ h => by cases h⟩
      refine ⟨dn :: new, by simpa using hSame, List.nodup_cons.mpr ⟨?_, hNodup⟩, ?_⟩
      · intro hMem
        exact hApart dn hMem (by simp)
      · intro dn' hMem
        rcases List.mem_cons.mp hMem with rfl | hMem
        · exact hNew
        · exact fun h => hApart dn' hMem (by simp [h])
    · exact ih r hNone

theorem mem_pending_take (m : UserDetailsManager δ κ) (results : List (ContactDetails δ κ))
    (dn : δ) : dn ∈ (m.take client results).m_pendingDNs ↔
      dn ∈ m.m_pendingDNs ∧ dn ∉ resultDNs client results := by
  unfold take resultDNs
  induction results generalizing m with
  | nil => simp
  | cons r results ih =>
    rw [List.map_cons, List.foldl_cons, ih]
    simp only [slotReceiveContactDetails, addDetails, extractUserDetails, mem_removeAll,
      List.map_cons, List.mem_cons, not_or, and_assoc]

theorem isSome_take (m : UserDetailsManager δ κ) (results : List (ContactDetails δ κ)) (dn : δ) :
    ((m.take client results).m_detailsMap dn).isSome =
      (decide (dn ∈ resultDNs client results) || (m.m_detailsMap dn).isSome) := by
  unfold take resultDNs
  induction results generalizing m with
  | nil => simp
  | cons r results ih =>
    rw [List.map_cons, List.foldl_cons, ih]
    by_cases hSame : dn = client.toLower r.dn
    · simp [slotReceiveContactDetails, addDetails, extractUserDetails, hSame]
    · simp [slotReceiveContactDetails, addDetails, extractUserDetails, hSame]

/-- A DN of another user is known if the map has its key. -/
theorem known_foreign (m : UserDetailsManager δ κ) {dn : δ} (h : dn ≠ client.userDN) :
    m.known client dn = (m.m_detailsMap dn).isSome := if_neg h

/-- A DN that is neither pending nor known can be requested. -/
theorem faithful_of {s : UserDetails δ κ}
    (hPending : ∀ dn, dn ∈ s.manager.m_pendingDNs ↔ dn ∈ s.unanswered.flatten)
    (hKnown : ∀ dn ≠ client.userDN, (s.manager.m_detailsMap dn).isSome = s.present dn) :
    s.Faithful client where
  pending dn := by rw [hPending, List.mem_flatten]
  known dn hForeign := by rw [known_foreign client _ hForeign, hKnown dn hForeign]
  again dn hForeign hAbsent hFree := by
    have hUnknown : s.manager.known client dn = false := by
      rw [known_foreign client _ hForeign, hKnown dn hForeign, hAbsent]
    have hNotPending : dn ∉ s.manager.m_pendingDNs := by
      rw [hPending, List.mem_flatten]
      rintro ⟨asked, hAsked, hMem⟩
      exact hFree asked hAsked hMem
    simp [requestDetails, collect, hForeign, hUnknown, hNotPending]

theorem Faithful.mem_flatten {s : UserDetails δ κ} (h : s.Faithful client) (dn : δ) :
    dn ∈ s.manager.m_pendingDNs ↔ dn ∈ s.unanswered.flatten := by
  rw [h.pending, List.mem_flatten]

theorem Faithful.isSome {s : UserDetails δ κ} (h : s.Faithful client) {dn : δ}
    (hForeign : dn ≠ client.userDN) : (s.manager.m_detailsMap dn).isSome = s.present dn := by
  rw [← known_foreign client _ hForeign, h.known dn hForeign]

omit [DecidableEq δ] in
/-- A request and the others. -/
theorem flatten_eraseIdx {u : List (List δ)} {request : Nat} {asked : List δ}
    (h : u[request]? = some asked) (hNodup : u.flatten.Nodup) :
    (∀ dn, dn ∈ u.flatten ↔ dn ∈ asked ∨ dn ∈ (u.eraseIdx request).flatten) ∧
      (∀ dn ∈ asked, dn ∉ (u.eraseIdx request).flatten) ∧ (u.eraseIdx request).flatten.Nodup := by
  obtain ⟨hLength, rfl⟩ := List.getElem?_eq_some_iff.mp h
  have hSplit : u.flatten.Perm (u[request] ++ (u.eraseIdx request).flatten) := by
    have hPerm := (List.getElem_cons_eraseIdx_perm hLength).symm.flatten
    rwa [List.flatten_cons] at hPerm
  have hBoth := hSplit.nodup_iff.mp hNodup
  rw [List.nodup_append] at hBoth
  refine ⟨fun dn => by rw [hSplit.mem_iff, List.mem_append], ?_, hBoth.2.1⟩
  exact fun dn hHere hThere => hBoth.2.2 dn hHere dn hThere rfl

/-- A map and what is there, changed at one key. -/
theorem isSome_update {s : UserDetails δ κ} (h : s.Faithful client) {dn dn' : δ}
    (hForeign : dn' ≠ client.userDN) (value : Option (ContactDetails δ κ)) :
    (Function.update s.manager.m_detailsMap dn value dn').isSome =
      Function.update s.present dn value.isSome dn' := by
  by_cases hSame : dn' = dn
  · rw [hSame, Function.update_self, Function.update_self]
  · rw [Function.update_of_ne hSame, Function.update_of_ne hSame, h.isSome client hForeign]

theorem tracked_init : (init : UserDetails δ κ).Tracked client :=
  ⟨faithful_of client (by simp [init]) fun _ _ => rfl, List.nodup_nil⟩

/-! ## Steps -/

variable [Inhabited δ] [Inhabited κ]

def step (s : UserDetails δ κ) : UserDetailsOp δ κ → UserDetails δ κ
  | .addDetails details =>
    { s with
      manager := s.manager.addDetails details
      present := Function.update s.present details.dn true }
  | .removeContact dn =>
    { s with
      manager := s.manager.removeContact dn
      present := Function.update s.present dn false }
  | .details dn => { s with manager := (s.manager.details dn).2 }
  | .requestDetails dnList onlyUnknown =>
    let r := s.manager.requestDetails client dnList onlyUnknown
    { s with manager := r.1, unanswered := s.unanswered ++ r.2.toList }
  | .answered request results =>
    match s.unanswered[request]? with
    | none => s
    | some _ =>
      { manager := s.manager.take client results
        unanswered := s.unanswered.eraseIdx request
        present := fun dn => decide (dn ∈ resultDNs client results) || s.present dn }

theorem tracked_requestDetails {s : UserDetails δ κ} (h : s.Tracked client) (dnList : List δ)
    (onlyUnknown : Bool) : (s.step client (.requestDetails dnList onlyUnknown)).Tracked client := by
  obtain ⟨new, hSame, hNodup, hApart⟩ :=
    collect_spec client s.manager onlyUnknown dnList ([], s.manager.m_pendingDNs)
  have hFlatten : (s.step client (.requestDetails dnList onlyUnknown)).unanswered.flatten =
      s.unanswered.flatten ++ new := by
    rw [step, requestDetails, hSame, List.flatten_append]
    rcases new with _ | ⟨dn, new⟩ <;> simp
  have hPending : (s.step client (.requestDetails dnList onlyUnknown)).manager.m_pendingDNs =
      s.manager.m_pendingDNs ++ new := by
    rw [step, requestDetails, hSame]
  refine ⟨faithful_of client (fun dn => ?_)
    fun dn hForeign => h.faithful.isSome client hForeign, ?_⟩
  · rw [hFlatten, hPending, List.mem_append, List.mem_append, h.faithful.mem_flatten client]
  · rw [hFlatten, List.nodup_append]
    refine ⟨h.nodup, hNodup, ?_⟩
    rintro dn hOld dn' hNew rfl
    exact hApart dn hNew ((h.faithful.mem_flatten client dn).mpr hOld)

/-- **The answer to a request.** -/
theorem tracked_answered {s : UserDetails δ κ} (h : s.Tracked client) (request : Nat)
    (results : List (ContactDetails δ κ)) :
    ((s.step client (.answered request results)).Faithful client →
        s.Ok client (.answered request results)) ∧
      (s.Ok client (.answered request results) →
        (s.step client (.answered request results)).Tracked client) := by
  rcases hAsked : s.unanswered[request]? with _ | asked
  · have hSame : s.step client (.answered request results) = s := by simp [step, hAsked]
    refine ⟨fun _ asked hSome => ?_, fun _ => by rwa [hSame]⟩
    rw [hAsked] at hSome
    cases hSome
  obtain ⟨hEither, hApart, hNodup⟩ := flatten_eraseIdx hAsked h.nodup
  have hStep : s.step client (.answered request results) =
      { manager := s.manager.take client results
        unanswered := s.unanswered.eraseIdx request
        present := fun dn => decide (dn ∈ resultDNs client results) || s.present dn } := by
    simp [step, hAsked]
  have hPending : ∀ dn, dn ∈ (s.manager.take client results).m_pendingDNs ↔
      (dn ∈ asked ∨ dn ∈ (s.unanswered.eraseIdx request).flatten) ∧
        dn ∉ resultDNs client results := by
    intro dn
    rw [mem_pending_take, h.faithful.mem_flatten client, hEither]
  rw [hStep]
  constructor
  · intro hFaithful asked' hSome
    obtain rfl : asked = asked' := Option.some.inj (hAsked.symm.trans hSome)
    have hKept := fun dn => (hPending dn).symm.trans (hFaithful.mem_flatten client dn)
    constructor
    · intro dn hDn
      by_contra hMissing
      exact hApart dn hDn ((hKept dn).mp ⟨.inl hDn, hMissing⟩)
    · exact fun dn hDn => ((hKept dn).mpr hDn).2
  · intro hOk
    obtain ⟨hAll, hNoOther⟩ := hOk asked hAsked
    refine ⟨faithful_of client (fun dn => ?_) fun dn hForeign => ?_, hNodup⟩
    · rw [hPending]
      constructor
      · rintro ⟨hDn | hDn, hMissing⟩
        · exact absurd (hAll dn hDn) hMissing
        · exact hDn
      · exact fun hDn => ⟨.inr hDn, hNoOther dn hDn⟩
    · rw [isSome_take, h.faithful.isSome client hForeign]

/-- **A lookup.** -/
theorem tracked_details {s : UserDetails δ κ} (h : s.Tracked client) (dn : δ) :
    ((s.step client (.details dn)).Faithful client → s.Ok client (.details dn)) ∧
      (s.Ok client (.details dn) → (s.step client (.details dn)).Tracked client) := by
  constructor
  · intro hFaithful
    by_cases hOwn : dn = client.userDN
    · exact .inl hOwn
    · right
      have hSome := hFaithful.isSome client hOwn
      have hPresent : (s.step client (.details dn)).present = s.present := rfl
      rw [hPresent] at hSome
      rw [← hSome, step, UserDetailsManager.details]
      simp
  · intro hOk
    refine ⟨faithful_of client
      (fun dn' => h.faithful.mem_flatten client dn') fun dn' hForeign => ?_, h.nodup⟩
    have hMap : (Function.update s.manager.m_detailsMap dn
        (some ((s.manager.m_detailsMap dn).getD default)) dn').isSome =
        Function.update s.present dn true dn' := isSome_update client h.faithful hForeign _
    refine hMap.trans ?_
    rcases hOk with rfl | hPresent
    · rw [Function.update_of_ne hForeign]
      rfl
    · rw [← hPresent, Function.update_eq_self]
      rfl

/-- **One step.** -/
theorem tracked_step {s : UserDetails δ κ} (op : UserDetailsOp δ κ) (h : s.Tracked client) :
    ((s.step client op).Faithful client → s.Ok client op) ∧
      (s.Ok client op → (s.step client op).Tracked client) := by
  match op with
  | .addDetails details =>
    refine ⟨fun _ => trivial, fun _ => ⟨faithful_of client
      (fun dn => h.faithful.mem_flatten client dn) fun dn hForeign => ?_, h.nodup⟩⟩
    exact isSome_update client h.faithful hForeign (some details)
  | .removeContact dn =>
    refine ⟨fun _ => trivial, fun _ => ⟨faithful_of client
      (fun dn => h.faithful.mem_flatten client dn) fun dn' hForeign => ?_, h.nodup⟩⟩
    exact isSome_update client h.faithful hForeign none
  | .details dn => exact tracked_details client h dn
  | .requestDetails dnList onlyUnknown =>
    exact ⟨fun _ => trivial, fun _ => tracked_requestDetails client h dnList onlyUnknown⟩
  | .answered request results => exact tracked_answered client h request results

/-- **Runs.** The pending DNs are those of the unanswered requests and the known ones those
whose details are there, all along, exactly when each lookup and each answer is as it
should be. -/
theorem details_faithful_iff (ops : List (UserDetailsOp δ κ)) :
    (∀ s ∈ Run.states (step client) init ops, s.Faithful client) ↔
      Run.StepsMeet (step client) (Ok client) init ops :=
  Run.holds_iff_stepsMeet (fun _ (h : Tracked client _) => h.faithful)
    (fun _ op h => (tracked_step client op h).1) (fun _ op h => (tracked_step client op h).2)
    (tracked_init client)

/-- Numbers for DNs: the user's own is `0`, and a letter case is not told apart. -/
def someClient : Client Nat := ⟨0, id⟩

/-- **A DN that is never asked for again.** The request for it has failed. -/
theorem failed_stays_pending :
    ¬ ∀ s ∈ Run.states (step someClient) (init : UserDetails Nat Unit)
      [.requestDetails [7] true, .answered 0 []], s.Faithful someClient := by
  intro h
  have hLast := h _ (Run.foldl_mem_states _ _)
  have hAgain := hLast.again 7 (by decide) rfl (fun asked hAsked => by cases hAsked)
  exact absurd hAgain (by decide)

/-- A lookup makes an unknown DN known. -/
example : ((step someClient (init : UserDetails Nat Unit) (.details 7)).manager.known
    someClient 7) = true := by decide

end UserDetails

end GroupWise
