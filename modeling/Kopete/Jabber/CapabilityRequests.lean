import Kopete.Jabber.CapabilitiesManager
import Kopete.Lib.Run

/-!
# Jabber — what capabilities are asked for

An entry that is being asked for is not asked for again. The mark goes when the request is
answered, but it is looked for under what the contact announces by then: a contact that has
changed its client takes the mark off another entry, or off none.

Main results:

* `discoRequestFinished_entry` — the one entry that a reply is taken for;
* `asked_iff` — the runs in which no entry keeps its mark for nothing.
-/

namespace Jabber

variable {α : Type}

namespace CapabilitiesInformation

/-- The next contact's account is connected. -/
theorem nextPair_connected {accounts : Accounts α} {jid : QString} {t : Nat}
    {pairs : List (QString × α)} {next : QString × α}
    (h : nextPair accounts jid t pairs = some next) : accounts.isConnected next.2 = true := by
  induction pairs using nextPair.induct accounts jid t with
  | case1 => cases h
  | case2 pair hThis =>
    unfold nextPair at h
    rw [if_pos hThis] at h
    cases h
  | case3 pair hThis next' pairs hConnected =>
    unfold nextPair at h
    rw [if_pos hThis] at h
    simp only [if_pos hConnected] at h
    rw [← Option.some.inj h]
    exact hConnected
  | case4 pair hThis next' pairs hNot ih =>
    unfold nextPair at h
    rw [if_pos hThis] at h
    simp only [if_neg hNot] at h
    exact ih h
  | case5 pair pairs hOther ih =>
    unfold nextPair at h
    rw [if_neg hOther] at h
    exact ih h

end CapabilitiesInformation

namespace CapabilitiesManager

variable {m : CapabilitiesManager α}

/-- Only what a request is on its way for is marked as asked for. -/
def Asked (m : CapabilitiesManager α) : Prop :=
  ∀ k, 0 < (m.info k).pendingRequests → ∃ r ∈ m.requests, r.entry = k ∧ r.node = requestNode k

/-- Besides, requests say what they are for. -/
structure Asking (m : CapabilitiesManager α) : Prop where
  asked : ∀ k, 0 < (m.info k).pendingRequests → ∃ r ∈ m.requests, r.entry = k
  node : ∀ r ∈ m.requests, r.node = requestNode r.entry

theorem Asking.toAsked (h : Asking m) : Asked m := by
  intro k hPending
  obtain ⟨r, hr, rfl⟩ := h.asked k hPending
  exact ⟨r, hr, rfl, h.node r hr⟩

/-- It is a matter of the marks and the requests. -/
theorem Asking.congr (h : Asking m) {m' : CapabilitiesManager α}
    (hPending : ∀ k, (m'.info k).pendingRequests = (m.info k).pendingRequests)
    (hRequests : m'.requests = m.requests) : Asking m' := by
  refine ⟨?_, ?_⟩
  · intro k hk
    rw [hPending] at hk
    rw [hRequests]
    exact h.asked k hk
  · rw [hRequests]
    exact h.node

/-! ## Presences -/

theorem Asking.removeJids (h : Asking m) (jid : QString) (ks : List Capabilities) :
    Asking (m.removeJids jid ks) := by
  obtain ⟨hInfo, hRequests, -⟩ := m.info_removeJids jid ks
  refine h.congr ?_ hRequests
  intro k
  rw [hInfo]
  split <;> rfl

theorem Asking.addJids [DecidableEq α] (h : Asking m) (jid : QString) (account : α)
    (ks : List Capabilities) : Asking (m.addJids jid account ks) := by
  obtain ⟨hInfo, hRequests, -⟩ := m.info_addJids jid account ks
  refine h.congr ?_ hRequests
  intro k
  rw [hInfo]
  split
  · exact CapabilitiesInformation.addJid_pendingRequests _ _ _
  · rfl

/-- What is marked is asked for at once: the account has a client. -/
theorem Asking.discover (h : Asking m) {account : α} {t : Nat}
    (hTask : m.accounts.rootTask account = some t) (jid : QString) {node : QString}
    {ks : List Capabilities} (hNode : ∀ k ∈ ks, k.node = node) :
    Asking (m.discover account jid node ks) := by
  unfold CapabilitiesManager.discover
  induction ks generalizing m with
  | nil => exact h
  | cons k ks ih =>
    have hRest : ∀ k' ∈ ks, k'.node = node := fun k' hk' => hNode k' (List.mem_cons_of_mem k hk')
    rw [List.foldl_cons]
    split
    · refine ih ?_ ?_ hRest
      · have hAccounts : (m.modify k fun info => info.setPendingRequests 1).accounts =
            m.accounts := rfl
        unfold requestDiscoInfo
        rw [hAccounts, hTask]
        refine ⟨?_, ?_⟩
        · intro k' hk'
          by_cases hHere : k' = k
          · exact ⟨_, List.mem_append_right _ (List.mem_singleton_self _), hHere.symm⟩
          · have hOld : 0 < (m.info k').pendingRequests := by
              have hSame := m.info_modify k (fun info => info.setPendingRequests 1) k'
              rw [if_neg hHere] at hSame
              rw [← hSame]
              exact hk'
            obtain ⟨r, hr, hEntry⟩ := h.asked k' hOld
            exact ⟨r, List.mem_append_left _ hr, hEntry⟩
        · intro r hr
          rcases List.mem_append.1 hr with hr | hr
          · exact h.node r hr
          · rw [List.mem_singleton.1 hr, requestNode, hNode k List.mem_cons_self]
      · rw [(sameContacts_requestDiscoInfo _ _ _ _ _).accounts]
        exact hTask
    · exact ih h hTask hRest

/-- **Presences.** What is marked is asked for. -/
theorem Asking.updateCapabilities [DecidableEq α] (h : Asking m) (account : α) (jid : QString)
    (caps : CapsSpec) : Asking (m.updateCapabilities account jid caps) := by
  have hTouch : Asking (m.touch jid) := h.congr (fun _ => rfl) rfl
  unfold CapabilitiesManager.updateCapabilities
  simp only [capabilitiesOf_touch]
  split
  · exact h
  · next hTask =>
    obtain ⟨t, hTask⟩ := Option.ne_none_iff_exists'.1 hTask
    generalize (m.capabilitiesOf jid).flatten = old
    have hRemoved := hTouch.removeJids jid old
    have hAccounts := ((m.touch jid).info_removeJids jid old).2.2.accounts
    generalize (m.touch jid).removeJids jid old = m₁ at hRemoved hAccounts
    split
    · split
      · have hSet : Asking { m₁ with
            jidCapabilitiesMap := m₁.jidCapabilitiesMap.insert jid caps.capabilities } :=
          hRemoved.congr (fun _ => rfl) rfl
        refine (hSet.addJids jid account _).discover (t := t) ?_ jid ?_
        · rw [(info_addJids _ jid account _).2.2.accounts]
          exact hAccounts ▸ hTask
        · exact fun k hk => (Capabilities.of_mem_flatten hk).1
      · exact hRemoved.congr (fun _ => rfl) rfl
    · exact hTouch.addJids jid account _

/-! ## Replies -/

/-- The contact announces what the request was made for, as far as a reply tells. -/
def Current (m : CapabilitiesManager α) (r : Request) : Prop :=
  35 ∉ r.entry.extensions ∧ (m.capabilitiesOf r.jid).node = r.entry.node ∧
    (m.capabilitiesOf r.jid).version = r.entry.version ∧
    (m.capabilitiesOf r.jid).hash = r.entry.hash

/-- A reply is taken for `entry`: only its mark is touched, and where it stays, there is a request
for it. -/
structure TakenFor (m m' : CapabilitiesManager α) (entry : Option Capabilities) : Prop where
  others : ∀ k, entry ≠ some k → (m'.info k).pendingRequests = (m.info k).pendingRequests
  here : ∀ k, entry = some k → 0 < (m'.info k).pendingRequests → ∃ r' ∈ m'.requests, r'.entry = k
  kept : ∀ r' ∈ m.requests, r' ∈ m'.requests
  new : ∀ r' ∈ m'.requests,
    r' ∈ m.requests ∨ (entry = some r'.entry ∧ r'.node = requestNode r'.entry)

/-- The mark of the entry is removed. -/
theorem takenFor_modify (jid : QString) (key : Capabilities)
    {f : CapabilitiesInformation α → CapabilitiesInformation α}
    (hf : ∀ info, (f info).pendingRequests = 0) :
    TakenFor m ((m.touch jid).modify key f) (some key) where
  others k hk := by
    have hNe : k ≠ key := fun hEq => hk (congrArg some hEq.symm)
    rw [info_modify, if_neg hNe, info_touch]
  here k hk hPending := by
    obtain rfl := Option.some.inj hk
    rw [info_modify, if_pos rfl, hf] at hPending
    exact absurd hPending (lt_irrefl 0)
  kept _ hr' := hr'
  new _ hr' := Or.inl hr'

/-- **A reply is taken for one entry**, if for any: the one it was made for if the contact
still announces that. -/
theorem discoRequestFinished_entry {r : Request} (hNode : r.node = requestNode r.entry)
    (result : DiscoResult) :
    ∃ entry : Option Capabilities, (entry = some r.entry ↔ m.Current r) ∧
      TakenFor m (m.discoRequestFinished r result) entry := by
  obtain ⟨node, extensions, hTokens, hText, hSame⟩ := tokensOf_requestNode r.entry
  unfold discoRequestFinished
  rw [hNode, hTokens]
  simp only [capabilitiesOf_touch]
  by_cases hMatch : (m.capabilitiesOf r.jid).node = node
  · rw [if_pos hMatch]
    generalize hKey : (⟨node, (m.capabilitiesOf r.jid).version, extensions,
      (m.capabilitiesOf r.jid).hash⟩ : Capabilities) = key
    have hText' : requestNode key = requestNode r.entry := by
      rw [← hKey]
      exact hText
    refine ⟨some key, ?_, ?_⟩
    · rw [Option.some.injEq, ← hKey]
      constructor
      · intro hEq
        have hEntry := Capabilities.mk.inj (hEq.trans (show r.entry = ⟨r.entry.node,
          r.entry.version, r.entry.extensions, r.entry.hash⟩ from rfl))
        exact ⟨hSame.1 ⟨hEntry.1, hEntry.2.2.1⟩, hMatch.trans hEntry.1, hEntry.2.1,
          hEntry.2.2.2⟩
      · rintro ⟨hHash, -, hVersion, hAlgorithm⟩
        obtain ⟨hNode', hExtensions⟩ := hSame.2 hHash
        rw [hNode', hExtensions, hVersion, hAlgorithm]
    cases result with
    | some found => exact takenFor_modify r.jid key fun _ => rfl
    | none =>
      simp only
      cases hNext : ((m.touch r.jid).info key).nextJid (m.touch r.jid).accounts r.jid r.parent with
      | none => exact takenFor_modify r.jid key fun _ => rfl
      | some next =>
        -- the next contact that has announced the entry is asked
        obtain ⟨jid, account⟩ := next
        have hTask := (m.touch r.jid).accounts.connected account
          (CapabilitiesInformation.nextPair_connected hNext)
        obtain ⟨t, hTask⟩ := Option.ne_none_iff_exists'.1 hTask
        simp only [requestDiscoInfo, hTask]
        refine ⟨fun k _ => rfl, fun k hk _ => ?_, fun r' hr' => List.mem_append_left _ hr',
          fun r' hr' => ?_⟩
        · exact ⟨_, List.mem_append_right _ (List.mem_singleton_self _), Option.some.inj hk⟩
        · rcases List.mem_append.1 hr' with hr' | hr'
          · exact Or.inl hr'
          · rw [List.mem_singleton.1 hr']
            exact Or.inr ⟨rfl, hText'.symm⟩
  · rw [if_neg hMatch]
    refine ⟨none, ?_, fun k _ => rfl, fun k hk => (nomatch hk), fun r' hr' => hr',
      fun r' hr' => Or.inl hr'⟩
    refine iff_of_false (fun hEq => by cases hEq) ?_
    rintro ⟨hHash, hNode', -⟩
    exact hMatch (hNode'.trans (hSame.2 hHash).1.symm)

/-! ## Runs -/

/-- A reply finds its entry, or one that is not marked, or that is asked for once more. -/
def Found (m : CapabilitiesManager α) : Event α → Prop
  | .reply i _ => ∀ r, m.requests[i]? = some r →
    m.Current r ∨ (m.info r.entry).pendingRequests ≤ 0 ∨
      ∃ r' ∈ m.requests.eraseIdx i, r'.entry = r.entry
  | _ => True

theorem asking_start (accounts : Accounts α) (cached : List (Capabilities × Cached)) :
    Asking (start accounts cached) := by
  refine ⟨?_, ?_⟩
  · intro k hPending
    rcases info_start accounts cached k with hInfo | ⟨c, hInfo⟩ <;>
      · rw [hInfo] at hPending
        exact absurd hPending (lt_irrefl 0)
  · intro r hr
    cases hr

/-- Another request is still there. -/
theorem mem_eraseIdx_of_ne {rs : List Request} {i : Nat} {r r' : Request} (hr : rs[i]? = some r)
    (hMem : r' ∈ rs) (hNe : r' ≠ r) : r' ∈ rs.eraseIdx i := by
  obtain ⟨j, hj⟩ := List.mem_iff_getElem?.1 hMem
  refine List.mem_eraseIdx_iff_getElem?.2 ⟨j, ?_, hj⟩
  rintro rfl
  exact hNe (Option.some.inj (hj.symm.trans hr))

variable [DecidableEq α]

/-- **A reply** leaves no mark for nothing exactly if its entry is found. -/
theorem Asking.reply_iff (h : Asking m) (i : Nat) (result : DiscoResult) :
    (Asked (m.step (.reply i result)) → m.Found (.reply i result)) ∧
      (m.Found (.reply i result) → Asking (m.step (.reply i result))) := by
  cases hr : m.requests[i]? with
  | none =>
    rw [step_reply_none hr]
    refine ⟨?_, fun _ => h⟩
    intro _ r hSome
    rw [hr] at hSome
    cases hSome
  | some r =>
  rw [step_reply_some hr]
  have hNode := h.node r (List.mem_of_getElem? hr)
  obtain ⟨entry, hEntry, hOthers, hHere, hKept, hNew⟩ :=
    discoRequestFinished_entry (m := { m with requests := m.requests.eraseIdx i }) hNode result
  generalize { m with requests := m.requests.eraseIdx i }.discoRequestFinished r result = m'
    at hOthers hHere hKept hNew
  have hSame : ∀ k, entry ≠ some k →
      (m'.info k).pendingRequests = (m.info k).pendingRequests := hOthers
  constructor
  · intro hAsked r' hr'
    obtain rfl := Option.some.inj (hr.symm.trans hr')
    by_cases hFound : entry = some r.entry
    · exact Or.inl (hEntry.1 hFound)
    · by_cases hPending : 0 < (m.info r.entry).pendingRequests
      · obtain ⟨r', hMem, hEq, -⟩ := hAsked r.entry (by rw [hSame _ hFound]; exact hPending)
        rcases hNew r' hMem with hOld | ⟨hIs, -⟩
        · exact Or.inr (Or.inr ⟨r', hOld, hEq⟩)
        · rw [hEq] at hIs
          exact absurd hIs hFound
      · exact Or.inr (Or.inl (not_lt.1 hPending))
  · intro hFound
    refine ⟨?_, ?_⟩
    · intro k hPending
      by_cases hIs : entry = some k
      · exact hHere k hIs hPending
      · rw [hSame k hIs] at hPending
        obtain ⟨r', hr', rfl⟩ := h.asked k hPending
        by_cases hThis : r' = r
        · -- the request that is answered is the one that the entry was marked for
          subst hThis
          rcases hFound r' hr with hCurrent | hNone | ⟨r'', hr'', hEq⟩
          · exact absurd (hEntry.2 hCurrent) hIs
          · omega
          · exact ⟨r'', hKept r'' hr'', hEq⟩
        · exact ⟨r', hKept r' (mem_eraseIdx_of_ne hr hr' hThis), rfl⟩
    · intro r' hr'
      rcases hNew r' hr' with hOld | ⟨-, hText⟩
      · exact h.node r' (List.mem_of_mem_eraseIdx hOld)
      · exact hText

/-- **One event.** -/
theorem Asking.step (h : Asking m) {e : Event α} (hFound : m.Found e) : Asking (m.step e) := by
  cases e with
  | presence account jid caps =>
    have hHeard : Asking { m with removed := m.removed.filter (· ≠ account) } :=
      h.congr (fun _ => rfl) rfl
    exact hHeard.updateCapabilities account jid caps
  | reply i result => exact (h.reply_iff i result).2 hFound
  | removeAccount account => exact h.congr (fun _ => rfl) rfl
  | accounts now => exact h.congr (fun _ => rfl) rfl

theorem Asking.found (h : Asking m) {e : Event α} (hAsked : Asked (m.step e)) : m.Found e := by
  cases e with
  | presence account jid caps => trivial
  | reply i result => exact (h.reply_iff i result).1 hAsked
  | removeAccount account => trivial
  | accounts now => trivial

/-- **Capabilities that are asked for.** No entry keeps its mark for nothing exactly while
replies find their entries. -/
theorem asked_iff (accounts : Accounts α) (cached : List (Capabilities × Cached))
    (es : List (Event α)) :
    (∀ m ∈ Run.states CapabilitiesManager.step (start accounts cached) es, Asked m) ↔
      Run.StepsMeet CapabilitiesManager.step Found (start accounts cached) es :=
  Run.holds_iff_stepsMeet (fun _ (h : Asking _) => h.toAsked) (fun _ _ h hAsked => h.found hAsked)
    (fun _ _ h hFound => h.step hFound) (asking_start accounts cached)

/-- An account that is connected. -/
def oneAccount : Accounts Unit where
  rootTask _ := some 0
  isConnected _ := true
  connected _ _ := Option.some_ne_none 0

/-- A contact changes its version before the reply comes. -/
def changedVersion : List (Event Unit) :=
  [.presence () [106] ⟨[110], [49], [[97]], []⟩, .presence () [106] ⟨[110], [50], [[97]], []⟩,
    .reply 0 none]

/-- The old entry is never asked for again. -/
theorem changedVersion_stuck :
    ¬ ∀ m ∈ Run.states CapabilitiesManager.step (start oneAccount []) changedVersion, Asked m := by
  intro h
  have hLast := h _ (Run.foldl_mem_states _ _) ⟨[110], [49], [49], []⟩ (by decide)
  obtain ⟨r, hr, hEntry, -⟩ := hLast
  revert r
  decide

end CapabilitiesManager

end Jabber
