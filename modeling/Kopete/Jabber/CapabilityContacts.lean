import Kopete.Jabber.CapabilitiesManager
import Kopete.Lib.Run

/-!
# Jabber — who has which capabilities

A contact is in the entries of what it has announced, and in no others, whichever accounts
it was seen by. A reply for a contact that has announced nothing any more leaves it with
capabilities that are empty, in whose entry it is not; and an account that is removed stays
in the entries that it was in.

Main results:

* `consistent_presence` — the three branches of `updateCapabilities`;
* `consistent_iff` — the runs in which the maps are in step and no account is left over.
-/

namespace Jabber

variable {α : Type}

namespace CapabilitiesInformation

variable (info : CapabilitiesInformation α)

theorem mem_jids_addJid [DecidableEq α] {jid j : QString} {account : α} :
    j ∈ (info.addJid jid account).jids ↔ j ∈ info.jids ∨ j = jid := by
  simp only [mem_jids, mem_addJid, Prod.mk.injEq]
  constructor
  · rintro ⟨a, h | ⟨rfl, -⟩⟩
    · exact Or.inl ⟨a, h⟩
    · exact Or.inr rfl
  · rintro (⟨a, h⟩ | rfl)
    · exact ⟨a, Or.inl h⟩
    · exact ⟨account, Or.inr ⟨rfl, rfl⟩⟩

theorem mem_jids_removeJid {jid j : QString} :
    j ∈ (info.removeJid jid).jids ↔ j ∈ info.jids ∧ j ≠ jid := by
  simp [mem_jids, mem_removeJid]

theorem jids_congr {info info' : CapabilitiesInformation α} (h : info'.pairs = info.pairs) :
    info'.jids = info.jids := by
  unfold jids
  rw [h]

end CapabilitiesInformation

namespace CapabilitiesManager

/-- A contact is in the entries of what it has announced, in none twice with an account, and no
account that was removed is left in any. -/
structure Consistent (m : CapabilitiesManager α) : Prop where
  registered : ∀ jid k, jid ∈ (m.info k).jids ↔
    ∃ capabilities, m.jidCapabilitiesMap.find? jid = some capabilities ∧ k ∈ capabilities.flatten
  once : ∀ k, (m.info k).pairs.Nodup
  removed : ∀ account ∈ m.removed, ∀ k, ∀ pair ∈ (m.info k).pairs, pair.2 ≠ account

/-- Besides, whoever has capabilities has a node, and requests say what they are for. -/
structure Contacts (m : CapabilitiesManager α) : Prop extends Consistent m where
  node : ∀ jid capabilities, m.jidCapabilitiesMap.find? jid = some capabilities →
    capabilities.node ≠ []
  hash : ∀ r ∈ m.requests, 35 ∈ r.node

variable {m : CapabilitiesManager α}

/-! ## Presences -/

theorem capabilitiesOf_of_find? {jid : QString} {capabilities : Capabilities}
    (h : m.jidCapabilitiesMap.find? jid = some capabilities) :
    m.capabilitiesOf jid = capabilities := by
  unfold capabilitiesOf
  rw [h]
  rfl

/-- Who is unregistered from what it had is nowhere. -/
theorem Contacts.mem_jids_removeJids (h : Contacts m) (jid : QString) (j : QString)
    (k : Capabilities) :
    j ∈ ((m.removeJids jid (m.capabilitiesOf jid).flatten).info k).jids ↔
      j ∈ (m.info k).jids ∧ j ≠ jid := by
  rw [(m.info_removeJids jid _).1 k]
  split
  · exact CapabilitiesInformation.mem_jids_removeJid _
  · next hOther =>
    refine (and_iff_left_of_imp ?_).symm
    rintro hMem rfl
    obtain ⟨capabilities, hFind, hFlat⟩ := (h.registered j k).1 hMem
    rw [capabilitiesOf_of_find? hFind] at hOther
    refine hOther ⟨hFlat, ?_⟩
    rintro rfl
    exact Capabilities.none_not_mem_flatten (h.node j capabilities hFind) hFlat

theorem hash_discover {account : α} {jid node : QString} {ks : List Capabilities}
    (h : ∀ r ∈ m.requests, 35 ∈ r.node) :
    ∀ r ∈ (m.discover account jid node ks).requests, 35 ∈ r.node := by
  unfold discover
  induction ks generalizing m with
  | nil => exact h
  | cons k ks ih =>
    rw [List.foldl_cons]
    split
    · refine ih ?_
      unfold requestDiscoInfo
      split
      · exact h
      · intro r hr
        rcases List.mem_append.1 hr with hr | hr
        · exact h r hr
        · rw [List.mem_singleton.1 hr]
          exact List.mem_append_right _ List.mem_cons_self
    · exact ih h

theorem nodup_removeJids (jid : QString) (ks : List Capabilities)
    (h : ∀ k, (m.info k).pairs.Nodup) (k : Capabilities) :
    ((m.removeJids jid ks).info k).pairs.Nodup := by
  rw [(m.info_removeJids jid ks).1 k]
  split
  · exact (h k).filter _
  · exact h k

theorem mem_pairs_removeJids {jid : QString} {ks : List Capabilities} {k : Capabilities}
    {pair : QString × α} (h : pair ∈ ((m.removeJids jid ks).info k).pairs) :
    pair ∈ (m.info k).pairs := by
  rw [(m.info_removeJids jid ks).1 k] at h
  split at h
  · exact (List.mem_filter.1 h).1
  · exact h

/-- A contact that is only in the entries of its new value. -/
theorem Contacts.announce (h : Contacts m) {m' : CapabilitiesManager α} (jid : QString)
    (value : Option Capabilities) (hValue : ∀ capabilities, value = some capabilities →
      capabilities.node ≠ [])
    (hMap : ∀ j, m'.jidCapabilitiesMap.find? j =
      if j = jid then value else m.jidCapabilitiesMap.find? j)
    (hJids : ∀ j k, j ∈ (m'.info k).jids ↔ (j ≠ jid ∧ j ∈ (m.info k).jids) ∨
      (j = jid ∧ ∃ capabilities, value = some capabilities ∧ k ∈ capabilities.flatten))
    (hOnce : ∀ k, (m'.info k).pairs.Nodup)
    (hRemoved : ∀ account ∈ m'.removed, ∀ k, ∀ pair ∈ (m'.info k).pairs, pair.2 ≠ account)
    (hHash : ∀ r ∈ m'.requests, 35 ∈ r.node) : Contacts m' := by
  refine ⟨⟨?_, hOnce, hRemoved⟩, ?_, hHash⟩
  · intro j k
    rw [hJids, hMap]
    by_cases hSame : j = jid
    · simp [hSame]
    · simp [hSame, h.registered j k]
  · intro j capabilities hFind
    rw [hMap] at hFind
    split at hFind
    · exact hValue capabilities hFind
    · exact h.node j capabilities hFind

/-- What is left when a contact is unregistered from all that it had. -/
structure Unregistered (m : CapabilitiesManager α) (jid : QString) (m₁ : CapabilitiesManager α) :
    Prop where
  map : ∀ j, j ≠ jid → m₁.jidCapabilitiesMap.find? j = m.jidCapabilitiesMap.find? j
  jids : ∀ j k, j ∈ (m₁.info k).jids ↔ j ∈ (m.info k).jids ∧ j ≠ jid
  once : ∀ k, (m₁.info k).pairs.Nodup
  pairs : ∀ k, ∀ pair ∈ (m₁.info k).pairs, pair ∈ (m.info k).pairs
  removed : m₁.removed = m.removed
  hash : ∀ r ∈ m₁.requests, 35 ∈ r.node

theorem Contacts.unregister (h : Contacts m) (jid : QString) :
    Unregistered m jid ((m.touch jid).removeJids jid (m.capabilitiesOf jid).flatten) := by
  obtain ⟨hInfo, hRequests, hSame⟩ :=
    (m.touch jid).info_removeJids jid (m.capabilitiesOf jid).flatten
  have hInfo' : ∀ k, ((m.touch jid).removeJids jid (m.capabilitiesOf jid).flatten).info k =
      (m.removeJids jid (m.capabilitiesOf jid).flatten).info k := by
    intro k
    rw [hInfo, (m.info_removeJids jid _).1 k, info_touch]
  refine ⟨?_, ?_, ?_, ?_, hSame.removed, ?_⟩
  · intro j hj
    rw [hSame.map, find?_touch, if_neg hj]
  · intro j k
    rw [hInfo']
    exact h.mem_jids_removeJids jid j k
  · intro k
    rw [hInfo']
    exact nodup_removeJids jid _ h.once k
  · intro k pair hPair
    rw [hInfo'] at hPair
    exact mem_pairs_removeJids hPair
  · rw [hRequests]
    exact h.hash

/-- A contact that announces something illegal has nothing. -/
theorem Contacts.forget (h : Contacts m) {jid : QString} {m₁ : CapabilitiesManager α}
    (hLeft : Unregistered m jid m₁) :
    Contacts { m₁ with jidCapabilitiesMap := m₁.jidCapabilitiesMap.erase jid } := by
  refine h.announce jid none ?_ ?_ ?_ hLeft.once ?_ hLeft.hash
  · intro capabilities hEq
    cases hEq
  · intro j
    rw [QMap.find?_erase]
    by_cases hj : j = jid
    · simp [hj]
    · simp [hj, hLeft.map j hj]
  · intro j k
    refine (hLeft.jids j k).trans ?_
    constructor
    · rintro ⟨hMem, hj⟩
      exact Or.inl ⟨hj, hMem⟩
    · rintro (⟨hj, hMem⟩ | ⟨-, capabilities, hEq, -⟩)
      · exact ⟨hMem, hj⟩
      · cases hEq
  · intro account hMem k pair hPair
    have hMem' : account ∈ m.removed := hLeft.removed ▸ hMem
    exact h.removed account hMem' k pair (hLeft.pairs k pair hPair)

variable [DecidableEq α]

theorem mem_jids_addJids (jid : QString) (account : α) (ks : List Capabilities) (j : QString)
    (k : Capabilities) :
    j ∈ ((m.addJids jid account ks).info k).jids ↔ j ∈ (m.info k).jids ∨ (k ∈ ks ∧ j = jid) := by
  rw [(m.info_addJids jid account ks).1 k]
  split
  · next hMem => simp [CapabilitiesInformation.mem_jids_addJid, hMem]
  · next hNone => simp [hNone]

theorem nodup_addJids (jid : QString) (account : α) (ks : List Capabilities)
    (h : ∀ k, (m.info k).pairs.Nodup) (k : Capabilities) :
    ((m.addJids jid account ks).info k).pairs.Nodup := by
  rw [(m.info_addJids jid account ks).1 k]
  split
  · exact CapabilitiesInformation.nodup_addJid _ _ _ (h k)
  · exact h k

theorem mem_pairs_addJids {jid : QString} {account : α} {ks : List Capabilities}
    {k : Capabilities} {pair : QString × α}
    (h : pair ∈ ((m.addJids jid account ks).info k).pairs) :
    pair ∈ (m.info k).pairs ∨ pair = (jid, account) := by
  rw [(m.info_addJids jid account ks).1 k] at h
  split at h
  · exact (CapabilitiesInformation.mem_addJid _).1 h
  · exact Or.inl h

/-- Nobody who was removed is among the old pairs and the new one. -/
theorem Contacts.not_removed_addJids (h : Contacts m) {m₁ : CapabilitiesManager α} {jid : QString}
    {account : α} (hAccount : account ∉ m.removed) {ks : List Capabilities}
    (hPairs : ∀ k, ∀ pair ∈ (m₁.info k).pairs, pair ∈ (m.info k).pairs) {account' : α}
    (hMem : account' ∈ m.removed) (k : Capabilities) {pair : QString × α}
    (hPair : pair ∈ ((m₁.addJids jid account ks).info k).pairs) : pair.2 ≠ account' := by
  rcases mem_pairs_addJids hPair with hPair | rfl
  · exact h.removed account' hMem k pair (hPairs k pair hPair)
  · rintro rfl
    exact hAccount hMem

/-- A contact is registered with what it announces, which is then asked for. -/
theorem Contacts.register (h : Contacts m) {account : α} (hAccount : account ∉ m.removed)
    {jid : QString} {m₁ : CapabilitiesManager α} (hLeft : Unregistered m jid m₁)
    {capabilities : Capabilities} (hNode : capabilities.node ≠ []) (node : QString) :
    Contacts (({ m₁ with
      jidCapabilitiesMap := m₁.jidCapabilitiesMap.insert jid capabilities }.addJids jid account
        capabilities.flatten).discover account jid node capabilities.flatten) := by
  generalize hSet : { m₁ with
    jidCapabilitiesMap := m₁.jidCapabilitiesMap.insert jid capabilities } = m₂
  have hMap₂ : m₂.jidCapabilitiesMap = m₁.jidCapabilitiesMap.insert jid capabilities := by
    rw [← hSet]
  have hInfo₂ : ∀ k, m₂.info k = m₁.info k := by
    rw [← hSet]
    exact fun _ => rfl
  have hRemoved₂ : m₂.removed = m.removed := by
    rw [← hSet]
    exact hLeft.removed
  have hHash₂ : ∀ r ∈ m₂.requests, 35 ∈ r.node := by
    rw [← hSet]
    exact hLeft.hash
  obtain ⟨-, hRequests, hSame⟩ := m₂.info_addJids jid account capabilities.flatten
  obtain ⟨hPairs, hSame'⟩ := (m₂.addJids jid account capabilities.flatten).pairs_discover account
    jid node capabilities.flatten
  refine h.announce jid (some capabilities) ?_ ?_ ?_ ?_ ?_ ?_
  · rintro capabilities' hEq
    rw [← Option.some.inj hEq]
    exact hNode
  · intro j
    rw [hSame'.map, hSame.map, hMap₂, QMap.find?_insert]
    by_cases hj : j = jid
    · simp [hj]
    · simp [hj, hLeft.map j hj]
  · intro j k
    rw [CapabilitiesInformation.jids_congr (hPairs k), mem_jids_addJids, hInfo₂, hLeft.jids]
    constructor
    · rintro (⟨hMem, hj⟩ | ⟨hMem, hj⟩)
      · exact Or.inl ⟨hj, hMem⟩
      · exact Or.inr ⟨hj, _, rfl, hMem⟩
    · rintro (⟨hj, hMem⟩ | ⟨hj, capabilities', hEq, hMem⟩)
      · exact Or.inl ⟨hMem, hj⟩
      · rw [← Option.some.inj hEq] at hMem
        exact Or.inr ⟨hMem, hj⟩
  · intro k
    rw [hPairs]
    refine nodup_addJids jid account _ ?_ k
    intro k'
    rw [hInfo₂]
    exact hLeft.once k'
  · intro account' hMem k pair hPair
    rw [hSame'.removed, hSame.removed, hRemoved₂] at hMem
    rw [hPairs] at hPair
    refine h.not_removed_addJids hAccount ?_ hMem k hPair
    intro k' pair' hPair'
    rw [hInfo₂] at hPair'
    exact hLeft.pairs k' pair' hPair'
  · refine hash_discover ?_
    rw [hRequests]
    exact hHash₂

/-- A contact announces what it has announced before, maybe to another account. -/
theorem Contacts.again (h : Contacts m) {account : α} (hAccount : account ∉ m.removed)
    {jid : QString} {capabilities : Capabilities} (hNode : capabilities.node ≠ [])
    (hFind : m.jidCapabilitiesMap.find? jid = some capabilities) :
    Contacts ((m.touch jid).addJids jid account capabilities.flatten) := by
  obtain ⟨-, hRequests, hSame⟩ := (m.touch jid).info_addJids jid account capabilities.flatten
  refine h.announce jid (some capabilities) ?_ ?_ ?_ ?_ ?_ ?_
  · rintro capabilities' hEq
    rw [← Option.some.inj hEq]
    exact hNode
  · intro j
    rw [hSame.map, find?_touch, capabilitiesOf_of_find? hFind]
  · intro j k
    rw [mem_jids_addJids, info_touch]
    by_cases hj : j = jid
    · subst hj
      rw [h.registered j k, hFind]
      simp
    · simp [hj]
  · exact nodup_addJids jid account _ h.once
  · intro account' hMem k pair hPair
    have hPairs : ∀ k, ∀ pair ∈ ((m.touch jid).info k).pairs, pair ∈ (m.info k).pairs :=
      fun _ _ hPair' => hPair'
    rw [hSame.removed] at hMem
    exact h.not_removed_addJids hAccount hPairs hMem k hPair
  · rw [hRequests]
    exact h.hash

/-- **Presences.** The maps stay in step, and nobody comes back who was removed. -/
theorem Contacts.updateCapabilities (h : Contacts m) {account : α}
    (hAccount : account ∉ m.removed) (jid : QString) {caps : CapsSpec} (hNode : caps.node ≠ []) :
    Contacts (m.updateCapabilities account jid caps) := by
  unfold CapabilitiesManager.updateCapabilities
  simp only [capabilitiesOf_touch]
  split
  · exact h
  split
  · split
    · exact h.register hAccount (h.unregister jid) hNode caps.node
    · exact h.forget (h.unregister jid)
  · next hSame =>
    refine h.again hAccount hNode ?_
    have hValue : m.capabilitiesOf jid = caps.capabilities := not_not.1 hSame
    cases hFind : m.jidCapabilitiesMap.find? jid with
    | none =>
      exfalso
      unfold capabilitiesOf at hValue
      rw [hFind] at hValue
      exact hNode (congrArg Capabilities.node hValue).symm
    | some capabilities => rw [← hValue, capabilitiesOf_of_find? hFind]

/-! ## Replies -/

omit [DecidableEq α] in
/-- A reply changes nothing about who has which capabilities, but gives a contact that has
none empty ones. -/
theorem discoRequestFinished_contacts (r : Request) (hHash : 35 ∈ r.node) (result : DiscoResult) :
    (∀ k, ((m.discoRequestFinished r result).info k).pairs = (m.info k).pairs) ∧
      SameContacts (m.touch r.jid) (m.discoRequestFinished r result) ∧
      ∀ r' ∈ (m.discoRequestFinished r result).requests, r' ∈ m.requests ∨ r'.node = r.node := by
  unfold discoRequestFinished
  split
  · next hNone => exact absurd hNone (tokensOf_ne_none hHash)
  · next node extensions hTokens =>
    simp only [capabilitiesOf_touch]
    split
    · generalize (⟨node, (m.capabilitiesOf r.jid).version, extensions,
        (m.capabilitiesOf r.jid).hash⟩ : Capabilities) = capabilities
      split
      · next identities features =>
        refine ⟨?_, sameContacts_modify _ _ _, fun r' hr' => Or.inl hr'⟩
        intro k
        rw [info_modify, info_touch, info_touch]
        split
        · next hHere =>
          rw [hHere]
          rfl
        · rfl
      · split
        · next jid account hNext =>
          refine ⟨fun k => ?_, sameContacts_requestDiscoInfo _ _ _ _ _, ?_⟩
          · rw [info_requestDiscoInfo, info_touch]
          · intro r' hr'
            unfold requestDiscoInfo at hr'
            split at hr'
            · exact Or.inl hr'
            · rcases List.mem_append.1 hr' with hr' | hr'
              · exact Or.inl hr'
              · rw [List.mem_singleton.1 hr']
                exact Or.inr rfl
        · refine ⟨?_, sameContacts_modify _ _ _, fun r' hr' => Or.inl hr'⟩
          intro k
          rw [info_modify, info_touch, info_touch]
          split
          · next hHere =>
            rw [hHere]
            rfl
          · rfl
    · exact ⟨fun k => rfl, ⟨rfl, rfl, rfl⟩, fun r' hr' => Or.inl hr'⟩

omit [DecidableEq α] in
/-- **Replies** for a contact that has capabilities. -/
theorem Contacts.discoRequestFinished (h : Contacts m) {r : Request} (hHash : 35 ∈ r.node)
    (result : DiscoResult) (hSome : m.jidCapabilitiesMap.find? r.jid ≠ none) :
    Contacts (m.discoRequestFinished r result) := by
  obtain ⟨hPairs, hSame, hRequests⟩ := m.discoRequestFinished_contacts r hHash result
  obtain ⟨capabilities, hFind⟩ := Option.ne_none_iff_exists'.1 hSome
  refine h.announce r.jid (some capabilities) ?_ ?_ ?_ ?_ ?_ ?_
  · rintro capabilities' hEq
    rw [← Option.some.inj hEq]
    exact h.node r.jid capabilities hFind
  · intro j
    rw [hSame.map, find?_touch, capabilitiesOf_of_find? hFind]
  · intro j k
    rw [CapabilitiesInformation.jids_congr (hPairs k)]
    by_cases hj : j = r.jid
    · subst hj
      rw [h.registered, hFind]
      simp
    · simp [hj]
  · intro k
    rw [hPairs]
    exact h.once k
  · intro account hMem k pair hPair
    rw [hSame.removed] at hMem
    rw [hPairs] at hPair
    exact h.removed account hMem k pair hPair
  · intro r' hr'
    rcases hRequests r' hr' with hr' | hNode
    · exact h.hash r' hr'
    · rw [hNode]
      exact hHash

omit [DecidableEq α] in
/-- A reply for a contact that has none: the maps are out of step. -/
theorem not_consistent_discoRequestFinished (h : Contacts m) {r : Request} (hHash : 35 ∈ r.node)
    (result : DiscoResult) (hNone : m.jidCapabilitiesMap.find? r.jid = none) :
    ¬ Consistent (m.discoRequestFinished r result) := by
  obtain ⟨hPairs, hSame, -⟩ := m.discoRequestFinished_contacts r hHash result
  intro hConsistent
  have hValue : (m.discoRequestFinished r result).jidCapabilitiesMap.find? r.jid =
      some .none := by
    rw [hSame.map, find?_touch, if_pos rfl, capabilitiesOf, hNone]
    rfl
  have hMem := (hConsistent.registered r.jid .none).2
    ⟨.none, hValue, Capabilities.none_mem_flatten_none⟩
  rw [CapabilitiesInformation.jids_congr (hPairs _), h.registered, hNone] at hMem
  obtain ⟨capabilities, hEq, -⟩ := hMem
  cases hEq

/-! ## Runs -/

/-- A presence has a node. -/
def HasNode : Event α → Prop
  | .presence _ _ caps => caps.node ≠ []
  | _ => True

/-- A reply is for a contact that has capabilities, and an account is removed when it is in no
entry. -/
def InStep (m : CapabilitiesManager α) : Event α → Prop
  | .reply i _ => ∀ r, m.requests[i]? = some r → m.jidCapabilitiesMap.find? r.jid ≠ none
  | .removeAccount account => ∀ k, ∀ pair ∈ (m.info k).pairs, pair.2 ≠ account
  | _ => True

omit [DecidableEq α] in
theorem contacts_start (accounts : Accounts α) (cached : List (Capabilities × Cached)) :
    Contacts (start accounts cached) := by
  have hPairs : ∀ k, ((start accounts cached).info k).pairs = [] := by
    intro k
    rcases info_start accounts cached k with hInfo | ⟨c, hInfo⟩ <;>
      · rw [hInfo]
        rfl
  refine ⟨⟨?_, ?_, ?_⟩, ?_, ?_⟩
  · intro jid k
    rw [CapabilitiesInformation.mem_jids, hPairs]
    simp [start]
  · intro k
    rw [hPairs]
    exact List.nodup_nil
  · intro account hMem
    cases hMem
  · intro jid capabilities hFind
    cases hFind
  · intro r hr
    cases hr

/-- The same manager, with an account that is heard of. -/
theorem Contacts.heard (h : Contacts m) (account : α) :
    Contacts { m with removed := m.removed.filter (· ≠ account) } :=
  ⟨⟨h.registered, h.once, fun account' hMem => h.removed account' (List.mem_of_mem_filter hMem)⟩,
    h.node, h.hash⟩

omit [DecidableEq α] in
/-- The same manager without a request. -/
theorem Contacts.answered (h : Contacts m) (i : Nat) :
    Contacts { m with requests := m.requests.eraseIdx i } :=
  ⟨⟨h.registered, h.once, h.removed⟩, h.node, fun r hr => h.hash r (List.mem_of_mem_eraseIdx hr)⟩

/-- **One event** that is in step. -/
theorem Contacts.step (h : Contacts m) {e : Event α} (hNode : HasNode e) (hOk : InStep m e) :
    Contacts (m.step e) := by
  cases e with
  | presence account jid caps =>
    refine (h.heard account).updateCapabilities ?_ jid hNode
    intro hMem
    exact absurd rfl (of_decide_eq_true (List.mem_filter.1 hMem).2)
  | reply i result =>
    cases hr : m.requests[i]? with
    | none =>
      rw [step_reply_none hr]
      exact h
    | some r =>
      rw [step_reply_some hr]
      exact (h.answered i).discoRequestFinished (h.hash r (List.mem_of_getElem? hr)) result
        (hOk r hr)
  | removeAccount account =>
    refine ⟨⟨h.registered, h.once, ?_⟩, h.node, h.hash⟩
    intro account' hMem
    rcases List.mem_cons.1 hMem with rfl | hMem
    · exact hOk
    · exact h.removed account' hMem
  | accounts now => exact ⟨⟨h.registered, h.once, h.removed⟩, h.node, h.hash⟩

/-- One event that is not. -/
theorem Contacts.inStep (h : Contacts m) {e : Event α} (hConsistent : Consistent (m.step e)) :
    InStep m e := by
  cases e with
  | presence account jid caps => trivial
  | reply i result =>
    intro r hr hNone
    rw [step_reply_some hr] at hConsistent
    exact not_consistent_discoRequestFinished (h.answered i) (h.hash r (List.mem_of_getElem? hr))
      result hNone hConsistent
  | removeAccount account => exact hConsistent.removed account List.mem_cons_self
  | accounts now => trivial

/-- **Contacts and capabilities.** The maps stay in step, and no account is left over, exactly
while replies are for contacts that have capabilities and no account is removed that is in an
entry. -/
theorem consistent_iff (accounts : Accounts α) (cached : List (Capabilities × Cached))
    (es : List (Event α)) (hNode : ∀ e ∈ es, HasNode e) :
    (∀ m ∈ Run.states CapabilitiesManager.step (start accounts cached) es, Consistent m) ↔
      Run.StepsMeet CapabilitiesManager.step InStep (start accounts cached) es :=
  Run.holds_iff_of_adm (fun _ (h : Contacts _) => h.toConsistent)
    (fun _ _ h _ hConsistent => h.inStep hConsistent) (fun _ _ h hNode hOk => h.step hNode hOk)
    (contacts_start accounts cached) (Run.stepsMeet_of_mem hNode)

omit [DecidableEq α] in
/-- What holds of the pairs in all entries that there are. -/
theorem pairs_of_entries {p : QString × α → Prop}
    (h : ∀ e ∈ m.capabilitiesInformationMap.entries, ∀ pair ∈ e.2.pairs, p pair)
    (k : Capabilities) : ∀ pair ∈ (m.info k).pairs, p pair := by
  intro pair hPair
  unfold info at hPair
  cases hFind : m.capabilitiesInformationMap.find? k with
  | none =>
    rw [hFind] at hPair
    cases hPair
  | some info =>
    rw [hFind] at hPair
    exact h (k, info) (QMap.mem_entries_iff.2 hFind) pair hPair

/-- Two accounts that are connected. -/
def twoAccounts : Accounts Nat where
  rootTask a := some a
  isConnected a := a < 2
  connected a _ := Option.some_ne_none a

/-- A client with an extension. -/
def someClient : CapsSpec := ⟨[110], [49], [[97], [98]], []⟩

/-- Two accounts see a contact, which changes its client while it is asked for the old one. -/
def changedClient : List (Event Nat) :=
  [.presence 0 [106] someClient, .presence 1 [106] someClient,
    .presence 0 [106] ⟨[109], [50], [], []⟩, .reply 0 none, .removeAccount 1]

theorem consistent_iff_changedClient :
    Consistent (changedClient.foldl CapabilitiesManager.step (start twoAccounts [])) := by
  refine (consistent_iff twoAccounts [] changedClient ?_).2
    ⟨trivial, trivial, trivial, ?_, pairs_of_entries (by decide), trivial⟩ _
    (Run.foldl_mem_states _ _)
  · simp [changedClient, HasNode, someClient]
  · intro r hr
    have hFirst : r = ⟨[106], [110, 35, 49], 0, ⟨[110], [49], [49], []⟩⟩ :=
      (Option.some.inj hr).symm
    rw [hFirst]
    decide

/-- An account is removed after it has seen a contact. -/
def removedAccount : List (Event Nat) := [.presence 0 [106] someClient, .removeAccount 0]

theorem removedAccount_left :
    ¬ ∀ m ∈ Run.states CapabilitiesManager.step (start twoAccounts []) removedAccount,
      Consistent m := by
  intro h
  have hLast := (h _ (Run.foldl_mem_states _ _)).removed 0 List.mem_cons_self
    ⟨[110], [49], [97], []⟩ ([106], 0) (by decide)
  exact hLast rfl

end CapabilitiesManager

end Jabber
