import Kopete.Lib.QMap
import Mathlib

/-!
# Jabber — `JabberCapabilitiesManager`

What a contact's client can do is found out once for each node, version and extension and
shared by all contacts that announce it: one map says what a contact has announced, the
other one what is known of each such entry, who has it, and whether it is being asked for.

A reply names the node and the extension that were asked for, but not the version: this is
taken from what the contact announces when the reply comes.

Main results:

* `foldl_removeJid`, `foldl_addJid`, `foldl_discover` — the loops of `updateCapabilities`;
* `tokensOf_requestNode` — what a reply is about.
-/

namespace Jabber

/-- UTF-16. -/
abbrev QString := List UInt16

/-! ## Capabilities -/

/-- `JabberCapabilitiesManager::Capabilities`. -/
structure Capabilities where
  node : QString
  version : QString
  extensions : QString
  hash : QString
deriving DecidableEq, Repr

namespace Capabilities

/-- `Capabilities::Capabilities`. -/
def none : Capabilities := ⟨[], [], [], []⟩

/-- The fields in the order that they are compared in. -/
def key (k : Capabilities) : QString ×ₗ QString ×ₗ QString ×ₗ QString :=
  toLex (k.node, toLex (k.version, toLex (k.extensions, k.hash)))

theorem key_injective : Function.Injective key := by
  rintro ⟨node, version, extensions, hash⟩ ⟨node', version', extensions', hash'⟩ h
  have hNode := congrArg Prod.fst (toLex.injective h)
  have hRest := toLex.injective (congrArg Prod.snd (toLex.injective h))
  have hLast := toLex.injective (congrArg Prod.snd hRest)
  exact Capabilities.mk.injEq .. |>.mpr
    ⟨hNode, congrArg Prod.fst hRest, congrArg Prod.fst hLast, congrArg Prod.snd hLast⟩

/-- `Capabilities::operator<`. -/
instance : LinearOrder Capabilities := LinearOrder.lift' key key_injective

/-- `Capabilities::flatten`. -/
def flatten (k : Capabilities) : List Capabilities :=
  ⟨k.node, k.version, k.version, k.hash⟩ ::
    (k.extensions.splitOn 32).map fun str => ⟨k.node, k.version, str, k.hash⟩

/-- The flattened capabilities have the node, the version and the hash. -/
theorem of_mem_flatten {k f : Capabilities} (h : f ∈ k.flatten) :
    f.node = k.node ∧ f.version = k.version ∧ f.hash = k.hash := by
  rcases List.mem_cons.1 h with rfl | h
  · exact ⟨rfl, rfl, rfl⟩
  · obtain ⟨str, -, rfl⟩ := List.mem_map.1 h
    exact ⟨rfl, rfl, rfl⟩

theorem none_not_mem_flatten {k : Capabilities} (h : k.node ≠ []) : none ∉ k.flatten :=
  fun hMem => h (of_mem_flatten hMem).1.symm

theorem none_mem_flatten_none : none ∈ none.flatten := List.mem_cons_self

end Capabilities

/-- `XMPP::CapsSpec`, with the name of its hash algorithm. -/
structure CapsSpec where
  node : QString
  version : QString
  ext : List QString
  hash : QString

/-- The capabilities that `updateCapabilities` makes of a presence. -/
def CapsSpec.capabilities (caps : CapsSpec) : Capabilities :=
  ⟨caps.node, caps.version, [(32 : UInt16)].intercalate caps.ext, caps.hash⟩

/-! ## What is known of capabilities -/

/-- `DiscoItem::Identity`. -/
structure Identity where
  category : QString
  name : QString
  type : QString
deriving DecidableEq, Repr

/-- The connections of accounts. -/
structure Accounts (α : Type) where
  /-- The root task of the account's client, if there is one. -/
  rootTask : α → Option Nat
  isConnected : α → Bool
  /-- An account that is connected has a client. -/
  connected : ∀ a, isConnected a = true → rootTask a ≠ none

/-- `CapabilitiesInformation`. -/
structure CapabilitiesInformation (α : Type) where
  discovered : Bool
  /-- `int`. -/
  pendingRequests : Int
  features : List QString
  identities : List Identity
  /-- `m_jids`. -/
  pairs : List (QString × α)

variable {α : Type}

namespace CapabilitiesInformation

/-- `CapabilitiesInformation::CapabilitiesInformation`. -/
def new : CapabilitiesInformation α := ⟨false, 0, [], [], []⟩

variable (info : CapabilitiesInformation α)

/-- `CapabilitiesInformation::jids`. -/
def jids : List QString :=
  info.pairs.foldl (fun jids pair => if pair.1 ∈ jids then jids else jids ++ [pair.1]) []

/-- `CapabilitiesInformation::removeAccount`. -/
def removeAccount [DecidableEq α] (account : α) : CapabilitiesInformation α :=
  { info with pairs := info.pairs.filter fun pair => pair.2 ≠ account }

/-- `CapabilitiesInformation::addJid`. -/
def addJid [DecidableEq α] (jid : QString) (account : α) : CapabilitiesInformation α :=
  if (jid, account) ∈ info.pairs then info
  else { info with pairs := info.pairs ++ [(jid, account)] }

/-- `CapabilitiesInformation::removeJid`. -/
def removeJid (jid : QString) : CapabilitiesInformation α :=
  { info with pairs := info.pairs.filter fun pair => pair.1 ≠ jid }

/-- The loop of `CapabilitiesInformation::nextJid`: after the contact that was asked comes the
next one; if its account is not connected, the search goes on behind it. -/
def nextPair (accounts : Accounts α) (jid : QString) (t : Nat) :
    List (QString × α) → Option (QString × α)
  | [] => none
  | pair :: pairs =>
    if pair.1 = jid ∧ accounts.rootTask pair.2 = some t then
      match pairs with
      | [] => none
      | next :: pairs =>
        if accounts.isConnected next.2 then some next else nextPair accounts jid t pairs
    else nextPair accounts jid t pairs

/-- `CapabilitiesInformation::nextJid`. -/
def nextJid (accounts : Accounts α) (jid : QString) (t : Nat) : Option (QString × α) :=
  nextPair accounts jid t info.pairs

/-- `CapabilitiesInformation::setPendingRequests`. -/
def setPendingRequests (n : Int) : CapabilitiesInformation α := { info with pendingRequests := n }

/-- What `discoRequestFinished` notes of a reply. -/
def discover (identities : List Identity) (features : List QString) : CapabilitiesInformation α :=
  { info with
    identities := identities
    features := features
    pendingRequests := 0
    discovered := true }

theorem mem_jids {jid : QString} : jid ∈ info.jids ↔ ∃ account, (jid, account) ∈ info.pairs := by
  have hFold : ∀ (pairs : List (QString × α)) (jids : List QString),
      jid ∈ pairs.foldl (fun jids pair =>
        if pair.1 ∈ jids then jids else jids ++ [pair.1]) jids ↔
      jid ∈ jids ∨ ∃ account, (jid, account) ∈ pairs := by
    intro pairs
    induction pairs with
    | nil => simp
    | cons pair pairs ih =>
      intro jids
      obtain ⟨j, a⟩ := pair
      rw [List.foldl_cons, ih]
      by_cases hSeen : j ∈ jids
      · simp only [if_pos hSeen, List.mem_cons, Prod.mk.injEq]
        constructor
        · rintro (h | ⟨account, h⟩)
          · exact Or.inl h
          · exact Or.inr ⟨account, Or.inr h⟩
        · rintro (h | ⟨account, ⟨rfl, rfl⟩ | h⟩)
          · exact Or.inl h
          · exact Or.inl hSeen
          · exact Or.inr ⟨account, h⟩
      · simp only [if_neg hSeen, List.mem_append, List.mem_cons, List.not_mem_nil, or_false,
          Prod.mk.injEq]
        constructor
        · rintro ((h | rfl) | ⟨account, h⟩)
          · exact Or.inl h
          · exact Or.inr ⟨a, Or.inl ⟨rfl, rfl⟩⟩
          · exact Or.inr ⟨account, Or.inr h⟩
        · rintro (h | ⟨account, ⟨rfl, rfl⟩ | h⟩)
          · exact Or.inl (Or.inl h)
          · exact Or.inl (Or.inr rfl)
          · exact Or.inr ⟨account, h⟩
  have hAll := hFold info.pairs []
  simpa [jids] using hAll

theorem mem_addJid [DecidableEq α] {jid : QString} {account : α} {pair : QString × α} :
    pair ∈ (info.addJid jid account).pairs ↔ pair ∈ info.pairs ∨ pair = (jid, account) := by
  unfold addJid
  split
  · next h =>
    constructor
    · exact Or.inl
    · rintro (hPair | rfl)
      · exact hPair
      · exact h
  · rw [List.mem_append, List.mem_singleton]

theorem nodup_addJid [DecidableEq α] (jid : QString) (account : α) (h : info.pairs.Nodup) :
    (info.addJid jid account).pairs.Nodup := by
  unfold addJid
  split
  · exact h
  · next hNew =>
    rw [List.nodup_append]
    refine ⟨h, List.nodup_singleton _, ?_⟩
    rintro pair hPair pair' hPair' rfl
    rw [List.mem_singleton.1 hPair'] at hPair
    exact hNew hPair

theorem addJid_addJid [DecidableEq α] (jid : QString) (account : α) :
    (info.addJid jid account).addJid jid account = info.addJid jid account :=
  if_pos ((info.mem_addJid).2 (Or.inr rfl))

theorem removeJid_removeJid (jid : QString) :
    (info.removeJid jid).removeJid jid = info.removeJid jid := by
  simp [removeJid]

@[simp] theorem addJid_pendingRequests [DecidableEq α] (jid : QString) (account : α) :
    (info.addJid jid account).pendingRequests = info.pendingRequests := by
  unfold addJid
  split <;> rfl

theorem mem_removeJid {jid : QString} {pair : QString × α} :
    pair ∈ (info.removeJid jid).pairs ↔ pair ∈ info.pairs ∧ pair.1 ≠ jid := by
  simp [removeJid]

end CapabilitiesInformation

/-! ## The manager -/

/-- A disco request that is not answered. -/
structure Request where
  jid : QString
  /-- `discoInfo->node()`. -/
  node : QString
  /-- The root task that it belongs to. -/
  parent : Nat
  /-- The entry that it was made for; the request itself does not say. -/
  entry : Capabilities
deriving DecidableEq, Repr

/-- `JabberCapabilitiesManager` with its requests and the connections of accounts. -/
structure CapabilitiesManager (α : Type) where
  jidCapabilitiesMap : QMap QString Capabilities
  capabilitiesInformationMap : QMap Capabilities (CapabilitiesInformation α)
  accounts : Accounts α
  requests : List Request
  /-- The accounts that were removed and have announced nothing since. -/
  removed : List α

/-- What the cache says of capabilities. -/
structure Cached where
  discovered : Bool
  identities : List Identity
  features : List QString

/-- `CapabilitiesInformation::fromXml` of a new one. -/
def CapabilitiesInformation.fromXml (cached : Cached) : CapabilitiesInformation α :=
  ⟨cached.discovered, 0, cached.features, cached.identities, []⟩

/-- The capabilities that a request asks for. -/
def requestNode (k : Capabilities) : QString := k.node ++ 35 :: k.extensions

/-- What stands before the last `#` of a text, and what behind it. -/
def tokensOf : QString → Option (QString × QString)
  | [] => none
  | c :: cs =>
    match tokensOf cs with
    | some (node, extensions) => some (c :: node, extensions)
    | none => if c = 35 then some ([], cs) else none

namespace CapabilitiesManager

/-- A new manager, and what `loadCachedInformation` finds. -/
def start (accounts : Accounts α) (cached : List (Capabilities × Cached)) :
    CapabilitiesManager α where
  jidCapabilitiesMap := .empty
  capabilitiesInformationMap := .ofList (cached.map fun e => (e.1, .fromXml e.2))
  accounts := accounts
  requests := []
  removed := []

variable (m : CapabilitiesManager α)

/-- What is known of capabilities, as `capabilitiesInformationMap` has it. -/
def info (k : Capabilities) : CapabilitiesInformation α :=
  (m.capabilitiesInformationMap.find? k).getD .new

/-- A call of a setter of what `capabilitiesInformationMap` has for capabilities. -/
def modify (k : Capabilities) (f : CapabilitiesInformation α → CapabilitiesInformation α) :
    CapabilitiesManager α :=
  { m with capabilitiesInformationMap := m.capabilitiesInformationMap.insert k (f (m.info k)) }

/-- The value of `jidCapabilitiesMap`. -/
def capabilitiesOf (jid : QString) : Capabilities := (m.jidCapabilitiesMap.find? jid).getD .none

/-- `jidCapabilitiesMap[jid]`: who has no value gets one. -/
def touch (jid : QString) : CapabilitiesManager α :=
  { m with jidCapabilitiesMap := m.jidCapabilitiesMap.insert jid (m.capabilitiesOf jid) }

/-- `JabberCapabilitiesManager::removeAccount`, whose loop goes over copies. -/
def removeAccount [DecidableEq α] (account : α) : CapabilitiesManager α :=
  let info := m.capabilitiesInformationMap.entries.map (·.2)
  let _ := info.map fun cap => cap.removeAccount account
  m

/-- `JabberCapabilitiesManager::requestDiscoInfo`. -/
def requestDiscoInfo (account : α) (jid node : QString) (entry : Capabilities) :
    CapabilitiesManager α :=
  match m.accounts.rootTask account with
  | none => m
  | some t => { m with requests := m.requests ++ [⟨jid, node, t, entry⟩] }

/-- Unregister a contact. -/
def removeJids (jid : QString) (ks : List Capabilities) : CapabilitiesManager α :=
  ks.foldl (fun m k => if k ≠ .none then m.modify k fun info => info.removeJid jid else m) m

/-- Register a contact. -/
def addJids [DecidableEq α] (jid : QString) (account : α) (ks : List Capabilities) :
    CapabilitiesManager α :=
  ks.foldl (fun m k => m.modify k fun info => info.addJid jid account) m

/-- Ask for what is not known and not asked for. -/
def discover (account : α) (jid node : QString) (ks : List Capabilities) : CapabilitiesManager α :=
  ks.foldl (fun m k =>
    if (m.info k).discovered = false ∧ (m.info k).pendingRequests = 0 then
      (m.modify k fun info => info.setPendingRequests 1).requestDiscoInfo account jid
        (node ++ 35 :: k.extensions) k
    else m) m

/-- `JabberCapabilitiesManager::updateCapabilities`. -/
def updateCapabilities [DecidableEq α] (account : α) (jid : QString) (caps : CapsSpec) :
    CapabilitiesManager α :=
  if m.accounts.rootTask account = none then m
  else
    let capabilities := caps.capabilities
    let m := m.touch jid
    if m.capabilitiesOf jid ≠ capabilities then
      let m := m.removeJids jid (m.capabilitiesOf jid).flatten
      if caps.node ≠ [] ∧ caps.version ≠ [] then
        let m :=
          { m with jidCapabilitiesMap := m.jidCapabilitiesMap.insert jid capabilities }
        (m.addJids jid account capabilities.flatten).discover account jid caps.node
          capabilities.flatten
      else { m with jidCapabilitiesMap := m.jidCapabilitiesMap.erase jid }
    else m.addJids jid account capabilities.flatten

/-- What a disco request brings: identities and features, or an error. -/
abbrev DiscoResult := Option (List Identity × List QString)

/-- `JabberCapabilitiesManager::discoRequestFinished`. -/
def discoRequestFinished (r : Request) (result : DiscoResult) : CapabilitiesManager α :=
  match tokensOf r.node with
  | none => m
  | some (node, extensions) =>
    let m := m.touch r.jid
    let jidCapabilities := m.capabilitiesOf r.jid
    if jidCapabilities.node = node then
      let capabilities : Capabilities :=
        ⟨node, jidCapabilities.version, extensions, jidCapabilities.hash⟩
      match result with
      | some (identities, features) =>
        m.modify capabilities fun info => info.discover identities features
      | none =>
        match (m.info capabilities).nextJid m.accounts r.jid r.parent with
        | some (jid, account) => m.requestDiscoInfo account jid r.node capabilities
        | none => m.modify capabilities fun info => info.setPendingRequests 0
    else m

end CapabilitiesManager

open CapabilitiesManager

/-- What happens to the manager. -/
inductive Event (α : Type) where
  /-- A presence: `updateCapabilities`. -/
  | presence (account : α) (jid : QString) (caps : CapsSpec)
  /-- One of the requests is answered, or fails. -/
  | reply (i : Nat) (result : DiscoResult)
  | removeAccount (account : α)
  /-- Accounts connect and disconnect. -/
  | accounts (now : Accounts α)

/-- The manager after an event. -/
def CapabilitiesManager.step [DecidableEq α] (m : CapabilitiesManager α) :
    Event α → CapabilitiesManager α
  | .presence account jid caps =>
    { m with removed := m.removed.filter (· ≠ account) }.updateCapabilities account jid caps
  | .reply i result =>
    match m.requests[i]? with
    | none => m
    | some r => { m with requests := m.requests.eraseIdx i }.discoRequestFinished r result
  | .removeAccount account =>
    let m := m.removeAccount account
    { m with removed := account :: m.removed }
  | .accounts now => { m with accounts := now }

theorem CapabilitiesManager.step_reply_none [DecidableEq α] {m : CapabilitiesManager α} {i : Nat}
    (h : m.requests[i]? = none) (result : DiscoResult) : m.step (.reply i result) = m := by
  simp only [CapabilitiesManager.step, h]

theorem CapabilitiesManager.step_reply_some [DecidableEq α] {m : CapabilitiesManager α} {i : Nat}
    {r : Request} (h : m.requests[i]? = some r) (result : DiscoResult) :
    m.step (.reply i result) =
      { m with requests := m.requests.eraseIdx i }.discoRequestFinished r result := by
  simp only [CapabilitiesManager.step, h]

/-! ## What a reply is about -/

theorem tokensOf_eq_none {text : QString} (h : 35 ∉ text) : tokensOf text = none := by
  induction text with
  | nil => rfl
  | cons c cs ih =>
    rw [List.mem_cons, not_or] at h
    unfold tokensOf
    rw [ih h.2]
    exact if_neg (Ne.symm h.1)

theorem tokensOf_ne_none {text : QString} (h : 35 ∈ text) : tokensOf text ≠ none := by
  induction text with
  | nil => cases h
  | cons c cs ih =>
    unfold tokensOf
    cases hRest : tokensOf cs with
    | some tokens => exact Option.some_ne_none _
    | none =>
      rcases List.mem_cons.1 h with rfl | h
      · exact Option.some_ne_none _
      · exact absurd hRest (ih h)

theorem tokensOf_append (node : QString) {extensions : QString} (h : 35 ∉ extensions) :
    tokensOf (node ++ 35 :: extensions) = some (node, extensions) := by
  induction node with
  | nil =>
    rw [List.nil_append, tokensOf, tokensOf_eq_none h]
    rfl
  | cons c cs ih => rw [List.cons_append, tokensOf, ih]

theorem of_tokensOf {text node extensions : QString}
    (h : tokensOf text = some (node, extensions)) :
    text = node ++ 35 :: extensions ∧ 35 ∉ extensions := by
  induction text generalizing node with
  | nil => cases h
  | cons c cs ih =>
    unfold tokensOf at h
    split at h
    · next node' extensions' hRest =>
      rw [Option.some.injEq, Prod.mk.injEq] at h
      obtain ⟨rfl, rfl⟩ := h
      obtain ⟨hText, hLast⟩ := ih hRest
      exact ⟨by rw [hText, List.cons_append], hLast⟩
    · next hNone =>
      split at h
      · next hHash =>
        rw [Option.some.injEq, Prod.mk.injEq] at h
        obtain ⟨rfl, rfl⟩ := h
        refine ⟨by rw [hHash, List.nil_append], ?_⟩
        intro hLater
        exact tokensOf_ne_none hLater hNone
      · cases h

/-- **What a reply is about**: the entry's node and extension, unless there is a `#` in it. -/
theorem tokensOf_requestNode (k : Capabilities) :
    ∃ node extensions, tokensOf (requestNode k) = some (node, extensions) ∧
      node ++ 35 :: extensions = requestNode k ∧
      (node = k.node ∧ extensions = k.extensions ↔ 35 ∉ k.extensions) := by
  have hHash : (35 : UInt16) ∈ requestNode k := List.mem_append_right _ List.mem_cons_self
  obtain ⟨⟨node, extensions⟩, hTokens⟩ := Option.ne_none_iff_exists'.1 (tokensOf_ne_none hHash)
  obtain ⟨hText, hLast⟩ := of_tokensOf hTokens
  refine ⟨node, extensions, hTokens, hText.symm, ?_⟩
  constructor
  · rintro ⟨-, rfl⟩
    exact hLast
  · intro hNone
    have hSame := tokensOf_append k.node hNone
    rw [← requestNode, hTokens, Option.some.injEq, Prod.mk.injEq] at hSame
    exact hSame

/-! ## The loops -/

namespace CapabilitiesManager

variable (m : CapabilitiesManager α)

@[simp] theorem info_modify (k : Capabilities)
    (f : CapabilitiesInformation α → CapabilitiesInformation α) (k' : Capabilities) :
    (m.modify k f).info k' = if k' = k then f (m.info k) else m.info k' := by
  unfold modify info
  simp only [QMap.find?_insert]
  split <;> rfl

@[simp] theorem info_touch (jid : QString) (k : Capabilities) :
    (m.touch jid).info k = m.info k := rfl

@[simp] theorem find?_touch (jid jid' : QString) :
    (m.touch jid).jidCapabilitiesMap.find? jid' =
      if jid' = jid then some (m.capabilitiesOf jid) else m.jidCapabilitiesMap.find? jid' := by
  unfold touch
  rw [QMap.find?_insert]
  by_cases hSame : jid' = jid <;> simp [hSame]

@[simp] theorem capabilitiesOf_touch (jid : QString) :
    (m.touch jid).capabilitiesOf jid = m.capabilitiesOf jid := by
  rw [capabilitiesOf, find?_touch, if_pos rfl]
  rfl

/-- What is known at the start is from the cache. -/
theorem info_start (accounts : Accounts α) (cached : List (Capabilities × Cached))
    (k : Capabilities) :
    (start accounts cached).info k = .new ∨ ∃ c, (start accounts cached).info k = .fromXml c := by
  unfold info start
  rw [QMap.find?_ofList _ fun e => decide_eq_true_iff]
  cases hFind : (cached.map fun e => (e.1, CapabilitiesInformation.fromXml e.2)).reverse.find?
      (fun e : Capabilities × CapabilitiesInformation α => e.1 = k) with
  | none => exact Or.inl rfl
  | some e =>
    have hMem := List.mem_reverse.1 (List.mem_of_find?_eq_some hFind)
    obtain ⟨e', -, rfl⟩ := List.mem_map.1 hMem
    exact Or.inr ⟨e'.2, rfl⟩

/-- What the loops over entries leave alone. -/
structure SameContacts (m m' : CapabilitiesManager α) : Prop where
  map : m'.jidCapabilitiesMap = m.jidCapabilitiesMap
  accounts : m'.accounts = m.accounts
  removed : m'.removed = m.removed

theorem SameContacts.trans {m m' m'' : CapabilitiesManager α} (h : SameContacts m m')
    (h' : SameContacts m' m'') : SameContacts m m'' :=
  ⟨h'.map.trans h.map, h'.accounts.trans h.accounts, h'.removed.trans h.removed⟩

theorem sameContacts_modify (k : Capabilities)
    (f : CapabilitiesInformation α → CapabilitiesInformation α) :
    SameContacts m (m.modify k f) := ⟨rfl, rfl, rfl⟩

theorem sameContacts_requestDiscoInfo (account : α) (jid node : QString) (entry : Capabilities) :
    SameContacts m (m.requestDiscoInfo account jid node entry) := by
  unfold requestDiscoInfo
  split <;> exact ⟨rfl, rfl, rfl⟩

@[simp] theorem info_requestDiscoInfo (account : α) (jid node : QString) (entry k : Capabilities) :
    (m.requestDiscoInfo account jid node entry).info k = m.info k := by
  unfold requestDiscoInfo
  split <;> rfl

/-- **Unregistering** a contact. -/
theorem info_removeJids (jid : QString) (ks : List Capabilities) :
    (∀ k, (m.removeJids jid ks).info k =
      if k ∈ ks ∧ k ≠ .none then (m.info k).removeJid jid else m.info k) ∧
    (m.removeJids jid ks).requests = m.requests ∧ SameContacts m (m.removeJids jid ks) := by
  unfold removeJids
  induction ks generalizing m with
  | nil => exact ⟨fun k => by simp, rfl, rfl, rfl, rfl⟩
  | cons k₀ ks ih =>
    rw [List.foldl_cons]
    split
    · next hReal =>
      obtain ⟨hInfo, hRequests, hSame⟩ := ih (m.modify k₀ fun info => info.removeJid jid)
      refine ⟨?_, hRequests, (m.sameContacts_modify _ _).trans hSame⟩
      intro k
      rw [hInfo, info_modify]
      by_cases hHere : k = k₀
      · subst hHere
        simp [hReal, CapabilitiesInformation.removeJid_removeJid]
      · simp [hHere]
    · next hNone =>
      obtain ⟨hInfo, hRest⟩ := ih m
      refine ⟨?_, hRest⟩
      intro k
      rw [hInfo]
      by_cases hHere : k = k₀
      · subst hHere
        simp [hNone]
      · simp [hHere]

/-- **Registering** a contact. -/
theorem info_addJids [DecidableEq α] (jid : QString) (account : α) (ks : List Capabilities) :
    (∀ k, (m.addJids jid account ks).info k =
      if k ∈ ks then (m.info k).addJid jid account else m.info k) ∧
    (m.addJids jid account ks).requests = m.requests ∧
    SameContacts m (m.addJids jid account ks) := by
  unfold addJids
  induction ks generalizing m with
  | nil => exact ⟨fun k => by simp, rfl, rfl, rfl, rfl⟩
  | cons k₀ ks ih =>
    obtain ⟨hInfo, hRequests, hSame⟩ := ih (m.modify k₀ fun info => info.addJid jid account)
    refine ⟨?_, hRequests, (m.sameContacts_modify _ _).trans hSame⟩
    intro k
    rw [List.foldl_cons, hInfo, info_modify]
    by_cases hHere : k = k₀
    · subst hHere
      simp [CapabilitiesInformation.addJid_addJid]
    · simp [hHere]

/-- **Asking** for entries changes nothing about who has them. -/
theorem pairs_discover (account : α) (jid node : QString) (ks : List Capabilities) :
    (∀ k, ((m.discover account jid node ks).info k).pairs = (m.info k).pairs) ∧
    SameContacts m (m.discover account jid node ks) := by
  unfold discover
  induction ks generalizing m with
  | nil => exact ⟨fun k => rfl, rfl, rfl, rfl⟩
  | cons k₀ ks ih =>
    rw [List.foldl_cons]
    split
    · next hAsk =>
      obtain ⟨hPairs, hSame⟩ := ih
        ((m.modify k₀ fun info => info.setPendingRequests 1).requestDiscoInfo account jid
          (node ++ 35 :: k₀.extensions) k₀)
      refine ⟨?_, ((m.sameContacts_modify _ _).trans
        (sameContacts_requestDiscoInfo _ _ _ _ _)).trans hSame⟩
      intro k
      rw [hPairs, info_requestDiscoInfo, info_modify]
      split
      · next hHere =>
        rw [hHere]
        rfl
      · rfl
    · exact ih m

end CapabilitiesManager

end Jabber
