import Kopete.Lib.Run
import Mathlib

/-!
# Jabber — `PrivacyManager`

To block a contact the manager fetches the default list, the name first, then the list,
and sends it back with one more item. Targets that come while a list is being fetched
wait for it. The answers arrive as signals; every fetch connects the slots that it needs.

The slots that the last ones disconnect do not exist, so that these connections stay: from
the second fetch on the list is sent back once more for each, as it was before.

Main results:

* `Phase.step` — the states while there is one fetch only;
* `blocked_of_oneFetch` — what the list is when no request is in flight.
-/

namespace XMPP

/-- UTF-16. -/
abbrev QString := List UInt16

/-! ## Privacy lists -/

/-- `PrivacyListItem::Type`. -/
inductive ItemType where
  | fallthroughType | jidType | groupType | subscriptionType
deriving DecidableEq, Repr

/-- `PrivacyListItem::Action`. -/
inductive Action where
  | allow | deny
deriving DecidableEq, Repr

/-- `PrivacyListItem`. -/
structure PrivacyListItem where
  type : ItemType
  action : Action
  message : Bool
  presenceIn : Bool
  presenceOut : Bool
  iq : Bool
  /-- `unsigned int`. -/
  order : Nat
  value : QString
deriving DecidableEq, Repr

namespace PrivacyListItem

/-- `PrivacyListItem::blockItem`; its order is set when it is put into a list. -/
def blockItem (jid : QString) : PrivacyListItem :=
  ⟨.jidType, .deny, true, true, true, true, 0, jid⟩

def setOrder (it : PrivacyListItem) (order : Nat) : PrivacyListItem := { it with order := order }

/-- What there is to an item but its order. -/
def content (it : PrivacyListItem) : PrivacyListItem := it.setOrder 0

@[simp] theorem content_setOrder (it : PrivacyListItem) (order : Nat) :
    (it.setOrder order).content = it.content := rfl

@[simp] theorem content_blockItem (jid : QString) : (blockItem jid).content = blockItem jid := rfl

end PrivacyListItem

open PrivacyListItem

/-- `PrivacyList`. -/
structure PrivacyList where
  name : QString
  items : List PrivacyListItem
deriving DecidableEq, Repr

/-- The loop of `PrivacyList::reNumber`. -/
def reNumber : Nat → List PrivacyListItem → List PrivacyListItem
  | _, [] => []
  | order, it :: its => it.setOrder order :: reNumber ((order + 10) % 2 ^ 32) its

/-- `PrivacyList::insertItem`. -/
def PrivacyList.insertItem (l : PrivacyList) (index : Nat) (item : PrivacyListItem) :
    PrivacyList :=
  { l with items := reNumber 100 (l.items.insertIdx index item) }

/-- `std::sort` by the order, stable or not. -/
structure StdSort where
  sort : List PrivacyListItem → List PrivacyListItem
  perm : ∀ items, (sort items).Perm items
  sorted : ∀ items, (sort items).Pairwise fun a b => a.order ≤ b.order

theorem map_content_reNumber (order : Nat) (items : List PrivacyListItem) :
    (reNumber order items).map content = items.map content := by
  induction items generalizing order with
  | nil => rfl
  | cons it its ih =>
    unfold reNumber
    rw [List.map_cons, List.map_cons, ih, content_setOrder]

theorem length_reNumber (order : Nat) (items : List PrivacyListItem) :
    (reNumber order items).length = items.length := by
  have hSame := congrArg List.length (map_content_reNumber order items)
  rwa [List.length_map, List.length_map] at hSame

/-- The new orders go up, as long as the numbers last. -/
theorem reNumber_sorted {n : Nat} {items : List PrivacyListItem}
    (h : n + 10 * items.length < 2 ^ 32 + 10) :
    (∀ it ∈ reNumber n items, n ≤ it.order) ∧
      (reNumber n items).Pairwise fun a b => a.order ≤ b.order := by
  induction items generalizing n with
  | nil => exact ⟨fun it hit => absurd hit List.not_mem_nil, List.Pairwise.nil⟩
  | cons it its ih =>
    rw [List.length_cons] at h
    unfold reNumber
    cases its with
    | nil =>
      refine ⟨?_, List.pairwise_singleton _ _⟩
      intro it' hit'
      rw [List.mem_singleton.1 hit']
      exact le_rfl
    | cons it₂ its =>
      rw [List.length_cons] at h ih
      rw [Nat.mod_eq_of_lt (by omega)]
      obtain ⟨hAll, hSorted⟩ := ih (n := n + 10) (by omega)
      have hLater : ∀ it' ∈ reNumber (n + 10) (it₂ :: its), n ≤ it'.order :=
        fun it' hit' => (Nat.le_add_right n 10).trans (hAll it' hit')
      refine ⟨?_, List.pairwise_cons.2 ⟨hLater, hSorted⟩⟩
      intro it' hit'
      rcases List.mem_cons.1 hit' with rfl | hit'
      · exact le_rfl
      · exact hLater it' hit'

/-- A block item for each target, the last one first. -/
def insertBlocks (l : PrivacyList) (targets : List QString) : PrivacyList :=
  targets.foldl (fun l target => l.insertItem 0 (blockItem target)) l

@[simp] theorem insertBlocks_name (l : PrivacyList) (targets : List QString) :
    (insertBlocks l targets).name = l.name := by
  unfold insertBlocks
  induction targets generalizing l with
  | nil => rfl
  | cons target targets ih => exact ih _

theorem insertBlocks_content (l : PrivacyList) (targets : List QString) :
    (insertBlocks l targets).items.map content =
      (targets.reverse.map blockItem) ++ l.items.map content := by
  unfold insertBlocks
  induction targets generalizing l with
  | nil => rfl
  | cons target targets ih =>
    rw [List.foldl_cons, ih, PrivacyList.insertItem, map_content_reNumber,
      List.insertIdx_zero, List.map_cons, List.reverse_cons, List.map_append, List.append_assoc]
    rfl

/-- Inserting leaves the list numbered. -/
theorem insertBlocks_numbered (l : PrivacyList) {targets : List QString} (h : targets ≠ []) :
    ∃ items, (insertBlocks l targets).items = reNumber 100 items := by
  obtain ⟨before, last, rfl⟩ := List.eq_nil_or_concat targets |>.resolve_left h
  unfold insertBlocks
  rw [List.concat_eq_append, List.foldl_append]
  exact ⟨_, rfl⟩

/-! ## The manager -/

/-- The tasks for privacy lists: what they send. -/
inductive Request where
  | listNames
  | list (name : QString)
  | changeList (list : PrivacyList)
deriving DecidableEq, Repr

/-- What the server answers. -/
inductive Reply where
  | listNames (defaultList : QString)
  | listNamesError
  | list (name : QString) (items : List PrivacyListItem)
  | listError
  | changeList
  | changeListError
deriving DecidableEq, Repr

/-- `PrivacyManager`, with the connections of its signals to its slots. -/
structure PrivacyManager where
  getDefaultWaiting : Bool
  getDefaultDefault : QString
  blockTargets : List QString
  blockWaiting : Bool
  /-- How often `listsReceived` and `listsError` are connected. -/
  listsConnections : Nat
  /-- How often `listReceived` and `listError` are connected. -/
  listConnections : Nat
  /-- How often `defaultListAvailable` and `defaultListError` are connected. -/
  defaultListConnections : Nat
  /-- What is sent and not yet handled. -/
  sent : List Request
deriving DecidableEq, Repr

namespace PrivacyManager

/-- `PrivacyManager::PrivacyManager`. -/
def new : PrivacyManager := ⟨false, [], [], false, 0, 0, 0, []⟩

variable (m : PrivacyManager)

/-- `Task::go` of a task that sends this. -/
def send (r : Request) : PrivacyManager := { m with sent := m.sent ++ [r] }

/-- `PrivacyManager::requestListNames`. -/
def requestListNames : PrivacyManager := m.send .listNames

/-- `PrivacyManager::requestList`. -/
def requestList (name : QString) : PrivacyManager := m.send (.list name)

/-- `PrivacyManager::changeList`. -/
def changeList (list : PrivacyList) : PrivacyManager := m.send (.changeList list)

/-- `PrivacyManager::getDefaultList`. -/
def getDefaultList : PrivacyManager :=
  { m with listsConnections := m.listsConnections + 1 }.requestListNames

/-- `PrivacyManager::block`. -/
def block (target : QString) : PrivacyManager :=
  let m := { m with blockTargets := m.blockTargets ++ [target] }
  if m.blockWaiting then m
  else
    { m with
      blockWaiting := true
      defaultListConnections := m.defaultListConnections + 1 }.getDefaultList

/-- `PrivacyManager::block_getDefaultList_success`. There is no `block_getDefault_success`
and no `block_getDefault_error` to disconnect. -/
def blockGetDefaultListSuccess (l : PrivacyList) : PrivacyManager :=
  { m with blockWaiting := false, blockTargets := [] }.changeList (insertBlocks l m.blockTargets)

/-- `PrivacyManager::block_getDefaultList_error`, which disconnects nothing either. -/
def blockGetDefaultListError : PrivacyManager :=
  { m with blockWaiting := false, blockTargets := [] }

/-- `emit defaultListAvailable`. -/
def defaultListAvailable (l : PrivacyList) : PrivacyManager :=
  (fun m => m.blockGetDefaultListSuccess l)^[m.defaultListConnections] m

/-- `emit defaultListError`. -/
def defaultListError : PrivacyManager :=
  blockGetDefaultListError^[m.defaultListConnections] m

/-- `PrivacyManager::getDefault_listsReceived`. -/
def getDefaultListsReceived (defaultList : QString) : PrivacyManager :=
  let m := { m with listsConnections := 0, getDefaultDefault := defaultList }
  if defaultList ≠ [] then
    { m with
      getDefaultWaiting := true
      listConnections := m.listConnections + 1 }.requestList defaultList
  else m.defaultListAvailable ⟨[], []⟩

/-- `PrivacyManager::getDefault_listsError`. -/
def getDefaultListsError : PrivacyManager :=
  { m with listsConnections := 0 }.defaultListError

/-- `PrivacyManager::getDefault_listReceived`. -/
def getDefaultListReceived (l : PrivacyList) : PrivacyManager :=
  if l.name = m.getDefaultDefault ∧ m.getDefaultWaiting = true then
    { m with listConnections := 0, getDefaultWaiting := false }.defaultListAvailable l
  else m

/-- `emit listsReceived`: the first call takes all connections away. -/
def listsReceived (defaultList : QString) : PrivacyManager :=
  if m.listsConnections = 0 then m else m.getDefaultListsReceived defaultList

/-- `emit listsError`, likewise. -/
def listsError : PrivacyManager :=
  if m.listsConnections = 0 then m else m.getDefaultListsError

/-- `emit listReceived`: a call takes all connections away, or none does anything. -/
def listReceived (l : PrivacyList) : PrivacyManager :=
  if m.listConnections = 0 then m else m.getDefaultListReceived l

/-- `emit listError`: `getDefault_listError` as often as it is connected. -/
def listError : PrivacyManager := defaultListError^[m.listConnections] m

/-- The task of a request is finished: `receiveLists`, `receiveList` or `changeList_finished`,
whose signals are connected to nothing here. -/
def receive (std : StdSort) : Reply → PrivacyManager
  | .listNames defaultList => m.listsReceived defaultList
  | .listNamesError => m.listsError
  | .list name items => m.listReceived ⟨name, std.sort items⟩
  | .listError => m.listError
  | .changeList => m
  | .changeListError => m

end PrivacyManager

/-! ## Manager and server -/

/-- The manager, the lists of the server, and its replies on their way. -/
structure Session where
  manager : PrivacyManager
  defaultList : QString
  lists : QString → List PrivacyListItem
  replies : List Reply
  /-- The targets of all calls of `block` so far. -/
  blocked : List QString

inductive Event where
  | block (target : QString)
  /-- The server handles the next request. -/
  | handle
  /-- The server refuses it. -/
  | refuse
  /-- The next reply arrives. -/
  | receive
deriving DecidableEq, Repr

namespace Session

/-- A new manager, and a server with some lists. -/
def start (defaultList : QString) (lists : QString → List PrivacyListItem) : Session :=
  ⟨.new, defaultList, lists, [], []⟩

variable (s : Session)

/-- What the server does with a request. -/
def serve : Request → Session
  | .listNames => { s with replies := s.replies ++ [.listNames s.defaultList] }
  | .list name => { s with replies := s.replies ++ [.list name (s.lists name)] }
  | .changeList list =>
    { s with
      lists := Function.update s.lists list.name list.items
      replies := s.replies ++ [.changeList] }

/-- The reply to a request that is refused. -/
def refusal : Request → Reply
  | .listNames => .listNamesError
  | .list _ => .listError
  | .changeList _ => .changeListError

def step (std : StdSort) (s : Session) : Event → Session
  | .block target =>
    { s with manager := s.manager.block target, blocked := s.blocked ++ [target] }
  | .handle =>
    match s.manager.sent with
    | [] => s
    | r :: rs => { s with manager := { s.manager with sent := rs } }.serve r
  | .refuse =>
    match s.manager.sent with
    | [] => s
    | r :: rs =>
      { s with
        manager := { s.manager with sent := rs }
        replies := s.replies ++ [refusal r] }
  | .receive =>
    match s.replies with
    | [] => s
    | r :: rs => { s with manager := s.manager.receive std r, replies := rs }

/-- No request is in flight. -/
def Settled : Prop := s.manager.sent = [] ∧ s.replies = []

/-- A call of `block` comes before the first fetch or while it is under way, and there is
room for its number. -/
def OneFetch : Event → Prop
  | .block _ =>
    (s.manager.blockWaiting = true ∨ s.manager.defaultListConnections = 0) ∧
      (s.lists s.defaultList).length + s.manager.blockTargets.length < 429496720
  | _ => True

end Session

/-! ## One fetch -/

namespace PrivacyManager

/-- The name of the default list is being fetched. -/
def fetchingName (targets : List QString) (sent : List Request) : PrivacyManager :=
  ⟨false, [], targets, true, 1, 0, 1, sent⟩

/-- The default list is being fetched. -/
def fetchingList (defaultList : QString) (targets : List QString) (sent : List Request) :
    PrivacyManager :=
  ⟨true, defaultList, targets, true, 0, 1, 1, sent⟩

/-- The default list has been fetched; the slot for it stays connected. -/
def fetched (defaultList : QString) (sent : List Request) : PrivacyManager :=
  ⟨false, defaultList, [], false, 0, 0, 1, sent⟩

theorem listsReceived_fetchingName {d : QString} (h : d ≠ []) (targets : List QString) :
    (fetchingName targets []).listsReceived d = fetchingList d targets [.list d] := by
  unfold listsReceived
  rw [if_neg (show (fetchingName targets []).listsConnections ≠ 0 from Nat.one_ne_zero)]
  unfold getDefaultListsReceived
  simp only [if_pos h]
  rfl

theorem listReceived_fetchingList (d : QString) (targets : List QString)
    (items : List PrivacyListItem) :
    (fetchingList d targets []).listReceived ⟨d, items⟩ =
      fetched d [.changeList (insertBlocks ⟨d, items⟩ targets)] := by
  unfold listReceived
  rw [if_neg (show (fetchingList d targets []).listConnections ≠ 0 from Nat.one_ne_zero)]
  unfold getDefaultListReceived
  rw [if_pos ⟨rfl, rfl⟩]
  rfl

end PrivacyManager

namespace Session

open PrivacyManager

variable {std : StdSort} {d : QString} {lists : QString → List PrivacyListItem}

/-- The lists of the server with the targets blocked. -/
def changed (std : StdSort) (d : QString) (lists : QString → List PrivacyListItem)
    (targets : List QString) : QString → List PrivacyListItem :=
  Function.update lists d (insertBlocks ⟨d, std.sort (lists d)⟩ targets).items

/-- There are numbers for the items of the list and for those to come. -/
def Room (d : QString) (lists : QString → List PrivacyListItem) (targets : List QString) : Prop :=
  (lists d).length + targets.length ≤ 429496720

/-- The states while there is one fetch only: what is on its way, and to whom. -/
inductive Phase (std : StdSort) (d : QString) (lists : QString → List PrivacyListItem) :
    Session → Prop
  | idle : Phase std d lists (start d lists)
  | nameAsked (targets : List QString) (hSome : targets ≠ []) (hRoom : Room d lists targets) :
    Phase std d lists ⟨fetchingName targets [.listNames], d, lists, [], targets⟩
  | nameGiven (targets : List QString) (hSome : targets ≠ []) (hRoom : Room d lists targets) :
    Phase std d lists ⟨fetchingName targets [], d, lists, [.listNames d], targets⟩
  | listAsked (targets : List QString) (hSome : targets ≠ []) (hRoom : Room d lists targets) :
    Phase std d lists ⟨fetchingList d targets [.list d], d, lists, [], targets⟩
  | listGiven (targets : List QString) (hSome : targets ≠ []) (hRoom : Room d lists targets) :
    Phase std d lists ⟨fetchingList d targets [], d, lists, [.list d (lists d)], targets⟩
  | changeAsked (targets : List QString) (hSome : targets ≠ []) (hRoom : Room d lists targets) :
    Phase std d lists
      ⟨fetched d [.changeList (insertBlocks ⟨d, std.sort (lists d)⟩ targets)], d, lists, [],
        targets⟩
  | changeMade (targets : List QString) (hSome : targets ≠ []) (hRoom : Room d lists targets) :
    Phase std d lists
      ⟨fetched d [], d, changed std d lists targets, [.changeList], targets⟩
  | done (targets : List QString) (hSome : targets ≠ []) (hRoom : Room d lists targets) :
    Phase std d lists ⟨fetched d [], d, changed std d lists targets, [], targets⟩

theorem room_append {targets : List QString} (target : QString)
    (h : (lists d).length + targets.length < 429496720) : Room d lists (targets ++ [target]) := by
  unfold Room
  rw [List.length_append, List.length_singleton]
  omega

/-- A call of `block`. -/
theorem Phase.block {s : Session} (h : Phase std d lists s) (target : QString)
    (hOne : s.OneFetch (.block target)) : Phase std d lists (s.step std (.block target)) := by
  obtain ⟨hWhen, hRoom⟩ := hOne
  have hSome : ∀ targets : List QString, targets ++ [target] ≠ [] := fun targets => by simp
  cases h with
  | idle => exact .nameAsked [target] (List.cons_ne_nil _ _) (room_append target hRoom)
  | nameAsked targets => exact .nameAsked _ (hSome targets) (room_append target hRoom)
  | nameGiven targets => exact .nameGiven _ (hSome targets) (room_append target hRoom)
  | listAsked targets => exact .listAsked _ (hSome targets) (room_append target hRoom)
  | listGiven targets => exact .listGiven _ (hSome targets) (room_append target hRoom)
  | changeAsked targets =>
    -- nothing is waited for, and the slot is connected
    rcases hWhen with hWaiting | hNone
    · cases hWaiting
    · cases hNone
  | changeMade targets =>
    rcases hWhen with hWaiting | hNone
    · cases hWaiting
    · cases hNone
  | done targets =>
    rcases hWhen with hWaiting | hNone
    · cases hWaiting
    · cases hNone

/-- The server handles the next request. -/
theorem Phase.handle {s : Session} (h : Phase std d lists s) :
    Phase std d lists (s.step std .handle) := by
  cases h with
  | idle => exact .idle
  | nameAsked targets hSome hRoom => exact .nameGiven targets hSome hRoom
  | nameGiven targets hSome hRoom => exact .nameGiven targets hSome hRoom
  | listAsked targets hSome hRoom => exact .listGiven targets hSome hRoom
  | listGiven targets hSome hRoom => exact .listGiven targets hSome hRoom
  | changeAsked targets hSome hRoom =>
    have hMade : Phase std d lists _ := .changeMade targets hSome hRoom
    unfold changed at hMade
    simp only [step, fetched, serve, insertBlocks_name, List.nil_append]
    exact hMade
  | changeMade targets hSome hRoom => exact .changeMade targets hSome hRoom
  | done targets hSome hRoom => exact .done targets hSome hRoom

/-- The next reply arrives. -/
theorem Phase.receive {s : Session} (h : Phase std d lists s) (hDefault : d ≠ []) :
    Phase std d lists (s.step std .receive) := by
  cases h with
  | idle => exact .idle
  | nameAsked targets hSome hRoom => exact .nameAsked targets hSome hRoom
  | nameGiven targets hSome hRoom =>
    have hAsked : Phase std d lists _ := .listAsked targets hSome hRoom
    rw [← listsReceived_fetchingName hDefault] at hAsked
    exact hAsked
  | listAsked targets hSome hRoom => exact .listAsked targets hSome hRoom
  | listGiven targets hSome hRoom =>
    have hAsked : Phase std d lists _ := .changeAsked targets hSome hRoom
    rw [← listReceived_fetchingList] at hAsked
    exact hAsked
  | changeAsked targets hSome hRoom => exact .changeAsked targets hSome hRoom
  | changeMade targets hSome hRoom => exact .done targets hSome hRoom
  | done targets hSome hRoom => exact .done targets hSome hRoom

/-- **One fetch.** Nothing else happens while no call of `block` comes after it. -/
theorem Phase.step {s : Session} (h : Phase std d lists s) (hDefault : d ≠ []) {e : Event}
    (hServed : e ≠ .refuse) (hOne : s.OneFetch e) : Phase std d lists (s.step std e) := by
  cases e with
  | block target => exact h.block target hOne
  | handle => exact h.handle
  | refuse => exact absurd rfl hServed
  | receive => exact h.receive hDefault

end Session

/-! ## The list in the end -/

/-- Some items in the order that their numbers give. -/
def InOrder (sorted items : List PrivacyListItem) : Prop :=
  sorted.Perm items ∧ sorted.Pairwise fun a b => a.order ≤ b.order

/-- The items are one block item for each target, and then what was there at the start, in
its order. -/
def Blocked (atStart : List PrivacyListItem) (targets : List QString)
    (items : List PrivacyListItem) : Prop :=
  ∃ blocks rest sorted, InOrder (blocks ++ rest) items ∧ InOrder sorted atStart ∧
    (blocks.map content).Perm (targets.map blockItem) ∧ rest.map content = sorted.map content

theorem blocked_nil (std : StdSort) (items : List PrivacyListItem) : Blocked items [] items :=
  ⟨[], std.sort items, std.sort items, ⟨std.perm items, std.sorted items⟩,
    ⟨std.perm items, std.sorted items⟩, .refl _, rfl⟩

theorem blocked_insertBlocks (std : StdSort) {d : QString}
    {lists : QString → List PrivacyListItem} {targets : List QString} (hSome : targets ≠ [])
    (hRoom : Session.Room d lists targets) :
    Blocked (lists d) targets (insertBlocks ⟨d, std.sort (lists d)⟩ targets).items := by
  have hContent := insertBlocks_content ⟨d, std.sort (lists d)⟩ targets
  obtain ⟨items, hItems⟩ := insertBlocks_numbered ⟨d, std.sort (lists d)⟩ hSome
  have hLength : items.length = targets.length + (lists d).length := by
    have hSame := congrArg List.length hContent
    rw [List.length_map, hItems, length_reNumber, List.length_append, List.length_map,
      List.length_reverse, List.length_map, (std.perm _).length_eq] at hSame
    exact hSame
  have hSorted : (reNumber 100 items).Pairwise fun a b => a.order ≤ b.order := by
    refine (reNumber_sorted ?_).2
    unfold Session.Room at hRoom
    omega
  obtain ⟨blocks, rest, hSplit, hBlocks, hRest⟩ := List.map_eq_append_iff.1 hContent
  refine ⟨blocks, rest, std.sort (lists d), ⟨?_, ?_⟩, ⟨std.perm _, std.sorted _⟩, ?_, hRest⟩
  · rw [hSplit]
  · rw [← hSplit, hItems]
    exact hSorted
  · rw [hBlocks]
    exact targets.reverse_perm.map _

theorem Session.Phase.blocked {std : StdSort} {d : QString}
    {lists : QString → List PrivacyListItem} {s : Session} (h : Phase std d lists s)
    (hSettled : s.Settled) : Blocked (lists d) s.blocked (s.lists d) := by
  obtain ⟨hSent, hReplies⟩ := hSettled
  cases h with
  | idle => exact blocked_nil std _
  | nameAsked targets => cases hSent
  | nameGiven targets => cases hReplies
  | listAsked targets => cases hSent
  | listGiven targets => cases hReplies
  | changeAsked targets => cases hSent
  | changeMade targets => cases hReplies
  | done targets hSome hRoom =>
    show Blocked (lists d) targets (changed std d lists targets d)
    unfold changed
    rw [Function.update_self]
    exact blocked_insertBlocks std hSome hRoom

/-- **Blocked contacts.** Where no call of `block` comes after the first fetch, the default
list begins with a block item for each of them whenever no request is in flight, and goes on
as it was. -/
theorem blocked_of_oneFetch (std : StdSort) {d : QString} (hDefault : d ≠ [])
    (lists : QString → List PrivacyListItem) (es : List Event) (hServed : .refuse ∉ es)
    (hOne : Run.StepsMeet (Session.step std) Session.OneFetch (.start d lists) es) :
    ∀ s ∈ Run.states (Session.step std) (.start d lists) es,
      s.Settled → Blocked (lists d) s.blocked (s.lists d) := by
  intro s hs
  have hMeet := hOne.and_mem (p := fun e => e ≠ .refuse) fun e he hRefuse => hServed (hRefuse ▸ he)
  have hPhase : Session.Phase std d lists s := by
    refine Run.inv_of_stepsMeet ?_ .idle hMeet s hs
    intro s e (hPhase : Session.Phase std d lists s) hOk
    exact hPhase.step hDefault hOk.1 hOk.2
  exact hPhase.blocked

/-- A sort that keeps what it may. -/
def insertionSort : StdSort where
  sort := List.insertionSort fun a b => a.order ≤ b.order
  perm := List.perm_insertionSort _
  sorted items := by
    have hTotal : Std.Total fun a b : PrivacyListItem => a.order ≤ b.order :=
      ⟨fun a b => Nat.le_total a.order b.order⟩
    have hTrans : IsTrans PrivacyListItem fun a b => a.order ≤ b.order :=
      ⟨fun _ _ _ => Nat.le_trans⟩
    exact List.pairwise_insertionSort _ items

/-- An item that lets everything pass. -/
def allowAll : PrivacyListItem := ⟨.fallthroughType, .allow, true, true, true, true, 1, []⟩

def someLists (_ : QString) : List PrivacyListItem := [allowAll]

/-- Two contacts are blocked, the second while the list is being fetched. -/
def twoBlocks : List Event :=
  [.block [97], .handle, .receive, .block [98], .handle, .receive, .handle, .receive]

theorem blocked_of_oneFetch_twoBlocks :
    Blocked [allowAll] [[97], [98]]
      ((twoBlocks.foldl (Session.step insertionSort) (.start [100] someLists)).lists [100]) := by
  refine blocked_of_oneFetch insertionSort (by decide) someLists twoBlocks (by decide) ?_ _
    (Run.foldl_mem_states _ _) ?_
  · exact ⟨⟨Or.inr rfl, by decide⟩, trivial, trivial, ⟨Or.inl rfl, by decide⟩, trivial, trivial,
      trivial, trivial, trivial⟩
  · exact ⟨rfl, rfl⟩

/-- One contact is blocked after the other. -/
def blockAfterBlock : List Event :=
  [.block [97], .handle, .receive, .handle, .receive, .handle, .receive,
    .block [98], .handle, .receive, .handle, .receive, .handle, .handle, .receive, .receive]

/-- The second contact is not blocked: the list comes back as it was. -/
theorem blockAfterBlock_undone :
    ¬ ∀ s ∈ Run.states (Session.step insertionSort) (.start [100] someLists) blockAfterBlock,
      s.Settled → Blocked [allowAll] s.blocked (s.lists [100]) := by
  intro h
  obtain ⟨blocks, rest, sorted, hItems, hSorted, hBlocks, hRest⟩ :=
    h _ (Run.foldl_mem_states _ _) ⟨by decide, by decide⟩
  have hBoth := hBlocks.length_eq
  have hCount := hItems.1.length_eq
  have hSame := congrArg List.length hRest
  have hStart := hSorted.1.length_eq
  rw [List.length_map, List.length_map] at hBoth hSame
  rw [List.length_append, hBoth, hSame, hStart] at hCount
  exact absurd hCount (by decide)

end XMPP
