import Kopete.Jabber.StreamManagement
import Kopete.Lib.Run
import Mathlib

/-!
# Resuming a stream

A client and its peer, who keeps the same books, over connections that are lost at any time. A
connection keeps the order of what is written to it. Of what the client has written to a connection
that is lost, a first part still reaches the peer; the client is given nothing more of it.

Main results:

* `Inv.step` — what holds of the books and of what is under way is kept by every step;
* `handled_once` — in every run, each of the two has been given a first part of what the other has
  written, every stanza once and in order, and all of it when nothing is under way;
* `exists_all_handled` — from every state of a run both can be given all of it.
-/

namespace XMPP

variable {α : Type}

/-! ## The stream -/

/-- What is written to a connection; a request to resume says on which one it is made. -/
inductive Element (α : Type) where
  | stanza (e : α)
  | request
  | ack (h : UInt32)
  | resume (conn : Nat) (h : UInt32)
  | resumed (h : UInt32)
deriving DecidableEq

/-- Where a client is with its connection. -/
inductive Phase where
  | connecting
  | resuming
  | active
deriving DecidableEq

/-- The client: its books, `sendList`, and what its application has written and been given; `acked`
is the sum of what `stanzasAcked` has been emitted with. -/
structure Client (α : Type) where
  sm : StreamManagement α
  sendList : List α
  phase : Phase
  conn : Nat
  sent : List α
  handled : List α
  acked : Nat
deriving DecidableEq

/-- The peer: its books, the connection it is on, and what it has written and been given. -/
structure Peer (α : Type) where
  sm : StreamManagement α
  conn : Nat
  sent : List α
  handled : List α
deriving DecidableEq

/-- Both, and what is under way between them on the connection of the client, from the client also
on those before. -/
structure Stream (α : Type) where
  client : Client α
  peer : Peer α
  up : List (Element α)
  down : List (Element α)
deriving DecidableEq

/-- What happens. -/
inductive Op (α : Type) where
  | write (e : α)
  | flush
  | timer
  | receive
  | lose (n : Nat)
  | login
  | peerWrite (e : α)
  | peerRequest
  | peerReceive
deriving DecidableEq

namespace Stream

variable (s : Stream α)

/-- `CoreProtocol::needSMRequest`. -/
def needSMRequest : Stream α :=
  let (asked, sm) := s.client.sm.generateRequestStanza
  { s with client := { s.client with sm := sm }, up := if asked then s.up ++ [.request] else s.up }

/-- `CoreProtocol::sendStanza`, for a client that `ClientStream::write` finds active. -/
def sendStanza (e : α) : Stream α :=
  let (len, sm) := s.client.sm.addUnacknowledgedStanza e
  let s := { s with client := { s.client with sm := sm } }
  let s := if len > 5 ∧ len % 4 = 0 then s.needSMRequest else s
  { s with client := { s.client with
      sendList := s.client.sendList ++ [e]
      sent := s.client.sent ++ [e] } }

/-- `BasicProtocol::doStep` takes a stanza off `sendList`. -/
def flush : Stream α :=
  match s.client.sendList with
  | [] => s
  | e :: rest => { s with client := { s.client with sendList := rest }, up := s.up ++ [.stanza e] }

/-- A stanza is given to the application. -/
def stanzaReady (e : α) : Stream α :=
  { s with client := { s.client with
      sm := if s.client.sm.isActive then s.client.sm.markStanzaHandled else s.client.sm
      handled := s.client.handled ++ [e] } }

/-- The client reads an element. -/
def handle : Element α → Stream α
  | .stanza e => s.stanzaReady e
  | .request =>
    if s.client.sm.isActive then { s with up := s.up ++ [.ack s.client.sm.makeResponseStanza] }
    else s
  | .ack h =>
    if s.client.sm.isActive then
      let (cnt, sm) := (s.client.sm.processAcknowledgement h).takeAckedCount
      { s with client := { s.client with sm := sm, acked := s.client.acked + cnt } }
    else s
  | .resume _ _ => s
  | .resumed h =>
    if s.client.phase = .resuming then
      let (_, stanzas, sm) := getSMResponse s.client.sm (.resumed h)
      { s with
        client := { s.client with sm := sm, phase := .active }
        up := s.up ++ stanzas.map .stanza }
    else s

def receive : Stream α :=
  match s.down with
  | [] => s
  | e :: down => { s with down := down }.handle e

/-- The connection is lost, or has not answered for too long: `ClientStream::reset`, and another
one is made. -/
def lose (n : Nat) : Stream α :=
  { s with
    client := { s.client with
      sm := s.client.sm.reset
      sendList := []
      phase := .connecting
      conn := s.client.conn + 1 }
    up := s.up.take n
    down := [] }

/-- `CoreProtocol::loginComplete`, for a stream that can be resumed. -/
def login : Stream α :=
  if s.client.phase = .connecting ∧ s.client.sm.state.enabled ∧ s.client.sm.state.isResumption then
    { s with
      client := { s.client with phase := .resuming }
      up := s.up ++ [.resume s.client.conn s.client.sm.makeResponseStanza] }
  else s

/-- What the peer writes gets to the client if it is on the same connection. -/
def peerSend (es : List (Element α)) : Stream α :=
  if s.peer.conn = s.client.conn then { s with down := s.down ++ es } else s

def peerWrite (e : α) : Stream α :=
  { s with peer := { s.peer with
      sm := (s.peer.sm.addUnacknowledgedStanza e).2
      sent := s.peer.sent ++ [e] } }.peerSend [.stanza e]

/-- The peer reads an element. It resumes on the connection that it is asked on. -/
def peerHandle : Element α → Stream α
  | .stanza e =>
    { s with peer := { s.peer with
        sm := s.peer.sm.markStanzaHandled
        handled := s.peer.handled ++ [e] } }
  | .request => s.peerSend [.ack s.peer.sm.makeResponseStanza]
  | .ack h => { s with peer := { s.peer with sm := s.peer.sm.processAcknowledgement h } }
  | .resume conn h =>
    let (stanzas, sm) := (s.peer.sm.resumed h).resendAll
    { s with peer := { s.peer with sm := sm, conn := conn } }.peerSend
      (.resumed s.peer.sm.makeResponseStanza :: stanzas.map .stanza)
  | .resumed _ => s

def peerReceive : Stream α :=
  match s.up with
  | [] => s
  | e :: up => { s with up := up }.peerHandle e

def step (s : Stream α) : Op α → Stream α
  | .write e => if s.client.phase = .active then s.sendStanza e else s
  | .flush => s.flush
  | .timer => if s.client.sm.isActive then s.needSMRequest else s
  | .receive => s.receive
  | .lose n => s.lose n
  | .login => s.login
  | .peerWrite e => s.peerWrite e
  | .peerRequest => s.peerSend [.request]
  | .peerReceive => s.peerReceive

end Stream

/-- A stream that has been enabled with this id. -/
def enabledStream (id : List UInt16) : Stream α :=
  let sm : StreamManagement α := ⟨⟨true, 0, 0, [], id⟩, true, false, 0, 0, true⟩
  ⟨⟨sm, [], .active, 0, [], [], 0⟩, ⟨sm, 0, [], []⟩, [], []⟩

/-! ## What is under way -/

namespace Element

/-- The stanzas among what is under way. -/
def stanzas (es : List (Element α)) : List α :=
  es.filterMap fun
    | .stanza e => some e
    | _ => none

/-- The counts that are in it. -/
def counts (es : List (Element α)) : List UInt32 :=
  es.filterMap fun
    | .ack h | .resume _ h | .resumed h => some h
    | _ => none

/-- The connections that are asked for. -/
def resumes (es : List (Element α)) : List Nat :=
  es.filterMap fun
    | .resume conn _ => some conn
    | _ => none

/-- The counts with which a stream is resumed. -/
def grants (es : List (Element α)) : List UInt32 :=
  es.filterMap fun
    | .resumed h => some h
    | _ => none

variable (es es' : List (Element α))

@[simp] theorem stanzas_append : stanzas (es ++ es') = stanzas es ++ stanzas es' :=
  List.filterMap_append

@[simp] theorem counts_append : counts (es ++ es') = counts es ++ counts es' :=
  List.filterMap_append

@[simp] theorem resumes_append : resumes (es ++ es') = resumes es ++ resumes es' :=
  List.filterMap_append

@[simp] theorem grants_append : grants (es ++ es') = grants es ++ grants es' :=
  List.filterMap_append

@[simp] theorem stanzas_map (queue : List α) : stanzas (queue.map .stanza) = queue := by
  rw [stanzas, List.filterMap_map]
  exact List.filterMap_some

@[simp] theorem counts_map (queue : List α) : counts (queue.map .stanza) = [] := by
  rw [counts, List.filterMap_map]
  exact List.filterMap_eq_nil_iff.mpr fun _ _ => rfl

@[simp] theorem resumes_map (queue : List α) : resumes (queue.map .stanza) = [] := by
  rw [resumes, List.filterMap_map]
  exact List.filterMap_eq_nil_iff.mpr fun _ _ => rfl

@[simp] theorem grants_map (queue : List α) : grants (queue.map .stanza) = [] := by
  rw [grants, List.filterMap_map]
  exact List.filterMap_eq_nil_iff.mpr fun _ _ => rfl

@[simp] theorem stanzas_resumed (h : UInt32) : stanzas (.resumed h :: es) = stanzas es := rfl

@[simp] theorem counts_resumed (h : UInt32) : counts (.resumed h :: es) = h :: counts es := rfl

end Element

open Element

/-! ## The books of one direction -/

/-- What one side has written and the other has been given: `k` stanzas have been acknowledged, the
rest is queued, and the counts under way are of stanzas that the other side has been given. -/
structure Books (sent handled queue : List α) (last count : UInt32) (counts : List UInt32)
    (k : Nat) : Prop where
  handled_prefix : handled <+: sent
  count_eq : count = UInt32.ofNat handled.length
  queue_eq : queue = sent.drop k
  last_eq : last = UInt32.ofNat k
  under_way : ∃ js : List Nat, counts = js.map UInt32.ofNat ∧ (k :: js).Pairwise (· ≤ ·) ∧
    ∀ j ∈ k :: js, j ≤ handled.length

namespace Books

variable {sent handled queue : List α} {last count : UInt32} {acks : List UInt32} {k : Nat}

theorem k_le (h : Books sent handled queue last count acks k) : k ≤ handled.length := by
  obtain ⟨js, -, -, hLe⟩ := h.under_way
  exact hLe k List.mem_cons_self

/-- A stanza is written. -/
theorem write (h : Books sent handled queue last count acks k) (e : α) :
    Books (sent ++ [e]) handled (queue ++ [e]) last count acks k where
  handled_prefix := h.handled_prefix.trans (List.prefix_append _ _)
  count_eq := h.count_eq
  queue_eq := by
    rw [List.drop_append_of_le_length (h.k_le.trans h.handled_prefix.length_le), h.queue_eq]
  last_eq := h.last_eq
  under_way := h.under_way

/-- The next stanza is given to the other side. -/
theorem receive (h : Books sent handled queue last count acks k) {e : α} {rest : List α}
    (hNext : sent.drop handled.length = e :: rest) :
    Books sent (handled ++ [e]) queue last (count + 1) acks k ∧
      sent.drop (handled ++ [e]).length = rest where
  left := {
    handled_prefix := by
      obtain ⟨more, rfl⟩ := h.handled_prefix
      rw [List.drop_left] at hNext
      exact ⟨rest, by rw [hNext, List.append_assoc, List.singleton_append]⟩
    count_eq := by
      rw [h.count_eq, List.length_append, UInt32.ofNat_add]
      rfl
    queue_eq := h.queue_eq
    last_eq := h.last_eq
    under_way := by
      obtain ⟨js, hjs, hSorted, hLe⟩ := h.under_way
      refine ⟨js, hjs, hSorted, fun j hj => (hLe j hj).trans ?_⟩
      rw [List.length_append]
      exact Nat.le_add_right _ _ }
  right := by
    rw [List.length_append, List.length_singleton, ← List.drop_drop, hNext, List.drop_succ_cons,
      List.drop_zero]

/-- The other side tells its count. -/
theorem tell (h : Books sent handled queue last count acks k) :
    Books sent handled queue last count (acks ++ [count]) k := by
  refine ⟨h.handled_prefix, h.count_eq, h.queue_eq, h.last_eq, ?_⟩
  obtain ⟨js, hjs, hSorted, hLe⟩ := h.under_way
  refine ⟨js ++ [handled.length], ?_, ?_, ?_⟩
  · rw [List.map_append, ← hjs, h.count_eq, List.map_singleton]
  · rw [← List.cons_append, List.pairwise_append]
    refine ⟨hSorted, List.pairwise_singleton _ _, fun j hj j' hj' => ?_⟩
    rw [List.mem_singleton.mp hj']
    exact hLe j hj
  · intro j hj
    rw [← List.cons_append] at hj
    rcases List.mem_append.mp hj with hOld | hNew
    · exact hLe j hOld
    · exact (List.mem_singleton.mp hNew).le

/-- Counts get lost. -/
theorem lose (h : Books sent handled queue last count acks k) {acks' : List UInt32}
    (hSublist : acks'.Sublist acks) : Books sent handled queue last count acks' k := by
  refine ⟨h.handled_prefix, h.count_eq, h.queue_eq, h.last_eq, ?_⟩
  obtain ⟨js, hjs, hSorted, hLe⟩ := h.under_way
  obtain ⟨js', hjs', rfl⟩ := List.sublist_map_iff.mp (hjs ▸ hSublist)
  have hSub : (k :: js').Sublist (k :: js) := hjs'.cons_cons k
  exact ⟨js', rfl, hSorted.sublist hSub, fun j hj => hLe j (hSub.subset hj)⟩

/-- A count arrives: exactly the stanzas that it counts are taken off the queue. -/
theorem acknowledge {sm : StreamManagement α} {h : UInt32}
    (hBooks : Books sent handled sm.state.send_queue sm.state.server_last_handled count (h :: acks) k)
    (hSmall : sm.state.send_queue.length < 2 ^ 32) :
    ∃ j, Books sent handled (sm.processAcknowledgement h).state.send_queue
        (sm.processAcknowledgement h).state.server_last_handled count acks j ∧
      j = k + sm.ackedBy h ∧ (h = count → j = handled.length) := by
  obtain ⟨js, hjs, hSorted, hLe⟩ := hBooks.under_way
  obtain ⟨j, js, rfl⟩ : ∃ j js', js = j :: js' := by
    cases js with
    | nil => cases hjs
    | cons j js => exact ⟨j, js, rfl⟩
  obtain ⟨rfl, rfl⟩ := List.cons_eq_cons.mp hjs
  have hkj : k ≤ j := List.rel_of_pairwise_cons hSorted List.mem_cons_self
  have hj : j ≤ handled.length := hLe j (List.mem_cons_of_mem k List.mem_cons_self)
  have hSent := hBooks.handled_prefix.length_le
  have hLength : sm.state.send_queue.length = sent.length - k := by
    rw [hBooks.queue_eq, List.length_drop]
  have hDiff : (UInt32.ofNat j - sm.state.server_last_handled).toNat = j - k := by
    rw [hBooks.last_eq]
    simp only [UInt32.toNat_sub, UInt32.toNat_ofNat']
    omega
  have hAcked : sm.ackedBy (UInt32.ofNat j) = j - k := by
    rw [StreamManagement.ackedBy, hDiff, hLength]
    omega
  refine ⟨j, ⟨hBooks.handled_prefix, hBooks.count_eq, ?_, ?_, js, rfl, hSorted.of_cons,
    fun i hi => hLe i (List.mem_cons_of_mem k hi)⟩, by omega, fun hAll => ?_⟩
  · rw [StreamManagement.processAcknowledgement_eq, hDiff, hBooks.queue_eq, List.drop_drop,
      Nat.add_sub_cancel' hkj]
  · rw [StreamManagement.processAcknowledgement_eq, hAcked, hBooks.last_eq]
    show UInt32.ofNat k + UInt32.ofNat (j - k) = UInt32.ofNat j
    rw [← UInt32.ofNat_add, Nat.add_sub_cancel' hkj]
  · rw [hBooks.count_eq, ← UInt32.toNat_inj] at hAll
    simp only [UInt32.toNat_ofNat'] at hAll
    omega

end Books

/-! ## The invariant -/

/-- How far the client is with its connection, and what there can be of earlier ones. -/
inductive Connection (s : Stream α) : Prop where
  | connecting (hPhase : s.client.phase = .connecting) (hList : s.client.sendList = [])
      (hDown : s.down = []) (hConn : s.peer.conn < s.client.conn)
      (hUp : ∀ c ∈ resumes s.up, c < s.client.conn)
  | asked (hPhase : s.client.phase = .resuming) (hList : s.client.sendList = [])
      (hDown : s.down = []) (hConn : s.peer.conn < s.client.conn) (old : List (Element α))
      (hUp : s.up = old ++ [.resume s.client.conn s.client.sm.state.received_count])
      (hOld : ∀ c ∈ resumes old, c < s.client.conn)
  | granted (hPhase : s.client.phase = .resuming) (hList : s.client.sendList = [])
      (hUp : s.up = []) (hConn : s.peer.conn = s.client.conn) (rest : List (Element α))
      (hDown : s.down = .resumed s.peer.sm.state.received_count :: rest)
      (hRest : grants rest = [])
  | joined (hPhase : s.client.phase = .active) (hConn : s.peer.conn = s.client.conn)
      (hUp : resumes s.up = []) (hDown : grants s.down = [])

/-- The peer writes an element that does not resume the stream. -/
theorem Connection.snoc {s : Stream α} (h : Connection s) (hSame : s.peer.conn = s.client.conn)
    {e : Element α} (hGrant : grants [e] = []) {peer : Peer α} (hConn : peer.conn = s.peer.conn)
    (hCount : peer.sm.state.received_count = s.peer.sm.state.received_count) :
    Connection { s with peer := peer, down := s.down ++ [e] } := by
  cases h with
  | connecting _ _ _ hLt => exact absurd hSame hLt.ne
  | asked _ _ _ hLt => exact absurd hSame hLt.ne
  | granted hPhase hList hUp _ rest hDown hRest =>
    refine .granted hPhase hList hUp (hConn.trans hSame) (rest ++ [e]) ?_ ?_
    · show s.down ++ [e] = .resumed peer.sm.state.received_count :: (rest ++ [e])
      rw [hDown, hCount, List.cons_append]
    · rw [grants_append, hRest, hGrant, List.append_nil]
  | joined hPhase _ hUp hDown =>
    refine .joined hPhase (hConn.trans hSame) hUp ?_
    show grants (s.down ++ [e]) = []
    rw [grants_append, hDown, hGrant, List.append_nil]

/-- The books of both directions; what the client has written and the peer not been given is under
way, all of it on a connection that is in use, and the same for what the peer has written. -/
structure Inv (s : Stream α) : Prop where
  up_books : ∃ k, Books s.client.sent s.peer.handled s.client.sm.state.send_queue
    s.client.sm.state.server_last_handled s.peer.sm.state.received_count (counts s.down) k ∧
      s.client.acked + s.client.sm.sm_stanzas_notify ≤ k
  down_books : ∃ k, Books s.peer.sent s.client.handled s.peer.sm.state.send_queue
    s.peer.sm.state.server_last_handled s.client.sm.state.received_count (counts s.up) k
  active : s.client.sm.isActive = true ↔ s.client.phase = .active
  up_way : stanzas s.up ++ s.client.sendList <+: s.client.sent.drop s.peer.handled.length
  up_all : s.client.phase = .active →
    stanzas s.up ++ s.client.sendList = s.client.sent.drop s.peer.handled.length
  down_all : s.peer.conn = s.client.conn →
    stanzas s.down = s.peer.sent.drop s.client.handled.length
  connection : Connection s

theorem inv_enabledStream (id : List UInt16) : Inv (enabledStream id : Stream α) where
  up_books := ⟨0, ⟨List.nil_prefix, rfl, rfl, rfl, [], rfl, List.pairwise_singleton _ _, by simp⟩,
    le_refl 0⟩
  down_books := ⟨0, ⟨List.nil_prefix, rfl, rfl, rfl, [], rfl, List.pairwise_singleton _ _, by simp⟩⟩
  active := iff_of_true rfl rfl
  up_way := List.nil_prefix
  up_all _ := rfl
  down_all _ := rfl
  connection := .joined rfl rfl rfl rfl

namespace Inv

variable {s : Stream α}

theorem conn_le (h : Inv s) : s.peer.conn ≤ s.client.conn ∧
    ∀ c ∈ resumes s.up, c ≤ s.client.conn := by
  cases h.connection with
  | connecting _ _ _ hConn hUp => exact ⟨hConn.le, fun c hc => (hUp c hc).le⟩
  | asked _ _ _ hConn old hUp hOld =>
    refine ⟨hConn.le, fun c hc => ?_⟩
    rw [hUp, resumes_append] at hc
    rcases List.mem_append.mp hc with hc | hc
    · exact (hOld c hc).le
    · exact (List.mem_singleton.mp hc).le
  | granted _ _ hUp hConn => exact ⟨hConn.le, fun c hc => by rw [hUp] at hc; cases hc⟩
  | joined _ hConn hUp => exact ⟨hConn.le, fun c hc => by rw [hUp] at hc; cases hc⟩

/-- On a connection that is in use, both are on it. -/
theorem of_active (h : Inv s) (hPhase : s.client.phase = .active) :
    s.peer.conn = s.client.conn ∧ resumes s.up = [] ∧ grants s.down = [] := by
  cases h.connection with
  | connecting hPhase' => rw [hPhase] at hPhase'; cases hPhase'
  | asked hPhase' => rw [hPhase] at hPhase'; cases hPhase'
  | granted hPhase' => rw [hPhase] at hPhase'; cases hPhase'
  | joined _ hConn hUp hDown => exact ⟨hConn, hUp, hDown⟩

-- Steps of the client

theorem needSMRequest_eq (s : Stream α) : s.needSMRequest =
    { s with
      client := { s.client with sm := { s.client.sm with pause_mode := false } }
      up := if s.client.sm.pause_mode then s.up ++ [.request] else s.up } := by
  unfold Stream.needSMRequest StreamManagement.generateRequestStanza
  cases hPause : s.client.sm.pause_mode with
  | true => rfl
  | false =>
    have hSame : s.client.sm = { s.client.sm with pause_mode := false } := by
      rw [← hPause]
    simp only [Bool.false_eq_true, if_false, ← hSame]

theorem needSMRequest (h : Inv s) (hPhase : s.client.phase = .active) : Inv s.needSMRequest := by
  obtain ⟨hConn, hUp, hDown⟩ := h.of_active hPhase
  rw [needSMRequest_eq]
  cases s.client.sm.pause_mode with
  | false =>
    exact { h with
      connection := .joined hPhase hConn hUp hDown }
  | true =>
    exact { h with
      down_books := by simpa [counts] using h.down_books
      up_way := by simpa [stanzas] using h.up_way
      up_all := by simpa [stanzas] using h.up_all
      connection := .joined hPhase hConn (by simpa [resumes] using hUp) hDown }

/-- A request for an acknowledgement may go out before the stanza is put in the list. -/
theorem sendStanza_eq (s : Stream α) (e : α) :
    let t := { s with client := { s.client with
      sm := (s.client.sm.addUnacknowledgedStanza e).2
      sendList := s.client.sendList ++ [e]
      sent := s.client.sent ++ [e] } }
    s.sendStanza e = t ∨ s.sendStanza e = t.needSMRequest := by
  intro t
  unfold Stream.sendStanza
  simp only
  split
  · exact Or.inr rfl
  · exact Or.inl rfl

theorem sendStanza (h : Inv s) (hPhase : s.client.phase = .active) (e : α) :
    Inv (s.sendStanza e) := by
  obtain ⟨hConn, hUp, hDown⟩ := h.of_active hPhase
  obtain ⟨k, hBooks, hAcked⟩ := h.up_books
  have hAll := h.up_all hPhase
  have hDrop : (s.client.sent ++ [e]).drop s.peer.handled.length =
      stanzas s.up ++ (s.client.sendList ++ [e]) := by
    rw [List.drop_append_of_le_length hBooks.handled_prefix.length_le, ← hAll, List.append_assoc]
  have hInv : Inv { s with client := { s.client with
      sm := (s.client.sm.addUnacknowledgedStanza e).2
      sendList := s.client.sendList ++ [e]
      sent := s.client.sent ++ [e] } } :=
    { up_books := ⟨k, hBooks.write e, hAcked⟩
      down_books := h.down_books
      active := h.active
      up_way := hDrop ▸ List.prefix_rfl
      up_all := fun _ => hDrop.symm
      down_all := h.down_all
      connection := .joined hPhase hConn hUp hDown }
  rcases sendStanza_eq s e with hSame | hSame
  · rw [hSame]
    exact hInv
  · rw [hSame]
    exact hInv.needSMRequest hPhase

theorem flush (h : Inv s) : Inv s.flush := by
  unfold Stream.flush
  split
  · exact h
  · next e rest hList =>
    obtain ⟨hPhase, hConn, hUp, hDown⟩ : s.client.phase = .active ∧ s.peer.conn = s.client.conn ∧
        resumes s.up = [] ∧ grants s.down = [] := by
      cases h.connection with
      | connecting _ hNil => rw [hList] at hNil; cases hNil
      | asked _ hNil => rw [hList] at hNil; cases hNil
      | granted _ hNil => rw [hList] at hNil; cases hNil
      | joined hPhase hConn hUp hDown => exact ⟨hPhase, hConn, hUp, hDown⟩
    have hSame : stanzas (s.up ++ [.stanza e]) ++ rest = stanzas s.up ++ s.client.sendList := by
      rw [stanzas_append, hList, List.append_assoc]
      rfl
    exact { h with
      down_books := by simpa [counts] using h.down_books
      up_way := hSame ▸ h.up_way
      up_all := fun hPhase => hSame.trans (h.up_all hPhase)
      connection := .joined hPhase hConn (by simpa [resumes] using hUp) hDown }

theorem lose (h : Inv s) (n : Nat) : Inv (s.lose n) := by
  obtain ⟨k, hBooks, hAcked⟩ := h.up_books
  obtain ⟨k', hBooks'⟩ := h.down_books
  obtain ⟨hConn, hUp⟩ := h.conn_le
  have hTake := List.take_prefix n s.up
  exact {
    up_books := ⟨k, hBooks.lose (List.nil_sublist _), (Nat.le_add_right _ _).trans hAcked⟩
    down_books := ⟨k', hBooks'.lose (hTake.filterMap _).sublist⟩
    active := iff_of_false Bool.false_ne_true (fun hPhase => by cases hPhase)
    up_way := by
      show stanzas (s.up.take n) ++ [] <+: _
      rw [List.append_nil]
      exact (hTake.filterMap _).trans ((List.prefix_append _ _).trans h.up_way)
    up_all := fun hPhase => by cases hPhase
    down_all := fun hSame => absurd hSame (Nat.lt_succ_of_le hConn).ne
    connection := .connecting rfl rfl rfl (Nat.lt_succ_of_le hConn) fun c hc =>
      Nat.lt_succ_of_le (hUp c ((hTake.filterMap _).subset hc)) }

theorem login (h : Inv s) : Inv s.login := by
  unfold Stream.login
  split
  · next hLogin =>
    obtain ⟨k', hBooks'⟩ := h.down_books
    cases h.connection with
    | connecting hPhase hList hDown hConn hUp =>
      exact { h with
        down_books := ⟨k', by
          rw [counts_append]
          exact hBooks'.tell⟩
        active := iff_of_false (fun hActive => by
          have := h.active.mp hActive
          rw [hPhase] at this
          cases this) (fun hPhase => by cases hPhase)
        up_way := by simpa [stanzas] using h.up_way
        up_all := fun hPhase => by cases hPhase
        connection := .asked rfl hList hDown hConn s.up rfl hUp }
    | asked hPhase => rw [hPhase] at hLogin; cases hLogin.1
    | granted hPhase => rw [hPhase] at hLogin; cases hLogin.1
    | joined hPhase => rw [hPhase] at hLogin; cases hLogin.1
  · exact h

-- What the client reads

/-- What is read on a connection that is in use. -/
theorem handle_active (h : Inv s) (hPhase : s.client.phase = .active) {e : Element α}
    {down : List (Element α)} (hDown : s.down = e :: down)
    (hSmall : s.client.sm.state.send_queue.length < 2 ^ 32) :
    Inv ({ s with down := down }.handle e) := by
  obtain ⟨hConn, hUp, hGrants⟩ := h.of_active hPhase
  obtain ⟨k, hBooks, hAcked⟩ := h.up_books
  obtain ⟨k', hBooks'⟩ := h.down_books
  have hActive := h.active.mpr hPhase
  have hDownAll := h.down_all hConn
  rw [hDown] at hBooks hGrants hDownAll
  cases e with
  | stanza e =>
    obtain ⟨hNext, hRest⟩ := hBooks'.receive hDownAll.symm
    have hHandle : { s with down := down }.handle (.stanza e) =
        { s with
          client := { s.client with
            sm := s.client.sm.markStanzaHandled
            handled := s.client.handled ++ [e] }
          down := down } := by
      simp only [Stream.handle, Stream.stanzaReady, hActive, if_true]
    rw [hHandle]
    exact { h with
      up_books := ⟨k, hBooks, hAcked⟩
      down_books := ⟨k', hNext⟩
      down_all := fun _ => hRest.symm
      connection := .joined hPhase hConn hUp hGrants }
  | request =>
    simp only [Stream.handle, hActive, if_true]
    exact {
      up_books := ⟨k, hBooks, hAcked⟩
      down_books := ⟨k', by
        rw [counts_append]
        exact hBooks'.tell⟩
      active := h.active
      up_way := by simpa [stanzas] using h.up_way
      up_all := by simpa [stanzas] using h.up_all
      down_all := fun _ => hDownAll
      connection := .joined hPhase hConn (by simpa [resumes] using hUp) hGrants }
  | ack c =>
    obtain ⟨j, hNext, hj, -⟩ := hBooks.acknowledge hSmall
    simp only [Stream.handle, hActive, if_true]
    refine { h with
      up_books := ⟨j, hNext, ?_⟩
      down_books := ⟨k', ?_⟩
      active := ?_
      down_all := fun _ => hDownAll
      connection := .joined hPhase hConn hUp hGrants }
    · rw [StreamManagement.processAcknowledgement_eq]
      show s.client.acked + (s.client.sm.sm_stanzas_notify + s.client.sm.ackedBy c) + 0 ≤ j
      omega
    · rw [StreamManagement.processAcknowledgement_eq]
      exact hBooks'
    · rw [StreamManagement.processAcknowledgement_eq]
      exact h.active
  | resume c n =>
    exact { h with
      up_books := ⟨k, hBooks.lose (List.sublist_cons_self n _), hAcked⟩
      down_books := ⟨k', hBooks'⟩
      down_all := fun _ => hDownAll
      connection := .joined hPhase hConn hUp hGrants }
  | resumed c => cases hGrants

/-- The peer has resumed the stream. -/
theorem handle_resumed (h : Inv s) (hPhase : s.client.phase = .resuming)
    (hUp : s.up = []) (hConn : s.peer.conn = s.client.conn) {rest : List (Element α)}
    (hDown : s.down = .resumed s.peer.sm.state.received_count :: rest) (hRest : grants rest = [])
    (hSmall : s.client.sm.state.send_queue.length < 2 ^ 32) :
    Inv ({ s with down := rest }.handle (.resumed s.peer.sm.state.received_count)) := by
  obtain ⟨k, hBooks, hAcked⟩ := h.up_books
  obtain ⟨k', hBooks'⟩ := h.down_books
  have hDownAll := h.down_all hConn
  rw [hDown] at hBooks hDownAll
  rw [hUp] at hBooks'
  obtain ⟨j, hNext, hj, hAll⟩ := hBooks.acknowledge hSmall
  obtain ⟨hSent, hState, hActive, hNotify⟩ :=
    s.client.sm.resumed_resendAll s.peer.sm.state.received_count
  have hQueue : (s.client.sm.resumed s.peer.sm.state.received_count).resendAll.1 =
      s.client.sent.drop s.peer.handled.length := by
    rw [hSent, hNext.queue_eq, hAll rfl]
  have hHandle : { s with down := rest }.handle (.resumed s.peer.sm.state.received_count) =
      { s with
        client := { s.client with
          sm := (s.client.sm.resumed s.peer.sm.state.received_count).resendAll.2
          phase := .active }
        up := (s.client.sm.resumed s.peer.sm.state.received_count).resendAll.1.map .stanza
        down := rest } := by
    simp only [Stream.handle, hPhase, if_true, getSMResponse, hUp, List.nil_append]
  have hList : s.client.sendList = [] := by
    cases h.connection with
    | connecting _ hList => exact hList
    | asked _ hList => exact hList
    | granted _ hList => exact hList
    | joined hPhase' => rw [hPhase] at hPhase'; cases hPhase'
  have hWay : stanzas ((s.client.sm.resumed s.peer.sm.state.received_count).resendAll.1.map
      Element.stanza) ++ s.client.sendList = s.client.sent.drop s.peer.handled.length := by
    rw [stanzas_map, hQueue, hList, List.append_nil]
  rw [hHandle]
  refine {
    up_books := ⟨j, ?_, ?_⟩
    down_books := ⟨k', ?_⟩
    active := iff_of_true hActive rfl
    up_way := hWay ▸ List.prefix_rfl
    up_all := fun _ => hWay
    down_all := fun _ => hDownAll
    connection := .joined rfl hConn (resumes_map _) hRest }
  · rw [hState]
    exact hNext
  · show s.client.acked + _ ≤ j
    rw [hNotify]
    omega
  · rw [hState, StreamManagement.processAcknowledgement_eq, counts_map]
    exact hBooks'

theorem receive (h : Inv s) (hSmall : s.client.sm.state.send_queue.length < 2 ^ 32) :
    Inv s.receive := by
  unfold Stream.receive
  split
  · exact h
  · next e down hDown =>
    cases h.connection with
    | connecting _ _ hNil => rw [hDown] at hNil; cases hNil
    | asked _ _ hNil => rw [hDown] at hNil; cases hNil
    | granted hPhase _ hUp hConn rest hGrant hRest =>
      obtain ⟨rfl, rfl⟩ := List.cons_eq_cons.mp (hDown.symm.trans hGrant)
      exact h.handle_resumed hPhase hUp hConn hDown hRest hSmall
    | joined hPhase => exact h.handle_active hPhase hDown hSmall

-- What the peer writes and reads

/-- What the peer writes, if it is no stanza and does not resume the stream. -/
theorem peerSend (h : Inv s) {e : Element α} (hStanza : stanzas [e] = [])
    (hGrant : grants [e] = [])
    (hCount : counts [e] = [] ∨ counts [e] = [s.peer.sm.state.received_count]) :
    Inv (s.peerSend [e]) := by
  unfold Stream.peerSend
  split
  · next hSame =>
    obtain ⟨k, hBooks, hAcked⟩ := h.up_books
    exact { h with
      up_books := by
        refine ⟨k, ?_, hAcked⟩
        show Books _ _ _ _ _ (counts (s.down ++ [e])) k
        rw [counts_append]
        rcases hCount with hCount | hCount
        · rw [hCount, List.append_nil]
          exact hBooks
        · rw [hCount]
          exact hBooks.tell
      down_all := fun hConn => by
        show stanzas (s.down ++ [e]) = _
        rw [stanzas_append, hStanza, List.append_nil]
        exact h.down_all hConn
      connection := h.connection.snoc hSame hGrant rfl rfl }
  · exact h

theorem peerWrite (h : Inv s) (e : α) : Inv (s.peerWrite e) := by
  obtain ⟨k, hBooks⟩ := h.down_books
  have hWrite := hBooks.write e
  unfold Stream.peerWrite Stream.peerSend
  split
  · next hSame =>
    exact { h with
      up_books := by
        obtain ⟨k', hUp, hAcked⟩ := h.up_books
        refine ⟨k', ?_, hAcked⟩
        show Books _ _ _ _ _ (counts (s.down ++ [.stanza e])) k'
        rw [counts_append]
        exact (List.append_nil (counts s.down)).symm ▸ hUp
      down_books := ⟨k, hWrite⟩
      down_all := fun hConn => by
        show stanzas (s.down ++ [.stanza e]) = (s.peer.sent ++ [e]).drop _
        rw [stanzas_append, List.drop_append_of_le_length hBooks.handled_prefix.length_le,
          h.down_all hConn]
        rfl
      connection := h.connection.snoc hSame rfl rfl rfl }
  · next hOther =>
    exact { h with
      down_books := ⟨k, hWrite⟩
      down_all := fun hConn => absurd hConn hOther
      connection := by
        cases h.connection with
        | connecting hPhase hList hDown hConn hUp => exact .connecting hPhase hList hDown hConn hUp
        | asked hPhase hList hDown hConn old hUp hOld =>
          exact .asked hPhase hList hDown hConn old hUp hOld
        | granted _ _ _ hConn => exact absurd hConn hOther
        | joined _ hConn => exact absurd hConn hOther }

/-- The peer has read an element that does not ask for a connection. -/
theorem pop (h : Inv s) {e : Element α} {up : List (Element α)} (hUp : s.up = e :: up)
    (hResume : resumes [e] = []) {peer : Peer α} (hConn : peer.conn = s.peer.conn) :
    Connection { s with up := up, peer := peer } := by
  have hSame : resumes s.up = resumes up := by
    rw [hUp, ← List.singleton_append, resumes_append, hResume, List.nil_append]
  cases h.connection with
  | connecting hPhase hList hDown hLt hOld =>
    exact .connecting hPhase hList hDown (hConn.trans_lt hLt) (hSame ▸ hOld)
  | asked hPhase hList hDown hLt old hAsked hOld =>
    cases old with
    | nil =>
      obtain ⟨rfl, -⟩ := List.cons_eq_cons.mp (hUp.symm.trans hAsked)
      cases hResume
    | cons e' old =>
      obtain ⟨rfl, rfl⟩ := List.cons_eq_cons.mp (hUp.symm.trans hAsked)
      refine .asked hPhase hList hDown (hConn.trans_lt hLt) old rfl fun c hc => hOld c ?_
      rw [← List.singleton_append, resumes_append]
      exact List.mem_append_right _ hc
  | granted _ _ hNil => rw [hUp] at hNil; cases hNil
  | joined hPhase hLt hNone hDown => exact .joined hPhase (hConn.trans hLt) (hSame ▸ hNone) hDown

/-- The peer reads a stanza. -/
theorem peerHandle_stanza (h : Inv s) {e : α} {up : List (Element α)}
    (hUp : s.up = .stanza e :: up) : Inv ({ s with up := up }.peerHandle (.stanza e)) := by
  obtain ⟨k, hBooks, hAcked⟩ := h.up_books
  have hWay := h.up_way
  rw [hUp] at hWay
  obtain ⟨more, hMore⟩ := hWay
  obtain ⟨hNext, hRest⟩ := hBooks.receive hMore.symm
  refine { h with
    up_books := ⟨k, hNext, hAcked⟩
    down_books := ?_
    up_way := ⟨more, hRest.symm⟩
    up_all := fun hPhase => ?_
    connection := h.pop hUp rfl rfl }
  · obtain ⟨k', hBooks'⟩ := h.down_books
    rw [hUp] at hBooks'
    exact ⟨k', hBooks'⟩
  · have hAll := h.up_all hPhase
    rw [hUp] at hAll
    exact List.tail_eq_of_cons_eq (hAll.trans (hMore.symm.trans (congrArg _ hRest.symm)))

/-- The peer reads a request to resume the stream: on the connection of the client, if there is
none behind it. -/
theorem peerHandle_resume (h : Inv s) {conn : Nat} {c : UInt32} {up : List (Element α)}
    (hUp : s.up = .resume conn c :: up)
    (hSmall : s.peer.sm.state.send_queue.length < 2 ^ 32) :
    Inv ({ s with up := up }.peerHandle (.resume conn c)) := by
  obtain ⟨k, hBooks⟩ := h.down_books
  rw [hUp] at hBooks
  obtain ⟨j, hNext, -, hAll⟩ := hBooks.acknowledge hSmall
  obtain ⟨hSent, hState, -, -⟩ := s.peer.sm.resumed_resendAll c
  have hCount : (s.peer.sm.resumed c).resendAll.2.state.received_count =
      s.peer.sm.state.received_count := by
    rw [hState, StreamManagement.processAcknowledgement_eq]
  have hUpBooks : ∃ k, Books s.client.sent s.peer.handled s.client.sm.state.send_queue
      s.client.sm.state.server_last_handled
      (s.peer.sm.resumed c).resendAll.2.state.received_count (counts s.down) k ∧
        s.client.acked + s.client.sm.sm_stanzas_notify ≤ k := by
    rw [hCount]
    exact h.up_books
  have hDownBooks : ∃ k, Books s.peer.sent s.client.handled
      (s.peer.sm.resumed c).resendAll.2.state.send_queue
      (s.peer.sm.resumed c).resendAll.2.state.server_last_handled
      s.client.sm.state.received_count (counts up) k := by
    rw [hState]
    exact ⟨j, hNext⟩
  have hNotActive : s.client.phase ≠ .active := fun hPhase => by
    have hNone := (h.of_active hPhase).2.1
    rw [hUp] at hNone
    cases hNone
  have hWay : stanzas up ++ s.client.sendList <+: s.client.sent.drop s.peer.handled.length := by
    have hWay := h.up_way
    rw [hUp] at hWay
    exact hWay
  simp only [Stream.peerHandle, Stream.peerSend]
  by_cases hConn : conn = s.client.conn
  · -- the client has asked on its present connection, so nothing is behind the request
    obtain ⟨hPhase, hList, hDown, hUpNil, rfl⟩ : s.client.phase = .resuming ∧
        s.client.sendList = [] ∧ s.down = [] ∧ up = [] ∧
          c = s.client.sm.state.received_count := by
      cases h.connection with
      | connecting _ _ _ _ hOld =>
        rw [hUp] at hOld
        exact absurd hConn (hOld conn List.mem_cons_self).ne
      | asked hPhase hList hDown _ old hAsked hOld =>
        cases old with
        | nil =>
          obtain ⟨hSame, hNil⟩ := List.cons_eq_cons.mp (hUp.symm.trans hAsked)
          exact ⟨hPhase, hList, hDown, hNil, by cases hSame; rfl⟩
        | cons e old =>
          obtain ⟨rfl, -⟩ := List.cons_eq_cons.mp (hUp.symm.trans hAsked)
          exact absurd hConn (hOld conn List.mem_cons_self).ne
      | granted _ _ hNil => rw [hUp] at hNil; cases hNil
      | joined hPhase => exact absurd hPhase hNotActive
    rw [if_pos hConn]
    refine {
      up_books := ?_
      down_books := hDownBooks
      active := h.active
      up_way := hWay
      up_all := fun hPhase => absurd hPhase hNotActive
      down_all := fun _ => ?_
      connection := .granted hPhase hList hUpNil hConn
        ((s.peer.sm.resumed s.client.sm.state.received_count).resendAll.1.map .stanza) ?_
        (grants_map _) }
    · obtain ⟨k', hBooks', hAcked⟩ := hUpBooks
      refine ⟨k', ?_, hAcked⟩
      show Books _ _ _ _ _ (counts (s.down ++ (.resumed s.peer.sm.state.received_count ::
        (s.peer.sm.resumed _).resendAll.1.map .stanza))) k'
      rw [counts_append, counts_resumed, counts_map, ← hCount]
      exact hBooks'.tell
    · show stanzas (s.down ++ (.resumed _ :: (s.peer.sm.resumed _).resendAll.1.map .stanza)) = _
      rw [hDown, List.nil_append, stanzas_resumed, stanzas_map, hSent, hNext.queue_eq, hAll rfl]
    · show s.down ++ _ = _
      rw [hDown, hCount]
      rfl
  · rw [if_neg hConn]
    have hLt : conn < s.client.conn := by
      refine lt_of_le_of_ne (h.conn_le.2 conn ?_) hConn
      rw [hUp]
      exact List.mem_cons_self
    refine {
      up_books := hUpBooks
      down_books := hDownBooks
      active := h.active
      up_way := hWay
      up_all := fun hPhase => absurd hPhase hNotActive
      down_all := fun hSame => absurd hSame hConn
      connection := ?_ }
    cases h.connection with
    | connecting hPhase hList hDown _ hOld =>
      rw [hUp] at hOld
      exact .connecting hPhase hList hDown hLt fun c' hc' => hOld c' (List.mem_cons_of_mem _ hc')
    | asked hPhase hList hDown _ old hAsked hOld =>
      cases old with
      | nil =>
        obtain ⟨hSame, -⟩ := List.cons_eq_cons.mp (hUp.symm.trans hAsked)
        cases hSame
        exact absurd rfl hConn
      | cons e old =>
        obtain ⟨rfl, rfl⟩ := List.cons_eq_cons.mp (hUp.symm.trans hAsked)
        exact .asked hPhase hList hDown hLt old rfl fun c' hc' =>
          hOld c' (List.mem_cons_of_mem _ hc')
    | granted _ _ hNil => rw [hUp] at hNil; cases hNil
    | joined hPhase => exact absurd hPhase hNotActive

/-- An element that the peer has no use for. -/
theorem peerSkip (h : Inv s) {e : Element α} {up : List (Element α)} (hUp : s.up = e :: up)
    (hResume : resumes [e] = []) (hStanza : stanzas [e] = []) : Inv { s with up := up } := by
  have hWay : stanzas s.up = stanzas up := by
    rw [hUp, ← List.singleton_append, stanzas_append, hStanza, List.nil_append]
  have hPop : Connection { s with up := up, peer := s.peer } := h.pop hUp hResume rfl
  obtain ⟨k, hBooks⟩ := h.down_books
  refine { h with
    down_books := ⟨k, hBooks.lose ?_⟩
    up_way := hWay ▸ h.up_way
    up_all := hWay ▸ h.up_all
    connection := hPop }
  rw [hUp]
  exact (List.sublist_cons_self e up).filterMap _

theorem peerReceive (h : Inv s) (hSmall : s.peer.sm.state.send_queue.length < 2 ^ 32) :
    Inv s.peerReceive := by
  unfold Stream.peerReceive
  split
  · exact h
  · next e up hUp =>
    cases e with
    | stanza e => exact h.peerHandle_stanza hUp
    | request => exact (h.peerSkip hUp rfl rfl).peerSend rfl rfl (Or.inr rfl)
    | ack c =>
      obtain ⟨k, hBooks⟩ := h.down_books
      rw [hUp] at hBooks
      obtain ⟨j, hNext, -, -⟩ := hBooks.acknowledge hSmall
      have hCount := s.peer.sm.processAcknowledgement_received_count c
      have hSkip := h.peerSkip hUp rfl rfl
      exact { h with
        up_books := by
          obtain ⟨k', hBooks', hAcked⟩ := h.up_books
          exact ⟨k', hCount ▸ hBooks', hAcked⟩
        down_books := ⟨j, hNext⟩
        up_way := hSkip.up_way
        up_all := hSkip.up_all
        connection := h.pop hUp rfl rfl }
    | resume conn c => exact h.peerHandle_resume hUp hSmall
    | resumed c => exact h.peerSkip hUp rfl rfl

end Inv

/-! ## Runs -/

/-- Fewer than 2³² stanzas wait to be acknowledged, on both sides. -/
def Small (s : Stream α) : Prop :=
  s.client.sm.state.send_queue.length < 2 ^ 32 ∧ s.peer.sm.state.send_queue.length < 2 ^ 32

instance (s : Stream α) : Decidable (Small s) := inferInstanceAs (Decidable (_ ∧ _))

theorem Inv.step {s : Stream α} (h : Inv s) (op : Op α) (hSmall : Small s) :
    Inv (s.step op) := by
  cases op with
  | write e =>
    rw [Stream.step]
    split
    · next hPhase => exact h.sendStanza hPhase e
    · exact h
  | flush => exact h.flush
  | timer =>
    rw [Stream.step]
    split
    · next hActive => exact h.needSMRequest (h.active.mp hActive)
    · exact h
  | receive => exact h.receive hSmall.1
  | lose n => exact h.lose n
  | login => exact h.login
  | peerWrite e => exact h.peerWrite e
  | peerRequest => exact h.peerSend rfl rfl (Or.inl rfl)
  | peerReceive => exact h.peerReceive hSmall.2

theorem inv_of_run (id : List UInt16) {ops : List (Op α)}
    (hSmall : Run.StepsMeet Stream.step (fun s _ => Small s) (enabledStream id) ops) :
    ∀ s ∈ Run.states Stream.step (enabledStream id) ops, Inv s :=
  Run.inv_of_stepsMeet (fun _ op hInv hSmall => hInv.step op hSmall) (inv_enabledStream id) hSmall

/-- **Nothing is lost, given twice or out of order.** In every run, whatever connections are lost
and whenever, each side has been given a first part of what the other has written, and all of it
when the stream is in use and nothing is under way; and no more stanzas have been reported to be
acknowledged than the peer has been given. -/
theorem handled_once (id : List UInt16) {ops : List (Op α)}
    (hSmall : Run.StepsMeet Stream.step (fun s _ => Small s) (enabledStream id) ops) :
    ∀ s ∈ Run.states Stream.step (enabledStream id) ops,
      (s.peer.handled <+: s.client.sent ∧ s.client.handled <+: s.peer.sent) ∧
      s.client.acked ≤ s.peer.handled.length ∧
      (s.client.phase = .active → s.client.sendList = [] → s.up = [] → s.down = [] →
        s.peer.handled = s.client.sent ∧ s.client.handled = s.peer.sent) := by
  intro s hs
  have h := inv_of_run id hSmall s hs
  obtain ⟨k, hUp, hAcked⟩ := h.up_books
  obtain ⟨k', hDown⟩ := h.down_books
  refine ⟨⟨hUp.handled_prefix, hDown.handled_prefix⟩,
    (Nat.le_add_right _ _).trans (hAcked.trans hUp.k_le), fun hPhase hList hNoUp hNoDown => ?_⟩
  have hUpAll := h.up_all hPhase
  have hDownAll := h.down_all (h.of_active hPhase).1
  rw [hNoUp, hList] at hUpAll
  rw [hNoDown] at hDownAll
  exact ⟨hUp.handled_prefix.eq_of_length_le (List.drop_eq_nil_iff.mp hUpAll.symm),
    hDown.handled_prefix.eq_of_length_le (List.drop_eq_nil_iff.mp hDownAll.symm)⟩

/-! ## Recovery -/

/-- Nobody writes a stanza. -/
def Op.Quiet : Op α → Prop
  | .write _ | .peerWrite _ => False
  | _ => True

/-- Nothing has been written since, and the stream can still be resumed. -/
structure Quieter (s t : Stream α) : Prop where
  sent : t.client.sent = s.client.sent
  peer_sent : t.peer.sent = s.peer.sent
  queue : t.client.sm.state.send_queue.length ≤ s.client.sm.state.send_queue.length
  peer_queue : t.peer.sm.state.send_queue.length ≤ s.peer.sm.state.send_queue.length
  enabled : t.client.sm.state.enabled = s.client.sm.state.enabled
  resumption_id : t.client.sm.state.resumption_id = s.client.sm.state.resumption_id

namespace Quieter

variable {s t u : Stream α}

theorem refl (s : Stream α) : Quieter s s := ⟨rfl, rfl, le_rfl, le_rfl, rfl, rfl⟩

theorem trans (h : Quieter s t) (h' : Quieter t u) : Quieter s u :=
  ⟨h'.sent.trans h.sent, h'.peer_sent.trans h.peer_sent, h'.queue.trans h.queue,
    h'.peer_queue.trans h.peer_queue, h'.enabled.trans h.enabled,
    h'.resumption_id.trans h.resumption_id⟩

theorem small (h : Quieter s t) (hSmall : Small s) : Small t :=
  ⟨h.queue.trans_lt hSmall.1, h.peer_queue.trans_lt hSmall.2⟩

theorem needSMRequest (s : Stream α) : Quieter s s.needSMRequest := by
  rw [Inv.needSMRequest_eq]
  exact ⟨rfl, rfl, le_rfl, le_rfl, rfl, rfl⟩

theorem handle (s : Stream α) (e : Element α) : Quieter s (s.handle e) := by
  cases e with
  | stanza e =>
    unfold Stream.handle Stream.stanzaReady
    cases s.client.sm.isActive <;> exact ⟨rfl, rfl, le_rfl, le_rfl, rfl, rfl⟩
  | request =>
    unfold Stream.handle
    cases s.client.sm.isActive <;> exact ⟨rfl, rfl, le_rfl, le_rfl, rfl, rfl⟩
  | ack c =>
    unfold Stream.handle
    cases s.client.sm.isActive with
    | false => exact refl s
    | true =>
      exact ⟨rfl, rfl, s.client.sm.length_processAcknowledgement c, le_rfl,
        s.client.sm.processAcknowledgement_enabled c,
        s.client.sm.processAcknowledgement_resumption_id c⟩
  | resume conn c => exact refl s
  | resumed c =>
    simp only [Stream.handle]
    split
    · have hState := (s.client.sm.resumed_resendAll c).2.1
      refine ⟨rfl, rfl, ?_, le_rfl, ?_, ?_⟩
      · show (s.client.sm.resumed c).resendAll.2.state.send_queue.length ≤ _
        rw [hState]
        exact s.client.sm.length_processAcknowledgement c
      · exact (congrArg SMState.enabled hState).trans
          (s.client.sm.processAcknowledgement_enabled c)
      · exact (congrArg SMState.resumption_id hState).trans
          (s.client.sm.processAcknowledgement_resumption_id c)
    · exact refl s

theorem peerSend (s : Stream α) (es : List (Element α)) : Quieter s (s.peerSend es) := by
  unfold Stream.peerSend
  split <;> exact ⟨rfl, rfl, le_rfl, le_rfl, rfl, rfl⟩

theorem peerHandle (s : Stream α) (e : Element α) : Quieter s (s.peerHandle e) := by
  cases e with
  | stanza e => exact ⟨rfl, rfl, le_rfl, le_rfl, rfl, rfl⟩
  | request => exact peerSend s _
  | ack c => exact ⟨rfl, rfl, le_rfl, s.peer.sm.length_processAcknowledgement c, rfl, rfl⟩
  | resume conn c =>
    refine Quieter.trans (t := { s with peer := { s.peer with
      sm := (s.peer.sm.resumed c).resendAll.2, conn := conn } })
      ⟨rfl, rfl, le_rfl, ?_, rfl, rfl⟩ (peerSend _ _)
    show (s.peer.sm.resumed c).resendAll.2.state.send_queue.length ≤ _
    rw [(s.peer.sm.resumed_resendAll c).2.1]
    exact s.peer.sm.length_processAcknowledgement c
  | resumed c => exact refl s

theorem step (s : Stream α) {op : Op α} (hQuiet : op.Quiet) : Quieter s (s.step op) := by
  cases op with
  | write e => exact hQuiet.elim
  | flush =>
    rw [Stream.step, Stream.flush]
    split <;> exact ⟨rfl, rfl, le_rfl, le_rfl, rfl, rfl⟩
  | timer =>
    rw [Stream.step]
    split
    · exact needSMRequest s
    · exact refl s
  | receive =>
    rw [Stream.step, Stream.receive]
    split
    · exact refl s
    · next e down _ =>
      exact Quieter.trans (t := { s with down := down }) ⟨rfl, rfl, le_rfl, le_rfl, rfl, rfl⟩
        (handle _ e)
  | lose n => exact ⟨rfl, rfl, le_rfl, le_rfl, rfl, rfl⟩
  | login =>
    rw [Stream.step, Stream.login]
    split <;> exact ⟨rfl, rfl, le_rfl, le_rfl, rfl, rfl⟩
  | peerWrite e => exact hQuiet.elim
  | peerRequest => exact peerSend s _
  | peerReceive =>
    rw [Stream.step, Stream.peerReceive]
    split
    · exact refl s
    · next e up _ =>
      exact Quieter.trans (t := { s with up := up }) ⟨rfl, rfl, le_rfl, le_rfl, rfl, rfl⟩
        (peerHandle _ e)

theorem foldl {ops : List (Op α)} (hQuiet : ∀ op ∈ ops, op.Quiet) (s : Stream α) :
    Quieter s (ops.foldl Stream.step s) := by
  induction ops generalizing s with
  | nil => exact refl s
  | cons op ops ih =>
    exact (step s (hQuiet op List.mem_cons_self)).trans
      (ih (fun op hop => hQuiet op (List.mem_cons_of_mem _ hop)) _)

end Quieter

theorem Inv.foldl {s : Stream α} (h : Inv s) (hSmall : Small s) {ops : List (Op α)}
    (hQuiet : ∀ op ∈ ops, op.Quiet) : Inv (ops.foldl Stream.step s) := by
  induction ops generalizing s with
  | nil => exact h
  | cons op ops ih =>
    exact ih (h.step op hSmall) ((Quieter.step s (hQuiet op List.mem_cons_self)).small hSmall)
      fun op hop => hQuiet op (List.mem_cons_of_mem _ hop)

/-- Both sides are on a connection in use, with these stanzas under way and nothing else. -/
structure Draining (s : Stream α) (up down : List α) : Prop where
  phase : s.client.phase = .active
  sendList : s.client.sendList = []
  up_eq : s.up = up.map .stanza
  down_eq : s.down = down.map .stanza

/-- The client asks to resume on a new connection, and the peer does. -/
theorem exists_draining {s : Stream α} (hEnabled : s.client.sm.state.enabled = true)
    (hId : s.client.sm.state.isResumption = true) : ∃ up down,
    Draining ([.lose 0, .login, .peerReceive, .receive].foldl Stream.step s) up down := by
  let c := s.client.sm.state.received_count
  let p := s.peer.sm.state.received_count
  have hLogin : (s.lose 0).login =
      { s with
        client := { s.client with
          sm := s.client.sm.reset, sendList := [], phase := .resuming, conn := s.client.conn + 1 }
        up := [.resume (s.client.conn + 1) c]
        down := [] } :=
    if_pos ⟨rfl, hEnabled, hId⟩
  refine ⟨(s.client.sm.reset.resumed p).resendAll.1, (s.peer.sm.resumed c).resendAll.1, ?_⟩
  simp only [List.foldl_cons, List.foldl_nil, Stream.step]
  rw [hLogin]
  simp only [Stream.peerReceive, Stream.peerHandle, Stream.peerSend, if_true, List.nil_append,
    Stream.receive, Stream.handle, getSMResponse]
  exact ⟨rfl, rfl, rfl, rfl⟩

/-- What is under way is given to the two sides. -/
theorem Draining.drain {s : Stream α} {up down : List α} (h : Draining s up down) :
    ∃ ops : List (Op α), (∀ op ∈ ops, op.Quiet) ∧ Draining (ops.foldl Stream.step s) [] [] := by
  induction down generalizing s with
  | cons e down ih =>
    have hReceive : s.receive = { s with down := down.map .stanza }.stanzaReady e := by
      rw [Stream.receive, h.down_eq]
      rfl
    have hNext : Draining (s.step .receive) up down := by
      rw [Stream.step, hReceive]
      exact ⟨h.phase, h.sendList, h.up_eq, rfl⟩
    obtain ⟨ops, hQuiet, hDrained⟩ := ih hNext
    exact ⟨.receive :: ops, List.forall_mem_cons.mpr ⟨trivial, hQuiet⟩, hDrained⟩
  | nil =>
    induction up generalizing s with
    | nil => exact ⟨[], fun op hop => absurd hop List.not_mem_nil, h⟩
    | cons e up ih =>
      have hReceive : s.peerReceive =
          { s with up := up.map .stanza }.peerHandle (.stanza e) := by
        rw [Stream.peerReceive, h.up_eq]
        rfl
      have hNext : Draining (s.step .peerReceive) up [] := by
        rw [Stream.step, hReceive]
        exact ⟨h.phase, h.sendList, rfl, h.down_eq⟩
      obtain ⟨ops, hQuiet, hDrained⟩ := ih hNext
      exact ⟨.peerReceive :: ops, List.forall_mem_cons.mpr ⟨trivial, hQuiet⟩, hDrained⟩

/-- A stream stays one that can be resumed. -/
theorem resumable_step (s : Stream α) (op : Op α) :
    (s.step op).client.sm.state.enabled = s.client.sm.state.enabled ∧
      (s.step op).client.sm.state.resumption_id = s.client.sm.state.resumption_id := by
  by_cases hQuiet : op.Quiet
  · exact ⟨(Quieter.step s hQuiet).enabled, (Quieter.step s hQuiet).resumption_id⟩
  · cases op with
    | write e =>
      rw [Stream.step]
      split
      · rcases Inv.sendStanza_eq s e with hSame | hSame
        · rw [hSame]
          exact ⟨rfl, rfl⟩
        · rw [hSame]
          exact ⟨(Quieter.needSMRequest _).enabled, (Quieter.needSMRequest _).resumption_id⟩
      · exact ⟨rfl, rfl⟩
    | peerWrite e => exact ⟨(Quieter.peerSend _ _).enabled, (Quieter.peerSend _ _).resumption_id⟩
    | _ => exact absurd trivial hQuiet

/-- **Nothing is beyond recovery.** From every state of a run a new connection can be made on which
each side is given what is still missing, and then has all that the other has written. -/
theorem exists_all_handled {id : List UInt16} (hId : id ≠ []) {ops : List (Op α)}
    (hMeet : Run.StepsMeet Stream.step (fun s _ => Small s) (enabledStream id) ops) :
    ∀ s ∈ Run.states Stream.step (enabledStream id) ops, Small s →
      ∃ more : List (Op α), (∀ op ∈ more, op.Quiet) ∧
        (more.foldl Stream.step s).peer.handled = s.client.sent ∧
        (more.foldl Stream.step s).client.handled = s.peer.sent := by
  intro s hs hSmall
  have h := inv_of_run id hMeet s hs
  have hResumable : ∀ t ∈ Run.states Stream.step (enabledStream id) ops,
      t.client.sm.state.enabled = true ∧ t.client.sm.state.resumption_id = id :=
    Run.inv_of_forall
      (fun t op ht => ⟨(resumable_step t op).1.trans ht.1, (resumable_step t op).2.trans ht.2⟩)
      ⟨rfl, rfl⟩ ops
  obtain ⟨hEnabled, hSame⟩ := hResumable s hs
  have hResumption : s.client.sm.state.isResumption = true := by
    rw [SMState.isResumption, hSame]
    simpa using hId
  obtain ⟨up, down, hDraining⟩ := exists_draining hEnabled hResumption
  obtain ⟨rest, hQuiet, hDrained⟩ := hDraining.drain
  have hAllQuiet : ∀ op ∈ [.lose 0, .login, .peerReceive, .receive] ++ rest, Op.Quiet op := by
    intro op hop
    rcases List.mem_append.mp hop with hFirst | hRest
    · fin_cases hFirst <;> trivial
    · exact hQuiet op hRest
  refine ⟨[.lose 0, .login, .peerReceive, .receive] ++ rest, hAllQuiet, ?_⟩
  have hInv := h.foldl hSmall hAllQuiet
  have hSince := Quieter.foldl hAllQuiet s
  rw [List.foldl_append] at hInv hSince ⊢
  obtain ⟨k, hUp, -⟩ := hInv.up_books
  obtain ⟨k', hDown⟩ := hInv.down_books
  have hUpAll := hInv.up_all hDrained.phase
  have hDownAll := hInv.down_all (hInv.of_active hDrained.phase).1
  rw [hDrained.up_eq, hDrained.sendList] at hUpAll
  rw [hDrained.down_eq] at hDownAll
  exact ⟨(hUp.handled_prefix.eq_of_length_le (List.drop_eq_nil_iff.mp hUpAll.symm)).trans
      hSince.sent,
    (hDown.handled_prefix.eq_of_length_le (List.drop_eq_nil_iff.mp hDownAll.symm)).trans
      hSince.peer_sent⟩

/-- A stanza that is lost with its connection, and is sent again on the next one. -/
def lostOnce : List (Op Nat) :=
  [.write 7, .flush, .lose 0, .login, .peerReceive, .receive, .peerReceive]

theorem lostOnce_small :
    Run.StepsMeet Stream.step (fun s _ => Small s) (enabledStream [97]) lostOnce :=
  ⟨by decide, by decide, by decide, by decide, by decide, by decide, by decide, trivial⟩

theorem handled_once_lostOnce :
    (lostOnce.foldl Stream.step (enabledStream [97])).peer.handled = [7] :=
  ((handled_once [97] lostOnce_small _ (Run.foldl_mem_states _ _)).2.2 rfl rfl rfl rfl).1

/-- After the connection is lost. -/
theorem exists_all_handled_lost :
    let s := (lostOnce.take 3).foldl Stream.step (enabledStream [97])
    ∃ more : List (Op Nat), (∀ op ∈ more, op.Quiet) ∧
      (more.foldl Stream.step s).peer.handled = [7] ∧
      (more.foldl Stream.step s).client.handled = [] := by
  have hMeet : Run.StepsMeet Stream.step (fun s _ => Small s) (enabledStream [97])
      (lostOnce.take 3) := ⟨by decide, by decide, by decide, trivial⟩
  exact exists_all_handled (List.cons_ne_nil 97 []) hMeet _ (Run.foldl_mem_states _ _) (by decide)

end XMPP
