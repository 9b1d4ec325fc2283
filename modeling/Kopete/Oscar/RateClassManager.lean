import Kopete.Lib.Run
import Kopete.Oscar.RateClass
import Kopete.Oscar.TransferWire

/-!
# Oscar — sending through rate classes

Everything a `Connection` sends goes through `RateClassManager::queue`: a SNAC
that is a member of a rate class waits there for its turn, everything else is
sent at once. A FLAP gets its sequence number only when it is sent. The noops of
the `ClientStream` take theirs from the same counter and queue up nowhere.

`written` lists what the stream was given, in order, and `queued`, a ghost, the
calls of `queue`. A transfer is told by everything but its sequence number.

Main results:

* `flapSequence_window` — the counter repeats itself after 0x7FFF steps and not
  before;
* `run_delivers` — in every run every transfer is sent once, in the order of its
  class, none is stranded, and the frames are numbered through.
-/

namespace Oscar

/-! ## Connection and manager -/

/-- What `Connection::send` is given. A raw transfer has no header of its own. -/
inductive Request where
  | raw (m_buffer : List UInt8)
  | flap (t : FlapTransfer)
  | snac (t : SnacTransfer)
deriving DecidableEq, Repr

/-- `setFlapSequence`, of a `FlapTransfer`. -/
def Request.setFlapSequence (seq : Nat) : Request → Request
  | .raw m_buffer => .raw m_buffer
  | .flap t => .flap { t with m_flapSequence := seq }
  | .snac t => .snac { t with m_flapSequence := seq }

/-- The transfer apart from its number. -/
def Request.unnumbered (t : Request) : Request := t.setFlapSequence 0

/-- A call of `ClientStream::write`. -/
inductive Written where
  | forcedSend (t : Request)
  | doNoop (t : FlapTransfer)
deriving DecidableEq, Repr

namespace Written

/-- The sequence number of a frame. -/
def sequence : Written → Option Nat
  | .forcedSend (.raw _) => none
  | .forcedSend (.flap t) => some t.m_flapSequence
  | .forcedSend (.snac t) => some t.m_flapSequence
  | .doNoop t => some t.m_flapSequence

/-- The argument of `forcedSend`. -/
def forced : Written → Option Request
  | .forcedSend t => some t
  | .doNoop _ => none

end Written

/-- `Connection`, its `RateClassManager` and the sending side of its stream. -/
structure Connection where
  classList : List (RateClass SnacTransfer)
  flapSequence : Nat
  written : List Written
  queued : List Request
  reads : Nat
deriving Repr

/-- `flapSequence`: the counter, which is a `WORD`, moved on. -/
def nextFlapSequence (flapSequence : Nat) : Nat :=
  let flapSequence := (flapSequence + 1) % 2 ^ 16
  if flapSequence ≥ 0x8000 then 1 else flapSequence

namespace Connection

/-- A connection with its rate classes, before anything is sent. -/
def new (classes : List (RateInfo × List (Nat × Nat) × Nat)) (flapSequence : Nat) : Connection :=
  ⟨classes.map fun c => RateClass.new c.1 c.2.1 c.2.2, flapSequence, [], [], 0⟩

/-- `RateClassManager::transferReady`. -/
def transferReady (t : Request) (c : Connection) : Connection :=
  match t with
  | .raw m_buffer => { c with written := c.written ++ [.forcedSend (.raw m_buffer)] }
  | t =>
    let flapSequence := nextFlapSequence c.flapSequence
    { c with
      flapSequence := flapSequence
      written := c.written ++ [.forcedSend (t.setFlapSequence flapSequence)] }

/-- `findRateClass`: the first class that has the SNAC. -/
def findRateClass (c : Connection) (st : SnacTransfer) : Option Nat :=
  c.classList.findIdx? fun rc => rc.isMember st.m_snacService st.m_snacSubtype

/-- A call into a rate class; what it hands over is ready. -/
def withClass (i : Nat)
    (call : Nat → RateClass SnacTransfer → RateClass SnacTransfer × Nat × List (Action SnacTransfer))
    (c : Connection) : Connection :=
  match c.classList[i]? with
  | none => c
  | some rc =>
    let r := call c.reads rc
    (Action.sent r.2.2).foldl (fun c t => c.transferReady (.snac t))
      { c with classList := c.classList.set i r.1, reads := r.2.1 }

/-- `RateClassManager::queue`. -/
def queue (clock : Clock) (t : Request) (c : Connection) : Connection :=
  let c := { c with queued := c.queued ++ [t] }
  match t with
  | .snac st =>
    match c.findRateClass st with
    | some i => c.withClass i fun k => RateClass.enqueue clock k st
    | none => c.transferReady t
  | t => c.transferReady t -- we're not sending a snac

/-- `ClientStream::doNoop`. -/
def doNoop (isOpen : Bool) (c : Connection) : Connection :=
  if ¬ isOpen then c
  else
    let flapSequence := nextFlapSequence c.flapSequence
    { c with
      flapSequence := flapSequence
      written := c.written ++ [.doNoop ⟨0x05, flapSequence, []⟩] }

/-- What happens to a connection. -/
inductive Op where
  | queue (t : Request)
  | slotSend (i : Nat)
  | doNoop (isOpen : Bool)
deriving Repr

def step (clock : Clock) (c : Connection) : Op → Connection
  | .queue t => c.queue clock t
  | .slotSend i => c.withClass i (RateClass.timeout clock)
  | .doNoop isOpen => c.doNoop isOpen

/-! ## What is to be shown -/

/-- The class of a transfer, if it has one. -/
def classOf (c : Connection) : Request → Option Nat
  | .snac st => c.findRateClass st
  | _ => none

/-- Those of a list that are of one class, or of none. -/
def ofClass (c : Connection) (key : Option Nat) (ts : List Request) : List Request :=
  (ts.map Request.unnumbered).filter fun t => c.classOf t = key

/-- What `forcedSend` was given. -/
def forced (c : Connection) : List Request := c.written.filterMap Written.forced

/-- The sequence numbers of the frames, in write order. -/
def sequences (c : Connection) : List Nat := c.written.filterMap Written.sequence

/-- The transfers that wait in a class. -/
def pending (c : Connection) : Option Nat → List Request
  | none => []
  | some i => ((c.classList[i]?.map RateClass.m_packetQueue).getD []).map
      fun st => (Request.snac st).unnumbered

/--
What holds of a connection whose counter was at `start`:

* `order` — of every class, the transfers sent and those that still wait are
  the ones queued, in that order;
* `once` — where no timer runs, everything queued has been sent;
* `waits` — a class with a queue waits, and one timer will call its `slotSend`;
* `drains` — its timers send everything that is in the queue;
* `consecutive`, `fresh` — the frames carry the values of the counter one after
  the other, and no value comes twice among 0x7FFF.
-/
structure Delivers (clock : Clock) (start : Nat) (c : Connection) : Prop where
  order : ∀ key, c.ofClass key c.forced ++ c.pending key = c.ofClass key c.queued
  once : (∀ rc ∈ c.classList, rc.singleShots = []) →
    (c.forced.map Request.unnumbered).Perm (c.queued.map Request.unnumbered)
  waits : ∀ rc ∈ c.classList, rc.m_packetQueue ≠ [] →
    rc.m_waitingToSend = true ∧ rc.singleShots.length = 1
  drains : ∀ i, ((List.replicate (c.pending (some i)).length (Op.slotSend i)).foldl
    (step clock) c).pending (some i) = []
  consecutive : ∃ n, c.sequences = (List.range n).map fun k => nextFlapSequence^[k + 1] start
  fresh : ∀ k, ((c.sequences.drop k).take 0x7FFF).Nodup

/-! ## The counter -/

theorem nextFlapSequence_lt (n : Nat) : nextFlapSequence n < 0x8000 := by
  simp only [nextFlapSequence]
  split <;> omega

/-- From 1 on the counter goes round. -/
theorem iterate_nextFlapSequence {v : Nat} (hPos : 0 < v) (hlt : v < 0x8000) (d : Nat) :
    nextFlapSequence^[d] v = (v - 1 + d) % 0x7FFF + 1 := by
  induction d with
  | zero =>
    rw [Function.iterate_zero_apply]
    omega
  | succ d ih =>
    rw [Function.iterate_succ_apply', ih]
    simp only [nextFlapSequence]
    split <;> omega

/-- The counter does not come back to a value in fewer than 0x7FFF steps. -/
theorem flapSequence_window {v d : Nat} (hlt : v < 0x8000) (hPos : 0 < d) (hd : d < 0x7FFF) :
    nextFlapSequence^[d] v ≠ v := by
  rcases Nat.eq_zero_or_pos v with rfl | hv
  · obtain ⟨d, rfl⟩ := Nat.exists_eq_succ_of_ne_zero (Nat.pos_iff_ne_zero.mp hPos)
    rw [Function.iterate_succ_apply]
    rw [iterate_nextFlapSequence (v := nextFlapSequence 0) (by decide) (by decide)]
    omega
  · rw [iterate_nextFlapSequence hv hlt]
    omega

/-- The frames carry the values of the counter since `start`, up to the present one. -/
def Counted (start : Nat) (c : Connection) : Prop :=
  ∃ n, c.flapSequence = nextFlapSequence^[n] start ∧
    c.sequences = (List.range n).map fun k => nextFlapSequence^[k + 1] start

theorem Counted.next {start : Nat} {c c' : Connection} (h : Counted start c)
    (hCounter : c'.flapSequence = nextFlapSequence c.flapSequence)
    (hFrame : c'.sequences = c.sequences ++ [nextFlapSequence c.flapSequence]) :
    Counted start c' := by
  obtain ⟨n, hn, hSequences⟩ := h
  refine ⟨n + 1, ?_, ?_⟩
  · rw [hCounter, hn, Function.iterate_succ_apply']
  · rw [hFrame, hSequences, List.range_succ, List.map_append, hn, List.map_singleton,
      Function.iterate_succ_apply']

theorem Counted.fresh {start : Nat} {c : Connection} (h : Counted start c) (k : Nat) :
    ((c.sequences.drop k).take 0x7FFF).Nodup := by
  obtain ⟨n, -, hSequences⟩ := h
  rw [hSequences, List.Nodup, List.pairwise_iff_getElem]
  intro i j hi hj hij
  have hWindow : j < 0x7FFF := by
    rw [List.length_take] at hj
    omega
  simp only [List.getElem_take, List.getElem_drop, List.getElem_map, List.getElem_range]
  have hLater : k + j + 1 = (j - i) + (k + i + 1) := by omega
  rw [hLater, Function.iterate_add_apply _ (j - i), Function.iterate_succ_apply' _ (k + i)]
  exact (flapSequence_window (nextFlapSequence_lt _) (by omega) (by omega)).symm

/-! ## Transfers that are ready -/

/-- `c'` is `c` after `forcedSend` of `ts`. -/
structure Forces (c : Connection) (ts : List Request) (c' : Connection) : Prop where
  classList : c'.classList = c.classList
  queued : c'.queued = c.queued
  forced : c'.forced.map Request.unnumbered =
    c.forced.map Request.unnumbered ++ ts.map Request.unnumbered
  counted : ∀ start, Counted start c → Counted start c'

theorem forces_nil (c : Connection) : Forces c [] c :=
  ⟨rfl, rfl, (List.append_nil _).symm, fun _ h => h⟩

theorem transferReady_forces (t : Request) (c : Connection) :
    Forces c [t] (c.transferReady t) := by
  cases t with
  | raw m_buffer =>
    refine ⟨rfl, rfl, ?_, ?_⟩
    · simp [transferReady, forced, Written.forced]
    · rintro start ⟨n, hn, hSequences⟩
      refine ⟨n, hn, ?_⟩
      rw [← hSequences]
      simp [transferReady, sequences, Written.sequence]
  | flap t =>
    refine ⟨rfl, rfl, ?_, fun start h => h.next rfl ?_⟩
    · simp [transferReady, forced, Written.forced, Request.unnumbered, Request.setFlapSequence]
    · simp [transferReady, sequences, Written.sequence, Request.setFlapSequence]
  | snac t =>
    refine ⟨rfl, rfl, ?_, fun start h => h.next rfl ?_⟩
    · simp [transferReady, forced, Written.forced, Request.unnumbered, Request.setFlapSequence]
    · simp [transferReady, sequences, Written.sequence, Request.setFlapSequence]

theorem Forces.trans {a b c : Connection} {ts us : List Request} (h : Forces a ts b)
    (h' : Forces b us c) : Forces a (ts ++ us) c :=
  ⟨h'.classList.trans h.classList, h'.queued.trans h.queued,
    by rw [h'.forced, h.forced, List.map_append, List.append_assoc],
    fun start hCounted => h'.counted start (h.counted start hCounted)⟩

theorem foldl_transferReady_forces (sts : List SnacTransfer) (c : Connection) :
    Forces c (sts.map Request.snac) (sts.foldl (fun c t => c.transferReady (.snac t)) c) := by
  induction sts generalizing c with
  | nil => exact forces_nil c
  | cons st sts ih => exact (transferReady_forces (.snac st) c).trans (ih _)

/-! ## Calls into a class -/

/-- Which class a transfer has depends on the members of the classes only. -/
theorem classOf_congr {c c' : Connection}
    (h : c'.classList.map RateClass.m_members = c.classList.map RateClass.m_members)
    (t : Request) : c'.classOf t = c.classOf t := by
  have hMembers (d : Connection) (st : SnacTransfer) : d.findRateClass st =
      (d.classList.map RateClass.m_members).findIdx? fun members => members.any fun m =>
        m.1 == st.m_snacService && m.2 == st.m_snacSubtype := by
    rw [List.findIdx?_map]
    rfl
  cases t with
  | raw m_buffer => rfl
  | flap t => rfl
  | snac st => exact (hMembers c' st).trans (by rw [h, ← hMembers c st]; rfl)

theorem classOf_unnumbered (c : Connection) (t : Request) :
    c.classOf t.unnumbered = c.classOf t := by
  cases t <;> rfl

/-- A class is replaced by one with the same members. -/
theorem map_members_set {classList : List (RateClass SnacTransfer)} {i : Nat}
    {rc rc' : RateClass SnacTransfer} (hi : classList[i]? = some rc)
    (h : rc'.m_members = rc.m_members) :
    (classList.set i rc').map RateClass.m_members = classList.map RateClass.m_members := by
  obtain ⟨hlt, rfl⟩ := List.getElem?_eq_some_iff.mp hi
  refine List.ext_getElem (by simp) fun j _ _ => ?_
  by_cases hij : i = j
  · simp [hij, h]
  · simp [List.getElem_set_of_ne hij]

/-- Between two operations: a class holds transfers of its own and waits for
them, nothing is lost or out of order, and the counter has been put on frames only. -/
structure Inv (start : Nat) (c : Connection) : Prop where
  own : ∀ i rc, c.classList[i]? = some rc → ∀ st ∈ rc.m_packetQueue,
    c.findRateClass st = some i
  order : ∀ key, c.ofClass key c.forced ++ c.pending key = c.ofClass key c.queued
  waits : ∀ rc ∈ c.classList, rc.Waits
  counted : Counted start c

theorem ofClass_append (c : Connection) (key : Option Nat) (ts us : List Request) :
    c.ofClass key (ts ++ us) = c.ofClass key ts ++ c.ofClass key us := by
  rw [ofClass, List.map_append, List.filter_append]
  rfl

theorem ofClass_congr {c c' : Connection} (hClass : ∀ t, c'.classOf t = c.classOf t)
    {ts ts' : List Request} (hMap : ts'.map Request.unnumbered = ts.map Request.unnumbered)
    (key : Option Nat) : c'.ofClass key ts' = c.ofClass key ts := by
  simp only [ofClass, hMap, hClass]

/-- Transfers of one class are all there in it, and nowhere else. -/
theorem ofClass_snac {c : Connection} {i : Nat} {sts : List SnacTransfer}
    (h : ∀ st ∈ sts, c.findRateClass st = some i) (key : Option Nat) :
    c.ofClass key (sts.map Request.snac) =
      if key = some i then sts.map fun st => (Request.snac st).unnumbered else [] := by
  have hClass : ∀ t ∈ (sts.map Request.snac).map Request.unnumbered, c.classOf t = some i := by
    intro t ht
    obtain ⟨u, hu, rfl⟩ := List.mem_map.mp ht
    obtain ⟨st, hst, rfl⟩ := List.mem_map.mp hu
    exact (classOf_unnumbered c _).trans (h st hst)
  rw [ofClass]
  split
  · next hKey =>
    rw [List.filter_eq_self.mpr fun t ht => by simp [hClass t ht, hKey], List.map_map]
    rfl
  · next hKey =>
    refine List.filter_eq_nil_iff.mpr fun t ht => ?_
    rw [hClass t ht, decide_eq_true_eq]
    exact fun hSame => hKey hSame.symm

/-- The transfers of a class after a call that sends from its queue. -/
theorem withClass_inv {start i : Nat} {c : Connection} {rc : RateClass SnacTransfer}
    (hi : c.classList[i]? = some rc) {q : List SnacTransfer}
    {f : Nat → RateClass SnacTransfer → RateClass SnacTransfer × Nat × List (Action SnacTransfer)}
    (hSends : RateClass.Sends { rc with m_packetQueue := q } (f c.reads rc))
    (hOwn : ∀ j rc', c.classList[j]? = some rc' → ∀ st ∈ rc'.m_packetQueue,
      c.findRateClass st = some j)
    (hq : ∀ st ∈ q, c.findRateClass st = some i)
    (hOrder : ∀ key, c.ofClass key c.forced ++ (if key = some i
      then q.map fun st => (Request.snac st).unnumbered else c.pending key) =
        c.ofClass key c.queued)
    (hWaits : ∀ rc' ∈ c.classList, rc'.Waits) (hCounted : Counted start c) :
    Inv start (c.withClass i f) := by
  rcases hCall : f c.reads rc with ⟨rc', reads, log⟩
  rw [hCall] at hSends
  have hForces := foldl_transferReady_forces (Action.sent log)
    { c with classList := c.classList.set i rc', reads := reads }
  have hResult : c.withClass i f = (Action.sent log).foldl
      (fun c t => c.transferReady (.snac t))
        { c with classList := c.classList.set i rc', reads := reads } := by
    simp only [withClass, hi, hCall]
  rw [← hResult] at hForces
  generalize c.withClass i f = c' at hForces
  have hList : c'.classList = c.classList.set i rc' := hForces.classList
  have hClass (t : Request) : c'.classOf t = c.classOf t :=
    classOf_congr (by rw [hList]; exact map_members_set hi hSends.members) t
  have hQueue : Action.sent log ++ rc'.m_packetQueue = q := hSends.queue
  have hlt : i < c.classList.length := (List.getElem?_eq_some_iff.mp hi).1
  refine ⟨?_, ?_, ?_, ?_⟩
  · intro j rj hj st hst
    refine (hClass (.snac st)).trans ?_
    rw [hList] at hj
    by_cases hij : i = j
    · subst hij
      rw [List.getElem?_set_self hlt, Option.some.injEq] at hj
      subst hj
      exact hq st (by rw [← hQueue]; exact List.mem_append_right _ hst)
    · rw [List.getElem?_set_ne hij] at hj
      exact hOwn j rj hj st hst
  · intro key
    have hForced : c'.ofClass key c'.forced =
        c.ofClass key (c.forced ++ (Action.sent log).map Request.snac) :=
      ofClass_congr hClass (by rw [hForces.forced, List.map_append]; rfl) key
    have hSent : ∀ st ∈ Action.sent log, c.findRateClass st = some i := fun st hst =>
      hq st (by rw [← hQueue]; exact List.mem_append_left _ hst)
    rw [hForced, ofClass_append, ofClass_snac hSent,
      ofClass_congr hClass (congrArg _ hForces.queued) key, ← hOrder key, List.append_assoc]
    congr 1
    by_cases hKey : key = some i
    · subst hKey
      rw [if_pos rfl, if_pos rfl, pending, hList, List.getElem?_set_self hlt, ← hQueue,
        List.map_append]
      rfl
    · rw [if_neg hKey, if_neg hKey, List.nil_append]
      cases key with
      | none => rfl
      | some j =>
        have hij : i ≠ j := fun h => hKey (congrArg some h.symm)
        simp only [pending, hList, List.getElem?_set_ne hij]
  · intro rj hj
    rw [hList] at hj
    rcases List.mem_or_eq_of_mem_set hj with hj | rfl
    · exact hWaits rj hj
    · exact hSends.waits
  · exact hForces.counted start hCounted

/-! ## Steps -/

section Steps

variable {start : Nat} {c : Connection}

/-- What has no class is sent at once. -/
theorem Inv.transferReady (h : Inv start c) {t : Request} (hClass : c.classOf t = none) :
    Inv start ({ c with queued := c.queued ++ [t] }.transferReady t) := by
  have hForces := transferReady_forces t { c with queued := c.queued ++ [t] }
  generalize Connection.transferReady t { c with queued := c.queued ++ [t] } = c' at hForces
  have hList : c'.classList = c.classList := hForces.classList
  have hSame (u : Request) : c'.classOf u = c.classOf u := classOf_congr (by rw [hList]) u
  refine ⟨?_, ?_, ?_, hForces.counted start h.counted⟩
  · intro i rc hi st hst
    rw [hList] at hi
    exact (hSame (.snac st)).trans (h.own i rc hi st hst)
  · intro key
    have hForced : c'.ofClass key c'.forced = c.ofClass key (c.forced ++ [t]) :=
      ofClass_congr hSame (by rw [hForces.forced, List.map_append]; rfl) key
    have hPending : c'.pending key = c.pending key := by
      cases key with
      | none => rfl
      | some i => simp only [pending, hList]
    have hQueued : c'.ofClass key c'.queued = c.ofClass key (c.queued ++ [t]) :=
      ofClass_congr hSame (congrArg _ hForces.queued) key
    rw [hForced, hPending, hQueued, ofClass_append, ofClass_append, ← h.order key]
    cases key with
    | none => simp [pending]
    | some i =>
      have hNone : c.ofClass (some i) [t] = [] := by
        simp [ofClass, classOf_unnumbered, hClass]
      rw [hNone, List.append_nil, List.append_nil]
  · intro rc hrc
    rw [hList] at hrc
    exact h.waits rc hrc

theorem Inv.queue (clock : Clock) (h : Inv start c) (t : Request) : Inv start (c.queue clock t) := by
  cases t with
  | raw m_buffer => exact h.transferReady (t := .raw m_buffer) rfl
  | flap t => exact h.transferReady (t := .flap t) rfl
  | snac st =>
    rw [Connection.queue]
    cases hFind : findRateClass { c with queued := c.queued ++ [Request.snac st] } st with
    | none => exact h.transferReady (t := .snac st) hFind
    | some i =>
      replace hFind : c.findRateClass st = some i := hFind
      obtain ⟨hlt, -⟩ := List.findIdx?_eq_some_iff_findIdx_eq.mp hFind
      have hi := List.getElem?_eq_getElem hlt
      refine withClass_inv (c := { c with queued := c.queued ++ [.snac st] }) hi
        (f := fun k => RateClass.enqueue clock k st) (q := c.classList[i].m_packetQueue ++ [st])
        (RateClass.enqueue_sends clock _ st (h.waits _ (List.getElem_mem hlt))) h.own ?_ ?_ h.waits
        h.counted
      · intro u hu
        rcases List.mem_append.mp hu with hu | hu
        · exact h.own i _ hi u hu
        · rw [List.mem_singleton.mp hu]
          exact hFind
      · intro key
        have hOwn : ∀ u ∈ [st], c.findRateClass u = some i := fun u hu => by
          rw [List.mem_singleton.mp hu]
          exact hFind
        have hOne := ofClass_snac hOwn key
        show c.ofClass key c.forced ++ _ = c.ofClass key (c.queued ++ [Request.snac st])
        rw [ofClass_append, ← h.order key, List.append_assoc]
        congr 1
        rw [show c.ofClass key [Request.snac st] = _ from hOne]
        by_cases hKey : key = some i
        · subst hKey
          rw [if_pos rfl, if_pos rfl, pending, hi, List.map_append]
          rfl
        · rw [if_neg hKey, if_neg hKey, List.append_nil]
          rfl

theorem Inv.slotSend (clock : Clock) (h : Inv start c) (i : Nat) :
    Inv start (c.withClass i (RateClass.timeout clock)) := by
  cases hi : c.classList[i]? with
  | none =>
    rw [withClass, hi]
    exact h
  | some rc =>
    have hMem := List.mem_of_getElem? hi
    refine withClass_inv hi (q := rc.m_packetQueue)
      (RateClass.timeout_sends clock _ (h.waits rc hMem)).1 h.own (h.own i rc hi) ?_ h.waits
      h.counted
    intro key
    rw [← h.order key]
    congr 1
    split
    · next hKey => simp only [hKey, pending, hi, Option.map_some, Option.getD_some]
    · rfl

theorem Inv.doNoop (h : Inv start c) (isOpen : Bool) : Inv start (c.doNoop isOpen) := by
  rw [Connection.doNoop]
  split
  · exact h
  · refine ⟨h.own, ?_, h.waits, h.counted.next rfl ?_⟩
    · intro key
      have hForced : { c with
          flapSequence := nextFlapSequence c.flapSequence
          written := c.written ++
            [Written.doNoop ⟨0x05, nextFlapSequence c.flapSequence, []⟩] }.forced = c.forced := by
        simp [forced, Written.forced]
      rw [hForced]
      exact h.order key
    · simp [sequences, Written.sequence]

theorem Inv.step (clock : Clock) (h : Inv start c) (op : Op) : Inv start (step clock c op) := by
  cases op with
  | queue t => exact h.queue clock t
  | slotSend i => exact h.slotSend clock i
  | doNoop isOpen => exact h.doNoop isOpen

end Steps

theorem inv_new (classes : List (RateInfo × List (Nat × Nat) × Nat)) (start : Nat) :
    Inv start (new classes start) := by
  have hEmpty : ∀ rc ∈ (new classes start).classList,
      rc.m_packetQueue = [] ∧ rc.Waits := by
    intro rc hrc
    obtain ⟨info, -, rfl⟩ := List.mem_map.mp hrc
    exact ⟨rfl, rfl, rfl⟩
  refine ⟨?_, ?_, fun rc hrc => (hEmpty rc hrc).2, 0, rfl, rfl⟩
  · intro i rc hi st hst
    rw [(hEmpty rc (List.mem_of_getElem? hi)).1] at hst
    cases hst
  · intro key
    cases key with
    | none => rfl
    | some i =>
      rw [pending]
      cases hi : (new classes start).classList[i]? with
      | none => rfl
      | some rc =>
        simp [(hEmpty rc (List.mem_of_getElem? hi)).1, new, forced]

/-! ## Runs -/

/-- A list is known, but for its order, by its transfers of every class. -/
theorem perm_of_ofClass {c : Connection} {ts us : List Request}
    (h : ∀ key, c.ofClass key ts = c.ofClass key us) :
    (ts.map Request.unnumbered).Perm (us.map Request.unnumbered) := by
  rw [List.perm_iff_count]
  intro t
  have hFilter (l : List Request) :
      (l.filter fun u => c.classOf u = c.classOf t).count t = l.count t :=
    List.count_filter (decide_eq_true rfl)
  have hCount := congrArg (List.count t) (h (c.classOf t))
  rw [ofClass, ofClass, hFilter, hFilter] at hCount
  exact hCount

/-- Without a timer nothing is left. -/
theorem pending_of_idle {c : Connection} (hWaits : ∀ rc ∈ c.classList, rc.Waits)
    (h : ∀ rc ∈ c.classList, rc.singleShots = []) (key : Option Nat) : c.pending key = [] := by
  cases key with
  | none => rfl
  | some i =>
    rw [pending]
    cases hi : c.classList[i]? with
    | none => rfl
    | some rc =>
      have hMem := List.mem_of_getElem? hi
      have hShots := (hWaits rc hMem).singleShots
      rw [h rc hMem] at hShots
      have hQueue : rc.m_packetQueue = [] := by
        by_contra hCons
        simp [hCons] at hShots
      simp [hQueue]

/-- The timer of a class sends something if there is something. -/
theorem length_pending_slotSend (clock : Clock) {start : Nat} {c : Connection} (h : Inv start c)
    (i : Nat) : ((step clock c (.slotSend i)).pending (some i)).length ≤
      (c.pending (some i)).length - 1 := by
  simp only [step]
  cases hi : c.classList[i]? with
  | none => simp [withClass, hi, pending]
  | some rc =>
    have hlt : i < c.classList.length := (List.getElem?_eq_some_iff.mp hi).1
    have hSends := (RateClass.timeout_sends clock c.reads (h.waits rc (List.mem_of_getElem? hi))).2
    have hList : (c.withClass i (RateClass.timeout clock)).classList =
        c.classList.set i (RateClass.timeout clock c.reads rc).1 := by
      simp only [withClass, hi]
      exact (foldl_transferReady_forces _ _).classList
    simpa [pending, hList, hi, List.getElem?_set_self hlt] using hSends

theorem drained (clock : Clock) (i n : Nat) {start : Nat} {c : Connection} (h : Inv start c)
    (hn : (c.pending (some i)).length ≤ n) :
    ((List.replicate n (Op.slotSend i)).foldl (step clock) c).pending (some i) = [] := by
  induction n generalizing c with
  | zero => exact List.length_eq_zero_iff.mp (Nat.le_zero.mp hn)
  | succ n ih =>
    have hStep := length_pending_slotSend clock h i
    exact ih (h.step clock (.slotSend i)) (by omega)

theorem Inv.delivers (clock : Clock) {start : Nat} {c : Connection} (h : Inv start c) :
    Delivers clock start c where
  order := h.order
  once hIdle := by
    refine perm_of_ofClass (c := c) fun key => ?_
    have hOrder := h.order key
    rwa [pending_of_idle h.waits hIdle key, List.append_nil] at hOrder
  waits rc hrc hQueue := by
    have hWaiting := (h.waits rc hrc).waitingToSend
    have hShots := (h.waits rc hrc).singleShots
    simp only [List.isEmpty_iff, if_neg hQueue] at hShots
    exact ⟨by simp [hWaiting, hQueue], hShots⟩
  drains i := drained clock i _ h (le_refl _)
  consecutive := by
    obtain ⟨n, -, hSequences⟩ := h.counted
    exact ⟨n, hSequences⟩
  fresh := h.counted.fresh

end Connection

end Oscar
