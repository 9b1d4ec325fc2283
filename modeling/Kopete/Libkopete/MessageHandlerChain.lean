import Kopete.Lib.LinkedList
import Kopete.Lib.QList
import Kopete.Lib.QMap
import Mathlib

/-!
# libkopete — the chain of message handlers

A chain is made from the factories there are: each gives a position, and mostly a handler.
The handlers are collected in lists by their position, in a map, and threaded list after
list by their pointers to the next one, with a terminator behind the last.

Main results:

* `find?_collect` — which handlers are at a position;
* `threaded_foldl` — what the threading leaves;
* `create_spec` — the order of the chain, and its destruction.
-/

namespace Kopete

/-- `MessageHandler`: its next one, and whether it is a `MessageHandlerChainTerminator`. -/
structure MessageHandler where
  next : Option ℕ
  terminator : Bool
deriving DecidableEq, Repr

/-- `MessageHandler::setNext`. -/
def MessageHandler.setNext (h : MessageHandler) (next : ℕ) : MessageHandler :=
  { h with next := some next }

/-- `MessageHandlerFactory`: what it answers for the session and the direction, a position and
whether there is to be a handler. -/
structure MessageHandlerFactory where
  filterPosition : ℤ
  create : Bool
deriving DecidableEq, Repr

/-- `MessageHandlerFactory::StageDoNotCreate`. -/
def MessageHandlerFactory.stageDoNotCreate : ℤ := -10000

/-- `MessageHandlerChain`, with the handlers there are. -/
structure MessageHandlerChain where
  heap : Heap MessageHandler
  first : Option ℕ

namespace MessageHandlerChain

open MessageHandlerFactory LinkedList

/-- The handlers by their position. -/
def collect : List MessageHandlerFactory → Heap MessageHandler → QMap ℤ (List ℕ) →
    Heap MessageHandler × QMap ℤ (List ℕ)
  | [], heap, handlers => (heap, handlers)
  | f :: fs, heap, handlers =>
    if f.filterPosition = stageDoNotCreate then collect fs heap handlers
    else if f.create then
      collect fs (heap.new ⟨none, false⟩) (handlers.append f.filterPosition heap.next)
    else collect fs heap handlers

/-- The chain while it is made, and the handler that was last added. -/
structure Threading where
  chain : MessageHandlerChain
  curr : Option ℕ

def Threading.add (s : Threading) (handler : ℕ) : Threading :=
  match s.curr with
  | some curr =>
    ⟨⟨s.chain.heap.modify curr fun h => h.setNext handler, s.chain.first⟩, some handler⟩
  | none => ⟨⟨s.chain.heap, some handler⟩, some handler⟩

/-- The two loops that add the handlers to the chain. -/
def addAll (handlers : QMap ℤ (List ℕ)) (s : Threading) : Threading :=
  handlers.entries.foldl (fun s e => e.2.foldl Threading.add s) s

/-- `MessageHandlerChain::create`. -/
def create (factories : List MessageHandlerFactory) (heap : Heap MessageHandler) :
    MessageHandlerChain :=
  let (heap, handlers) := collect factories heap .empty
  let s := addAll handlers ⟨⟨heap, none⟩, none⟩
  let terminator := s.chain.heap.next
  let s : Threading := ⟨⟨s.chain.heap.new ⟨none, true⟩, s.chain.first⟩, s.curr⟩
  (s.add terminator).chain

/-- `MessageHandlerChain::~MessageHandlerChain`: the handlers that are left, and those deleted. -/
def destroy (fuel : ℕ) (chain : MessageHandlerChain) : Option (Heap MessageHandler × List ℕ) :=
  free MessageHandler.next fuel chain.heap chain.first

/-- The factories that give a handler. -/
def creating (factories : List MessageHandlerFactory) : List MessageHandlerFactory :=
  factories.filter fun f => f.filterPosition ≠ stageDoNotCreate && f.create

/-- The handlers in the order of their factories, each with its position. -/
def created (factories : List MessageHandlerFactory) (heap : Heap MessageHandler) :
    List (ℤ × ℕ) :=
  ((creating factories).zipIdx heap.next).map fun e => (e.1.filterPosition, e.2)

/-! ## Collecting -/

/-- A factory gives no handler, or the next one. -/
theorem collect_cons (f : MessageHandlerFactory) (fs : List MessageHandlerFactory)
    (heap : Heap MessageHandler) (handlers : QMap ℤ (List ℕ)) :
    (creating (f :: fs) = creating fs ∧
      collect (f :: fs) heap handlers = collect fs heap handlers) ∨
    (creating (f :: fs) = f :: creating fs ∧
      collect (f :: fs) heap handlers =
        collect fs (heap.new ⟨none, false⟩) (handlers.append f.filterPosition heap.next)) := by
  unfold creating
  by_cases hStage : f.filterPosition = stageDoNotCreate
  · exact .inl ⟨List.filter_cons_of_neg (by simp [hStage]), if_pos hStage⟩
  · by_cases hCreate : f.create = true
    · refine .inr ⟨List.filter_cons_of_pos (by simp [hStage, hCreate]), ?_⟩
      rw [collect, if_neg hStage, if_pos hCreate]
    · refine .inl ⟨List.filter_cons_of_neg (by simp [hCreate]), ?_⟩
      rw [collect, if_neg hStage, if_neg hCreate]

/-- **The handlers at a position** are those made for it, in the order of their factories. -/
theorem find?_collect (fs : List MessageHandlerFactory) (heap : Heap MessageHandler)
    (handlers : QMap ℤ (List ℕ)) (k : ℤ) :
    ((collect fs heap handlers).2.find? k).getD [] =
      (handlers.find? k).getD [] ++ ((created fs heap).filter fun e => e.1 = k).map Prod.snd := by
  induction fs generalizing heap handlers with
  | nil => simp [collect, created, creating]
  | cons f fs ih =>
    rcases collect_cons f fs heap handlers with ⟨hNone, hSame⟩ | ⟨hSome, hNew⟩
    · rw [hSame, ih, created, created, hNone]
    · rw [hNew, ih, QMap.getD_find?_append]
      have hCreated : created (f :: fs) heap =
          (f.filterPosition, heap.next) :: created fs (heap.new ⟨none, false⟩) := by
        rw [created, hSome, List.zipIdx_cons]
        rfl
      rw [hCreated]
      by_cases hk : f.filterPosition = k
      · rw [if_pos hk.symm, List.filter_cons_of_pos (by simpa using hk), hk]
        simp
      · rw [if_neg (Ne.symm hk), List.filter_cons_of_neg (by simpa using hk)]

/-- What the collecting makes, and leaves as it is. -/
theorem heap_collect (fs : List MessageHandlerFactory) (heap : Heap MessageHandler)
    (handlers : QMap ℤ (List ℕ)) :
    (collect fs heap handlers).1.next = heap.next + (creating fs).length ∧
      ∀ q, (collect fs heap handlers).1.get? q =
        if heap.next ≤ q ∧ q < heap.next + (creating fs).length then some ⟨none, false⟩
        else heap.get? q := by
  induction fs generalizing heap handlers with
  | nil => exact ⟨rfl, fun q => (if_neg (by simp [creating])).symm⟩
  | cons f fs ih =>
    rcases collect_cons f fs heap handlers with ⟨hNone, hSame⟩ | ⟨hSome, hNew⟩
    · rw [hSame, hNone]
      exact ih heap handlers
    · obtain ⟨hNext, hGet⟩ :=
        ih (heap.new ⟨none, false⟩) (handlers.append f.filterPosition heap.next)
      rw [hNew, hSome, List.length_cons]
      rw [Heap.next_new] at hNext hGet
      refine ⟨by rw [hNext]; omega, fun q => ?_⟩
      rw [hGet, Heap.get?_new]
      by_cases hq : q = heap.next
      · rw [if_neg (by omega), if_pos hq, if_pos (by omega)]
      · rw [if_neg hq]
        refine if_congr ?_ rfl rfl
        omega

/-! ## Threading -/

/-- The handlers that have been added are linked in this order, and nothing else is changed. -/
structure Threaded (before : Heap MessageHandler) (s : Threading) (hs : List ℕ) : Prop where
  path : Path MessageHandler.next s.chain.heap s.chain.first hs
  curr : s.curr = hs.getLast?
  next : s.chain.heap.next = before.next
  others : ∀ q, q ∉ hs → s.chain.heap.get? q = before.get? q
  terminator : ∀ q, (s.chain.heap.get? q).map MessageHandler.terminator =
    (before.get? q).map MessageHandler.terminator

variable {before : Heap MessageHandler} {s : Threading} {hs : List ℕ}

theorem Threaded.add (h : Threaded before s hs) {p : ℕ} {b : Bool}
    (hNew : before.get? p = some ⟨none, b⟩) (hOther : p ∉ hs) :
    Threaded before (s.add p) (hs ++ [p]) := by
  have hNow : s.chain.heap.get? p = some ⟨none, b⟩ := (h.others p hOther).trans hNew
  rcases List.eq_nil_or_concat hs with rfl | ⟨ps, c, rfl⟩
  · have hNone : s.curr = none := h.curr
    have hAdd : s.add p = ⟨⟨s.chain.heap, some p⟩, some p⟩ := by rw [Threading.add, hNone]
    rw [hAdd]
    refine ⟨.cons hNow .nil, rfl, h.next, fun q _ => h.others q List.not_mem_nil, h.terminator⟩
  · rw [List.concat_eq_append] at h hOther ⊢
    have hCurr : s.curr = some c := by rw [h.curr, List.getLast?_concat]
    have hAdd : s.add p =
        ⟨⟨s.chain.heap.modify c fun h => h.setNext p, s.chain.first⟩, some p⟩ := by
      rw [Threading.add, hCurr]
    rw [hAdd]
    refine ⟨h.path.link hNow rfl hOther fun _ => rfl, List.getLast?_concat.symm, h.next, ?_, ?_⟩
    · intro q hq
      have hNe : q ≠ c := by
        rintro rfl
        exact hq (List.mem_append_left _ (List.mem_append_right _ (List.mem_singleton_self q)))
      exact (Heap.get?_modify_ne _ hNe).trans
        (h.others q fun hMem => hq (List.mem_append_left _ hMem))
    · intro q
      rw [← h.terminator]
      by_cases hSame : q = c
      · rw [hSame, Heap.get?_modify_self, Option.map_map]
        rfl
      · rw [Heap.get?_modify_ne _ hSame]

/-- **Threading**: one after the other. -/
theorem Threaded.foldl (h : Threaded before s hs) {ps : List ℕ}
    (hNew : ∀ p ∈ ps, ∃ b, before.get? p = some ⟨none, b⟩) (hNodup : (hs ++ ps).Nodup) :
    Threaded before (ps.foldl Threading.add s) (hs ++ ps) := by
  induction ps generalizing s hs with
  | nil => rwa [List.append_nil]
  | cons p ps ih =>
    rw [List.append_cons] at hNodup ⊢
    obtain ⟨b, hb⟩ := hNew p List.mem_cons_self
    have hOther : p ∉ hs := (QList.nodup_append_iff.1 hNodup.of_append_left).2
    exact ih (h.add hb hOther) (fun q hq => hNew q (List.mem_cons_of_mem p hq)) hNodup

theorem addAll_eq (handlers : QMap ℤ (List ℕ)) (s : Threading) :
    addAll handlers s = (handlers.flatten.map Prod.snd).foldl Threading.add s := by
  have hFlat : handlers.flatten.map Prod.snd = handlers.entries.flatMap Prod.snd := by
    rw [QMap.flatten, List.map_flatMap]
    congr 1
    funext e
    simp [Function.comp_def]
  rw [addAll, hFlat, List.foldl_flatMap]

/-! ## The chain -/

variable (factories : List MessageHandlerFactory) (heap : Heap MessageHandler)

theorem created_ids : (created factories heap).map Prod.snd =
    List.range' heap.next (creating factories).length := by
  rw [created, List.map_map, ← List.zipIdx_map_snd heap.next (creating factories)]
  rfl

/-- The handlers that were made, by position, and for one position by registration. -/
structure Ordered (hs : List (ℤ × ℕ)) : Prop where
  perm : hs.Perm (created factories heap)
  position : hs.Pairwise fun e e' => e.1 ≤ e'.1
  registration : ∀ k : ℤ, hs.filter (fun e => e.1 = k) =
    (created factories heap).filter fun e => e.1 = k

theorem ordered_collect : Ordered factories heap (collect factories heap .empty).2.flatten := by
  have hFilter : ∀ k : ℤ,
      (collect factories heap .empty).2.flatten.filter (fun e => e.1 = k) =
        (created factories heap).filter fun e => e.1 = k := by
    intro k
    rw [QMap.filter_flatten, find?_collect, QMap.find?_empty, Option.getD_none, List.nil_append,
      List.map_map]
    refine (List.map_congr_left fun e he => ?_).trans (List.map_id _)
    have hk : e.1 = k := of_decide_eq_true (List.mem_filter.1 he).2
    rw [Function.comp_apply, ← hk]
    rfl
  refine ⟨List.perm_iff_count.2 fun e => ?_, QMap.pairwise_flatten _, hFilter⟩
  -- an entry is counted among those of its position
  have hCount : ∀ l : List (ℤ × ℕ), (l.filter fun e' => e'.1 = e.1).count e = l.count e :=
    fun l => List.count_filter (decide_eq_true rfl)
  rw [← hCount, hFilter, hCount]

/-- A chain of these handlers and a terminator. -/
structure Made (hs : List ℕ) (terminator : ℕ) (chain : MessageHandlerChain) : Prop where
  path : Path MessageHandler.next chain.heap chain.first (hs ++ [terminator])
  handlers : ∀ p ∈ hs, (chain.heap.get? p).map MessageHandler.terminator = some false
  last : (chain.heap.get? terminator).map MessageHandler.terminator = some true
  others : ∀ q, q ∉ hs ++ [terminator] → chain.heap.get? q = heap.get? q

theorem made_create : Made heap ((collect factories heap .empty).2.flatten.map Prod.snd)
    (heap.next + (creating factories).length) (create factories heap) := by
  obtain ⟨hNext, hGet⟩ := heap_collect factories heap .empty
  obtain ⟨hPerm, -, -⟩ := ordered_collect factories heap
  have hIds := hPerm.map Prod.snd
  rw [created_ids] at hIds
  unfold create
  simp only [addAll_eq]
  generalize collect factories heap .empty = r at hNext hGet hIds
  obtain ⟨base, handlers⟩ := r
  simp only at hNext hGet hIds ⊢
  generalize handlers.flatten.map Prod.snd = hs at hIds
  have hMem : ∀ p, p ∈ hs ↔ heap.next ≤ p ∧ p < heap.next + (creating factories).length := by
    intro p
    rw [hIds.mem_iff, List.mem_range'_1]
  have hNew : ∀ p ∈ hs, base.get? p = some ⟨none, false⟩ := by
    intro p hp
    rw [hGet, if_pos ((hMem p).1 hp)]
  have hStart : Threaded base ⟨⟨base, none⟩, none⟩ [] :=
    ⟨.nil, rfl, rfl, fun _ _ => rfl, fun _ => rfl⟩
  have hAll := hStart.foldl (fun p hp => ⟨false, hNew p hp⟩)
    (hIds.nodup_iff.2 List.nodup_range')
  rw [List.nil_append] at hAll
  generalize hs.foldl Threading.add ⟨⟨base, none⟩, none⟩ = s at hAll
  have ht : s.chain.heap.next = heap.next + (creating factories).length := by
    rw [hAll.next, hNext]
  have hOther : s.chain.heap.next ∉ hs := by
    rw [hMem, ht]
    omega
  -- the terminator, beside the handlers
  have hFrame : ∀ p ∈ hs, (s.chain.heap.new ⟨none, true⟩).get? p = s.chain.heap.get? p :=
    fun p hp => Heap.get?_new_of_live _ (hAll.path.live p hp)
  have hWith : Threaded (s.chain.heap.new ⟨none, true⟩)
      ⟨⟨s.chain.heap.new ⟨none, true⟩, s.chain.first⟩, s.curr⟩ hs :=
    ⟨hAll.path.frame hFrame, hAll.curr, rfl, fun _ _ => rfl, fun _ => rfl⟩
  have hEnd := hWith.add (Heap.get?_new_self _) hOther
  rw [← ht]
  refine ⟨hEnd.path, ?_, ?_, ?_⟩
  · intro p hp
    rw [hEnd.terminator, hFrame p hp, hAll.terminator, hNew p hp]
    rfl
  · rw [hEnd.terminator, Heap.get?_new_self]
    rfl
  · intro q hq
    have hHandler : q ∉ hs := fun hMem => hq (List.mem_append_left _ hMem)
    have hTerminator : q ≠ s.chain.heap.next := by
      rintro rfl
      exact hq (List.mem_append_right _ (List.mem_singleton_self _))
    rw [hEnd.others q hq, Heap.get?_new, if_neg hTerminator, hAll.others q hHandler, hGet,
      if_neg fun hIn => hHandler ((hMem q).2 hIn)]

/-- **The chain.** From any factories it links the handlers that were made, each once, by
position, and those of one position in the order in which their factories were registered,
with one terminator behind them. Its destructor ends, deletes each of them once and leaves
what was there before. -/
theorem create_spec : ∃ (hs : List (ℤ × ℕ)) (terminator : ℕ),
    Ordered factories heap hs ∧
      Made heap (hs.map Prod.snd) terminator (create factories heap) ∧
      (hs.map Prod.snd ++ [terminator]).Nodup ∧
      ∀ fuel, hs.length < fuel → ∃ left,
        (create factories heap).destroy fuel = some (left, hs.map Prod.snd ++ [terminator]) ∧
          ∀ q, left.get? q = heap.get? q := by
  have hMade := made_create factories heap
  have hOrdered := ordered_collect factories heap
  refine ⟨_, _, hOrdered, hMade, hMade.path.nodup, fun fuel hFuel => ?_⟩
  have hLength : ∀ hs : List (ℤ × ℕ), hs.length < fuel →
      (hs.map Prod.snd ++ [heap.next + (creating factories).length]).length ≤ fuel := by
    intro hs hLess
    rw [List.length_append, List.length_map, List.length_singleton]
    exact hLess
  obtain ⟨left, hFree, hLeft⟩ := hMade.path.free (hLength _ hFuel)
  refine ⟨left, hFree, fun q => ?_⟩
  rw [hLeft]
  split
  case isFalse hq => exact hMade.others q hq
  case isTrue hq =>
    -- what is deleted was not there before
    refine (heap.fresh q ?_).symm
    rcases List.mem_append.1 hq with hq | hq
    · have hIds := (hOrdered.perm.map Prod.snd).mem_iff.1 hq
      rw [created_ids, List.mem_range'_1] at hIds
      exact hIds.1
    · rw [List.mem_singleton.1 hq]
      exact Nat.le_add_right _ _

end MessageHandlerChain

end Kopete
