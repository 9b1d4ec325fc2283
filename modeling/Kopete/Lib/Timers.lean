import Mathlib

/-!
# Timers of an event loop

Each owner has one single-shot timer. Starting it asks the event loop for an entry with a
new id, which it remembers; stopping it takes that entry back. The loop lets an entry
expire whenever it likes, and the timer listens only to the id it remembers.

Main results:

* `Sound.start`, `Sound.stop`, `Sound.expire` — the loop has the entries that the timers
  remember, and no others;
* `Sound.pending_le_one` — an owner never has two entries.
-/

namespace Timers

/-- An entry of the event loop. -/
structure Entry (ω : Type*) where
  id : Nat
  owner : ω
  interval : Nat
deriving DecidableEq, Repr

/-- The event loop, and the id that each timer remembers. -/
structure Loop (ω : Type*) where
  pending : List (Entry ω)
  timer : ω → Option Nat
  nextId : Nat

variable {ω : Type*} [DecidableEq ω]

namespace Loop

/-- No timer is running. -/
def idle : Loop ω := ⟨[], fun _ => none, 0⟩

variable (l : Loop ω)

def isActive (o : ω) : Bool := (l.timer o).isSome

/-- The entries of an owner. -/
def entriesOf (o : ω) : List (Entry ω) := l.pending.filter (·.owner = o)

def stop (o : ω) : Loop ω :=
  match l.timer o with
  | none => l
  | some id =>
    { l with
      pending := l.pending.filter (·.id ≠ id)
      timer := Function.update l.timer o none }

/-- A timer that is running is started anew. -/
def start (o : ω) (interval : Nat) : Loop ω :=
  let l := l.stop o
  { pending := l.pending ++ [⟨l.nextId, o, interval⟩]
    timer := Function.update l.timer o (some l.nextId)
    nextId := l.nextId + 1 }

/-- The entry `id` expires: whose timer goes off, and the loop after that. -/
def expire (id : Nat) : Option (ω × Loop ω) :=
  match l.pending.find? (·.id = id) with
  | none => none
  | some e => if l.timer e.owner = some id then some (e.owner, l.stop e.owner) else none

/-- The entries are those that the timers remember. -/
structure Sound : Prop where
  remembered : ∀ e ∈ l.pending, l.timer e.owner = some e.id
  present : ∀ o id, l.timer o = some id → ∃ e ∈ l.pending, e.id = id ∧ e.owner = o
  fresh : ∀ e ∈ l.pending, e.id < l.nextId
  nodup : (l.pending.map (·.id)).Nodup

variable {l}

omit [DecidableEq ω] in
theorem sound_idle : (idle : Loop ω).Sound :=
  ⟨by simp [idle], by simp [idle], by simp [idle], by simp [idle]⟩

@[simp] theorem timer_stop (o o' : ω) :
    (l.stop o).timer o' = if o' = o then none else l.timer o' := by
  unfold stop
  split
  · next hNone =>
    split
    · next hSame => rw [hSame, hNone]
    · rfl
  · exact Function.update_apply ..

@[simp] theorem nextId_stop (o : ω) : (l.stop o).nextId = l.nextId := by
  unfold stop
  split <;> rfl

/-- What is left is what was there for the others. -/
theorem Sound.mem_stop (h : l.Sound) {o : ω} {e : Entry ω} :
    e ∈ (l.stop o).pending ↔ e ∈ l.pending ∧ e.owner ≠ o := by
  unfold stop
  split
  · next hNone =>
    refine (and_iff_left_of_imp ?_).symm
    intro hMem hSame
    have hRemembered := h.remembered e hMem
    rw [hSame, hNone] at hRemembered
    cases hRemembered
  · next id hSome =>
    rw [List.mem_filter]
    refine and_congr_right ?_
    intro hMem
    have hRemembered := h.remembered e hMem
    rw [decide_eq_true_eq, not_iff_not]
    constructor
    · rintro rfl
      -- two owners do not remember one id
      obtain ⟨e', hMem', hId, hOwner⟩ := h.present o e.id hSome
      rw [← List.inj_on_of_nodup_map h.nodup hMem' hMem hId, hOwner]
    · intro hSame
      rw [hSame, hSome] at hRemembered
      exact (Option.some.inj hRemembered).symm

theorem Sound.stop (h : l.Sound) (o : ω) : (l.stop o).Sound where
  remembered e he := by
    obtain ⟨hMem, hOther⟩ := h.mem_stop.1 he
    rw [timer_stop, if_neg hOther]
    exact h.remembered e hMem
  present o' id hTimer := by
    rw [timer_stop] at hTimer
    split at hTimer
    · cases hTimer
    · next hOther =>
      obtain ⟨e, hMem, hId, hOwner⟩ := h.present o' id hTimer
      exact ⟨e, h.mem_stop.2 ⟨hMem, hOwner ▸ hOther⟩, hId, hOwner⟩
  fresh e he := by
    rw [nextId_stop]
    exact h.fresh e (h.mem_stop.1 he).1
  nodup := by
    unfold Loop.stop
    split
    · exact h.nodup
    · exact h.nodup.sublist (List.Sublist.map _ List.filter_sublist)

theorem Sound.start (h : l.Sound) (o : ω) (interval : Nat) : (l.start o interval).Sound := by
  have hStop := h.stop o
  refine ⟨?_, ?_, ?_, ?_⟩
  · intro e he
    unfold Loop.start at he ⊢
    rw [List.mem_append, List.mem_singleton] at he
    simp only [Function.update_apply]
    rcases he with he | rfl
    · rw [if_neg (h.mem_stop.1 he).2]
      exact hStop.remembered e he
    · rw [if_pos rfl]
  · intro o' id hTimer
    unfold Loop.start at hTimer ⊢
    simp only [Function.update_apply] at hTimer
    split at hTimer
    · next hSame =>
      refine ⟨_, List.mem_append_right _ (List.mem_singleton_self _), ?_, hSame.symm⟩
      exact Option.some.inj hTimer
    · obtain ⟨e, hMem, hBoth⟩ := hStop.present o' id hTimer
      exact ⟨e, List.mem_append_left _ hMem, hBoth⟩
  · intro e he
    unfold Loop.start at he ⊢
    rw [List.mem_append, List.mem_singleton] at he
    rcases he with he | rfl
    · exact Nat.lt_succ_of_lt (hStop.fresh e he)
    · exact Nat.lt_succ_self _
  · unfold Loop.start
    rw [List.map_append, List.nodup_append]
    refine ⟨hStop.nodup, by simp, ?_⟩
    intro id hId id' hId'
    obtain ⟨e, he, rfl⟩ := List.mem_map.1 hId
    simp only [List.map_cons, List.map_nil, List.mem_singleton] at hId'
    subst hId'
    exact Nat.ne_of_lt (hStop.fresh e he)

theorem Sound.expire (h : l.Sound) {id : Nat} {o : ω} {l' : Loop ω}
    (hExpire : l.expire id = some (o, l')) : l'.Sound ∧ l' = l.stop o ∧ l.isActive o = true := by
  unfold Loop.expire at hExpire
  split at hExpire
  · cases hExpire
  · next e _ =>
    split at hExpire
    · next hTimer =>
      obtain ⟨rfl, rfl⟩ := Prod.mk.inj (Option.some.inj hExpire)
      exact ⟨h.stop _, rfl, by simp [isActive, hTimer]⟩
    · cases hExpire

/-- **One timer, one entry.** -/
theorem Sound.pending_le_one (h : l.Sound) (o : ω) : (l.entriesOf o).length ≤ 1 := by
  have hIds : ∀ e ∈ l.entriesOf o, l.timer o = some e.id := by
    intro e he
    obtain ⟨hMem, hOwner⟩ := List.mem_filter.1 he
    rw [← of_decide_eq_true hOwner]
    exact h.remembered e hMem
  have hNodup : ((l.entriesOf o).map (·.id)).Nodup :=
    h.nodup.sublist (List.Sublist.map _ List.filter_sublist)
  match hEntries : l.entriesOf o with
  | [] => exact Nat.zero_le 1
  | [e] => exact Nat.le_refl 1
  | e :: e' :: rest =>
    have hFirst := hIds e (by simp [hEntries])
    have hSecond := hIds e' (by simp [hEntries])
    rw [hFirst] at hSecond
    rw [hEntries] at hNodup
    simp [Option.some.inj hSecond] at hNodup

/-- A timer that is not running does not go off. -/
theorem expire_of_inactive {o : ω} (hInactive : l.isActive o = false) (id : Nat) (l' : Loop ω) :
    l.expire id ≠ some (o, l') := by
  intro hExpire
  unfold expire at hExpire
  split at hExpire
  · cases hExpire
  · next e _ =>
    split at hExpire
    · next hTimer =>
      obtain ⟨rfl, -⟩ := Prod.mk.inj (Option.some.inj hExpire)
      simp [isActive, hTimer] at hInactive
    · cases hExpire

@[simp] theorem isActive_stop (o o' : ω) :
    (l.stop o).isActive o' = if o' = o then false else l.isActive o' := by
  unfold isActive
  rw [timer_stop]
  split <;> rfl

@[simp] theorem isActive_start (o o' : ω) (interval : Nat) :
    (l.start o interval).isActive o' = if o' = o then true else l.isActive o' := by
  unfold isActive start
  simp only [Function.update_apply, timer_stop]
  split
  · rfl
  · next hOther => rfl

end Loop

end Timers
