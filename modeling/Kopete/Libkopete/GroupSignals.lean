import Kopete.Libkopete.MetaContactGroups

/-!
# libkopete — what a metacontact says about its groups

A metacontact that is added to a group, leaves one or moves between two of them emits a signal,
and whoever shows the metacontact in its groups goes by these signals alone. A listener that has
followed all of them has the metacontact in the groups it is in, with one exception: taken out of
the top level group while it is in no other, it says that it was added there and then that it was
removed.

Main results:

* `shownAfter_groupCall` — a listener ends up with the groups of the metacontact;
* `adds_groupCall` — what can be added by a call.
-/

namespace Kopete

namespace MetaContact

variable (mc : MetaContact)

/-! ## The signals -/

/-- A signal of a metacontact about its groups. -/
inductive GroupSignal where
  | addedToGroup (g : Group)
  | removedFromGroup (g : Group)
  | movedToGroup (source target : Group)
deriving DecidableEq, Repr

/-- The signals of `addToGroup`. -/
def addToGroupSignals (target : Group) : List GroupSignal :=
  if target ∈ mc.groups then []
  else if mc.temporary && target ≠ .temporary then []
  else
    (if .topLevel ∈ mc.groups then [.removedFromGroup .topLevel] else []) ++
      [.addedToGroup target]

/-- The signals of `removeFromGroup`. -/
def removeFromGroupSignals (group : Group) : List GroupSignal :=
  if group ∉ mc.groups || (mc.temporary && group = .temporary) then []
  else
    (if QList.removeAll mc.groups group = [] then [.addedToGroup .topLevel] else []) ++
      [.removedFromGroup group]

/-- The signals of `moveToGroup`. -/
def moveToGroupSignals (source target : Group) : List GroupSignal :=
  if source ∉ mc.groups then mc.addToGroupSignals target
  else if source = target then []
  else if target ∈ mc.groups then mc.removeFromGroupSignals source
  else if target = .offline then []
  else if mc.temporary && target ≠ .temporary then []
  else [.movedToGroup source target]

/-- The signals of the loop in `setTemporary`. -/
def leaveSignals : MetaContact → List Group → List GroupSignal
  | _, [] => []
  | mc, g :: gs =>
    if g ≠ .temporary then mc.removeFromGroupSignals g ++ leaveSignals (mc.removeFromGroup g) gs
    else leaveSignals mc gs

/-- The signals of `setTemporary`. -/
def setTemporarySignals (isTemporary : Bool) (group : Group) : List GroupSignal :=
  let mc : MetaContact := { mc with temporary := isTemporary }
  if isTemporary then
    mc.addToGroupSignals .temporary ++
      leaveSignals (mc.addToGroup .temporary) (mc.addToGroup .temporary).groups
  else mc.moveToGroupSignals .temporary group

def groupCallSignals : GroupCall → List GroupSignal
  | .addToGroup none => []
  | .addToGroup (some target) => mc.addToGroupSignals target
  | .moveToGroup none none => []
  | .moveToGroup none (some target) => mc.addToGroupSignals target
  | .moveToGroup (some source) none =>
    if source ∉ mc.groups then [] else mc.removeFromGroupSignals source
  | .moveToGroup (some source) (some target) => mc.moveToGroupSignals source target
  | .removeFromGroup none => []
  | .removeFromGroup (some group) => mc.removeFromGroupSignals group
  | .setTemporary isTemporary group => mc.setTemporarySignals isTemporary (group.getD .topLevel)

/-! ## A listener -/

/-- The groups that a listener has the metacontact in, after the signal. -/
def GroupSignal.shown (shows : Group → Prop) : GroupSignal → Group → Prop
  | .addedToGroup target, g => g = target ∨ shows g
  | .removedFromGroup group, g => g ≠ group ∧ shows g
  | .movedToGroup source target, g => g = target ∨ (g ≠ source ∧ shows g)

def shownAfter (signals : List GroupSignal) (shows : Group → Prop) : Group → Prop :=
  signals.foldl GroupSignal.shown shows

/-- The signal puts the metacontact into the group. -/
def GroupSignal.Adds (g : Group) : GroupSignal → Prop
  | .addedToGroup target => target = g
  | .removedFromGroup _ => False
  | .movedToGroup _ target => target = g

@[simp] theorem shownAfter_nil (shows : Group → Prop) : shownAfter [] shows = shows := rfl

@[simp] theorem shownAfter_cons (signal : GroupSignal) (signals : List GroupSignal)
    (shows : Group → Prop) :
    shownAfter (signal :: signals) shows = shownAfter signals (signal.shown shows) := rfl

theorem shownAfter_append (as bs : List GroupSignal) (shows : Group → Prop) :
    shownAfter (as ++ bs) shows = shownAfter bs (shownAfter as shows) :=
  List.foldl_append

/-- Each group is on its own. -/
theorem shown_congr {shows shows' : Group → Prop} {g : Group} (h : shows g ↔ shows' g)
    (signal : GroupSignal) : signal.shown shows g ↔ signal.shown shows' g := by
  cases signal <;> simp [GroupSignal.shown, h]

theorem shownAfter_congr {shows shows' : Group → Prop} {g : Group} (h : shows g ↔ shows' g)
    (signals : List GroupSignal) : shownAfter signals shows g ↔ shownAfter signals shows' g := by
  induction signals generalizing shows shows' with
  | nil => exact h
  | cons signal signals ih => exact ih (shown_congr h signal)

/-- A signal that comes twice changes nothing the second time. -/
theorem shown_shown (signal : GroupSignal) (shows : Group → Prop) (g : Group) :
    signal.shown (signal.shown shows) g ↔ signal.shown shows g := by
  cases signal with
  | addedToGroup target => simp [GroupSignal.shown]
  | removedFromGroup group => simp [GroupSignal.shown]
  | movedToGroup source target =>
    simp only [GroupSignal.shown]
    tauto

theorem shown_of_not_adds {signal : GroupSignal} {g : Group} (h : ¬ signal.Adds g)
    {shows : Group → Prop} (hShown : signal.shown shows g) : shows g := by
  cases signal with
  | addedToGroup target => exact hShown.resolve_left fun hSame => h hSame.symm
  | removedFromGroup group => exact hShown.2
  | movedToGroup source target => exact (hShown.resolve_left fun hSame => h hSame.symm).2

theorem shownAfter_of_not_adds {signals : List GroupSignal} {g : Group}
    (h : ∀ signal ∈ signals, ¬ signal.Adds g) {shows : Group → Prop}
    (hShown : shownAfter signals shows g) : shows g := by
  induction signals generalizing shows with
  | nil => exact hShown
  | cons signal signals ih =>
    have hRest := ih (fun signal' hSignal => h signal' (List.mem_cons_of_mem _ hSignal)) hShown
    exact shown_of_not_adds (h signal List.mem_cons_self) hRest

/-! ## Following the calls -/

theorem shownAfter_addToGroup (target g : Group) :
    shownAfter (mc.addToGroupSignals target) (· ∈ mc.groups) g ↔
      g ∈ (mc.addToGroup target).groups := by
  unfold addToGroupSignals addToGroup
  split
  · rfl
  split
  · rfl
  · rw [List.mem_append, List.mem_singleton]
    by_cases hTop : Group.topLevel ∈ mc.groups
    · rw [if_pos hTop, QList.mem_removeAll]
      simp only [List.singleton_append, shownAfter_cons, shownAfter_nil, GroupSignal.shown]
      tauto
    · rw [if_neg hTop, QList.removeAll_of_not_mem hTop]
      simp only [List.nil_append, shownAfter_cons, shownAfter_nil, GroupSignal.shown]
      tauto

/-- A group it is in alone is not the top level group. -/
theorem shownAfter_removeFromGroup {mc : MetaContact} {group : Group}
    (hAlone : QList.removeAll mc.groups group = [] → group ≠ .topLevel) (g : Group) :
    shownAfter (mc.removeFromGroupSignals group) (· ∈ mc.groups) g ↔
      g ∈ (mc.removeFromGroup group).groups := by
  unfold removeFromGroupSignals removeFromGroup
  split
  · rfl
  · simp only
    by_cases hEmpty : QList.removeAll mc.groups group = []
    · have hOnly : g ∈ mc.groups → g = group := by
        intro hg
        by_contra hOther
        have hStill := QList.mem_removeAll.mpr ⟨hg, hOther⟩
        rw [hEmpty] at hStill
        cases hStill
      have hNotTop := hAlone hEmpty
      simp only [if_pos hEmpty, List.singleton_append, shownAfter_cons, shownAfter_nil,
        GroupSignal.shown, List.mem_singleton]
      constructor
      · rintro ⟨hOther, hTop | hg⟩
        · exact hTop
        · exact absurd (hOnly hg) hOther
      · rintro rfl
        exact ⟨hNotTop.symm, .inl rfl⟩
    · simp only [if_neg hEmpty, List.nil_append, shownAfter_cons, shownAfter_nil,
        GroupSignal.shown, QList.mem_removeAll]
      exact and_comm

theorem shownAfter_moveToGroup {source : Group} (target : Group)
    (hAlone : target ∈ mc.groups → source ≠ target → QList.removeAll mc.groups source ≠ [])
    (g : Group) :
    shownAfter (mc.moveToGroupSignals source target) (· ∈ mc.groups) g ↔
      g ∈ (mc.moveToGroup source target).groups := by
  unfold moveToGroupSignals moveToGroup
  split
  · exact shownAfter_addToGroup mc target g
  split
  · rfl
  split
  · next hOther hTarget =>
    exact shownAfter_removeFromGroup (fun hEmpty => absurd hEmpty (hAlone hTarget hOther)) g
  split
  · rfl
  split
  · rfl
  · simp only [shownAfter_cons, shownAfter_nil, GroupSignal.shown, List.mem_append,
      QList.mem_removeAll, List.mem_singleton]
    tauto

/-- The loop over its groups leaves it in the temporary one, so never alone. -/
theorem shownAfter_leave (gs : List Group) {mc : MetaContact} (hMem : .temporary ∈ mc.groups)
    (g : Group) :
    shownAfter (mc.leaveSignals gs) (· ∈ mc.groups) g ↔
      g ∈ (gs.foldl (fun mc g => if g ≠ .temporary then mc.removeFromGroup g else mc)
        mc).groups := by
  induction gs generalizing mc with
  | nil => rfl
  | cons group gs ih =>
    rw [List.foldl_cons, leaveSignals]
    by_cases hOther : group = .temporary
    · rw [if_neg (not_not.mpr hOther), if_neg (not_not.mpr hOther)]
      exact ih hMem
    · rw [if_pos hOther, if_pos hOther, shownAfter_append]
      have hStill : Group.temporary ∈ QList.removeAll mc.groups group :=
        QList.mem_removeAll.mpr ⟨hMem, Ne.symm hOther⟩
      have hMem' : Group.temporary ∈ (mc.removeFromGroup group).groups := by
        rw [groups_leave hMem hOther]
        exact hStill
      refine Iff.trans (shownAfter_congr ?_ _) (ih hMem')
      exact shownAfter_removeFromGroup (fun hEmpty => absurd hEmpty (List.ne_nil_of_mem hStill)) g

theorem shownAfter_setTemporary (isTemporary : Bool) (group g : Group) :
    shownAfter (mc.setTemporarySignals isTemporary group) (· ∈ mc.groups) g ↔
      g ∈ (mc.setTemporary isTemporary group).groups := by
  cases isTemporary with
  | true =>
    let mc' : MetaContact := { mc with temporary := true }
    change shownAfter (mc'.addToGroupSignals .temporary ++
      leaveSignals (mc'.addToGroup .temporary) (mc'.addToGroup .temporary).groups)
        (· ∈ mc'.groups) g ↔ _
    rw [shownAfter_append]
    refine Iff.trans (shownAfter_congr (shownAfter_addToGroup mc' .temporary g) _) ?_
    exact shownAfter_leave _ mem_addToGroup_temporary g
  | false =>
    refine shownAfter_moveToGroup { mc with temporary := false } group ?_ g
    intro hTarget hOther
    exact List.ne_nil_of_mem (QList.mem_removeAll.mpr ⟨hTarget, Ne.symm hOther⟩)

/-- It is in no group but one. -/
theorem GroupsOk.eq_of_removeAll {mc : MetaContact} (h : mc.GroupsOk) {g : Group}
    (hEmpty : QList.removeAll mc.groups g = []) : mc.groups = [g] := by
  by_contra hElse
  have hGroups := GroupedList.groups_removeFromGroup h hElse
  exact (h.removeFromGroup g).nonempty (hGroups.trans hEmpty)

theorem removeFromGroupSignals_eq {mc : MetaContact} (h : mc.GroupsOk) {g : Group}
    (hMem : g ∈ mc.groups) (hElse : mc.groups ≠ [g]) :
    mc.removeFromGroupSignals g = [.removedFromGroup g] := by
  unfold removeFromGroupSignals
  rw [if_neg, if_neg fun hEmpty => hElse (h.eq_of_removeAll hEmpty), List.nil_append]
  simp only [hMem, not_true_eq_false, decide_false, Bool.false_or, Bool.and_eq_true,
    decide_eq_true_eq]
  rintro ⟨hTemporary, rfl⟩
  exact hElse (h.temporary hTemporary)

/-- The call does not take the metacontact out of the top level group while that is all it is
in. -/
def KeepsTopLevel (call : GroupCall) : Prop :=
  mc.groups = [.topLevel] →
    call ≠ .removeFromGroup (some .topLevel) ∧ call ≠ .moveToGroup (some .topLevel) none

/-- **Following the signals.** A listener that has the metacontact in its groups has it in its
groups after a call. -/
theorem shownAfter_groupCall {mc : MetaContact} (h : mc.GroupsOk) {call : GroupCall}
    (hKeeps : mc.KeepsTopLevel call) (g : Group) :
    shownAfter (mc.groupCallSignals call) (· ∈ mc.groups) g ↔ g ∈ (mc.groupCall call).groups := by
  match call with
  | .addToGroup none => rfl
  | .addToGroup (some target) => exact shownAfter_addToGroup mc target g
  | .moveToGroup none none => rfl
  | .moveToGroup none (some target) => exact shownAfter_addToGroup mc target g
  | .moveToGroup (some source) none =>
    change shownAfter (if source ∉ mc.groups then [] else mc.removeFromGroupSignals source)
      (· ∈ mc.groups) g ↔
        g ∈ (if source ∉ mc.groups then mc else mc.removeFromGroup source).groups
    split
    · rfl
    · refine shownAfter_removeFromGroup (fun hEmpty hTop => ?_) g
      subst hTop
      exact (hKeeps (h.eq_of_removeAll hEmpty)).2 rfl
  | .moveToGroup (some source) (some target) =>
    refine shownAfter_moveToGroup mc target (fun hTarget hOther => ?_) g
    exact List.ne_nil_of_mem (QList.mem_removeAll.mpr ⟨hTarget, Ne.symm hOther⟩)
  | .removeFromGroup none => rfl
  | .removeFromGroup (some group) =>
    refine shownAfter_removeFromGroup (fun hEmpty hTop => ?_) g
    subst hTop
    exact (hKeeps (h.eq_of_removeAll hEmpty)).1 rfl
  | .setTemporary isTemporary group => exact shownAfter_setTemporary mc isTemporary _ g

/-! ## What is added -/

variable {mc}

theorem adds_addToGroup {target g : Group} {signal : GroupSignal}
    (hSignal : signal ∈ mc.addToGroupSignals target) (hAdds : signal.Adds g) :
    g = target ∧ target ∉ mc.groups := by
  unfold addToGroupSignals at hSignal
  split at hSignal
  · cases hSignal
  · next hNew =>
    split at hSignal
    · cases hSignal
    · rcases List.mem_append.mp hSignal with hRemoved | hAdded
      · split at hRemoved
        · obtain rfl := List.mem_singleton.mp hRemoved
          exact hAdds.elim
        · cases hRemoved
      · obtain rfl := List.mem_singleton.mp hAdded
        exact ⟨Eq.symm hAdds, hNew⟩

theorem adds_removeFromGroup {group g : Group} {signal : GroupSignal}
    (hSignal : signal ∈ mc.removeFromGroupSignals group) (hAdds : signal.Adds g) :
    g = .topLevel := by
  unfold removeFromGroupSignals at hSignal
  split at hSignal
  · cases hSignal
  · rcases List.mem_append.mp hSignal with hAdded | hRemoved
    · split at hAdded
      · obtain rfl := List.mem_singleton.mp hAdded
        exact Eq.symm hAdds
      · cases hAdded
    · obtain rfl := List.mem_singleton.mp hRemoved
      exact hAdds.elim

theorem adds_leave (gs : List Group) {mc : MetaContact} {g : Group} {signal : GroupSignal}
    (hSignal : signal ∈ mc.leaveSignals gs) (hAdds : signal.Adds g) : g = .topLevel := by
  induction gs generalizing mc with
  | nil => cases hSignal
  | cons group gs ih =>
    rw [leaveSignals] at hSignal
    split at hSignal
    · rcases List.mem_append.mp hSignal with hHere | hRest
      · exact adds_removeFromGroup hHere hAdds
      · exact ih hRest
    · exact ih hSignal

theorem adds_moveToGroup {source target g : Group} {signal : GroupSignal}
    (hSignal : signal ∈ mc.moveToGroupSignals source target) (hAdds : signal.Adds g) :
    g ∉ mc.groups ∨ g = .topLevel := by
  unfold moveToGroupSignals at hSignal
  split at hSignal
  · obtain ⟨rfl, hNew⟩ := adds_addToGroup hSignal hAdds
    exact .inl hNew
  split at hSignal
  · cases hSignal
  split at hSignal
  · exact .inr (adds_removeFromGroup hSignal hAdds)
  · next hNew =>
    split at hSignal
    · cases hSignal
    split at hSignal
    · cases hSignal
    · obtain rfl := List.mem_singleton.mp hSignal
      obtain rfl : target = g := hAdds
      exact .inl hNew

/-- **What a call adds** is a group that the metacontact was not in, or one of two that have a
part of their own. -/
theorem adds_groupCall {call : GroupCall} {g : Group} {signal : GroupSignal}
    (hSignal : signal ∈ mc.groupCallSignals call) (hAdds : signal.Adds g) :
    g ∉ mc.groups ∨ g = .topLevel ∨ g = .temporary := by
  match call with
  | .addToGroup none => cases hSignal
  | .addToGroup (some target) | .moveToGroup none (some target) =>
    obtain ⟨rfl, hNew⟩ := adds_addToGroup hSignal hAdds
    exact .inl hNew
  | .moveToGroup none none => cases hSignal
  | .moveToGroup (some source) none =>
    simp only [groupCallSignals] at hSignal
    split at hSignal
    · cases hSignal
    · exact .inr (.inl (adds_removeFromGroup hSignal hAdds))
  | .moveToGroup (some source) (some target) =>
    exact (adds_moveToGroup hSignal hAdds).imp_right .inl
  | .removeFromGroup none => cases hSignal
  | .removeFromGroup (some group) => exact .inr (.inl (adds_removeFromGroup hSignal hAdds))
  | .setTemporary true group =>
    rcases List.mem_append.mp hSignal with hAdded | hLeft
    · exact .inr (.inr (adds_addToGroup hAdded hAdds).1)
    · exact .inr (.inl (adds_leave _ hLeft hAdds))
  | .setTemporary false group => exact (adds_moveToGroup hSignal hAdds).imp_right .inl

end MetaContact

end Kopete
