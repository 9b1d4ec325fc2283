import Kopete.GroupWise.PrivacyManager
import Kopete.Lib.ListEdits

/-!
# GroupWise — all privacy settings at once

`setPrivacy` compares the settings it gets with those there are, and starts a task for the policy
and one for every DN that is to go or to come. The tasks finish in any order.

Main results:

* `allowList_foldl`, `denyList_foldl` — what finished tasks do to a list, as edits of it;
* `setPrivacy_settles` — the settings there are in the end.
-/

namespace GroupWise

open QList

variable {δ : Type} [DecidableEq δ]

/-- A task of the manager. -/
inductive PrivacyTask (δ : Type)
  | defaultPolicy (defaultDeny : Bool)
  | item (pit : PrivacyItemTask δ)

namespace PrivacyManager

/-! ## Tasks -/

/-- The slots, for a task that has succeeded; that of the policy is `slotDefaultPolicyChanged`. -/
def finishTask (m : PrivacyManager δ) : PrivacyTask δ → PrivacyManager δ
  | .defaultPolicy defaultDeny => { m with m_defaultDeny := defaultDeny }
  | .item pit => m.finish pit

/-- `difference`. -/
def difference (lhs rhs : List δ) : List δ := lhs.filter fun dn => dn ∉ rhs

/-- `setPrivacy`: the tasks it starts. -/
def setPrivacy (m : PrivacyManager δ) (defaultIsDeny : Bool) (allowList denyList : List δ) :
    List (PrivacyTask δ) :=
  let allowsToRemove := difference m.m_allowList allowList
  let denysToRemove := difference m.m_denyList denyList
  let allowsToAdd := difference allowList m.m_allowList
  let denysToAdd := difference denyList m.m_denyList
  (if defaultIsDeny ≠ m.m_defaultDeny then [.defaultPolicy defaultIsDeny] else []) ++
    (allowsToRemove.map removeAllow ++ denysToRemove.map removeDeny ++ allowsToAdd.map addAllow ++
      denysToAdd.map addDeny).map .item

/-! ## Tasks as edits -/

/-- What a task does to the allow list. -/
def allowEdit : PrivacyTask δ → Option (Edit δ)
  | .item ⟨.slotAllowAdded, dn⟩ => some (.append dn)
  | .item ⟨.slotAllowRemoved, dn⟩ => some (.removeAll dn)
  | _ => none

/-- What a task does to the deny list. -/
def denyEdit : PrivacyTask δ → Option (Edit δ)
  | .item ⟨.slotDenyAdded, dn⟩ => some (.append dn)
  | .item ⟨.slotDenyRemoved, dn⟩ => some (.removeAll dn)
  | _ => none

theorem allowList_foldl (tasks : List (PrivacyTask δ)) (m : PrivacyManager δ) :
    (tasks.foldl finishTask m).m_allowList =
      (tasks.filterMap allowEdit).foldl edit m.m_allowList := by
  induction tasks generalizing m with
  | nil => rfl
  | cons t tasks ih =>
    rw [List.foldl_cons, ih]
    rcases t with _ | ⟨_ | _ | _ | _, dn⟩ <;> rfl

theorem denyList_foldl (tasks : List (PrivacyTask δ)) (m : PrivacyManager δ) :
    (tasks.foldl finishTask m).m_denyList =
      (tasks.filterMap denyEdit).foldl edit m.m_denyList := by
  induction tasks generalizing m with
  | nil => rfl
  | cons t tasks ih =>
    rw [List.foldl_cons, ih]
    rcases t with _ | ⟨_ | _ | _ | _, dn⟩ <;> rfl

/-- The edits that make a list into another. -/
def edits (old new : List δ) : List (Edit δ) :=
  (difference old new).map .removeAll ++ (difference new old).map .append

/-- **The tasks** make each list into the one that is asked for. -/
theorem edits_setPrivacy (m : PrivacyManager δ) (defaultIsDeny : Bool)
    (allowList denyList : List δ) :
    (m.setPrivacy defaultIsDeny allowList denyList).filterMap allowEdit =
        edits m.m_allowList allowList ∧
      (m.setPrivacy defaultIsDeny allowList denyList).filterMap denyEdit =
        edits m.m_denyList denyList := by
  have hPolicy : ∀ f : PrivacyTask δ → Option (Edit δ), (∀ b, f (.defaultPolicy b) = none) →
      (if defaultIsDeny ≠ m.m_defaultDeny then [PrivacyTask.defaultPolicy defaultIsDeny]
        else []).filterMap f = [] := by
    intro f hf
    split
    · simp [hf]
    · rfl
  have hNone : ∀ (f : δ → Option (Edit δ)) (l : List δ), (∀ dn, f dn = none) →
      l.filterMap f = [] := fun f l hf => List.filterMap_eq_nil_iff.mpr fun dn _ => hf dn
  have hSome : ∀ (f : δ → Option (Edit δ)) (g : δ → Edit δ) (l : List δ),
      (∀ dn, f dn = some (g dn)) → l.filterMap f = l.map g := by
    intro f g l hf
    rw [show f = some ∘ g from funext hf, List.filterMap_eq_map]
  unfold setPrivacy edits
  simp only [List.filterMap_append, List.map_append, List.map_map, List.filterMap_map]
  rw [hPolicy allowEdit fun _ => rfl, hPolicy denyEdit fun _ => rfl]
  constructor
  · rw [hSome (_ ∘ _ ∘ removeAllow) .removeAll _ fun _ => rfl,
      hNone (_ ∘ _ ∘ removeDeny) _ fun _ => rfl, hSome (_ ∘ _ ∘ addAllow) .append _ fun _ => rfl,
      hNone (_ ∘ _ ∘ addDeny) _ fun _ => rfl,
      List.nil_append, List.append_nil, List.append_nil]
  · rw [hNone (_ ∘ _ ∘ removeAllow) _ fun _ => rfl,
      hSome (_ ∘ _ ∘ removeDeny) .removeAll _ fun _ => rfl,
      hNone (_ ∘ _ ∘ addAllow) _ fun _ => rfl, hSome (_ ∘ _ ∘ addDeny) .append _ fun _ => rfl,
      List.nil_append, List.nil_append, List.append_nil]

theorem independent_edits {old new : List δ} (hOld : old.Nodup) (hNew : new.Nodup) :
    Independent old (edits old new) := by
  have hAppend : ∀ a, Edit.append a ∈ edits old new ↔ a ∈ new ∧ a ∉ old := by
    intro a
    simp [edits, difference]
  have hRemove : ∀ a, Edit.removeAll a ∈ edits old new ↔ a ∈ old ∧ a ∉ new := by
    intro a
    simp [edits, difference]
  refine ⟨fun a ha hb => ?_, ?_, fun a ha => ((hAppend a).mp ha).2⟩
  · exact ((hRemove a).mp hb).2 ((hAppend a).mp ha).1
  · refine List.nodup_append.mpr ⟨?_, ?_, ?_⟩
    · exact (hOld.filter _).map fun a b h => Edit.removeAll.inj h
    · exact (hNew.filter _).map fun a b h => Edit.append.inj h
    · intro e he e' he'
      obtain ⟨a, -, rfl⟩ := List.mem_map.mp he
      obtain ⟨b, -, rfl⟩ := List.mem_map.mp he'
      exact fun h => nomatch h

/-- A list that is edited so, in any order, is the other one as a set. -/
theorem edited {old new : List δ} (hOld : old.Nodup) (hNew : new.Nodup) {es : List (Edit δ)}
    (hOrder : es.Perm (edits old new)) :
    (es.foldl edit old).Nodup ∧ ∀ dn, dn ∈ es.foldl edit old ↔ dn ∈ new := by
  have hIndependent := (independent_edits hOld hNew).perm hOrder
  refine ⟨nodup_foldl_edit hOld hIndependent, fun dn => ?_⟩
  rw [mem_foldl_edit hIndependent.apart, hOrder.mem_iff, hOrder.mem_iff]
  simp only [edits, difference, List.mem_append, List.mem_map, List.mem_filter, decide_eq_true_eq,
    reduceCtorEq, and_false, exists_false, false_or, or_false, Edit.append.injEq,
    Edit.removeAll.injEq, exists_eq_right]
  tauto

/-- The policy is what the tasks for it say, and there is such a task where it has to change. -/
theorem defaultDeny_foldl {defaultIsDeny : Bool} : ∀ (tasks : List (PrivacyTask δ))
    (m : PrivacyManager δ), (∀ b, .defaultPolicy b ∈ tasks → b = defaultIsDeny) →
      (m.m_defaultDeny ≠ defaultIsDeny → .defaultPolicy defaultIsDeny ∈ tasks) →
        (tasks.foldl finishTask m).m_defaultDeny = defaultIsDeny
  | [], m, _, hChanges => by
    by_contra hOther
    exact absurd (hChanges hOther) List.not_mem_nil
  | t :: tasks, m, hSame, hChanges => by
    rw [List.foldl_cons]
    refine defaultDeny_foldl tasks _ (fun b hb => hSame b (List.mem_cons_of_mem t hb)) ?_
    cases t with
    | defaultPolicy b =>
      exact fun hOther => absurd (hSame b List.mem_cons_self) hOther
    | item pit =>
      intro hOther
      rw [finishTask, finish_defaultDeny] at hOther
      rcases List.mem_cons.mp (hChanges hOther) with hHere | hLater
      · cases hHere
      · exact hLater

/-- **All settings**: when the tasks have finished, in any order, the policy and the lists are what
was asked for, and no DN is on a list twice. -/
theorem setPrivacy_settles (m : PrivacyManager δ) (hAllowed : m.m_allowList.Nodup)
    (hDenied : m.m_denyList.Nodup) (defaultIsDeny : Bool) (allowList denyList : List δ)
    (hAllow : allowList.Nodup) (hDeny : denyList.Nodup) (tasks : List (PrivacyTask δ))
    (hOrder : tasks.Perm (m.setPrivacy defaultIsDeny allowList denyList)) :
    (tasks.foldl finishTask m).m_defaultDeny = defaultIsDeny ∧
      ((tasks.foldl finishTask m).m_allowList.Nodup ∧
        ∀ dn, dn ∈ (tasks.foldl finishTask m).m_allowList ↔ dn ∈ allowList) ∧
      (tasks.foldl finishTask m).m_denyList.Nodup ∧
        ∀ dn, dn ∈ (tasks.foldl finishTask m).m_denyList ↔ dn ∈ denyList := by
  obtain ⟨hAllowEdits, hDenyEdits⟩ := edits_setPrivacy m defaultIsDeny allowList denyList
  have hPolicy : ∀ b, PrivacyTask.defaultPolicy b ∈ tasks ↔
      b = defaultIsDeny ∧ defaultIsDeny ≠ m.m_defaultDeny := by
    intro b
    rw [hOrder.mem_iff, setPrivacy, List.mem_append]
    constructor
    · rintro (hHere | hItem)
      · split at hHere
        · exact ⟨PrivacyTask.defaultPolicy.inj (List.mem_singleton.mp hHere), ‹_›⟩
        · cases hHere
      · obtain ⟨pit, -, hpit⟩ := List.mem_map.mp hItem
        cases hpit
    · rintro ⟨rfl, hOther⟩
      rw [if_pos hOther]
      exact .inl (List.mem_singleton_self _)
  refine ⟨?_, ?_, ?_⟩
  · refine defaultDeny_foldl tasks m (fun b hb => ((hPolicy b).mp hb).1) fun hOther => ?_
    exact (hPolicy defaultIsDeny).mpr ⟨rfl, Ne.symm hOther⟩
  · rw [allowList_foldl]
    exact edited hAllowed hAllow (hAllowEdits ▸ hOrder.filterMap allowEdit)
  · rw [denyList_foldl]
    exact edited hDenied hDeny (hDenyEdits ▸ hOrder.filterMap denyEdit)

/-- The tasks of a change, the last one first. -/
theorem setPrivacy_settles_reversed :
    (((⟨true, [1, 2], [3]⟩ : PrivacyManager Nat).setPrivacy false [2, 4] []).reverse.foldl
      finishTask ⟨true, [1, 2], [3]⟩).m_defaultDeny = false :=
  (setPrivacy_settles (⟨true, [1, 2], [3]⟩ : PrivacyManager Nat) (by decide) (by decide) false
    [2, 4] [] (by decide) (by decide) _ (List.reverse_perm _)).1

end PrivacyManager

end GroupWise
