import Kopete.GroupWise.UserDetailsManager
import Mathlib

/-!
# GroupWise — which details are asked for

`requestDetails` leaves its loop at the first DN that is the user's own or, where only
unknown ones are asked for, is known already. Its comment says what is meant, "don't
request our own details": such a DN should be left out, and the ones behind it not.

Main results:

* `mem_requested` — the DNs that are asked for, by their places in the list;
* `requests_wanted_iff` — when they are the ones that should be.
-/

namespace GroupWise

namespace UserDetailsManager

variable {δ κ : Type} [DecidableEq δ] (client : Client δ)

/-- A DN that needs no request, whatever is pending. -/
def excluded (m : UserDetailsManager δ κ) (onlyUnknown : Bool) (dn : δ) : Bool :=
  decide (dn = client.userDN) || (onlyUnknown && m.known client dn)

/-- The DNs of the task that `requestDetails` starts; none if it starts none. -/
def requested (m : UserDetailsManager δ κ) (dnList : List δ) (onlyUnknown : Bool) : List δ :=
  (m.requestDetails client dnList onlyUnknown).2.getD []

/-- **What a request is for**: the DNs of the list that are neither excluded nor pending,
each once. They are pending afterwards. -/
def RequestsWanted (m : UserDetailsManager δ κ) (dnList : List δ) (onlyUnknown : Bool) : Prop :=
  (m.requested client dnList onlyUnknown).Nodup ∧
    (∀ dn, dn ∈ m.requested client dnList onlyUnknown ↔
      dn ∈ dnList ∧ m.excluded client onlyUnknown dn = false ∧ dn ∉ m.m_pendingDNs) ∧
    (m.requestDetails client dnList onlyUnknown).1.m_pendingDNs =
      m.m_pendingDNs ++ m.requested client dnList onlyUnknown

/-- The part of the list that the loop comes to. -/
def scanned (m : UserDetailsManager δ κ) (onlyUnknown : Bool) (dnList : List δ) : List δ :=
  dnList.takeWhile fun dn => !m.excluded client onlyUnknown dn

/-- The loop, with one test for its two exits. -/
theorem collect_cons (m : UserDetailsManager δ κ) (onlyUnknown : Bool) (dn : δ) (it : List δ)
    (r : List δ × List δ) :
    collect client m onlyUnknown (dn :: it) r =
      if m.excluded client onlyUnknown dn then r
      else if dn ∈ r.2 then collect client m onlyUnknown it r
      else collect client m onlyUnknown it (r.1 ++ [dn], r.2 ++ [dn]) := by
  rw [collect, excluded]
  by_cases hOwn : dn = client.userDN
  · simp [hOwn]
  · cases hKnown : onlyUnknown && m.known client dn
    · by_cases hPending : dn ∈ r.2 <;> simp [hOwn, hPending]
    · simp [hOwn]

theorem mem_collect (m : UserDetailsManager δ κ) (onlyUnknown : Bool) (dnList : List δ)
    (r : List δ × List δ) (dn : δ) :
    dn ∈ (collect client m onlyUnknown dnList r).1 ↔
      dn ∈ r.1 ∨ dn ∈ m.scanned client onlyUnknown dnList ∧ dn ∉ r.2 := by
  induction dnList generalizing r with
  | nil => simp [collect, scanned]
  | cons dn' it ih =>
    rw [collect_cons, scanned, List.takeWhile_cons]
    cases hExcluded : m.excluded client onlyUnknown dn' with
    | true => simp
    | false =>
      rw [scanned] at ih
      by_cases hPending : dn' ∈ r.2
      · simp only [Bool.false_eq_true, if_false, if_pos hPending, ih, Bool.not_false, if_true,
          List.mem_cons]
        have hApart : dn ∉ r.2 → dn ≠ dn' := fun hNew hSame => hNew (hSame ▸ hPending)
        tauto
      · simp only [Bool.false_eq_true, if_false, if_neg hPending, ih, Bool.not_false, if_true,
          List.mem_cons, List.mem_append, List.not_mem_nil, or_false]
        have hNew : dn = dn' → dn ∉ r.2 := fun hSame => hSame ▸ hPending
        tauto

/-- **The DNs that are asked for** are those that the loop comes to and that are not
pending. -/
theorem mem_requested (m : UserDetailsManager δ κ) (dnList : List δ) (onlyUnknown : Bool)
    (dn : δ) : dn ∈ m.requested client dnList onlyUnknown ↔
      dn ∈ m.scanned client onlyUnknown dnList ∧ dn ∉ m.m_pendingDNs := by
  have hCollect := mem_collect client m onlyUnknown dnList ([], m.m_pendingDNs) dn
  have hRequested : m.requested client dnList onlyUnknown =
      (collect client m onlyUnknown dnList ([], m.m_pendingDNs)).1 := by
    rw [requested, requestDetails]
    split <;> simp_all
  rw [hRequested, hCollect]
  simp

/-- The request and the pending DNs, from the loop. -/
theorem requested_pending (m : UserDetailsManager δ κ) (dnList : List δ) (onlyUnknown : Bool) :
    (m.requested client dnList onlyUnknown).Nodup ∧
      (m.requestDetails client dnList onlyUnknown).1.m_pendingDNs =
        m.m_pendingDNs ++ m.requested client dnList onlyUnknown := by
  obtain ⟨new, hSame, hNodup, -⟩ :=
    UserDetails.collect_spec client m onlyUnknown dnList ([], m.m_pendingDNs)
  have hRequested : m.requested client dnList onlyUnknown = new := by
    rw [requested, requestDetails, hSame]
    cases new <;> simp
  rw [hRequested, requestDetails, hSame]
  exact ⟨hNodup, rfl⟩

theorem not_excluded_of_scanned {m : UserDetailsManager δ κ} {onlyUnknown : Bool}
    {dnList : List δ} {dn : δ} (h : dn ∈ m.scanned client onlyUnknown dnList) :
    m.excluded client onlyUnknown dn = false := by
  simpa using List.mem_takeWhile_imp h

theorem mem_of_scanned {m : UserDetailsManager δ κ} {onlyUnknown : Bool} {dnList : List δ}
    {dn : δ} (h : dn ∈ m.scanned client onlyUnknown dnList) : dn ∈ dnList :=
  (List.takeWhile_prefix _).subset h

/-- **Requests.** What should be asked for is, exactly when none of it stands only behind
a DN that is excluded. -/
theorem requests_wanted_iff (m : UserDetailsManager δ κ) (dnList : List δ)
    (onlyUnknown : Bool) : m.RequestsWanted client dnList onlyUnknown ↔
      ∀ dn ∈ dnList, m.excluded client onlyUnknown dn = false → dn ∉ m.m_pendingDNs →
        dn ∈ m.scanned client onlyUnknown dnList := by
  constructor
  · rintro ⟨-, hMem, -⟩ dn hList hWanted hNew
    exact ((mem_requested client m dnList onlyUnknown dn).mp
      ((hMem dn).mpr ⟨hList, hWanted, hNew⟩)).1
  · intro hFront
    obtain ⟨hNodup, hPending⟩ := requested_pending client m dnList onlyUnknown
    refine ⟨hNodup, fun dn => ?_, hPending⟩
    rw [mem_requested]
    constructor
    · rintro ⟨hScanned, hNew⟩
      exact ⟨mem_of_scanned client hScanned, not_excluded_of_scanned client hScanned, hNew⟩
    · rintro ⟨hList, hWanted, hNew⟩
      exact ⟨hFront dn hList hWanted hNew, hNew⟩

/-- **The user's own DN comes first**, and the one behind it is never asked for. -/
theorem own_first_not_requested :
    ¬ (⟨[], fun _ => none⟩ : UserDetailsManager Nat Unit).RequestsWanted UserDetails.someClient
      [0, 7] true := by
  rintro ⟨-, hMem, -⟩
  exact absurd ((hMem 7).mpr (by decide)) (by decide)

end UserDetailsManager

end GroupWise
