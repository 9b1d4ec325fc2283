import Kopete.Gadu.ContactList

/-!
# Gadu-Gadu — what a line takes from the lines before it

The importer has one `cl` for all lines. A line of an ignored contact sets the uin only, an
old one neither the offline flag nor the landline, and what a line does not set is what an
earlier line has left there; the offline flag, if none has set it, is whatever was in the
memory of `cl`. So the parts of a list are not read as the whole.

Main results:

* `readLine_text`, `readLine_offlineTo` — what a line sets;
* `readLines_eq_iff`, `after_eq_iff` — when what was left before does not matter;
* `contactsList_append_iff` — when a list is read as its two parts.
-/

namespace Gadu

/-! ## Lines and what they set -/

/-- Field `n` of a line. -/
def field (cline : QString) (n : Nat) : QString := (cline.splitOn 59).getD n []

/-- The number of fields of a line. -/
def fieldCount (cline : QString) : Nat := (cline.splitOn 59).length

/-- The line is not passed over. -/
def Considered (cline : QString) : Prop := field cline 0 ≠ exportString ∧ 7 ≤ fieldCount cline

instance (cline : QString) : Decidable (Considered cline) :=
  inferInstanceAs (Decidable (_ ∧ _))

/-- The line is one of a contact, for which there will be an entry. -/
def Accepted (cline : QString) : Prop :=
  Considered cline ∧ (field cline 0 = ignoredMarker ∨ field cline 6 ≠ [])

instance (cline : QString) : Decidable (Accepted cline) := inferInstanceAs (Decidable (_ ∧ _))

/-- The line is one of a contact that is not ignored. -/
def Ordinary (cline : QString) : Prop := Considered cline ∧ field cline 0 ≠ ignoredMarker

instance (cline : QString) : Decidable (Ordinary cline) := inferInstanceAs (Decidable (_ ∧ _))

/-- The strings of an entry that some line does not set. -/
inductive TextField
  | surname | nickname | displayname | phonenr | group | email | landline
deriving DecidableEq

namespace TextField

def get : TextField → ContactLine → QString
  | surname => ContactLine.surname
  | nickname => ContactLine.nickname
  | displayname => ContactLine.displayname
  | phonenr => ContactLine.phonenr
  | group => ContactLine.group
  | email => ContactLine.email
  | landline => ContactLine.landline

/-- What a line sets it to, if it does. -/
def assigned (f : TextField) (cline : QString) : Option QString :=
  if Ordinary cline then
    match f with
    | surname => some (field cline 1)
    | nickname => some (field cline 2)
    | displayname => some (field cline 3)
    | phonenr => some (field cline 4)
    | group => some (field cline 5)
    | email => some (if 12 ≤ fieldCount cline then field cline 7 else [])
    | landline => if 14 ≤ fieldCount cline then some (field cline 13) else none
  else none

end TextField

/-- What a line sets the offline flag to, if it does. -/
def assignedOfflineTo (cline : QString) : Option Bool :=
  if Ordinary cline ∧ 13 ≤ fieldCount cline then some (decide (field cline 12 ≠ [48])) else none

theorem readLine_skipped (cl : ContactLine) {cline : QString} (h : ¬ Considered cline) :
    readLine cl cline = (cl, none) := by
  unfold readLine
  simp only
  split
  · rfl
  · next hExport =>
    rw [if_pos]
    by_contra hLong
    exact h ⟨hExport, Nat.le_of_not_lt hLong⟩

theorem readLine_ignored (cl : ContactLine) {cline : QString} (h : Considered cline)
    (hIgnored : field cline 0 = ignoredMarker) :
    readLine cl cline =
      ({ cl with firstname := field cline 0, ignored := true, uin := field cline 6 },
        some { cl with firstname := field cline 0, ignored := true, uin := field cline 6 }) := by
  unfold readLine
  exact (if_neg h.1).trans ((if_neg (Nat.not_lt.mpr h.2)).trans (if_pos hIgnored))

/-- `cl` behind the line of a contact that is not ignored. -/
def filled (cl : ContactLine) (cline : QString) : ContactLine where
  displayname := field cline 3
  group := field cline 5
  uin := field cline 6
  firstname := field cline 0
  surname := field cline 1
  nickname := field cline 2
  phonenr := field cline 4
  email := if 12 ≤ fieldCount cline then field cline 7 else []
  ignored := false
  offlineTo := if 13 ≤ fieldCount cline then decide (field cline 12 ≠ [48]) else cl.offlineTo
  landline := if 14 ≤ fieldCount cline then field cline 13 else cl.landline

theorem readLine_ordinary (cl : ContactLine) {cline : QString} (h : Ordinary cline) :
    readLine cl cline =
      (filled cl cline, if field cline 6 = [] then none else some (filled cl cline)) := by
  have hFilled : readLine cl cline =
      if (filled cl cline).uin = [] then (filled cl cline, none)
      else (filled cl cline, some (filled cl cline)) := by
    unfold readLine
    refine (if_neg h.1.1).trans ((if_neg (Nat.not_lt.mpr h.1.2)).trans ((if_neg h.2).trans ?_))
    unfold filled
    by_cases h12 : 12 ≤ fieldCount cline
    · have hEmail : decide ((cline.splitOn 59).length ≥ 12) = true := decide_eq_true h12
      simp only [hEmail, if_true, if_pos h12]
      unfold fieldCount field
      by_cases h13 : 13 ≤ (cline.splitOn 59).length <;>
        by_cases h14 : 14 ≤ (cline.splitOn 59).length <;> simp [h13, h14]
    · have hEmail : decide ((cline.splitOn 59).length ≥ 12) = false := decide_eq_false h12
      have h13 : ¬ 13 ≤ fieldCount cline := fun h => h12 (by omega)
      have h14 : ¬ 14 ≤ fieldCount cline := fun h => h12 (by omega)
      simp only [hEmail, if_neg h12, if_neg h13, if_neg h14]
      rfl
  rw [hFilled]
  show (if field cline 6 = [] then _ else _) = _
  split <;> rfl

/-- **What a line sets** of the strings. -/
theorem readLine_text (f : TextField) (cl : ContactLine) (cline : QString) :
    f.get (readLine cl cline).1 = (f.assigned cline).getD (f.get cl) := by
  by_cases hOrdinary : Ordinary cline
  · rw [readLine_ordinary cl hOrdinary]
    unfold TextField.assigned
    rw [if_pos hOrdinary]
    cases f
    case landline =>
      simp only [TextField.get, filled]
      split <;> rfl
    all_goals rfl
  · unfold TextField.assigned
    rw [if_neg hOrdinary]
    by_cases hConsidered : Considered cline
    · have hIgnored : field cline 0 = ignoredMarker := by
        by_contra hNot
        exact hOrdinary ⟨hConsidered, hNot⟩
      rw [readLine_ignored cl hConsidered hIgnored]
      cases f <;> rfl
    · rw [readLine_skipped cl hConsidered]
      rfl

/-- **What a line sets** of the offline flag. -/
theorem readLine_offlineTo (cl : ContactLine) (cline : QString) :
    (readLine cl cline).1.offlineTo = (assignedOfflineTo cline).getD cl.offlineTo := by
  by_cases hOrdinary : Ordinary cline
  · rw [readLine_ordinary cl hOrdinary, assignedOfflineTo]
    by_cases h13 : 13 ≤ fieldCount cline <;> simp [hOrdinary, h13, filled]
  · rw [assignedOfflineTo, if_neg fun h => hOrdinary h.1]
    by_cases hConsidered : Considered cline
    · have hIgnored : field cline 0 = ignoredMarker := by
        by_contra hNot
        exact hOrdinary ⟨hConsidered, hNot⟩
      rw [readLine_ignored cl hConsidered hIgnored]
      rfl
    · rw [readLine_skipped cl hConsidered]
      rfl

/-- The entry of an accepted line is what it leaves in `cl`. -/
theorem readLine_entry (cl : ContactLine) (cline : QString) :
    (readLine cl cline).2 = if Accepted cline then some (readLine cl cline).1 else none := by
  by_cases hConsidered : Considered cline
  · by_cases hIgnored : field cline 0 = ignoredMarker
    · rw [readLine_ignored cl hConsidered hIgnored, if_pos ⟨hConsidered, .inl hIgnored⟩]
    · rw [readLine_ordinary cl ⟨hConsidered, hIgnored⟩]
      by_cases hUin : field cline 6 = []
      · rw [if_pos hUin, if_neg fun h => h.2.elim hIgnored fun hNe => hNe hUin]
      · rw [if_neg hUin, if_pos ⟨hConsidered, .inr hUin⟩]
  · rw [readLine_skipped cl hConsidered, if_neg fun h => hConsidered h.1]

theorem readLine_own (cl : ContactLine) {cline : QString} (h : Accepted cline) :
    (readLine cl cline).1.firstname = field cline 0 ∧
      (readLine cl cline).1.uin = field cline 6 ∧
      (readLine cl cline).1.ignored = decide (field cline 0 = ignoredMarker) := by
  by_cases hIgnored : field cline 0 = ignoredMarker
  · rw [readLine_ignored cl h.1 hIgnored]
    exact ⟨rfl, rfl, (decide_eq_true hIgnored).symm⟩
  · rw [readLine_ordinary cl ⟨h.1, hIgnored⟩]
    exact ⟨rfl, rfl, (decide_eq_false hIgnored).symm⟩

/-! ## Lines in a row -/

attribute [ext] ContactLine

/-- What is in `cl` behind some lines. -/
def after (cl : ContactLine) (ln : List QString) : ContactLine :=
  ln.foldl (fun cl cline => (readLine cl cline).1) cl

/-- What the last line that sets something sets it to. -/
def lastSet {α : Type} (assigned : QString → Option α) (ln : List QString) : Option α :=
  ln.reverse.findSome? assigned

/-- The flag of each entry is set by its own line or by one before it. -/
def FlagSet (ln : List QString) : Prop :=
  ∀ pre cline post, ln = pre ++ cline :: post → Accepted cline →
    lastSet assignedOfflineTo (pre ++ [cline]) ≠ none

/-- What an entry takes from before its own list is empty there. -/
def NothingLeft (before ln : List QString) : Prop :=
  ∀ (f : TextField) (pre : List QString) (cline : QString) (post : List QString),
    ln = pre ++ cline :: post → Accepted cline → lastSet f.assigned (pre ++ [cline]) = none →
      (lastSet f.assigned before).getD [] = []

theorem after_concat (cl : ContactLine) (ln : List QString) (cline : QString) :
    after cl (ln ++ [cline]) = (readLine (after cl ln) cline).1 := by
  rw [after, List.foldl_append]
  rfl

/-- **What is left** in a part of `cl` is what the last line has set it to. -/
theorem get_after {α : Type} {get : ContactLine → α} {assigned : QString → Option α}
    (hLine : ∀ cl cline, get (readLine cl cline).1 = (assigned cline).getD (get cl))
    (cl : ContactLine) (ln : List QString) :
    get (after cl ln) = (lastSet assigned ln).getD (get cl) := by
  induction ln using List.reverseRecOn with
  | nil => rfl
  | append_singleton ln cline ih =>
    have hLast : lastSet assigned (ln ++ [cline]) =
        (cline :: ln.reverse).findSome? assigned := by
      rw [lastSet, List.reverse_append]
      rfl
    rw [after_concat, hLine, ih, hLast, List.findSome?_cons]
    cases assigned cline <;> rfl

theorem get_after_eq_iff {α : Type} {get : ContactLine → α} {assigned : QString → Option α}
    (hLine : ∀ cl cline, get (readLine cl cline).1 = (assigned cline).getD (get cl))
    (cl cl' : ContactLine) (ln : List QString) :
    get (after cl ln) = get (after cl' ln) ↔ (lastSet assigned ln = none → get cl = get cl') := by
  rw [get_after hLine, get_after hLine]
  cases lastSet assigned ln with
  | none => simp
  | some value => simp

theorem readLines_append (cl : ContactLine) (x y : List QString) :
    readLines cl (x ++ y) = readLines cl x ++ readLines (after cl x) y := by
  induction x generalizing cl with
  | nil => rfl
  | cons cline x ih =>
    rw [List.cons_append, readLines, readLines, ih, List.append_assoc]
    rfl

/-- Whether a line has an entry does not depend on what is in `cl`. -/
theorem length_entry (cl cl' : ContactLine) (cline : QString) :
    (readLine cl cline).2.toList.length = (readLine cl' cline).2.toList.length := by
  rw [readLine_entry, readLine_entry cl']
  split <;> rfl

theorem length_readLines (cl cl' : ContactLine) (ln : List QString) :
    (readLines cl ln).length = (readLines cl' ln).length := by
  induction ln generalizing cl cl' with
  | nil => rfl
  | cons cline ln ih =>
    rw [readLines, readLines, List.length_append, List.length_append, length_entry cl cl', ih]

/-- **The entries** are the same when `cl` is the same behind each accepted line. -/
theorem readLines_eq_iff (cl cl' : ContactLine) (ln : List QString) :
    readLines cl ln = readLines cl' ln ↔
      ∀ pre cline post, ln = pre ++ cline :: post → Accepted cline →
        after cl (pre ++ [cline]) = after cl' (pre ++ [cline]) := by
  induction ln generalizing cl cl' with
  | nil => simp [readLines]
  | cons cline ln ih =>
    have hHead : (readLine cl cline).2.toList = (readLine cl' cline).2.toList ↔
        (Accepted cline → (readLine cl cline).1 = (readLine cl' cline).1) := by
      rw [readLine_entry, readLine_entry cl']
      split
      · next hAccepted => simp [hAccepted]
      · next hNot => simp [hNot]
    rw [readLines, readLines]
    constructor
    · rintro hSame pre cline' post hSplit hAccepted
      obtain ⟨hFirst, hRest⟩ := List.append_inj hSame (length_entry cl cl' cline)
      rcases List.cons_eq_append_iff.mp hSplit with ⟨rfl, hCons⟩ | ⟨pre', rfl, hLater⟩
      · obtain ⟨rfl, -⟩ := List.cons.inj hCons
        exact hHead.mp hFirst hAccepted
      · exact (ih _ _).mp hRest pre' cline' post hLater hAccepted
    · intro hAfter
      rw [hHead.mpr fun hAccepted => hAfter [] cline ln rfl hAccepted]
      congr 1
      refine (ih _ _).mpr fun pre cline' post hSplit hAccepted => ?_
      exact hAfter (cline :: pre) cline' post (by rw [hSplit]; rfl) hAccepted

/-- Two states are the same behind an accepted line when they were so in each part that no
line has set. -/
theorem after_eq_iff (cl cl' : ContactLine) (pre : List QString) {cline : QString}
    (h : Accepted cline) :
    after cl (pre ++ [cline]) = after cl' (pre ++ [cline]) ↔
      (∀ f : TextField, lastSet f.assigned (pre ++ [cline]) = none → f.get cl = f.get cl') ∧
        (lastSet assignedOfflineTo (pre ++ [cline]) = none → cl.offlineTo = cl'.offlineTo) := by
  have hText := fun f : TextField => get_after_eq_iff (readLine_text f) cl cl' (pre ++ [cline])
  have hFlag := get_after_eq_iff readLine_offlineTo cl cl' (pre ++ [cline])
  constructor
  · intro hSame
    exact ⟨fun f => (hText f).mp (congrArg f.get hSame),
      hFlag.mp (congrArg ContactLine.offlineTo hSame)⟩
  · rintro ⟨hTexts, hOffline⟩
    have hGet := fun f : TextField => (hText f).mpr (hTexts f)
    have hOfflineTo := hFlag.mpr hOffline
    have hOwn : ∀ cl, _ := fun cl => readLine_own (after cl pre) h
    have hOwn' := hOwn cl'
    have hOwn := hOwn cl
    rw [← after_concat] at hOwn hOwn'
    exact ContactLine.ext (hGet .displayname) (hGet .group) (hOwn.2.1.trans hOwn'.2.1.symm)
      (hOwn.1.trans hOwn'.1.symm) (hGet .surname) (hGet .nickname) (hGet .phonenr)
      (hGet .email) (hOwn.2.2.trans hOwn'.2.2.symm) hOfflineTo (hGet .landline)

/-! ## Texts -/

/-- Each line of the text has its end. -/
def CompleteLines (sList : QString) : Prop := sList = [] ∨ sList.getLast? = some 10

instance (sList : QString) : Decidable (CompleteLines sList) :=
  inferInstanceAs (Decidable (_ ∨ _))

/-- The lines of a text of complete ones. -/
def textLines (sList : QString) : List QString := (sList.splitOn 10).dropLast

/-- **The text is read as its two parts**, whatever is in `cl` at the start of each reading. -/
def ReadInParts (a b : QString) : Prop :=
  ∀ i o i' o' i'' o'' : Bool, contactsList (.unset i o) (a ++ b) =
    contactsList (.unset i' o') a ++ contactsList (.unset i'' o'') b

theorem splitOn_complete {sList : QString} (h : CompleteLines sList) :
    sList.splitOn 10 = textLines sList ++ [[]] := by
  rcases h with rfl | hLast
  · rfl
  · obtain ⟨front, rfl⟩ := List.getLast?_eq_some_iff.mp hLast
    rw [textLines, List.splitOn_append_cons_self, List.splitOn_nil, List.dropLast_concat]

theorem textLines_append {a : QString} (h : CompleteLines a) (b : QString) :
    textLines (a ++ b) = textLines a ++ textLines b := by
  rcases h with rfl | hLast
  · rfl
  · obtain ⟨front, rfl⟩ := List.getLast?_eq_some_iff.mp hLast
    rw [textLines, textLines, textLines, List.append_assoc, List.singleton_append,
      List.splitOn_append_cons_self, List.splitOn_append_cons_self, List.splitOn_nil,
      List.dropLast_concat, List.dropLast_append_of_ne_nil (List.splitOn_ne_nil _ _)]

theorem complete_append {a b : QString} (ha : CompleteLines a) (hb : CompleteLines b) :
    CompleteLines (a ++ b) := by
  rcases hb with rfl | hLast
  · rwa [List.append_nil]
  · right
    rw [List.getLast?_append, hLast]
    rfl

theorem mem_of_mem_splitOn {x sep : UInt16} {s piece : QString} (hPiece : piece ∈ s.splitOn sep)
    (hx : x ∈ piece) : x ∈ s := by
  induction s generalizing piece with
  | nil =>
    rw [List.splitOn_nil, List.mem_singleton] at hPiece
    rw [hPiece] at hx
    cases hx
  | cons c s ih =>
    rw [List.splitOn_cons_eq_if_modifyHead] at hPiece
    split at hPiece
    · rcases List.mem_cons.mp hPiece with rfl | hLater
      · cases hx
      · exact List.mem_cons_of_mem c (ih hLater hx)
    · obtain ⟨first, rest, hCons⟩ := List.exists_cons_of_ne_nil (List.splitOn_ne_nil sep s)
      rw [hCons] at hPiece ih
      rcases List.mem_cons.mp hPiece with rfl | hLater
      · rcases List.mem_cons.mp hx with rfl | hx
        · exact List.mem_cons_self
        · exact List.mem_cons_of_mem c (ih List.mem_cons_self hx)
      · exact List.mem_cons_of_mem c (ih (List.mem_cons_of_mem first hLater) hx)

theorem not_considered {cline : QString} (h : 59 ∉ cline) : ¬ Considered cline := by
  intro hConsidered
  have hLong := hConsidered.2
  rw [fieldCount, List.splitOn_eq_singleton h] at hLong
  exact absurd hLong (by simp)

theorem readLines_skipped (cl : ContactLine) (ln : List QString)
    (h : ∀ cline ∈ ln, ¬ Considered cline) : readLines cl ln = [] := by
  induction ln generalizing cl with
  | nil => rfl
  | cons cline ln ih =>
    rw [readLines, readLine_skipped cl (h cline List.mem_cons_self),
      ih _ fun k hk => h k (List.mem_cons_of_mem cline hk)]
    rfl

/-- **A text of complete lines** is read line by line: the tests of the whole text only sort
out those without an entry. -/
theorem contactsList_lines (cl : ContactLine) {sList : QString} (h : CompleteLines sList) :
    contactsList cl sList = readLines cl (textLines sList) := by
  have hBare : ∀ {sList : QString}, 59 ∉ sList → readLines cl (textLines sList) = [] :=
    fun hNone => readLines_skipped cl _ fun cline hLine => not_considered fun hSep =>
      hNone (mem_of_mem_splitOn (List.dropLast_subset _ hLine) hSep)
  unfold contactsList
  split
  · next hEmpty =>
    subst hEmpty
    rfl
  · next hNe =>
    have hEnd : 10 ∈ sList := List.mem_of_mem_getLast? (h.resolve_left hNe)
    split
    · next hGuard => exact (hBare (by tauto)).symm
    · rw [splitOn_complete h, readLines_append, readLines_skipped _ [[]],
        List.append_nil]
      intro cline hLine
      rw [List.mem_singleton.mp hLine]
      exact not_considered (List.not_mem_nil)

/-! ## Lists in two parts -/

theorem get_unset (f : TextField) (i o : Bool) : f.get (.unset i o) = [] := by
  cases f <;> rfl

/-- The entries of a list do not depend on the memory of `cl`. -/
theorem readLines_unset_iff (ln : List QString) :
    (∀ i o i' o' : Bool, readLines (.unset i o) ln = readLines (.unset i' o') ln) ↔
      FlagSet ln := by
  constructor
  · intro hSame pre cline post hSplit hAccepted hUnset
    have hAfter := (readLines_eq_iff _ _ ln).mp (hSame false false false true) pre cline post
      hSplit hAccepted
    exact absurd (((after_eq_iff _ _ pre hAccepted).mp hAfter).2 hUnset) (by decide)
  · intro hFlag i o i' o'
    refine (readLines_eq_iff _ _ ln).mpr fun pre cline post hSplit hAccepted => ?_
    refine (after_eq_iff _ _ pre hAccepted).mpr ⟨fun f _ => ?_, fun hUnset => ?_⟩
    · rw [get_unset, get_unset]
    · exact absurd hUnset (hFlag pre cline post hSplit hAccepted)

theorem readLines_after_iff (x ln : List QString) (hFlag : FlagSet ln) (i o i' o' : Bool) :
    readLines (after (.unset i o) x) ln = readLines (.unset i' o') ln ↔ NothingLeft x ln := by
  rw [readLines_eq_iff]
  have hLeft : ∀ f : TextField, f.get (after (.unset i o) x) = f.get (.unset i' o') ↔
      (lastSet f.assigned x).getD [] = [] := by
    intro f
    rw [get_after (readLine_text f), get_unset, get_unset]
  constructor
  · intro hAfter f pre cline post hSplit hAccepted hUnset
    have hStates := (after_eq_iff _ _ pre hAccepted).mp (hAfter pre cline post hSplit hAccepted)
    exact (hLeft f).mp (hStates.1 f hUnset)
  · intro hNothing pre cline post hSplit hAccepted
    refine (after_eq_iff _ _ pre hAccepted).mpr ⟨fun f hUnset => ?_, fun hUnset => ?_⟩
    · exact (hLeft f).mpr (hNothing f pre cline post hSplit hAccepted hUnset)
    · exact absurd hUnset (hFlag pre cline post hSplit hAccepted)

/-- **A list in two parts** is read as the parts exactly when each entry has its offline flag
from its own part, and nothing else from the lines of the other. -/
theorem contactsList_append_iff {a b : QString} (ha : CompleteLines a) (hb : CompleteLines b) :
    ReadInParts a b ↔
      FlagSet (textLines a) ∧ FlagSet (textLines b) ∧
        NothingLeft (textLines a) (textLines b) := by
  have hWhole : ∀ cl, contactsList cl (a ++ b) =
      readLines cl (textLines a) ++ readLines (after cl (textLines a)) (textLines b) :=
    fun cl => by
      rw [contactsList_lines cl (complete_append ha hb), textLines_append ha, readLines_append]
  have hParts : ReadInParts a b ↔ ∀ i o i' o' i'' o'' : Bool,
      readLines (.unset i o) (textLines a) = readLines (.unset i' o') (textLines a) ∧
        readLines (after (.unset i o) (textLines a)) (textLines b) =
          readLines (.unset i'' o'') (textLines b) := by
    simp only [ReadInParts, hWhole, contactsList_lines _ ha, contactsList_lines _ hb]
    constructor
    · intro h i o i' o' i'' o''
      exact List.append_inj (h i o i' o' i'' o'') (length_readLines _ _ _)
    · intro h i o i' o' i'' o''
      obtain ⟨hFirst, hSecond⟩ := h i o i' o' i'' o''
      rw [hFirst, hSecond]
  rw [hParts]
  constructor
  · intro h
    have hFlagB : FlagSet (textLines b) := (readLines_unset_iff _).mp fun i o i' o' =>
      ((h i o i' o' i o).2).symm.trans (h i o i' o' i' o').2
    exact ⟨(readLines_unset_iff _).mp fun i o i' o' => (h i o i' o' i o).1, hFlagB,
      (readLines_after_iff _ _ hFlagB false false false false).mp
        (h false false false false false false).2⟩
  · rintro ⟨hFlagA, hFlagB, hNothing⟩ i o i' o' i'' o''
    exact ⟨(readLines_unset_iff _).mpr hFlagA i o i' o',
      (readLines_after_iff _ _ hFlagB i o i'' o'').mpr hNothing⟩

/-- A text in letters. -/
def letters (s : String) : QString := s.toList.map fun c => UInt16.ofNat c.toNat

/-- An ignored contact behind another one. -/
theorem contactsList_append_ignored :
    ReadInParts (letters "a;b;c;d;5;e;1;f;0;;0;;0;9\n") (letters "i;;;;;;2\n") ↔
      FlagSet (textLines (letters "a;b;c;d;5;e;1;f;0;;0;;0;9\n")) ∧
        FlagSet (textLines (letters "i;;;;;;2\n")) ∧
        NothingLeft (textLines (letters "a;b;c;d;5;e;1;f;0;;0;;0;9\n"))
          (textLines (letters "i;;;;;;2\n")) :=
  contactsList_append_iff (by decide) (by decide)

/-- **A landline that is left**: the second contact has no field for one, and gets that of
the first. -/
theorem landline_left : ¬ ReadInParts (letters "a;b;c;d;5;e;1;f;0;;0;;0;9\n")
    (letters "a;b;c;d;5;e;2;f;0;;0;;0\n") := by
  intro hParts
  exact absurd (hParts false false false false false false) (by decide)

end Gadu
