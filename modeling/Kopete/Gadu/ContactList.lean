import Mathlib

/-!
# Gadu-Gadu — contact lists as text

`asString` writes a line for each contact, its fields separated by semicolons, and
ends it with a carriage return and a newline. The importer cuts the text at its
newlines only, so that the last field of every line keeps the carriage return: the
landline of a contact, and the uin of one that is ignored.

Main results:

* `readLine_export` — what is read of an exported line;
* `returned_import` — what comes back of a list;
* `exported_same_iff` — it is what was written only for the empty list.
-/

namespace Gadu

/-- UTF-16. -/
abbrev QString := List UInt16

/-- `ContactLine`. -/
structure ContactLine where
  displayname : QString
  group : QString
  uin : QString
  firstname : QString
  surname : QString
  nickname : QString
  phonenr : QString
  email : QString
  ignored : Bool
  offlineTo : Bool
  landline : QString
deriving DecidableEq, Repr

/-- A `ContactLine` that has not been set: its strings are empty, and the rest is what
happens to be there. -/
def ContactLine.unset (ignored offlineTo : Bool) : ContactLine :=
  ⟨[], [], [], [], [], [], [], [], ignored, offlineTo, []⟩

/-- `i`. -/
def ignoredMarker : QString := [105]

/-- `GG70ExportString,`. -/
def exportString : QString := "GG70ExportString,".toList.map fun c => UInt16.ofNat c.toNat

/-! ## Export -/

/-- The line of a contact in `asString`. -/
def ContactLine.asString (cl : ContactLine) : QString :=
  if cl.ignored then
    [105, 59, 59, 59, 59, 59, 59] ++ cl.uin ++ [13, 10]
  else
    cl.firstname ++ [59] ++ cl.surname ++ [59] ++ cl.nickname ++ [59] ++ cl.displayname ++ [59] ++
      cl.phonenr ++ [59] ++ cl.group ++ [59] ++ cl.uin ++ [59] ++ cl.email ++
      [59, 48, 59, 59, 48, 59, 59] ++ [if cl.offlineTo then 49 else 48] ++ [59] ++
      cl.landline ++ [13, 10]

/-- `GaduContactsList::asString`. -/
def asString (cList : List ContactLine) : QString := cList.flatMap ContactLine.asString

/-! ## Import -/

/-- One round of the loop: what is left in `cl`, and the contact that is appended. -/
def readLine (cl : ContactLine) (cline : QString) : ContactLine × Option ContactLine :=
  let strList := cline.splitOn 59
  let str := fun n => strList.getD n []
  if str 0 = exportString then (cl, none)
  else if strList.length < 7 then (cl, none)
  else
    let email : Bool := strList.length ≥ 12
    let cl : ContactLine := { cl with firstname := str 0 }
    if cl.firstname = ignoredMarker then
      let cl : ContactLine := { cl with ignored := true, uin := str 6 }
      (cl, some cl)
    else
      let cl : ContactLine := { cl with
        ignored := false
        surname := str 1
        nickname := str 2
        displayname := str 3
        phonenr := str 4
        group := str 5
        uin := str 6 }
      let cl : ContactLine :=
        if email then
          let cl : ContactLine := { cl with email := str 7 }
          let cl : ContactLine :=
            if strList.length ≥ 13 then { cl with offlineTo := str 12 ≠ [48] } else cl
          if strList.length ≥ 14 then { cl with landline := str 13 } else cl
        else { cl with email := [] }
      if cl.uin = [] then (cl, none) else (cl, some cl)

/-- The loop over the lines. -/
def readLines : ContactLine → List QString → List ContactLine
  | _, [] => []
  | cl, cline :: ln => (readLine cl cline).2.toList ++ readLines (readLine cl cline).1 ln

/-- `GaduContactsList::GaduContactsList`, from a string; `cl` has not been set. -/
def contactsList (cl : ContactLine) (sList : QString) : List ContactLine :=
  if sList = [] then []
  else if (10 ∉ sList ∧ 59 ∈ sList) ∨ 59 ∉ sList then []
  else readLines cl (sList.splitOn 10)

/-! ## Lines -/

/-- No separator and no end of a line. -/
def Plain (s : QString) : Prop := 59 ∉ s ∧ 13 ∉ s ∧ 10 ∉ s

/-- A contact that can be exported. -/
structure Exportable (cl : ContactLine) : Prop where
  uin_ne : cl.uin ≠ []
  uin_digit : ∀ c ∈ cl.uin, 48 ≤ c ∧ c ≤ 57
  displayname : Plain cl.displayname
  group : Plain cl.group
  firstname : Plain cl.firstname
  surname : Plain cl.surname
  nickname : Plain cl.nickname
  phonenr : Plain cl.phonenr
  email : Plain cl.email
  landline : Plain cl.landline
  unreserved : cl.firstname ≠ ignoredMarker

/-- A line without its newline. -/
def ContactLine.fields (cl : ContactLine) : List QString :=
  if cl.ignored then [ignoredMarker, [], [], [], [], [], cl.uin ++ [13]]
  else [cl.firstname, cl.surname, cl.nickname, cl.displayname, cl.phonenr, cl.group, cl.uin,
    cl.email, [48], [], [48], [], [if cl.offlineTo then 49 else 48], cl.landline ++ [13]]

def ContactLine.line (cl : ContactLine) : QString := [59].intercalate cl.fields

theorem asString_eq (cl : ContactLine) : cl.asString = cl.line ++ [10] := by
  unfold ContactLine.asString ContactLine.line ContactLine.fields
  split <;> simp [List.intercalate, ignoredMarker]

theorem ne_nil_fields (cl : ContactLine) : cl.fields ≠ [] := by
  unfold ContactLine.fields
  split <;> simp

theorem fields_plain {cl : ContactLine} (h : Exportable cl) :
    ∀ f ∈ cl.fields, 59 ∉ f ∧ 10 ∉ f := by
  have hUin : ∀ c : UInt16, ¬ (48 ≤ c ∧ c ≤ 57) → c ∉ cl.uin := fun c hc hMem =>
    hc (h.uin_digit c hMem)
  have hSep := hUin 59 (by decide)
  have hEnd := hUin 10 (by decide)
  unfold ContactLine.fields
  split
  · simp [ignoredMarker, hSep, hEnd]
  · obtain ⟨hDisplay, -, hDisplay'⟩ := h.displayname
    obtain ⟨hGroup, -, hGroup'⟩ := h.group
    obtain ⟨hFirst, -, hFirst'⟩ := h.firstname
    obtain ⟨hSur, -, hSur'⟩ := h.surname
    obtain ⟨hNick, -, hNick'⟩ := h.nickname
    obtain ⟨hPhone, -, hPhone'⟩ := h.phonenr
    obtain ⟨hEmail, -, hEmail'⟩ := h.email
    obtain ⟨hLand, -, hLand'⟩ := h.landline
    have hOffline : (59 : UInt16) ∉ [if cl.offlineTo then (49 : UInt16) else 48] ∧
        (10 : UInt16) ∉ [if cl.offlineTo then (49 : UInt16) else 48] := by
      cases cl.offlineTo <;> decide
    simp_all

theorem notMem_intercalate {x : UInt16} {sep : QString} (hSep : x ∉ sep) :
    ∀ {ls : List QString}, (∀ l ∈ ls, x ∉ l) → x ∉ sep.intercalate ls
  | [], _ => by simp
  | [l], hls => by simpa using hls l (by simp)
  | l :: l' :: ls, hls => by
    have hRest := notMem_intercalate hSep fun k (hk : k ∈ l' :: ls) => hls k (by simp [hk])
    rw [List.intercalate_cons_cons]
    simp only [List.mem_append, not_or]
    exact ⟨⟨hls l (by simp), hSep⟩, hRest⟩

/-- A line is cut into its fields. -/
theorem splitOn_line {cl : ContactLine} (h : Exportable cl) : cl.line.splitOn 59 = cl.fields :=
  List.splitOn_intercalate 59 (fun f hf => (fields_plain h f hf).1) (ne_nil_fields cl)

theorem newline_notMem_line {cl : ContactLine} (h : Exportable cl) : 10 ∉ cl.line :=
  notMem_intercalate (by decide) fun f hf => (fields_plain h f hf).2

/-- The text of a list is cut into its lines, and nothing behind the last of them. -/
theorem splitOn_asString : ∀ {l : List ContactLine}, (∀ e ∈ l, Exportable e) →
    (asString l).splitOn 10 = l.map ContactLine.line ++ [[]]
  | [], _ => by simp [asString]
  | e :: l, h => by
    have hLine := newline_notMem_line (h e (by simp))
    have hRest := splitOn_asString fun k hk => h k (List.mem_cons_of_mem e hk)
    have hText : asString (e :: l) = e.line ++ 10 :: asString l := by
      simp [asString, asString_eq]
    rw [hText, List.splitOn_append_cons_self_of_not_mem hLine, hRest]
    rfl

/-! ## What comes back -/

/-- `e` as it comes back when `cl` is what the line before has left. -/
def returned (cl e : ContactLine) : ContactLine :=
  if e.ignored then { cl with firstname := ignoredMarker, ignored := true, uin := e.uin ++ [13] }
  else { e with landline := e.landline ++ [13] }

/-- The line of `e` is taken for one of the official client's own. -/
def Skipped (e : ContactLine) : Prop := e.ignored = false ∧ e.firstname = exportString

instance (e : ContactLine) : Decidable (Skipped e) := inferInstanceAs (Decidable (_ ∧ _))

/-- The contacts of a list as they come back. -/
def returnedList : ContactLine → List ContactLine → List ContactLine
  | _, [] => []
  | cl, e :: l =>
    if Skipped e then returnedList cl l else returned cl e :: returnedList (returned cl e) l

/-- **A line read back.** The carriage return stays on its last field. -/
theorem readLine_export (cl : ContactLine) {e : ContactLine} (h : Exportable e) :
    readLine cl e.line =
      if Skipped e then (cl, none) else (returned cl e, some (returned cl e)) := by
  unfold readLine
  simp only [splitOn_line h]
  unfold ContactLine.fields returned
  by_cases hIgnored : e.ignored = true
  · have hSkip : ¬ Skipped e := fun hSkip => by simp [hSkip.1] at hIgnored
    have hMarker : ignoredMarker ≠ exportString := by decide
    simp [hSkip, hIgnored, hMarker]
  · have hFirst := h.unreserved
    have hUin := h.uin_ne
    by_cases hExport : e.firstname = exportString
    · have hSkip : Skipped e := ⟨by simpa using hIgnored, hExport⟩
      simp [hSkip, hIgnored, hExport]
    · have hSkip : ¬ Skipped e := fun hSkip => hExport hSkip.2
      cases hOffline : e.offlineTo <;> simp [hSkip, hIgnored, hExport, hFirst, hUin]

theorem readLines_export : ∀ (cl : ContactLine) {l : List ContactLine}, (∀ e ∈ l, Exportable e) →
    readLines cl (l.map ContactLine.line ++ [[]]) = returnedList cl l
  | cl, [], _ => by
    have hEnd : readLine cl [] = (cl, none) := by
      have hMarker : ([] : QString) ≠ exportString := by decide
      simp [readLine, hMarker]
    simp [readLines, returnedList, hEnd]
  | cl, e :: l, h => by
    have hRest := fun cl => readLines_export cl fun k hk => h k (List.mem_cons_of_mem e hk)
    rw [List.map_cons, List.cons_append, readLines, readLine_export cl (h e (by simp)),
      returnedList]
    by_cases hSkip : Skipped e
    · simp [hSkip, hRest]
    · simp [hSkip, hRest]

/-- **A list read back.** -/
theorem returned_import (cl : ContactLine) {l : List ContactLine} (h : ∀ e ∈ l, Exportable e) :
    contactsList cl (asString l) = returnedList cl l := by
  cases l with
  | nil => rfl
  | cons e l =>
    have hText : 59 ∈ asString (e :: l) ∧ 10 ∈ asString (e :: l) := by
      have hSep : 59 ∈ e.asString ∧ 10 ∈ e.asString := by
        unfold ContactLine.asString
        split <;> simp
      simp [asString, hSep]
    have hNe : asString (e :: l) ≠ [] := List.ne_nil_of_mem hText.1
    unfold contactsList
    rw [if_neg hNe, if_neg (by tauto), splitOn_asString h, readLines_export cl h]

theorem length_returnedList : ∀ (cl : ContactLine) (l : List ContactLine),
    (returnedList cl l).length ≤ l.length
  | _, [] => le_rfl
  | cl, e :: l => by
    unfold returnedList
    split
    · exact (length_returnedList cl l).trans (Nat.le_succ _)
    · exact Nat.succ_le_succ (length_returnedList _ l)

/-! ## The round trip -/

/-- `a` is the contact `b`: the same uin, and the fields that are exported unless it is
ignored. -/
structure Same (a b : ContactLine) : Prop where
  ignored : a.ignored = b.ignored
  uin : a.uin = b.uin
  exported : b.ignored = false →
    a.firstname = b.firstname ∧ a.surname = b.surname ∧ a.nickname = b.nickname ∧
      a.displayname = b.displayname ∧ a.phonenr = b.phonenr ∧ a.group = b.group ∧
      a.email = b.email ∧ a.offlineTo = b.offlineTo ∧ a.landline = b.landline

theorem not_same_returned (cl e : ContactLine) : ¬ Same (returned cl e) e := by
  intro hSame
  cases hIgnored : e.ignored with
  | true => simpa [returned, hIgnored] using hSame.uin
  | false =>
    obtain ⟨-, -, -, -, -, -, -, -, hLandline⟩ := hSame.exported hIgnored
    simp [returned, hIgnored] at hLandline

/-- **A contact list survives its export only if it is empty.** The carriage return of
each line stays on a contact's landline, and on the uin of one that is ignored. -/
theorem exported_same_iff (ignored offlineTo : Bool) {l : List ContactLine}
    (h : ∀ e ∈ l, Exportable e) :
    List.Forall₂ Same (contactsList (.unset ignored offlineTo) (asString l)) l ↔ l = [] := by
  rw [returned_import _ h]
  constructor
  · intro hSame
    cases l with
    | nil => rfl
    | cons e l =>
      have hLength := hSame.length_eq
      unfold returnedList at hSame hLength
      split at hSame
      · next hSkip =>
        have := length_returnedList (.unset ignored offlineTo) l
        simp only [if_pos hSkip, List.length_cons] at hLength
        omega
      · rw [List.forall₂_cons] at hSame
        exact absurd hSame.1 (not_same_returned _ e)
  · rintro rfl
    exact .nil

/-- The contact 7 with a landline, and nothing else. -/
def someContact : ContactLine :=
  ⟨[], [], [55], [], [], [], [], [], false, false, [49]⟩

theorem someContact_exportable : ∀ e ∈ [someContact], Exportable e := by
  intro e he
  obtain rfl := List.mem_singleton.1 he
  constructor <;> simp [someContact, Plain, ignoredMarker]

theorem same_someContact :
    List.Forall₂ Same (contactsList (.unset false false) (asString [someContact])) [someContact] ↔
      [someContact] = [] :=
  exported_same_iff false false someContact_exportable

/-- Its landline comes back with the carriage return. -/
theorem landline_keeps_return :
    (∀ e ∈ [someContact], Exportable e) ∧
      contactsList (.unset false false) (asString [someContact]) =
        [{ someContact with landline := [49, 13] }] ∧
      ¬ List.Forall₂ Same (contactsList (.unset false false) (asString [someContact]))
        [someContact] := by
  have hBack : contactsList (.unset false false) (asString [someContact]) =
      [{ someContact with landline := [49, 13] }] := by decide
  refine ⟨someContact_exportable, hBack, ?_⟩
  rw [hBack, List.forall₂_cons]
  rintro ⟨hSame, -⟩
  obtain ⟨-, -, -, -, -, -, -, -, hLandline⟩ := hSame.exported rfl
  exact absurd hLandline (by decide)

end Gadu
