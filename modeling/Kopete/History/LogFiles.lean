import Kopete.Lib.Html
import Mathlib

/-!
# History — the log files

A contact has a log file for each month. Its name is made of the protocol, the account, the
contact and the month; a file of an older version, whose name leaves the account out, goes on
being used. In memory a month is an index relative to the current one, an `unsigned int`.

Main results:

* `yearMonth_of_getFileName` — the name of a log file says its month;
* `getFileName_stable` — saving under the names in use changes none of them;
* `monthOfIndex_monthIndex` — the month that the index of a message leads back to;
* `monthIndex_injective` — no two months have one index.
-/

namespace History

abbrev QString := Html.Text

open Html (latin1)

/-- What the history reads of a contact. -/
structure Contact where
  pluginId : QString
  accountId : QString
  /-- `account()->myself()->contactId()`. -/
  myselfId : QString
  contactId : QString
deriving DecidableEq

/-! ## Months -/

/-- What a log file goes by of a `QDate`. -/
@[ext] structure YearMonth where
  year : Int
  month : Int
  one_le_month : 1 ≤ month
  month_le : month ≤ 12
deriving DecidableEq

/-- A `QDate` of which `yyyy` has four digits. -/
structure Date extends YearMonth where
  day : Nat
  one_le_year : 1 ≤ year
  year_le : year ≤ 9999

namespace YearMonth

def count (d : YearMonth) : Int := d.year * 12 + (d.month - 1)

def ofCount (n : Int) : YearMonth := ⟨n / 12, n % 12 + 1, by omega, by omega⟩

/-- `QDate::addMonths`. There is no year 0. -/
def addMonths (d : YearMonth) (n : Int) : YearMonth :=
  let moved := ofCount (d.count + n)
  if 0 < d.year ∧ moved.year ≤ 0 ∨ d.year < 0 ∧ 0 ≤ moved.year then
    { moved with year := moved.year + if 0 < n then 1 else -1 }
  else moved

theorem addMonths_of_count {d e : YearMonth} {n : Int} (hd : 0 < d.year) (he : 0 < e.year)
    (h : d.count + n = e.count) : d.addMonths n = e := by
  have hMonth := e.one_le_month
  have hMonth' := e.month_le
  have hMoved : ofCount (d.count + n) = e := by
    rw [h]
    ext <;> simp only [ofCount, count] <;> omega
  unfold addMonths
  simp only [hMoved]
  rw [if_neg (by omega)]

/-- The month is not after the other one. -/
def NotAfter (d e : YearMonth) : Prop := d.year < e.year ∨ d.year = e.year ∧ d.month ≤ e.month

instance (d e : YearMonth) : Decidable (d.NotAfter e) := inferInstanceAs (Decidable (_ ∨ _))

theorem NotAfter.year_le {d e : YearMonth} (h : d.NotAfter e) : d.year ≤ e.year := by
  rcases h with h | h <;> omega

end YearMonth

/-! ## Indices of months -/

/-- The index under which `appendMessage` asks for a document. -/
def monthIndex (today date : YearMonth) : BitVec 32 :=
  BitVec.ofInt 32 (today.month - date.month - (today.year - date.year) * 12)

/-- `QDate::currentDate().addMonths(0-month)`. -/
def monthOfIndex (today : YearMonth) (month : BitVec 32) : YearMonth :=
  today.addMonths (0 - month).toInt

theorem toInt_zero_sub_ofInt {i : Int} (hLow : -2 ^ 31 < i) (hHigh : i < 2 ^ 31) :
    (0 - BitVec.ofInt 32 i).toInt = -i := by
  rw [BitVec.toInt_sub, BitVec.toInt_ofInt_eq_self (by decide) (by omega) (by omega)]
  simp only [BitVec.ofNat_eq_ofNat, BitVec.toInt_zero, Int.bmod]
  omega

section Index

variable {today date : Date}

theorem toInt_monthIndex (today date : Date) :
    (0 - monthIndex today.toYearMonth date.toYearMonth).toInt =
      (today.year - date.year) * 12 - (today.month - date.month) := by
  have h := today.one_le_month
  have h' := today.month_le
  have hy := today.one_le_year
  have hy' := today.year_le
  have g := date.one_le_month
  have g' := date.month_le
  have gy := date.one_le_year
  have gy' := date.year_le
  rw [monthIndex, toInt_zero_sub_ofInt (by omega) (by omega)]
  omega

/-- **The way back from an index.** It leads to the month of the message in the year that is as
far ahead as that of the message is behind. -/
theorem monthOfIndex_monthIndex (h : date.year ≤ today.year) :
    monthOfIndex today.toYearMonth (monthIndex today.toYearMonth date.toYearMonth) =
      ⟨2 * today.year - date.year, date.month, date.one_le_month, date.month_le⟩ := by
  have hYear := today.one_le_year
  rw [monthOfIndex, toInt_monthIndex]
  refine YearMonth.addMonths_of_count (by omega) ?_ ?_
  · show 0 < 2 * today.year - date.year
    omega
  · simp only [YearMonth.count]
    omega

/-- In the current year it leads to the month of the message. -/
theorem monthOfIndex_monthIndex_self (h : date.year = today.year) :
    monthOfIndex today.toYearMonth (monthIndex today.toYearMonth date.toYearMonth) =
      date.toYearMonth := by
  rw [monthOfIndex_monthIndex h.le]
  ext
  · show 2 * today.year - date.year = date.year
    omega
  · rfl

/-- **No two months have one index.** -/
theorem monthIndex_injective {date' : Date}
    (h : monthIndex today.toYearMonth date.toYearMonth =
      monthIndex today.toYearMonth date'.toYearMonth) :
    date.toYearMonth = date'.toYearMonth := by
  have hBack := congrArg (fun k => (0 - k : BitVec 32).toInt) h
  simp only [toInt_monthIndex] at hBack
  have g := date.one_le_month
  have g' := date.month_le
  have k := date'.one_le_month
  have k' := date'.month_le
  ext <;> omega

end Index

/-! ## Names of log files -/

/-- `replace(QRegExp("[./~?*]"), "-")`. -/
def sanitize (s : QString) : QString := s.map fun c => if c ∈ latin1 "./~?*" then 45 else c

/-- A number with zeros in front. -/
def zeroPadded (width n : Nat) : QString :=
  ((Nat.toDigits 10 n).leftpad width '0').map fun c => UInt16.ofNat c.toNat

/-- `date.toString(".yyyyMM")`. -/
def monthSuffix (date : YearMonth) : QString :=
  46 :: ((if date.year < 0 then [45] else []) ++ zeroPadded 4 date.year.natAbs ++
    zeroPadded 2 date.month.toNat)

/-- `writableLocation(GenericDataLocation) + '/' + "kopete/logs/" + name + ".xml"`. -/
def logPath (dataLocation name : QString) : QString :=
  dataLocation ++ latin1 "/" ++ latin1 "kopete/logs/" ++ name ++ latin1 ".xml"

/-- The name with the account in it. -/
def newName (c : Contact) (date : YearMonth) : QString :=
  sanitize c.pluginId ++ latin1 "/" ++ sanitize c.accountId ++ latin1 "/" ++
    sanitize c.contactId ++ monthSuffix date

/-- The name that Kopete 0.7.x used. -/
def oldName (c : Contact) (date : YearMonth) : QString :=
  sanitize c.pluginId ++ latin1 "/" ++ sanitize c.contactId ++ monthSuffix date

/-- `HistoryLogger::getFileName`, where `exists_` says which files there are. -/
def getFileName (dataLocation : QString) (exists_ : QString → Bool) (c : Contact)
    (date : YearMonth) : QString :=
  let filename := logPath dataLocation (newName c date)
  if !exists_ filename then
    let filename2 := logPath dataLocation (oldName c date)
    if exists_ filename2 then filename2 else filename
  else filename

theorem getFileName_ne_nil (dataLocation : QString) (exists_ : QString → Bool) (c : Contact)
    (date : YearMonth) : getFileName dataLocation exists_ c date ≠ [] := by
  have hPath : ∀ name, logPath dataLocation name ≠ [] := by
    intro name h
    simp [logPath, latin1] at h
  unfold getFileName
  simp only
  split
  · split <;> exact hPath _
  · exact hPath _

/-! ## What a name says -/

theorem notMem_sanitize {c : UInt16} (hc : c ∈ latin1 "./~?*") (s : QString) : c ∉ sanitize s := by
  intro h
  obtain ⟨d, -, hd⟩ := List.mem_map.mp h
  split at hd
  · subst hd
    exact absurd hc (by decide)
  · next hNot => exact hNot (hd ▸ hc)

theorem digits_of_leftpad {c : Char} {width n : Nat}
    (h : c ∈ (Nat.toDigits 10 n).leftpad width '0') : 48 ≤ c.toNat ∧ c.toNat ≤ 57 := by
  have hDigit : c.isDigit = true := by
    rcases List.mem_append.mp h with h | h
    · rw [List.eq_of_mem_replicate h]
      rfl
    · exact Nat.isDigit_of_mem_toDigits (by decide) (by decide) h
  simpa [Char.isDigit, UInt32.le_iff_toNat_le] using hDigit

theorem notMem_zeroPadded {c : UInt16} (hc : c.toNat < 48) (width n : Nat) :
    c ∉ zeroPadded width n := by
  intro h
  obtain ⟨d, hd, rfl⟩ := List.mem_map.mp h
  have hBounds := digits_of_leftpad hd
  rw [UInt16.toNat_ofNat', Nat.mod_eq_of_lt (by omega)] at hc
  omega

theorem zeroPadded_injective (width : Nat) : Function.Injective (zeroPadded width) := by
  have hBack : ∀ n, Nat.ofDigitChars 10
      ((zeroPadded width n).map fun c => Char.ofNat c.toNat) 0 = n := by
    intro n
    have hChars : (zeroPadded width n).map (fun c => Char.ofNat c.toNat) =
        (Nat.toDigits 10 n).leftpad width '0' := by
      rw [zeroPadded, List.map_map]
      refine (List.map_congr_left fun c hc => ?_).trans (List.map_id _)
      have hBounds := digits_of_leftpad hc
      rw [Function.comp_apply, UInt16.toNat_ofNat', Nat.mod_eq_of_lt (by omega), Char.ofNat_toNat,
        id_eq]
    rw [hChars, List.leftpad, Nat.ofDigitChars_append, Nat.ofDigitChars_replicate_zero,
      Nat.mul_zero, Nat.ofDigitChars_ten_toDigits]
  intro n m h
  rw [← hBack n, ← hBack m, h]

theorem length_zeroPadded_month (date : YearMonth) :
    (zeroPadded 2 date.month.toNat).length = 2 := by
  have hLow := date.one_le_month
  have hHigh := date.month_le
  have hDigits : (Nat.toDigits 10 date.month.toNat).length ≤ 2 :=
    (Nat.length_toDigits_le_iff (by decide) (by decide)).mpr (by omega)
  rw [zeroPadded, List.length_map, List.length_leftpad]
  omega

theorem monthSuffix_injective : Function.Injective monthSuffix := by
  intro d e h
  obtain ⟨hYear, hMonth⟩ := List.append_inj' (List.cons.inj h).2
    ((length_zeroPadded_month d).trans (length_zeroPadded_month e).symm)
  have hMinus := fun n => notMem_zeroPadded (c := 45) (by decide) 4 n
  have hMonth := zeroPadded_injective 2 hMonth
  have hd := d.one_le_month
  have he := e.one_le_month
  ext
  · split at hYear <;> split at hYear
    · have := zeroPadded_injective 4 (List.cons.inj hYear).2
      omega
    · rw [List.nil_append] at hYear
      exact absurd (hYear ▸ List.mem_cons_self) (hMinus e.year.natAbs)
    · rw [List.nil_append] at hYear
      exact absurd (hYear ▸ List.mem_cons_self) (hMinus d.year.natAbs)
    · have := zeroPadded_injective 4 hYear
      omega
  · omega

/-- What is before and after a separator, where it comes once before. -/
theorem split_separator {a b x y : QString} {s : UInt16} (ha : s ∉ a) (hb : s ∉ b)
    (h : a ++ s :: x = b ++ s :: y) : a = b ∧ x = y := by
  induction a generalizing b with
  | nil =>
    cases b with
    | nil => exact ⟨rfl, (List.cons.inj h).2⟩
    | cons c b => exact absurd ((List.cons.inj h).1 ▸ List.mem_cons_self) hb
  | cons c a ih =>
    cases b with
    | nil => exact absurd ((List.cons.inj h).1 ▸ List.mem_cons_self) ha
    | cons c' b =>
      obtain ⟨hHead, hTail⟩ := List.cons.inj h
      obtain ⟨hRest, hAfter⟩ := ih (fun h => ha (List.mem_cons_of_mem _ h))
        (fun h => hb (List.mem_cons_of_mem _ h)) hTail
      exact ⟨by rw [hHead, hRest], hAfter⟩

theorem logPath_injective (dataLocation : QString) : Function.Injective (logPath dataLocation) := by
  intro a b h
  exact List.append_cancel_left (List.append_cancel_right h)

/-- The name without the month. -/
def stem (c : Contact) (old : Bool) : QString :=
  sanitize c.pluginId ++ 47 ::
    (if old then sanitize c.contactId else sanitize c.accountId ++ 47 :: sanitize c.contactId)

theorem newName_eq (c : Contact) (date : YearMonth) :
    newName c date = stem c false ++ monthSuffix date := by
  simp [newName, stem, latin1]

theorem oldName_eq (c : Contact) (date : YearMonth) :
    oldName c date = stem c true ++ monthSuffix date := by
  simp [oldName, stem, latin1]

theorem dot_notMem_stem (c : Contact) (old : Bool) : 46 ∉ stem c old := by
  have hDot := notMem_sanitize (c := 46) (by decide)
  cases old <;> simp [stem, hDot]

theorem stem_monthSuffix {c c' : Contact} {old old' : Bool} {d d' : YearMonth}
    (h : stem c old ++ monthSuffix d = stem c' old' ++ monthSuffix d') :
    stem c old = stem c' old' ∧ d = d' := by
  obtain ⟨hStem, hMonth⟩ := split_separator (dot_notMem_stem c old) (dot_notMem_stem c' old') h
  exact ⟨hStem, monthSuffix_injective (congrArg (List.cons 46) hMonth)⟩

theorem old_of_stem {c c' : Contact} {old old' : Bool} (h : stem c old = stem c' old') :
    old = old' ∧ stem c true = stem c' true := by
  have hSlash := notMem_sanitize (c := 47) (by decide)
  obtain ⟨hPlugin, hRest⟩ := split_separator (hSlash _) (hSlash _) h
  have hMem : ∀ a b : QString, (47 : UInt16) ∈ a ++ 47 :: b := fun a b => by simp
  cases old <;> cases old' <;> simp only [Bool.false_eq_true, if_false, if_true] at hRest
  · obtain ⟨-, hContact⟩ := split_separator (hSlash _) (hSlash _) hRest
    simp [stem, hPlugin, hContact]
  · exact absurd (hRest ▸ hMem _ _) (hSlash c'.contactId)
  · exact absurd (hRest ▸ hMem _ _) (hSlash c.contactId)
  · simp [stem, hPlugin, hRest]

variable {dataLocation : QString} {exists_ exists' : QString → Bool}

/-- The name is the new or the old one, and which of them says what there is. -/
theorem getFileName_eq (dataLocation : QString) (exists_ : QString → Bool) (c : Contact)
    (date : YearMonth) :
    ∃ old, getFileName dataLocation exists_ c date =
        logPath dataLocation (stem c old ++ monthSuffix date) ∧
      (old = true ↔
        exists_ (logPath dataLocation (stem c false ++ monthSuffix date)) = false ∧
          exists_ (logPath dataLocation (stem c true ++ monthSuffix date)) = true) := by
  simp only [getFileName, newName_eq, oldName_eq]
  cases hNew : exists_ (logPath dataLocation (stem c false ++ monthSuffix date)) with
  | true => exact ⟨false, by simp⟩
  | false =>
    cases hOld : exists_ (logPath dataLocation (stem c true ++ monthSuffix date)) with
    | true => exact ⟨true, by simp⟩
    | false => exact ⟨false, by simp⟩

/-- **The name says the month.** -/
theorem yearMonth_of_getFileName {c c' : Contact} {d d' : YearMonth}
    (h : getFileName dataLocation exists_ c d = getFileName dataLocation exists' c' d') :
    d = d' := by
  obtain ⟨old, hName, -⟩ := getFileName_eq dataLocation exists_ c d
  obtain ⟨old', hName', -⟩ :=
    getFileName_eq dataLocation exists' c' d'
  rw [hName, hName'] at h
  exact (stem_monthSuffix (logPath_injective dataLocation h)).2

/-- **Names in use.** Where no file goes, and only names that some contact has in some month get
one, every contact has the names that it had. -/
theorem getFileName_stable (hKeep : ∀ f, exists_ f = true → exists' f = true)
    (hNew : ∀ f, exists_ f = false → exists' f = true →
      ∃ c d, f = getFileName dataLocation exists_ c d) (c : Contact) (date : YearMonth) :
    getFileName dataLocation exists' c date = getFileName dataLocation exists_ c date := by
  -- a new file of either name would have to be the one in use
  have hOnly : ∀ old, exists_ (logPath dataLocation (stem c old ++ monthSuffix date)) = false →
      exists' (logPath dataLocation (stem c old ++ monthSuffix date)) = true →
      old = false ∧ exists_ (logPath dataLocation (stem c true ++ monthSuffix date)) = false := by
    intro old hBefore hAfter
    obtain ⟨c', d', hName⟩ := hNew _ hBefore hAfter
    obtain ⟨old', hUsed, hOld'⟩ :=
      getFileName_eq dataLocation exists_ c' d'
    obtain ⟨hStem, rfl⟩ := stem_monthSuffix (logPath_injective dataLocation (hName.trans hUsed))
    obtain ⟨rfl, hTrue⟩ := old_of_stem hStem
    have hStemFalse : old = false := by
      cases old with
      | false => rfl
      | true => exact absurd ((hOld'.mp rfl).2) (by rw [← hStem, hBefore]; exact Bool.false_ne_true)
    subst hStemFalse
    refine ⟨rfl, ?_⟩
    rw [hTrue]
    by_contra hNot
    exact Bool.false_ne_true (hOld'.mpr ⟨hStem ▸ hBefore, by simpa using hNot⟩)
  obtain ⟨old, hName, hOld⟩ :=
    getFileName_eq dataLocation exists_ c date
  obtain ⟨old', hName', hOld'⟩ :=
    getFileName_eq dataLocation exists' c date
  suffices hSame : old' = old by rw [hName, hName', hSame]
  rw [Bool.eq_iff_iff, hOld, hOld']
  constructor
  · rintro ⟨hFalse, hTrue⟩
    refine ⟨Bool.eq_false_iff.mpr fun h => ?_, by_contra fun h => ?_⟩
    · exact Bool.false_ne_true (hFalse.symm.trans (hKeep _ h))
    · exact Bool.false_ne_true (hOnly true (Bool.eq_false_iff.mpr h) hTrue).1.symm
  · rintro ⟨hFalse, hTrue⟩
    refine ⟨Bool.eq_false_iff.mpr fun h => ?_, hKeep _ hTrue⟩
    exact Bool.false_ne_true ((hOnly false hFalse h).2.symm.trans hTrue)

end History
