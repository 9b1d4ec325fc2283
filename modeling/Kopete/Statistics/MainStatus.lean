import Kopete.Lib.Intervals
import Kopete.Libkopete.Account
import Kopete.Libkopete.StatusItems
import Mathlib

/-!
# statistics — the main status of a day

The rows of a contact with an end in the day are asked for, cut at midnight, and their lengths are
added up for each status. A row that goes past the day at both ends is not asked for. What the
database answers is read with `toInt`, for which a time after January 2038 is no number, and a
midnight before 1970 is the greatest `uint`. The database is taken to answer as it is asked.

Main results:

* `mainStatus_iff` — which status is ahead after the loop;
* `length_eq_within`, `within_eq_zero_of_not_selects` — what is cut, and what is not asked for;
* `main_of_covers` — a row as long as the day makes its status the main one;
* `rightStatus_iff` — the days for which the answer is right.
-/

namespace Statistics

open Html (latin1)
open Intervals (within Apart)
open Kopete (QString StatusType)
open Kopete.Status (toInt toInt_number)
open Kopete.XmlContactStorage (number)

abbrev QStringList := List QString

/-! ## The table -/

/-- `statusNames`. -/
def statusNames : List (StatusType × String) :=
  [(.unknown, "Unknown"), (.offline, "Offline"), (.connecting, "Connecting"),
    (.invisible, "Invisible"), (.online, "Online"), (.away, "Away"), (.busy, "Busy")]

/-- `OnlineStatus::statusTypeToString`. -/
def statusTypeToString (statusType : StatusType) : QString :=
  match statusNames.find? fun entry => entry.1 = statusType with
  | some entry => latin1 entry.2
  | none => latin1 "Unknown"

/-- A row of `contactstatus`, as `onlineStatusChanged` inserts it. -/
structure ContactStatus where
  metacontactid : QString
  status : QString
  datetimebegin : Nat
  datetimeend : Nat
  begin_le_end : datetimebegin ≤ datetimeend
  end_lt : datetimeend < 2 ^ 32
deriving DecidableEq

namespace ContactStatus

def interval (r : ContactStatus) : Int × Int := (r.datetimebegin, r.datetimeend)

/-- The columns that `mainStatusDate` selects. -/
def columns (r : ContactStatus) : QStringList :=
  [r.status, number r.datetimebegin, number r.datetimeend, r.metacontactid]

end ContactStatus

/-- The query of `mainStatusDate`, with what stands for its place markers. -/
structure Request where
  metacontactid : QString
  begin_ge : Nat
  begin_le : Nat
  end_ge : Nat
  end_le : Nat

/-- Its condition. -/
def Request.Selects (request : Request) (r : ContactStatus) : Prop :=
  r.metacontactid = request.metacontactid ∧
    (request.begin_ge ≤ r.datetimebegin ∧ r.datetimebegin ≤ request.begin_le ∨
      request.end_ge ≤ r.datetimeend ∧ r.datetimeend ≤ request.end_le)

instance (request : Request) (r : ContactStatus) : Decidable (request.Selects r) :=
  inferInstanceAs (Decidable (_ ∧ _))

/-- The database answers as it is asked. -/
def Answers (table : List ContactStatus) (query : Request → QStringList) : Prop :=
  ∀ request, ∃ rows : List ContactStatus,
    query request = rows.flatMap ContactStatus.columns ∧
      rows.Perm (table.filter fun r => request.Selects r) ∧
        rows.Pairwise fun r r' => r.datetimebegin ≤ r'.datetimebegin

/-! ## mainStatusDate -/

/-- A date: its midnight and that of the next date, in seconds since 1970. They are less than two
days apart, whatever the time zone does. -/
structure Day where
  dt1 : Int
  dt2 : Int
  lt : dt1 < dt2
  le : dt2 ≤ dt1 + 2 * 86400

/-- `QDateTime::toTime_t`. -/
def toTime_t (dateTime : Int) : Nat :=
  if 0 ≤ dateTime ∧ dateTime < 2 ^ 32 - 1 then dateTime.toNat else 2 ^ 32 - 1

/-- An `int` as an `unsigned int`. -/
def unsigned (n : Int) : Nat := (n % 2 ^ 32).toNat

/-- The sum of two `unsigned int`s. -/
def plus (a b : Nat) : Nat := (a + b) % 2 ^ 32

/-- The difference of two `unsigned int`s. -/
def minus (a b : Nat) : Nat := (a + 2 ^ 32 - b) % 2 ^ 32

/-- What is added up in the loop. -/
structure Totals where
  online : Nat
  offline : Nat
  away : Nat
  busy : Nat
deriving DecidableEq, Repr

/-- The length of a row is added to the total of its status. -/
def Totals.add (t : Totals) (status : QString) (length : Nat) : Totals :=
  if status = statusTypeToString .online then { t with online := plus t.online length }
  else if status = statusTypeToString .away then { t with away := plus t.away length }
  else if status = statusTypeToString .busy then { t with busy := plus t.busy length }
  else if status = statusTypeToString .offline then { t with offline := plus t.offline length }
  else t

/-- `datetimebegin` in the loop. -/
def beginIn (day : Day) (value : QString) : Nat :=
  let datetimebegin := unsigned (toInt value)
  if datetimebegin ≤ toTime_t day.dt1 then toTime_t day.dt1 else datetimebegin

/-- `datetimeend` in the loop. -/
def endIn (day : Day) (value : QString) : Nat :=
  let datetimeend := unsigned (toInt value)
  if toTime_t day.dt2 ≤ datetimeend then toTime_t day.dt2 else datetimeend

/-- The loop. -/
def count (day : Day) : Totals → QStringList → Totals
  | t, status :: datetimebegin :: datetimeend :: _ :: values =>
    count day (t.add status (minus (endIn day datetimeend) (beginIn day datetimebegin))) values
  | t, _ => t

/-- What is given to `i18n`; `none` for `QString()`. -/
def Totals.mainStatus (t : Totals) : Option QString :=
  if t.online > t.away ∧ t.online > t.offline ∧ t.online > t.busy then some (latin1 "Online")
  else if t.away > t.online ∧ t.away > t.offline ∧ t.away > t.busy then some (latin1 "Away")
  else if t.offline > t.online ∧ t.offline > t.away ∧ t.offline > t.busy then
    some (latin1 "Offline")
  else if t.busy > t.online ∧ t.busy > t.offline ∧ t.busy > t.away then some (latin1 "Busy")
  else none

/-- The request for a date. -/
def requestFor (metaContactId : QString) (day : Day) : Request :=
  ⟨metaContactId, toTime_t day.dt1, toTime_t day.dt2, toTime_t day.dt1, toTime_t day.dt2⟩

/-- `StatisticsContact::mainStatusDate`. -/
def mainStatusDate (query : Request → QStringList) (metaContactId : QString) (day : Day) :
    Option QString :=
  (count day ⟨0, 0, 0, 0⟩ (query (requestFor metaContactId day))).mainStatus

/-! ## What is promised -/

/-- The statuses that are counted. -/
def tracked : List StatusType := [.online, .away, .busy, .offline]

/-- The rows of a contact. -/
def rowsOf (table : List ContactStatus) (metaContactId : QString) : List ContactStatus :=
  table.filter fun r => r.metacontactid = metaContactId

/-- No two rows of a contact have a second in common. -/
def NonOverlapping (table : List ContactStatus) (metaContactId : QString) : Prop :=
  (rowsOf table metaContactId).Pairwise fun r r' => Apart r.interval r'.interval

instance (table : List ContactStatus) (metaContactId : QString) :
    Decidable (NonOverlapping table metaContactId) :=
  inferInstanceAs (Decidable (List.Pairwise _ _))

/-- How long a contact had a status on a day. -/
def total (table : List ContactStatus) (metaContactId : QString) (day : Day) (s : StatusType) :
    Nat :=
  (((rowsOf table metaContactId).filter fun r => r.status = statusTypeToString s).map fun r =>
    within day.dt1 day.dt2 r.interval).sum

/-- The status that a contact had for longer than each other on a day. -/
def Main (table : List ContactStatus) (metaContactId : QString) (day : Day) (s : StatusType) :
    Prop :=
  s ∈ tracked ∧ ∀ other ∈ tracked, other ≠ s →
    total table metaContactId day other < total table metaContactId day s

instance (table : List ContactStatus) (metaContactId : QString) (day : Day) (s : StatusType) :
    Decidable (Main table metaContactId day s) :=
  inferInstanceAs (Decidable (_ ∧ _))

/-- A row is counted in the loop. -/
def Counted (status : QString) : Prop := ∃ s ∈ tracked, status = statusTypeToString s

instance (status : QString) : Decidable (Counted status) :=
  inferInstanceAs (Decidable (∃ s ∈ tracked, _))

/-- A subtraction in the loop is of a greater number from a smaller one. -/
def Underflows (day : Day) : QStringList → Prop
  | status :: datetimebegin :: datetimeend :: _ :: values =>
    (Counted status ∧ endIn day datetimeend < beginIn day datetimebegin) ∨ Underflows day values
  | _ => False

/-- A status is returned exactly if it is the main one, and no subtraction underflows. -/
structure RightStatus (table : List ContactStatus) (query : Request → QStringList)
    (metaContactId : QString) (day : Day) : Prop where
  noUnderflow : ¬ Underflows day (query (requestFor metaContactId day))
  returned : ∀ text, mainStatusDate query metaContactId day = some text ↔
    ∃ s, Main table metaContactId day s ∧ text = statusTypeToString s

/-- No counted row goes past the day at both ends, none that is asked for ends after January 2038,
and no status is the main one where midnight is before 1970. -/
structure Fits (table : List ContactStatus) (metaContactId : QString) (day : Day) : Prop where
  epoch : day.dt1 < 0 → ∀ s, ¬ Main table metaContactId day s
  ends : ∀ r ∈ table, (requestFor metaContactId day).Selects r → Counted r.status →
    r.datetimeend < 2 ^ 31
  inside : ∀ r ∈ rowsOf table metaContactId, Counted r.status →
    ¬ (r.datetimebegin < day.dt1 ∧ day.dt2 < r.datetimeend)

/-! ## Numbers -/

/-- What the loop reads: a number with the sign bit is none to `toInt`. -/
def read (n : Nat) : Nat := if n < 2 ^ 31 then n else 0

theorem read_of_lt {n : Nat} (h : n < 2 ^ 31) : read n = n := if_pos h

theorem unsigned_toInt_number {n : Nat} (h : n < 2 ^ 32) : unsigned (toInt (number n)) = read n := by
  rw [toInt_number h, unsigned, read]
  split <;> omega

theorem toTime_t_eq {dateTime : Int} (hLow : 0 ≤ dateTime) (hHigh : dateTime < 2 ^ 32 - 1) :
    (toTime_t dateTime : Int) = dateTime := by
  rw [toTime_t, if_pos ⟨hLow, hHigh⟩]
  omega

theorem toTime_t_of_neg {dateTime : Int} (h : dateTime < 0) : toTime_t dateTime = 2 ^ 32 - 1 :=
  if_neg fun hIn => absurd hIn.1 (by omega)

theorem minus_eq {a b : Nat} (hLe : b ≤ a) (hLt : a < 2 ^ 32) : minus a b = a - b := by
  unfold minus
  omega

namespace ContactStatus

variable (r : ContactStatus) (day : Day)

/-- Where a row begins once it is cut. -/
def clipBegin : Nat := beginIn day (number r.datetimebegin)

/-- Where it ends. -/
def clipEnd : Nat := endIn day (number r.datetimeend)

/-- What is added to the total of its status. -/
def length : Nat := minus (r.clipEnd day) (r.clipBegin day)

theorem begin_lt : r.datetimebegin < 2 ^ 32 := Nat.lt_of_le_of_lt r.begin_le_end r.end_lt

theorem clipBegin_eq : r.clipBegin day =
    if read r.datetimebegin ≤ toTime_t day.dt1 then toTime_t day.dt1 else read r.datetimebegin := by
  rw [clipBegin, beginIn, unsigned_toInt_number r.begin_lt]

theorem clipEnd_eq : r.clipEnd day =
    if toTime_t day.dt2 ≤ read r.datetimeend then toTime_t day.dt2 else read r.datetimeend := by
  rw [clipEnd, endIn, unsigned_toInt_number r.end_lt]

theorem clipEnd_lt : r.clipEnd day < 2 ^ 32 := by
  rw [clipEnd_eq, read]
  have hEnd := r.end_lt
  split <;> split <;> omega

end ContactStatus

/-! ## The loop -/

theorem statusTypeToString_inj {s s' : StatusType} :
    statusTypeToString s = statusTypeToString s' ↔ s = s' := by
  refine ⟨fun h => ?_, congrArg statusTypeToString⟩
  revert h
  cases s <;> cases s' <;> decide

/-- The total of a status. -/
def Totals.get (t : Totals) : StatusType → Nat
  | .online => t.online
  | .offline => t.offline
  | .away => t.away
  | .busy => t.busy
  | _ => 0

theorem mem_tracked {s : StatusType} :
    s ∈ tracked ↔ s = .online ∨ s = .away ∨ s = .busy ∨ s = .offline := by
  simp [tracked]

theorem get_add {s : StatusType} (hs : s ∈ tracked) (t : Totals) (status : QString) (n : Nat) :
    (t.add status n).get s =
      if status = statusTypeToString s then plus (t.get s) n else t.get s := by
  unfold Totals.add
  rcases mem_tracked.1 hs with rfl | rfl | rfl | rfl <;>
    split_ifs <;> simp_all [Totals.get, statusTypeToString_inj]

theorem count_columns (day : Day) (t : Totals) (rows : List ContactStatus) :
    count day t (rows.flatMap ContactStatus.columns) =
      rows.foldl (fun t r => t.add r.status (r.length day)) t := by
  induction rows generalizing t with
  | nil => rfl
  | cons r rows ih => exact ih (t.add r.status (r.length day))

/-- **The totals** after the loop. -/
theorem get_count {s : StatusType} (hs : s ∈ tracked) (day : Day) (rows : List ContactStatus) :
    (count day ⟨0, 0, 0, 0⟩ (rows.flatMap ContactStatus.columns)).get s =
      ((rows.filter fun r => r.status = statusTypeToString s).map fun r => r.length day).sum %
        2 ^ 32 := by
  have hRun : ∀ (rows : List ContactStatus) (t : Totals), t.get s < 2 ^ 32 →
      (rows.foldl (fun t r => t.add r.status (r.length day)) t).get s =
        (t.get s + ((rows.filter fun r => r.status = statusTypeToString s).map fun r =>
          r.length day).sum) % 2 ^ 32 := by
    intro rows
    induction rows with
    | nil => exact fun t ht => (Nat.mod_eq_of_lt ht).symm
    | cons r rows ih =>
      intro t ht
      have hGet := get_add hs t r.status (r.length day)
      rw [List.foldl_cons, List.filter_cons]
      by_cases hStatus : r.status = statusTypeToString s
      · rw [if_pos hStatus] at hGet
        rw [ih _ (by rw [hGet, plus]; exact Nat.mod_lt _ (by decide)), hGet,
          if_pos (decide_eq_true hStatus), List.map_cons, List.sum_cons, plus, Nat.mod_add_mod,
          Nat.add_assoc]
      · rw [if_neg hStatus] at hGet
        rw [ih _ (by rw [hGet]; exact ht), hGet, if_neg (by simpa using hStatus)]
  rw [count_columns, hRun rows ⟨0, 0, 0, 0⟩ (by cases s <;> decide)]
  cases s <;> simp [Totals.get]

theorem forall_tracked {p : StatusType → Prop} :
    (∀ s ∈ tracked, p s) ↔ p .online ∧ p .away ∧ p .busy ∧ p .offline := by
  simp [tracked]

/-- **The status that is ahead** is the one that is returned. -/
theorem mainStatus_iff (t : Totals) (text : QString) :
    t.mainStatus = some text ↔
      ∃ s ∈ tracked, text = statusTypeToString s ∧
        ∀ other ∈ tracked, other ≠ s → t.get other < t.get s := by
  have hOnline : latin1 "Online" = statusTypeToString .online := rfl
  have hAway : latin1 "Away" = statusTypeToString .away := rfl
  have hOffline : latin1 "Offline" = statusTypeToString .offline := rfl
  have hBusy : latin1 "Busy" = statusTypeToString .busy := rfl
  unfold Totals.mainStatus
  rw [hOnline, hAway, hOffline, hBusy]
  simp only [forall_tracked, ne_eq]
  constructor
  · intro h
    split_ifs at h with hOn hAw hOff hBu <;> cases h
    · exact ⟨.online, by decide, rfl, by simp [Totals.get]; omega⟩
    · exact ⟨.away, by decide, rfl, by simp [Totals.get]; omega⟩
    · exact ⟨.offline, by decide, rfl, by simp [Totals.get]; omega⟩
    · exact ⟨.busy, by decide, rfl, by simp [Totals.get]; omega⟩
  · rintro ⟨s, hs, rfl, hMost⟩
    rcases mem_tracked.1 hs with rfl | rfl | rfl | rfl <;>
      simp only [Totals.get, reduceCtorEq, not_true_eq_false, not_false_eq_true, false_implies,
        true_implies, true_and, and_true] at hMost <;>
      split_ifs <;> first | rfl | omega

theorem underflows_columns (day : Day) (rows : List ContactStatus) :
    Underflows day (rows.flatMap ContactStatus.columns) ↔
      ∃ r ∈ rows, Counted r.status ∧ r.clipEnd day < r.clipBegin day := by
  induction rows with
  | nil => exact ⟨False.elim, fun ⟨_, hr, _⟩ => absurd hr List.not_mem_nil⟩
  | cons r rows ih =>
    rw [List.exists_mem_cons_iff, ← ih]
    exact Iff.rfl

/-! ## What is asked for -/

section

variable {table : List ContactStatus} {query : Request → QStringList} {metaContactId : QString}
  {day : Day}

/-- The rows that are asked for. -/
def asked (table : List ContactStatus) (metaContactId : QString) (day : Day) :
    List ContactStatus :=
  table.filter fun r => (requestFor metaContactId day).Selects r

theorem selects_iff {r : ContactStatus} :
    (requestFor metaContactId day).Selects r ↔ r.metacontactid = metaContactId ∧
      (toTime_t day.dt1 ≤ r.datetimebegin ∧ r.datetimebegin ≤ toTime_t day.dt2 ∨
        toTime_t day.dt1 ≤ r.datetimeend ∧ r.datetimeend ≤ toTime_t day.dt2) := Iff.rfl

theorem mem_asked {r : ContactStatus} :
    r ∈ asked table metaContactId day ↔
      r ∈ table ∧ (requestFor metaContactId day).Selects r := by
  rw [asked, List.mem_filter, decide_eq_true_eq]

theorem mem_rowsOf {r : ContactStatus} :
    r ∈ rowsOf table metaContactId ↔ r ∈ table ∧ r.metacontactid = metaContactId := by
  rw [rowsOf, List.mem_filter, decide_eq_true_eq]

theorem mem_rowsOf_of_mem_asked {r : ContactStatus} (h : r ∈ asked table metaContactId day) :
    r ∈ rowsOf table metaContactId :=
  mem_rowsOf.2 ⟨(mem_asked.1 h).1, (mem_asked.1 h).2.1⟩

/-- The lengths that are added up for a status. -/
def added (table : List ContactStatus) (metaContactId : QString) (day : Day) (s : StatusType) :
    Nat :=
  (((asked table metaContactId day).filter fun r => r.status = statusTypeToString s).map fun r =>
    r.length day).sum

theorem mainStatusDate_of_answers (h : Answers table query) (metaContactId : QString)
    (day : Day) :
    ∃ t : Totals, mainStatusDate query metaContactId day = t.mainStatus ∧
      ∀ s ∈ tracked, t.get s = added table metaContactId day s % 2 ^ 32 := by
  obtain ⟨rows, hQuery, hPerm, -⟩ := h (requestFor metaContactId day)
  refine ⟨_, rfl, fun s hs => ?_⟩
  rw [hQuery, get_count hs]
  exact congrArg (· % 2 ^ 32) ((hPerm.filter _).map _).sum_eq

theorem underflows_of_answers (h : Answers table query) (metaContactId : QString) (day : Day) :
    Underflows day (query (requestFor metaContactId day)) ↔
      ∃ r ∈ asked table metaContactId day,
        Counted r.status ∧ r.clipEnd day < r.clipBegin day := by
  obtain ⟨rows, hQuery, hPerm, -⟩ := h (requestFor metaContactId day)
  rw [hQuery, underflows_columns]
  exact exists_congr fun r => and_congr_left fun _ => hPerm.mem_iff

theorem mainStatusDate_eq_none (h : Answers table query)
    (hZero : ∀ r ∈ asked table metaContactId day, Counted r.status → r.length day = 0) :
    mainStatusDate query metaContactId day = none := by
  obtain ⟨t, hMain, hGet⟩ := mainStatusDate_of_answers h metaContactId day
  have hNone : ∀ s ∈ tracked, t.get s = 0 := by
    intro s hs
    have hAdded : added table metaContactId day s = 0 := by
      refine List.sum_eq_zero fun n hn => ?_
      obtain ⟨r, hr, rfl⟩ := List.mem_map.1 hn
      obtain ⟨hr, hStatus⟩ := List.mem_filter.1 hr
      exact hZero r hr ⟨s, hs, of_decide_eq_true hStatus⟩
    rw [hGet s hs, hAdded]
    rfl
  rw [hMain]
  refine Option.eq_none_iff_forall_ne_some.2 fun text hText => ?_
  obtain ⟨s, hs, -, hMost⟩ := (mainStatus_iff t text).1 hText
  obtain ⟨other, hOther, hNe⟩ : ∃ other ∈ tracked, other ≠ s := by
    revert hs
    cases s <;> decide
  have hLess := hMost other hOther hNe
  rw [hNone s hs] at hLess
  exact absurd hLess (Nat.not_lt_zero _)

/-! ## What there is of a day -/

theorem NonOverlapping.apart (h : NonOverlapping table metaContactId) {r r' : ContactStatus}
    (hr : r ∈ rowsOf table metaContactId) (hr' : r' ∈ rowsOf table metaContactId) (hNe : r ≠ r') :
    Apart r.interval r'.interval := by
  have : Std.Symm fun r r' : ContactStatus => Apart r.interval r'.interval :=
    ⟨fun _ _ hApart => hApart.symm⟩
  exact List.Pairwise.forall h hr hr' hNe

/-- **Two statuses** have no more than the day together. -/
theorem total_add_total_le (hApart : NonOverlapping table metaContactId) (day : Day)
    {s s' : StatusType} (hNe : s ≠ s') :
    total table metaContactId day s + total table metaContactId day s' ≤
      (day.dt2 - day.dt1).toNat := by
  have hWithin := Intervals.sum_within_le (List.pairwise_map.2 hApart) day.dt1 day.dt2
  rw [List.map_map] at hWithin
  refine le_trans (Intervals.sum_filter_add_sum_filter_le _ _ fun r hr => ?_) hWithin
  refine decide_eq_false fun hStatus => hNe ?_
  rw [← statusTypeToString_inj, ← of_decide_eq_true hr, ← hStatus]

theorem total_lt (hApart : NonOverlapping table metaContactId) (day : Day) (s : StatusType) :
    total table metaContactId day s < 2 ^ 32 := by
  obtain ⟨s', hNe⟩ : ∃ s', s ≠ s' := by
    cases s
    · exact ⟨.online, by decide⟩
    all_goals exact ⟨.unknown, by decide⟩
  have hSum := total_add_total_le hApart day hNe
  have hDay := day.le
  omega

/-- **A row as long as the day** makes its status the main one. -/
theorem main_of_covers (hApart : NonOverlapping table metaContactId) {r : ContactStatus}
    (hr : r ∈ rowsOf table metaContactId) {s : StatusType} (hs : s ∈ tracked)
    (hStatus : r.status = statusTypeToString s) (hLow : r.datetimebegin ≤ day.dt1)
    (hHigh : day.dt2 ≤ r.datetimeend) : Main table metaContactId day s := by
  refine ⟨hs, fun other _ hNe => ?_⟩
  have hCovers : within day.dt1 day.dt2 r.interval = (day.dt2 - day.dt1).toNat :=
    Intervals.within_of_covers hLow hHigh
  have hWhole : (day.dt2 - day.dt1).toNat ≤ total table metaContactId day s := by
    rw [← hCovers]
    refine List.le_sum_of_mem (List.mem_map.2 ⟨r, List.mem_filter.2 ⟨hr, ?_⟩, rfl⟩)
    exact decide_eq_true hStatus
  have hBoth := total_add_total_le hApart day hNe
  have hDay := day.lt
  omega

/-! ## Rows that are cut -/

/-- **What is cut** is what there is of the row in the day. -/
theorem length_eq_within {r : ContactStatus} (hEpoch : 0 ≤ day.dt1)
    (hSelects : (requestFor metaContactId day).Selects r) (hEnd : r.datetimeend < 2 ^ 31) :
    r.clipBegin day ≤ r.clipEnd day ∧
      r.length day = within day.dt1 day.dt2 r.interval := by
  have hOrder := r.begin_le_end
  have hLt := day.lt
  have hLe := day.le
  have hSelected := (selects_iff.1 hSelects).2
  -- the day is not beyond what an `int` holds
  have hEarly : day.dt1 < 2 ^ 31 := by
    have hLow : toTime_t day.dt1 ≤ r.datetimeend := by omega
    unfold toTime_t at hLow
    split at hLow <;> omega
  have hStart := toTime_t_eq hEpoch (by omega)
  have hStop := toTime_t_eq (by omega : 0 ≤ day.dt2) (by omega)
  have hClipBegin := r.clipBegin_eq day
  have hClipEnd := r.clipEnd_eq day
  rw [read_of_lt (by omega)] at hClipBegin
  rw [read_of_lt hEnd] at hClipEnd
  have hClipped : r.clipBegin day ≤ r.clipEnd day := by
    rw [hClipBegin, hClipEnd]
    split_ifs <;> omega
  refine ⟨hClipped, ?_⟩
  rw [ContactStatus.length, minus_eq hClipped (r.clipEnd_lt day), hClipBegin, hClipEnd, within,
    Intervals.highEnd, Intervals.lowEnd, ContactStatus.interval]
  split_ifs <;> omega

/-- **What is not asked for** has nothing in the day, unless it goes past both ends. -/
theorem within_eq_zero_of_not_selects {r : ContactStatus} (hEpoch : 0 ≤ day.dt1)
    (hId : r.metacontactid = metaContactId)
    (hSelects : ¬ (requestFor metaContactId day).Selects r)
    (hInside : ¬ (r.datetimebegin < day.dt1 ∧ day.dt2 < r.datetimeend)) :
    within day.dt1 day.dt2 r.interval = 0 := by
  have hOrder := r.begin_le_end
  have hEnd := r.end_lt
  have hLt := day.lt
  rw [selects_iff, and_iff_right hId] at hSelects
  refine Intervals.within_eq_zero ?_
  show day.dt2 ≤ (r.datetimebegin : Int) ∨ (r.datetimeend : Int) ≤ day.dt1
  unfold toTime_t at hSelects
  split at hSelects <;> split at hSelects <;> omega

theorem length_eq_zero_of_apart {r r' : ContactStatus} (hStart : (toTime_t day.dt1 : Int) = day.dt1)
    (hStop : (toTime_t day.dt2 : Int) = day.dt2) (hLow : r.datetimebegin ≤ day.dt1)
    (hHigh : day.dt2 ≤ r.datetimeend) (hApart : Apart r.interval r'.interval)
    (hClipped : r'.clipBegin day ≤ r'.clipEnd day) : r'.length day = 0 := by
  have hOrder := r'.begin_le_end
  have hLt := day.lt
  unfold Apart ContactStatus.interval at hApart
  rw [ContactStatus.length, minus_eq hClipped (r'.clipEnd_lt day)]
  rw [r'.clipBegin_eq, r'.clipEnd_eq] at hClipped ⊢
  unfold read at hClipped ⊢
  split_ifs at hClipped ⊢ <;> omega

/-! ## When the answer is right -/

theorem mainStatusDate_of_neg (hAnswers : Answers table query) (hEpoch : day.dt1 < 0)
    (hClipped : ¬ Underflows day (query (requestFor metaContactId day))) :
    mainStatusDate query metaContactId day = none := by
  refine mainStatusDate_eq_none hAnswers fun r hr hCounted => absurd ?_ hClipped
  refine (underflows_of_answers hAnswers metaContactId day).2 ⟨r, hr, hCounted, ?_⟩
  have hOrder := r.begin_le_end
  have hEnd := r.end_lt
  have hMidnight := toTime_t_of_neg hEpoch
  have hSelected := (selects_iff.1 (mem_asked.1 hr).2).2
  rw [r.clipBegin_eq, r.clipEnd_eq]
  unfold read
  split_ifs <;> omega

theorem added_eq_total (h : Fits table metaContactId day) (hEpoch : 0 ≤ day.dt1)
    {s : StatusType} (hs : s ∈ tracked) :
    added table metaContactId day s = total table metaContactId day s := by
  have hRows : (asked table metaContactId day).filter (fun r => r.status = statusTypeToString s) =
      ((rowsOf table metaContactId).filter fun r => r.status = statusTypeToString s).filter
        fun r => (requestFor metaContactId day).Selects r := by
    rw [asked, rowsOf, List.filter_filter, List.filter_filter, List.filter_filter]
    refine List.filter_congr fun r _ => ?_
    by_cases hSelects : (requestFor metaContactId day).Selects r
    · simp [hSelects, (show r.metacontactid = metaContactId from hSelects.1)]
    · simp [hSelects]
  rw [added, hRows, total]
  refine Intervals.sum_filter_eq (fun r hr hSelects => ?_) fun r hr hSelects => ?_
  · obtain ⟨hMem, hStatus⟩ := List.mem_filter.1 hr
    have hEnd := h.ends r (mem_rowsOf.1 hMem).1 (of_decide_eq_true hSelects)
      ⟨s, hs, of_decide_eq_true hStatus⟩
    exact (length_eq_within hEpoch (of_decide_eq_true hSelects) hEnd).2
  · obtain ⟨hMem, hStatus⟩ := List.mem_filter.1 hr
    exact within_eq_zero_of_not_selects hEpoch (mem_rowsOf.1 hMem).2
      (of_decide_eq_false hSelects) (h.inside r hMem ⟨s, hs, of_decide_eq_true hStatus⟩)

theorem not_underflows_of_fits (hAnswers : Answers table query)
    (h : Fits table metaContactId day) :
    ¬ Underflows day (query (requestFor metaContactId day)) := by
  rw [underflows_of_answers hAnswers]
  rintro ⟨r, hr, hCounted, hLess⟩
  obtain ⟨hMem, hSelects⟩ := mem_asked.1 hr
  have hEnd := h.ends r hMem hSelects hCounted
  rcases Int.lt_or_le day.dt1 0 with hEpoch | hEpoch
  · have hMidnight := toTime_t_of_neg hEpoch
    have hOrder := r.begin_le_end
    have hSelected := (selects_iff.1 hSelects).2
    omega
  · exact Nat.not_lt.2 (length_eq_within hEpoch hSelects hEnd).1 hLess

theorem rightStatus_of_fits (hAnswers : Answers table query)
    (hApart : NonOverlapping table metaContactId) (h : Fits table metaContactId day) :
    RightStatus table query metaContactId day := by
  have hNoUnderflow := not_underflows_of_fits hAnswers h
  refine ⟨hNoUnderflow, fun text => ?_⟩
  rcases Int.lt_or_le day.dt1 0 with hEpoch | hEpoch
  · rw [mainStatusDate_of_neg hAnswers hEpoch hNoUnderflow]
    exact ⟨fun hText => (nomatch hText), fun ⟨s, hMain, _⟩ => absurd hMain (h.epoch hEpoch s)⟩
  · obtain ⟨t, hMain, hGet⟩ := mainStatusDate_of_answers hAnswers metaContactId day
    have hTotal : ∀ s ∈ tracked, t.get s = total table metaContactId day s := by
      intro s hs
      rw [hGet s hs, added_eq_total h hEpoch hs, Nat.mod_eq_of_lt (total_lt hApart day s)]
    rw [hMain, mainStatus_iff]
    refine exists_congr fun s => ⟨fun ⟨hs, hText, hMost⟩ => ?_, fun ⟨⟨hs, hMost⟩, hText⟩ => ?_⟩
    · refine ⟨⟨hs, fun other hOther hNe => ?_⟩, hText⟩
      rw [← hTotal other hOther, ← hTotal s hs]
      exact hMost other hOther hNe
    · refine ⟨hs, hText, fun other hOther hNe => ?_⟩
      rw [hTotal other hOther, hTotal s hs]
      exact hMost other hOther hNe

theorem RightStatus.clipped (h : RightStatus table query metaContactId day)
    (hAnswers : Answers table query) {r : ContactStatus}
    (hr : r ∈ asked table metaContactId day) (hCounted : Counted r.status) :
    r.clipBegin day ≤ r.clipEnd day := by
  refine Nat.not_lt.1 fun hLess => h.noUnderflow ?_
  exact (underflows_of_answers hAnswers metaContactId day).2 ⟨r, hr, hCounted, hLess⟩

theorem RightStatus.length_ne_zero (h : RightStatus table query metaContactId day)
    (hAnswers : Answers table query) (hApart : NonOverlapping table metaContactId)
    {r : ContactStatus} (hr : r ∈ rowsOf table metaContactId) (hCounted : Counted r.status)
    (hStart : (toTime_t day.dt1 : Int) = day.dt1) (hStop : (toTime_t day.dt2 : Int) = day.dt2)
    (hLow : r.datetimebegin ≤ day.dt1) (hHigh : day.dt2 ≤ r.datetimeend) :
    r ∈ asked table metaContactId day ∧ r.length day ≠ 0 := by
  by_contra hNone
  obtain ⟨s, hs, hStatus⟩ := hCounted
  have hMain := main_of_covers hApart hr hs hStatus hLow hHigh
  have hSome := (h.returned (statusTypeToString s)).2 ⟨s, hMain, rfl⟩
  rw [mainStatusDate_eq_none hAnswers] at hSome
  · exact nomatch hSome
  · intro r' hr' hCounted'
    by_cases hSame : r' = r
    · rw [hSame] at hr' ⊢
      by_contra hLength
      exact hNone ⟨hr', hLength⟩
    · have hOther : Apart r.interval r'.interval :=
        hApart.apart hr (mem_rowsOf_of_mem_asked hr') (Ne.symm hSame)
      exact length_eq_zero_of_apart hStart hStop hLow hHigh hOther
        (h.clipped hAnswers hr' hCounted')

/-- A row that ends too late is cut to nothing, and that is no underflow only on the first day of
1970, which the row covers. -/
theorem RightStatus.end_lt (h : RightStatus table query metaContactId day)
    (hAnswers : Answers table query) (hApart : NonOverlapping table metaContactId)
    {r : ContactStatus} (hr : r ∈ asked table metaContactId day) (hCounted : Counted r.status) :
    r.datetimeend < 2 ^ 31 := by
  by_contra hLate
  have hClipped := h.clipped hAnswers hr hCounted
  have hSelected := (selects_iff.1 (mem_asked.1 hr).2).2
  have hDay := day.le
  have hLt := day.lt
  have hEnd : r.clipEnd day = 0 := by
    rw [r.clipEnd_eq, read, if_neg hLate]
    split_ifs <;> omega
  have hBegin : r.clipBegin day = 0 := by omega
  have hLength : r.length day = 0 := by
    rw [ContactStatus.length, hEnd, hBegin]
    rfl
  have hMidnight : toTime_t day.dt1 = 0 ∧ read r.datetimebegin = 0 := by
    rw [r.clipBegin_eq] at hBegin
    split_ifs at hBegin <;> omega
  have hFirst : day.dt1 = 0 := by
    have hZero := hMidnight.1
    unfold toTime_t at hZero
    split at hZero <;> omega
  have hStop : (toTime_t day.dt2 : Int) = day.dt2 := toTime_t_eq (by omega) (by omega)
  have hLow : r.datetimebegin = 0 := by
    rw [← read_of_lt (by omega : r.datetimebegin < 2 ^ 31)]
    exact hMidnight.2
  refine (h.length_ne_zero hAnswers hApart (mem_rowsOf_of_mem_asked hr) hCounted ?_ hStop
    ?_ ?_).2 hLength <;> omega

theorem fits_of_rightStatus (hAnswers : Answers table query)
    (hApart : NonOverlapping table metaContactId)
    (hRight : RightStatus table query metaContactId day) : Fits table metaContactId day where
  epoch := by
    intro hEpoch s hMain
    have hSome := (hRight.returned (statusTypeToString s)).2 ⟨s, hMain, rfl⟩
    rw [mainStatusDate_of_neg hAnswers hEpoch hRight.noUnderflow] at hSome
    exact nomatch hSome
  ends := fun _ hMem hSelects hCounted =>
    hRight.end_lt hAnswers hApart (mem_asked.2 ⟨hMem, hSelects⟩) hCounted
  inside := by
    rintro r hr hCounted ⟨hLow, hHigh⟩
    have hEnd := r.end_lt
    have hLt := day.lt
    have hStart : (toTime_t day.dt1 : Int) = day.dt1 := toTime_t_eq (by omega) (by omega)
    have hStop : (toTime_t day.dt2 : Int) = day.dt2 := toTime_t_eq (by omega) (by omega)
    have hAsked := (hRight.length_ne_zero hAnswers hApart hr hCounted hStart hStop
      (Int.le_of_lt hLow) (Int.le_of_lt hHigh)).1
    have hSelected := (selects_iff.1 (mem_asked.1 hAsked).2).2
    omega

/-- **When the answer is right**, for every table, contact and day. -/
theorem rightStatus_iff (hAnswers : Answers table query)
    (hApart : NonOverlapping table metaContactId) :
    RightStatus table query metaContactId day ↔ Fits table metaContactId day :=
  ⟨fits_of_rightStatus hAnswers hApart, rightStatus_of_fits hAnswers hApart⟩

end

/-! ## New Year's Day of 2024 -/

/-- A database that sorts the rows that it finds. -/
def sqlite (table : List ContactStatus) (request : Request) : QStringList :=
  ((table.filter fun r => request.Selects r).insertionSort fun r r' =>
    r.datetimebegin ≤ r'.datetimebegin).flatMap ContactStatus.columns

theorem answers_sqlite (table : List ContactStatus) : Answers table (sqlite table) := fun _ =>
  ⟨_, rfl, List.perm_insertionSort _ _, List.pairwise_insertionSort _ _⟩

def newYear : Day := ⟨1704067200, 1704153600, by decide, by decide⟩

def someId : QString := latin1 "{3f2504e0-4f89-11d3-9a0c-0305e82c3301}"

/-- Online until noon, and away until the day is over. -/
def twoRows : List ContactStatus :=
  [⟨someId, latin1 "Away", 1704110401, 1704153600, by decide, by decide⟩,
    ⟨someId, latin1 "Online", 1704063600, 1704110401, by decide, by decide⟩]

theorem rightStatus_twoRows :
    RightStatus twoRows (sqlite twoRows) someId newYear ∧
      mainStatusDate (sqlite twoRows) someId newYear = some (latin1 "Online") := by
  have hApart : NonOverlapping twoRows someId := by decide
  have hRight := (rightStatus_iff (answers_sqlite twoRows) hApart).2
    (⟨fun hEpoch => absurd hEpoch (by decide), by decide, by decide⟩ :
      Fits twoRows someId newYear)
  exact ⟨hRight, (hRight.returned _).2 ⟨.online, by decide, rfl⟩⟩

/-- Online from the evening before to the morning after. -/
def oneRow : List ContactStatus :=
  [⟨someId, latin1 "Online", 1704063600, 1704157200, by decide, by decide⟩]

/-- Nothing is returned for a day that a row goes past at both ends. -/
theorem mainStatusDate_oneRow :
    Answers oneRow (sqlite oneRow) ∧ NonOverlapping oneRow someId ∧
      Main oneRow someId newYear .online ∧
        mainStatusDate (sqlite oneRow) someId newYear = none ∧
          ¬ RightStatus oneRow (sqlite oneRow) someId newYear := by
  have hMain : Main oneRow someId newYear .online := by decide
  have hNone : mainStatusDate (sqlite oneRow) someId newYear = none := by decide
  refine ⟨answers_sqlite oneRow, by decide, hMain, hNone, fun hRight => ?_⟩
  have hSome := (hRight.returned _).2 ⟨.online, hMain, rfl⟩
  rw [hNone] at hSome
  exact nomatch hSome

end Statistics
