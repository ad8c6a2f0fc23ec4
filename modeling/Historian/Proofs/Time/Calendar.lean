import Historian.Time.Calendar
import Mathlib.Tactic.SplitIfs

/-!
# Day numbers

The day number of a date is its place in the sequence of all dates: the next date has the next
number (`CalendarDate.dayNumber_next`), and one date is before another exactly if its number is
less (`CalendarDate.before_iff`).  Hence a date so many days later is found by adding to the
number.
-/

namespace Historian

namespace Calendar

variable {year : Int} {month later : Nat}

theorem daysBefore_succ (year : Int) (hmonth : 1 ≤ month) :
    daysBefore year (month + 1) = daysBefore year month + monthLength year month := by
  obtain ⟨before, rfl⟩ := Nat.exists_eq_add_of_le' hmonth
  rfl

theorem monthLength_le (year : Int) (month : Nat) : monthLength year month ≤ 31 := by
  unfold monthLength
  split_ifs <;> split <;> omega

theorem daysBefore_mono (hle : month ≤ later) : daysBefore year month ≤ daysBefore year later := by
  induction hle with
  | refl => exact Nat.le_refl _
  | @step later _ ih =>
      cases later with
      | zero => exact ih
      | succ later =>
          rw [daysBefore_succ year (Nat.le_add_left 1 later)]
          exact Nat.le_add_right_of_le ih

/-- The months before a later one hold at least the earlier months and this one. -/
theorem daysBefore_add_monthLength_le (year : Int) (hmonth : 1 ≤ month) (hlt : month < later) :
    daysBefore year month + monthLength year month ≤ daysBefore year later := by
  rw [← daysBefore_succ year hmonth]
  exact daysBefore_mono hlt

/-- The number of days of a year. -/
theorem daysBefore_thirteen (year : Int) :
    daysBefore year 13 = if isLeap year then 366 else 365 := by
  simp only [daysBefore, monthLength]
  split_ifs <;> rfl

/-- The days before a year, counted from year 1. -/
def daysBeforeYear (year : Int) : Int :=
  365 * (year - 1) + (year - 1) / 4 - (year - 1) / 100 + (year - 1) / 400

theorem daysBeforeYear_succ (year : Int) :
    daysBeforeYear (year + 1) = daysBeforeYear year + daysBefore year 13 := by
  rw [daysBefore_thirteen]
  by_cases hleap : isLeap year
  · rw [if_pos hleap]
    simp only [isLeap, Bool.and_eq_true, Bool.or_eq_true, decide_eq_true_eq] at hleap
    unfold daysBeforeYear
    omega
  · rw [if_neg hleap]
    simp only [isLeap, Bool.and_eq_true, Bool.or_eq_true, decide_eq_true_eq] at hleap
    unfold daysBeforeYear
    omega

theorem daysBeforeYear_mono {first second : Int} (hle : first ≤ second) :
    daysBeforeYear first ≤ daysBeforeYear second := by
  unfold daysBeforeYear
  omega

end Calendar

namespace CalendarDate

open Calendar

theorem dayNumber_eq (date : CalendarDate) :
    date.dayNumber = daysBeforeYear date.year + daysBefore date.year date.month + date.day := rfl

theorem day_le (date : CalendarDate) : date.day ≤ monthLength date.year date.month :=
  date.isDate.2.2.2

/-- The year is not over before its last day. -/
theorem dayNumber_le (date : CalendarDate) : date.dayNumber ≤ daysBeforeYear (date.year + 1) := by
  have hlast : date.month < 13 := Nat.lt_succ_of_le date.isDate.2.1
  have hmonth := daysBefore_add_monthLength_le date.year date.isDate.1 hlast
  have hday := date.day_le
  rw [dayNumber_eq, daysBeforeYear_succ]
  omega

theorem lt_dayNumber (date : CalendarDate) : daysBeforeYear date.year < date.dayNumber := by
  have hday := date.isDate.2.2.1
  rw [dayNumber_eq]
  omega

/-- **The next date has the next number.** -/
theorem dayNumber_next (date : CalendarDate) : date.next.dayNumber = date.dayNumber + 1 := by
  obtain ⟨year, month, day, hmonth, hlast, hday, hlength⟩ := date
  unfold next
  split_ifs with hsame hyear
  · simp only [dayNumber_eq]
    omega
  · have hend : day = monthLength year month := Nat.le_antisymm hlength (Nat.le_of_not_lt hsame)
    simp only [dayNumber_eq, daysBefore_succ year hmonth]
    omega
  · have hend : day = monthLength year month := Nat.le_antisymm hlength (Nat.le_of_not_lt hsame)
    obtain rfl : month = 12 := Nat.le_antisymm hlast (Nat.le_of_not_lt hyear)
    have hfirst : daysBefore (year + 1) 1 = 0 := rfl
    have hlast : daysBefore year 13 = daysBefore year 12 + monthLength year 12 := rfl
    simp only [newYear, dayNumber_eq, daysBeforeYear_succ, hfirst, hlast]
    omega

theorem dayNumber_addDays (date : CalendarDate) (days : Nat) :
    (date.addDays days).dayNumber = date.dayNumber + days := by
  induction days generalizing date with
  | zero => exact (Int.add_zero _).symm
  | succ days ih =>
      rw [addDays, ih, dayNumber_next]
      omega

theorem dayNumber_lt_of_before {first second : CalendarDate} (hbefore : first.Before second) :
    first.dayNumber < second.dayNumber := by
  rcases hbefore with hyear | ⟨hyear, hmonth | ⟨hmonth, hday⟩⟩
  · have hend := first.dayNumber_le
    have hstart := second.lt_dayNumber
    have hyears := daysBeforeYear_mono (Int.add_one_le_of_lt hyear)
    omega
  · have hend := daysBefore_add_monthLength_le first.year first.isDate.1 hmonth
    have hday := first.day_le
    have hpos := second.isDate.2.2.1
    rw [dayNumber_eq, dayNumber_eq, ← hyear]
    omega
  · rw [dayNumber_eq, dayNumber_eq, ← hyear, ← hmonth]
    omega

/-- Of two dates, one is before the other or they are the same. -/
theorem before_trichotomy (first second : CalendarDate) :
    first.Before second ∨ first = second ∨ second.Before first := by
  obtain ⟨year, month, day, _⟩ := first
  obtain ⟨year', month', day', _⟩ := second
  simp only [Before, CalendarDate.mk.injEq]
  omega

/-- **Day numbers order dates.** -/
theorem before_iff {first second : CalendarDate} :
    first.Before second ↔ first.dayNumber < second.dayNumber := by
  refine ⟨dayNumber_lt_of_before, fun hlt => ?_⟩
  rcases before_trichotomy first second with hbefore | rfl | hafter
  · exact hbefore
  · exact absurd hlt (Int.lt_irrefl _)
  · exact absurd (dayNumber_lt_of_before hafter) (Int.lt_asymm hlt)

theorem dayNumber_inj {first second : CalendarDate}
    (heq : first.dayNumber = second.dayNumber) : first = second := by
  rcases before_trichotomy first second with hbefore | hsame | hafter
  · have := dayNumber_lt_of_before hbefore
    omega
  · exact hsame
  · have := dayNumber_lt_of_before hafter
    omega

end CalendarDate

end Historian
