/-!
# The calendar

Dates of the Gregorian calendar, carried back before its introduction and forward
without end.  `next` is the date after a date, and days are added by going on one
day at a time.  `dayNumber` counts the days from the first of January of year 1,
so it says how far two dates are apart and on which day of the week a date falls.
-/

namespace Historian

namespace Calendar

/-- Whether a year has a leap day. -/
def isLeap (year : Int) : Bool :=
  year % 4 = 0 && (year % 100 ≠ 0 || year % 400 = 0)

/-- The number of days of a month. -/
def monthLength (year : Int) (month : Nat) : Nat :=
  match month with
  | 2 => if isLeap year then 29 else 28
  | 4 | 6 | 9 | 11 => 30
  | _ => 31

/-- The days of a year in front of a month. -/
def daysBefore (year : Int) : (month : Nat) → Nat
  | 0 => 0
  | 1 => 0
  | month + 2 => daysBefore year (month + 1) + monthLength year (month + 1)

/-- Whether year, month and day name a date. -/
def IsDate (year : Int) (month day : Nat) : Prop :=
  1 ≤ month ∧ month ≤ 12 ∧ 1 ≤ day ∧ day ≤ monthLength year month

instance (year : Int) (month day : Nat) : Decidable (IsDate year month day) :=
  inferInstanceAs (Decidable (1 ≤ month ∧ month ≤ 12 ∧ 1 ≤ day ∧ day ≤ monthLength year month))

theorem one_le_monthLength (year : Int) (month : Nat) : 1 ≤ monthLength year month := by
  unfold monthLength
  split
  · split <;> decide
  · decide
  · decide
  · decide
  · decide
  · decide

end Calendar

/-- A date. -/
structure CalendarDate where
  year : Int
  month : Nat
  day : Nat
  isDate : Calendar.IsDate year month day
  deriving DecidableEq

namespace CalendarDate

open Calendar

/-- The date with a year, month and day. -/
def of? (year : Int) (month day : Nat) : Option CalendarDate :=
  if h : IsDate year month day then some ⟨year, month, day, h⟩ else none

/-- The first day of a year. -/
def newYear (year : Int) : CalendarDate :=
  ⟨year, 1, 1, by decide, by decide, by decide, one_le_monthLength year 1⟩

/-- The following date. -/
def next (date : CalendarDate) : CalendarDate :=
  if h : date.day < monthLength date.year date.month then
    ⟨date.year, date.month, date.day + 1,
      date.isDate.1, date.isDate.2.1, Nat.le_add_left 1 _, h⟩
  else if h : date.month < 12 then
    ⟨date.year, date.month + 1, 1, Nat.le_add_left 1 _, h, Nat.le_refl 1,
      one_le_monthLength _ _⟩
  else newYear (date.year + 1)

/-- The date a number of days later. -/
def addDays (date : CalendarDate) : Nat → CalendarDate
  | 0 => date
  | days + 1 => date.next.addDays days

/-- The number of a date, the first of January of year 1 being day 1. -/
def dayNumber (date : CalendarDate) : Int :=
  let past := date.year - 1
  365 * past + past / 4 - past / 100 + past / 400 + daysBefore date.year date.month + date.day

/-- The day of the week, Monday 1 to Sunday 7.  Day 1 is a Monday. -/
def weekday (date : CalendarDate) : Nat :=
  ((date.dayNumber - 1) % 7).toNat + 1

/-- Chronological order. -/
def Before (first second : CalendarDate) : Prop :=
  first.year < second.year ∨
    first.year = second.year ∧
      (first.month < second.month ∨ first.month = second.month ∧ first.day < second.day)

instance (first second : CalendarDate) : Decidable (first.Before second) :=
  inferInstanceAs (Decidable (_ ∨ _ ∧ (_ ∨ _ ∧ _)))

end CalendarDate

end Historian
