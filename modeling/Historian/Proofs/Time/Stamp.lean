import Historian.Proofs.Time.Instant

/-!
# Stamps follow the calendar

Between 1900 and 2154 a stamp says when a reading was taken, to the second: it names the second
of the reading again (`Stamp.toReading?_ofReading`), and stamps are in order exactly if the
seconds are (`Stamp.ofReading_le_iff`).

A stamp also says the day of the week.  There are two ways to it.  A reading counts the days
since year 1, while a stamp that is made from year, month and day adds a shift for the month to
the years and the leap days so far.  The shifts are the days before a month, modulo seven, once
January and February count with the year before, so both ways lead to the same day
(`CalendarDate.weekdayOf_eq`).
-/

namespace Historian

/-! ## Days of the week -/

namespace Calendar

/-- The number of leap days of a year. -/
def leapDays (year : Int) : Nat := if isLeap year then 1 else 0

theorem leapDays_eq (year : Int) :
    year / 4 - year / 100 + year / 400 =
      (year - 1) / 4 - (year - 1) / 100 + (year - 1) / 400 + leapDays year := by
  unfold leapDays
  by_cases hleap : isLeap year
  · rw [if_pos hleap]
    simp only [isLeap, Bool.and_eq_true, Bool.or_eq_true, decide_eq_true_eq] at hleap
    omega
  · rw [if_neg hleap]
    simp only [isLeap, Bool.and_eq_true, Bool.or_eq_true, decide_eq_true_eq] at hleap
    omega

/-- Only February differs from the month of a common year. -/
theorem monthLength_eq (year : Int) (month : Nat) :
    monthLength year month = monthLength 1 month + if month = 2 then leapDays year else 0 := by
  by_cases hfebruary : month = 2
  · subst hfebruary
    unfold monthLength leapDays
    cases isLeap year <;> rfl
  · rw [if_neg hfebruary, Nat.add_zero]
    unfold monthLength
    split
    · exact absurd rfl hfebruary
    all_goals rfl

/-- From March on, the days before a month are those of a common year and the leap day. -/
theorem daysBefore_eq (year : Int) (month : Nat) :
    daysBefore year month = daysBefore 1 month + if month < 3 then 0 else leapDays year := by
  induction month with
  | zero => rfl
  | succ month ih =>
      cases month with
      | zero => rfl
      | succ month =>
          rw [daysBefore, daysBefore, ih, monthLength_eq]
          split_ifs <;> omega

/-- The shifts of the months are the days before them, modulo seven, with another day from March
on, where the year itself is counted. -/
theorem daysBefore_mod_seven {month : Nat} (hfirst : 1 ≤ month) (hlast : month ≤ 12) :
    daysBefore 1 month % 7 = (Date.monthShift month + if month < 3 then 0 else 1) % 7 := by
  have hall : ∀ month < 13, 1 ≤ month →
      daysBefore 1 month % 7 = (Date.monthShift month + if month < 3 then 0 else 1) % 7 := by
    decide
  exact hall month (Nat.lt_succ_of_le hlast) hfirst

end Calendar

namespace CalendarDate

open Calendar

/-- **The day of the week that the shifts lead to is the one that day numbers do.** -/
theorem weekdayOf_eq (date : CalendarDate) (hyear : 1 ≤ date.year) :
    Date.weekdayOf date.year.toNat date.month date.day = date.weekday := by
  obtain ⟨past, hpast⟩ : ∃ past : Nat, date.year = past + 1 :=
    ⟨(date.year - 1).toNat, by omega⟩
  obtain ⟨leaps, hleaps⟩ : ∃ leaps, past / 4 - past / 100 + past / 400 = leaps := ⟨_, rfl⟩
  have hleap :
      (past + 1) / 4 - (past + 1) / 100 + (past + 1) / 400 = leaps + leapDays date.year := by
    have hleap := leapDays_eq date.year
    rw [hpast, Int.add_sub_cancel] at hleap
    rw [hpast]
    omega
  have hdays : date.dayNumber =
      (365 * past + leaps + daysBefore date.year date.month + date.day : Nat) := by
    rw [dayNumber, hpast, Int.add_sub_cancel]
    omega
  have hmonths := daysBefore_eq date.year date.month
  have hshift := daysBefore_mod_seven date.isDate.1 date.isDate.2.1
  have hnat : date.year.toNat = past + 1 := by omega
  rw [Date.weekdayOf, weekday, hdays, hnat]
  by_cases hspring : date.month < 3
  · simp only [if_pos hspring, Nat.add_sub_cancel] at *
    split <;> omega
  · simp only [if_neg hspring] at *
    split <;> omega

end CalendarDate

/-! ## Seconds -/

namespace Reading

/-- The start of the second in which a reading lies.  A leap second counts with the second
before it. -/
def toSecond (reading : Reading) : Reading :=
  { reading with nano := 0, nano_lt := reading.midnight.nano_lt }

theorem of?_digits (reading : Reading) :
    of? reading.date (reading.second / 3600) (reading.second / 60 % 60) (reading.second % 60) 0 =
      some reading.toSecond := by
  have hsecond := reading.second_lt
  unfold daySeconds at hsecond
  have hvalue : reading.second / 3600 * 3600 + reading.second / 60 % 60 * 60 +
      reading.second % 60 = reading.second := by omega
  have htime : reading.second / 3600 < 24 ∧ reading.second / 60 % 60 < 60 ∧
      reading.second % 60 < 60 ∧ 0 < 2 * nanosPerSecond := ⟨by omega, by omega, by omega, by decide⟩
  rw [of?, dif_pos htime]
  simp only [hvalue, toSecond]

/-- A second is before another on an earlier date, or earlier on the same. -/
theorem toSecond_lt_iff {first second : Reading} :
    first.toSecond < second.toSecond ↔
      first.date.Before second.date ∨ first.date = second.date ∧ first.second < second.second := by
  change first.toSecond.Before second.toSecond ↔ _
  simp [Before, toSecond]

end Reading

namespace Stamp

variable {reading first second : Reading}

theorem yearSince1900_ofReading (hcovers : Covers reading) :
    (ofReading reading).date.yearSince1900 = UInt8.ofNat (reading.date.year.toNat - 1900) := by
  obtain ⟨hfrom, hto⟩ := hcovers
  exact congrArg UInt8.ofNat (by omega)

/-! ### Dates -/

/-- **The date of a stamp is the one made of its year, month and day.** -/
theorem ofCalendar?_ofReading (hcovers : Covers reading) :
    Date.ofCalendar? reading.date.year.toNat reading.date.month reading.date.day =
      some (ofReading reading).date := by
  obtain ⟨hfrom, hto⟩ := hcovers
  obtain ⟨hmonth, hmonths, hday, -⟩ := reading.date.isDate
  have hdays := Nat.le_trans reading.date.day_le (Calendar.monthLength_le _ _)
  rw [Date.ofCalendar?, if_pos ⟨by omega, by omega, hmonth, hmonths, hday, hdays⟩,
    reading.date.weekdayOf_eq (by omega), ← yearSince1900_ofReading ⟨hfrom, hto⟩]
  rfl

/-- **A stamp names the second of its reading.** -/
theorem toReading?_ofReading (hcovers : Covers reading) :
    (ofReading reading).toReading? = some reading.toSecond := by
  obtain ⟨hfrom, hto⟩ := hcovers
  have hmonths := reading.date.isDate.2.1
  have hdays := Nat.le_trans reading.date.day_le (Calendar.monthLength_le _ _)
  have hsecond := reading.second_lt
  unfold daySeconds at hsecond
  have hyear : ((ofReading reading).date.year : Int) = reading.date.year := by
    rw [Date.year, yearSince1900_ofReading ⟨hfrom, hto⟩, UInt8.toNat_ofNat']
    omega
  have hdate : CalendarDate.of? (ofReading reading).date.year (ofReading reading).date.month.toNat
      (ofReading reading).date.day.toNat = some reading.date := by
    have hmonth : (ofReading reading).date.month.toNat = reading.date.month :=
      Nat.mod_eq_of_lt (by omega : reading.date.month < 256)
    have hday : (ofReading reading).date.day.toNat = reading.date.day :=
      Nat.mod_eq_of_lt (by omega : reading.date.day < 256)
    rw [hyear, hmonth, hday]
    exact dif_pos reading.date.isDate
  have hour : (ofReading reading).time.hour.toNat = reading.second / 3600 :=
    Nat.mod_eq_of_lt (by omega : reading.second / 3600 < 256)
  have hminute : (ofReading reading).time.minute.toNat = reading.second / 60 % 60 :=
    Nat.mod_eq_of_lt (by omega : reading.second / 60 % 60 < 256)
  have hrest : (ofReading reading).time.second.toNat = reading.second % 60 :=
    Nat.mod_eq_of_lt (by omega : reading.second % 60 < 256)
  rw [toReading?, hdate, hour, hminute, hrest]
  exact reading.of?_digits

/-! ### Order -/

/-- **Stamps are in order exactly if the seconds of their readings are.** -/
theorem ofReading_le_iff (hfirst : Covers first) (hsecond : Covers second) :
    ofReading first ≤ ofReading second ↔ first.toSecond ≤ second.toSecond := by
  constructor
  · intro hle hlt
    have hkey := key_lt hsecond hfirst (Reading.toSecond_lt_iff.mp hlt)
    exact absurd hkey (Nat.not_lt.mpr hle)
  · intro hle
    -- A stamp does not tell a reading from the start of its second.
    have hseconds : ofReading first.toSecond ≤ ofReading second.toSecond :=
      ofReading_le hfirst hsecond hle
    exact hseconds

/-! ### Stamps and the calendar -/

/-- **Stamps follow the calendar.**  The stamp of a reading names the second of the reading;
stamps are in order exactly if the seconds are; and the date of a stamp, the day of the week
included, is the one that its year, month and day make. -/
theorem follows_calendar (hfirst : Covers first) (hsecond : Covers second) :
    (ofReading first).toReading? = some first.toSecond ∧
      (ofReading first ≤ ofReading second ↔ first.toSecond ≤ second.toSecond) ∧
      Date.ofCalendar? first.date.year.toNat first.date.month first.date.day =
        some (ofReading first).date :=
  ⟨toReading?_ofReading hfirst, ofReading_le_iff hfirst hsecond, ofCalendar?_ofReading hfirst⟩

/-- The last second of a leap day at the end of a century, and the second after it. -/
theorem follows_calendar_leapDay :
    let date : CalendarDate := ⟨2000, 2, 29, by decide⟩
    let first : Reading := ⟨date, 86399, 500000000, by decide, by decide⟩
    let second : Reading := ⟨⟨2000, 3, 1, by decide⟩, 0, 0, by decide, by decide⟩
    Covers first ∧ Covers second ∧
      (ofReading first).toReading? = some ⟨date, 86399, 0, by decide, by decide⟩ ∧
      (ofReading first ≤ ofReading second ∧ ¬ ofReading second ≤ ofReading first) ∧
      Date.ofCalendar? 2000 2 29 = some (ofReading first).date ∧
      (ofReading first).date.weekday = 2 := by
  intro date first second
  have hfirst : Covers first := by decide
  have hsecond : Covers second := by decide
  obtain ⟨hnames, hforward, hdate⟩ := follows_calendar hfirst hsecond
  obtain ⟨-, hback, -⟩ := follows_calendar hsecond hfirst
  exact ⟨hfirst, hsecond, hnames, ⟨hforward.mpr (by decide), mt hback.mp (by decide)⟩, hdate,
    by decide⟩

end Stamp

end Historian
