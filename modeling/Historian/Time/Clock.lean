import Historian.Decimal.Fixed
import Historian.Time.Calendar
import Historian.Time.Stamp

/-!
# The wall clock

A reading of the wall clock is a date, a second of the day and nanoseconds.  A leap
second shares the number of the second before it and has a thousand million
nanoseconds or more.

Readings are turned into stamps when a record is logged, and stamps into readings
when a record is shown.  A stamp has no place for years outside 1900 to 2154, so
such a year is moved to the nearer end.
-/

namespace Historian

/-- The seconds of a day. -/
def daySeconds : Nat := 86400

/-- The nanoseconds of a second. -/
def nanosPerSecond : Nat := 1000000000

/-- A reading of the wall clock. -/
structure Reading where
  date : CalendarDate
  /-- The second of the day. -/
  second : Nat
  nano : Nat
  second_lt : second < daySeconds
  nano_lt : nano < 2 * nanosPerSecond
  deriving DecidableEq

namespace Reading

/-- The reading of a date and a time of day. -/
def of? (date : CalendarDate) (hour minute second nano : Nat) : Option Reading :=
  if h : hour < 24 ∧ minute < 60 ∧ second < 60 ∧ nano < 2 * nanosPerSecond then
    some ⟨date, hour * 3600 + minute * 60 + second, nano,
      by unfold daySeconds; omega, h.2.2.2⟩
  else none

/-- The start of the reading's day. -/
def midnight (reading : Reading) : Reading :=
  ⟨reading.date, 0, 0, by decide, by decide⟩

/-- Chronological order. -/
def Before (first second : Reading) : Prop :=
  first.date.Before second.date ∨
    first.date = second.date ∧
      (first.second < second.second ∨
        first.second = second.second ∧ first.nano < second.nano)

instance (first second : Reading) : Decidable (first.Before second) :=
  inferInstanceAs (Decidable (_ ∨ _ ∧ (_ ∨ _ ∧ _)))

instance : LT Reading := ⟨Before⟩

instance (first second : Reading) : Decidable (first < second) :=
  inferInstanceAs (Decidable (first.Before second))

/-- The reading a number of seconds later.  It leaves a leap second. -/
def addSeconds (reading : Reading) (seconds : Nat) : Reading :=
  if seconds = 0 then reading
  else
    ⟨reading.date.addDays ((reading.second + seconds) / daySeconds),
      (reading.second + seconds) % daySeconds,
      reading.nano % nanosPerSecond,
      Nat.mod_lt _ (by decide),
      Nat.lt_of_lt_of_le (Nat.mod_lt _ (by decide)) (by decide)⟩

/-- The whole seconds since midnight. -/
def elapsed (reading : Reading) : Nat :=
  reading.second + reading.nano / nanosPerSecond

/-! ## Texts -/

/-- The text of a year: four digits, or a sign and at least four digits if that is
not enough. -/
def yearText (year : Int) : String :=
  if 0 ≤ year ∧ year ≤ 9999 then Decimal.padded 4 year.toNat
  else (if year < 0 then "-" else "+") ++ Decimal.padded 4 year.natAbs

/-- The text of a date. -/
def dateText (date : CalendarDate) : String :=
  s!"{yearText date.year}-{Decimal.padded 2 date.month}-{Decimal.padded 2 date.day}"

/-- The text of a fraction of a second, in thousandths, millionths or
thousand-millionths, whichever is exact first. -/
def fractionText (nano : Nat) : String :=
  if nano = 0 then ""
  else if nano % 1000000 = 0 then "." ++ Decimal.padded 3 (nano / 1000000)
  else if nano % 1000 = 0 then "." ++ Decimal.padded 6 (nano / 1000)
  else "." ++ Decimal.padded 9 nano

/-- The text of a reading.  A leap second is second 60. -/
def text (reading : Reading) : String :=
  let leap := reading.nano / nanosPerSecond
  let hour := Decimal.padded 2 (reading.second / 3600)
  let minute := Decimal.padded 2 (reading.second / 60 % 60)
  let second := Decimal.padded 2 (reading.second % 60 + leap)
  s!"{dateText reading.date} {hour}:{minute}:{second}" ++
    fractionText (reading.nano % nanosPerSecond)

end Reading

/-! ## Stamps -/

namespace Stamp

/-- The stamp of a reading, to the second. -/
def ofReading (reading : Reading) : Stamp :=
  { date :=
      { yearSince1900 := UInt8.ofNat (min (reading.date.year - 1900).toNat 254)
        month := UInt8.ofNat reading.date.month
        day := UInt8.ofNat reading.date.day
        weekday := UInt8.ofNat reading.date.weekday }
    time :=
      { hour := UInt8.ofNat (reading.second / 3600)
        minute := UInt8.ofNat (reading.second / 60 % 60)
        second := UInt8.ofNat (reading.second % 60)
        hundredths := 0 } }

/-- The reading that a stamp names, if its year, month and day name a date and its
hour, minute and second a time. -/
def toReading? (stamp : Stamp) : Option Reading := do
  let date ← CalendarDate.of? stamp.date.year stamp.date.month.toNat stamp.date.day.toNat
  Reading.of? date stamp.time.hour.toNat stamp.time.minute.toNat stamp.time.second.toNat 0

end Stamp

end Historian
