/-!
# Date-time stamps

A record is stamped with eight octets: year since 1900, month, day, day of the
week, hour, minute, second and hundredths.  Any octet may be left unspecified, so
a stamp need not name an instant.  Stamps are ordered by time; the day of the week
follows from the date and takes no part.
-/

namespace Historian

/-- The date half of a stamp.  Monday is day 1 of the week. -/
structure Date where
  yearSince1900 : UInt8
  month : UInt8
  day : UInt8
  weekday : UInt8
  deriving DecidableEq, Repr

/-- The time half of a stamp. -/
structure Time where
  hour : UInt8
  minute : UInt8
  second : UInt8
  hundredths : UInt8
  deriving DecidableEq, Repr

/-- A date and a time of day. -/
structure Stamp where
  date : Date
  time : Time
  deriving DecidableEq, Repr

namespace Date

/-- The calendar year, 1900 to 2155. -/
def year (date : Date) : Nat := 1900 + date.yearSince1900.toNat

/-- The four octets of a date. -/
def octets (date : Date) : List UInt8 :=
  [date.yearSince1900, date.month, date.day, date.weekday]

/-- What each month adds to the day number when January and February are counted
with the year before, modulo seven. -/
def monthShift : Nat → Nat
  | 1 => 0 | 2 => 3 | 3 => 2 | 4 => 5 | 5 => 0 | 6 => 3
  | 7 => 5 | 8 => 1 | 9 => 4 | 10 => 6 | 11 => 2 | _ => 4

/-- The day of the week of a calendar date, Monday 1 to Sunday 7: every year shifts
it by one day, every leap day by one more. -/
def weekdayOf (year month day : Nat) : Nat :=
  let y := if month < 3 then year - 1 else year
  let fromSunday := (y + y / 4 - y / 100 + y / 400 + monthShift month + day) % 7
  if fromSunday = 0 then 7 else fromSunday

/-- The stamp of a calendar date in the years 1900 to 2155.  Days are checked
against 31 only. -/
def ofCalendar? (year month day : Nat) : Option Date :=
  if 1900 ≤ year ∧ year ≤ 2155 ∧ 1 ≤ month ∧ month ≤ 12 ∧ 1 ≤ day ∧ day ≤ 31 then
    some ⟨UInt8.ofNat (year - 1900), UInt8.ofNat month, UInt8.ofNat day,
      UInt8.ofNat (weekdayOf year month day)⟩
  else none

end Date

namespace Time

/-- The four octets of a time of day. -/
def octets (time : Time) : List UInt8 :=
  [time.hour, time.minute, time.second, time.hundredths]

end Time

namespace Stamp

/-- The seven octets that order stamps, read as one number. -/
def key (stamp : Stamp) : Nat :=
  [stamp.date.yearSince1900, stamp.date.month, stamp.date.day, stamp.time.hour,
    stamp.time.minute, stamp.time.second, stamp.time.hundredths].foldl
    (fun value octet => value * 256 + octet.toNat) 0

/-- How two stamps lie in time.  The day of the week does not count, so stamps that
differ only there are equal in time. -/
def order (first second : Stamp) : Ordering := compare first.key second.key

/-- Chronological order. -/
instance : LE Stamp := ⟨fun earlier later => earlier.key ≤ later.key⟩

instance (earlier later : Stamp) : Decidable (earlier ≤ later) :=
  inferInstanceAs (Decidable (earlier.key ≤ later.key))

end Stamp

end Historian
