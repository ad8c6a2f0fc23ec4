import Historian.Proofs.Time.Stamp

/-!
# The instants that stamps name

A stamp names an instant if its year, month and day are a date and its hour, minute and second
a time of day (`Stamp.exists_toReading?_iff`).  No date and no time has the octet that stands
for an unspecified field, except in the year: there it is the year 2155.

The stamp of the instant that a stamp names has the octets of that stamp again
(`Stamp.digits_ofReading`).  Only the year 2155 is out of reach of the stamps of readings, which
keep the octet free and go no further than 2154.
-/

namespace Historian

namespace CalendarDate

theorem of?_eq_some_iff {year : Int} {month day : Nat} {date : CalendarDate} :
    of? year month day = some date ↔
      date.year = year ∧ date.month = month ∧ date.day = day := by
  unfold of?
  constructor
  · intro hdate
    split at hdate
    · cases hdate
      exact ⟨rfl, rfl, rfl⟩
    · cases hdate
  · rintro ⟨rfl, rfl, rfl⟩
    exact dif_pos date.isDate

end CalendarDate

namespace Reading

/-- Hour, minute and second are those of a day. -/
def IsTime (hour minute second : Nat) : Prop := hour < 24 ∧ minute < 60 ∧ second < 60

instance (hour minute second : Nat) : Decidable (IsTime hour minute second) :=
  inferInstanceAs (Decidable (_ ∧ _))

theorem of?_eq_some_iff {date : CalendarDate} {hour minute second : Nat} {reading : Reading} :
    of? date hour minute second 0 = some reading ↔
      IsTime hour minute second ∧ reading.date = date ∧
        reading.second = hour * 3600 + minute * 60 + second ∧ reading.nano = 0 := by
  have hnano : 0 < 2 * nanosPerSecond := by decide
  unfold of?
  constructor
  · intro hread
    split at hread
    · rename_i htime
      cases hread
      exact ⟨⟨htime.1, htime.2.1, htime.2.2.1⟩, rfl, rfl, rfl⟩
    · cases hread
  · rintro ⟨⟨hhour, hminute, hsecond⟩, hdate, hseconds, hzero⟩
    rw [dif_pos ⟨hhour, hminute, hsecond, hnano⟩]
    cases reading
    cases hdate
    cases hseconds
    cases hzero
    rfl

end Reading

namespace Stamp

/-- What an octet holds that is left unspecified. -/
def unspecified : UInt8 := 255

/-- The octets that say when: year, month, day, hour, minute and second. -/
def digits (stamp : Stamp) : List UInt8 :=
  [stamp.date.yearSince1900, stamp.date.month, stamp.date.day, stamp.time.hour,
    stamp.time.minute, stamp.time.second]

/-- Year, month and day are a date. -/
def NamesDate (stamp : Stamp) : Prop :=
  Calendar.IsDate stamp.date.year stamp.date.month.toNat stamp.date.day.toNat

instance (stamp : Stamp) : Decidable stamp.NamesDate :=
  inferInstanceAs (Decidable (Calendar.IsDate _ _ _))

/-- Hour, minute and second are a time of day. -/
def NamesTime (stamp : Stamp) : Prop :=
  Reading.IsTime stamp.time.hour.toNat stamp.time.minute.toNat stamp.time.second.toNat

instance (stamp : Stamp) : Decidable stamp.NamesTime :=
  inferInstanceAs (Decidable (Reading.IsTime _ _ _))

variable {stamp : Stamp} {reading : Reading}

/-- **What a stamp names has its year, month and day, and its second of the day.** -/
theorem toReading?_eq_some_iff :
    stamp.toReading? = some reading ↔
      stamp.NamesTime ∧
        (reading.date.year = stamp.date.year ∧ reading.date.month = stamp.date.month.toNat ∧
          reading.date.day = stamp.date.day.toNat) ∧
        reading.second = stamp.time.hour.toNat * 3600 + stamp.time.minute.toNat * 60 +
          stamp.time.second.toNat ∧ reading.nano = 0 := by
  simp only [toReading?, Option.bind_eq_bind, Option.bind_eq_some_iff,
    CalendarDate.of?_eq_some_iff, Reading.of?_eq_some_iff]
  constructor
  · rintro ⟨date, hdate, htime, rfl, hsecond, hnano⟩
    exact ⟨htime, hdate, hsecond, hnano⟩
  · rintro ⟨htime, hdate, hsecond, hnano⟩
    exact ⟨reading.date, hdate, htime, rfl, hsecond, hnano⟩

/-- **A stamp names an instant if it holds a date and a time of day.** -/
theorem exists_toReading?_iff :
    (∃ reading, stamp.toReading? = some reading) ↔ stamp.NamesDate ∧ stamp.NamesTime := by
  constructor
  · rintro ⟨reading, hread⟩
    obtain ⟨htime, ⟨hyear, hmonth, hday⟩, -⟩ := toReading?_eq_some_iff.mp hread
    refine ⟨?_, htime⟩
    rw [NamesDate, ← hyear, ← hmonth, ← hday]
    exact reading.date.isDate
  · rintro ⟨hdate, htime⟩
    have hsecond : stamp.time.hour.toNat * 3600 + stamp.time.minute.toNat * 60 +
        stamp.time.second.toNat < daySeconds := by
      obtain ⟨hhour, hminute, hsecond⟩ := htime
      unfold daySeconds
      omega
    exact ⟨⟨⟨_, _, _, hdate⟩, _, 0, hsecond, by decide⟩,
      toReading?_eq_some_iff.mpr ⟨htime, ⟨rfl, rfl, rfl⟩, rfl, rfl⟩⟩

/-! ## Unspecified octets -/

/-- Behind the year, no octet of a date and a time is unspecified. -/
theorem not_mem_digits_of_names (hdate : stamp.NamesDate) (htime : stamp.NamesTime) :
    unspecified ∉ stamp.digits.tail := by
  obtain ⟨-, hmonth, -, hday⟩ := hdate
  have hlength := Calendar.monthLength_le stamp.date.year stamp.date.month.toNat
  obtain ⟨hhour, hminute, hsecond⟩ := htime
  have hsmall : ∀ octet : UInt8, octet.toNat < 60 → unspecified ≠ octet := by
    rintro octet hoctet rfl
    exact absurd hoctet (by decide)
  simp only [digits, List.tail_cons, List.mem_cons, List.not_mem_nil, or_false, not_or]
  exact ⟨hsmall _ (by omega), hsmall _ (by omega), hsmall _ (by omega), hsmall _ hminute,
    hsmall _ hsecond⟩

theorem toReading?_eq_none_of_unspecified (hunspecified : unspecified ∈ stamp.digits.tail) :
    stamp.toReading? = none := by
  rw [Option.eq_none_iff_forall_ne_some]
  intro reading hread
  obtain ⟨hdate, htime⟩ := exists_toReading?_iff.mp ⟨reading, hread⟩
  exact not_mem_digits_of_names hdate htime hunspecified

/-! ## The stamp of what a stamp names -/

/-- **The stamp of the instant that a stamp names has its octets**, but for the year 2155. -/
theorem digits_ofReading (hread : stamp.toReading? = some reading) :
    (ofReading reading).digits =
      UInt8.ofNat (min stamp.date.yearSince1900.toNat 254) :: stamp.digits.tail := by
  obtain ⟨⟨hhour, hminute, hsecond⟩, ⟨hyear, hmonth, hday⟩, hseconds, -⟩ :=
    toReading?_eq_some_iff.mp hread
  have hsince : (reading.date.year - 1900).toNat = stamp.date.yearSince1900.toNat := by
    rw [hyear, Date.year]
    omega
  have hdigits : reading.second / 3600 = stamp.time.hour.toNat ∧
      reading.second / 60 % 60 = stamp.time.minute.toNat ∧
      reading.second % 60 = stamp.time.second.toNat := by
    rw [hseconds]
    omega
  simp only [digits, ofReading, hsince, hmonth, hday, hdigits, UInt8.ofNat_toNat, List.tail_cons]

/-- **A stamp invents nothing but the year 2155.**  It names an instant exactly if it holds a date
and a time of day, and so never with an octet unspecified behind the year.  The instant has the
year of the stamp, and its own stamp has the octets of the stamp again, unless the year is
unspecified: that is read as 2155, and written as 2154. -/
theorem invents_only_year (stamp : Stamp) :
    ((∃ reading, stamp.toReading? = some reading) ↔ stamp.NamesDate ∧ stamp.NamesTime) ∧
      (unspecified ∈ stamp.digits.tail → stamp.toReading? = none) ∧
      ∀ reading, stamp.toReading? = some reading →
        reading.date.year = stamp.date.year ∧
          (ofReading reading).digits =
            if stamp.date.yearSince1900 = unspecified then 254 :: stamp.digits.tail
            else stamp.digits := by
  refine ⟨exists_toReading?_iff, toReading?_eq_none_of_unspecified, fun reading hread => ?_⟩
  obtain ⟨-, ⟨hyear, -⟩, -⟩ := toReading?_eq_some_iff.mp hread
  refine ⟨hyear, ?_⟩
  rw [digits_ofReading hread]
  split
  · rename_i hunspecified
    rw [hunspecified]
    rfl
  · rename_i hspecified
    have hbound := stamp.date.yearSince1900.toNat_lt
    have hne : stamp.date.yearSince1900.toNat ≠ 255 := fun heq =>
      hspecified (UInt8.toNat_inj.mp heq)
    rw [Nat.min_eq_left (by omega), UInt8.ofNat_toNat]
    rfl

/-- A stamp whose year, weekday and hundredths are unspecified. -/
theorem invents_only_year_unspecified :
    let stamp : Stamp := ⟨⟨255, 2, 28, 255⟩, ⟨23, 59, 58, 255⟩⟩
    let reading : Reading := ⟨⟨2155, 2, 28, by decide⟩, 86398, 0, by decide, by decide⟩
    stamp.date.yearSince1900 = unspecified ∧ stamp.toReading? = some reading ∧
      (ofReading reading).digits = [254, 2, 28, 23, 59, 58] ∧
      (ofReading reading).digits ≠ stamp.digits ∧
      toReading? ⟨⟨255, 2, 29, 255⟩, ⟨23, 59, 58, 255⟩⟩ = none ∧
      toReading? ⟨⟨125, 2, 28, 5⟩, ⟨23, 255, 58, 0⟩⟩ = none := by
  intro stamp reading
  have hread : stamp.toReading? = some reading :=
    toReading?_eq_some_iff.mpr (by decide)
  obtain ⟨-, -, hnames⟩ := invents_only_year stamp
  obtain ⟨-, hdigits⟩ := hnames reading hread
  obtain ⟨hleap, -⟩ := invents_only_year ⟨⟨255, 2, 29, 255⟩, ⟨23, 59, 58, 255⟩⟩
  obtain ⟨-, hminute, -⟩ := invents_only_year ⟨⟨125, 2, 28, 5⟩, ⟨23, 255, 58, 0⟩⟩
  refine ⟨rfl, hread, hdigits, ?_, ?_, hminute (by decide)⟩
  · rw [hdigits]
    decide
  · rw [Option.eq_none_iff_forall_ne_some]
    intro other hother
    exact absurd (hleap.mp ⟨other, hother⟩).1 (by decide)

end Stamp

end Historian
