import Historian.Proofs.Time.Calendar
import Historian.Time.Clock

/-!
# Instants

Outside leap seconds a reading of the wall clock is a point on one line: its instant is the
count of nanoseconds since the start of day 0.  Instants order readings (`Reading.lt_iff`), and
to go on by some seconds is to add to the instant (`Reading.instant_addSeconds`).  What is said
of times of day and of dates, day changes included, is then arithmetic.  With leap seconds the
count of whole seconds still orders readings, and the nanoseconds do within one
(`Reading.lt_iff_count`).

Stamps drop what is less than a second and hold two and a half centuries.  Within these they
never decrease as the clock goes on, leap seconds included (`Stamp.ofReading_le`).
-/

namespace Historian

namespace Reading

/-- The chronological order. -/
instance : LE Reading := ⟨fun earlier later => ¬ later < earlier⟩

instance (earlier later : Reading) : Decidable (earlier ≤ later) :=
  inferInstanceAs (Decidable (¬ later < earlier))

theorem not_lt {earlier later : Reading} : ¬ later < earlier ↔ earlier ≤ later := Iff.rfl

/-- A reading outside leap seconds. -/
def Plain (reading : Reading) : Prop := reading.nano < nanosPerSecond

instance (reading : Reading) : Decidable reading.Plain :=
  inferInstanceAs (Decidable (_ < _))

/-- The seconds since the start of day 0. -/
def count (reading : Reading) : Int := reading.date.dayNumber * daySeconds + reading.second

/-- The nanoseconds since the start of day 0. -/
def instant (reading : Reading) : Int :=
  (reading.date.dayNumber * daySeconds + reading.second) * nanosPerSecond + reading.nano

variable {first second reading : Reading}

/-- Seconds order readings, and nanoseconds within a second.  This holds of leap seconds too. -/
theorem lt_iff_count :
    first < second ↔
      first.count < second.count ∨ first.count = second.count ∧ first.nano < second.nano := by
  have hday := first.second_lt
  have hday' := second.second_lt
  change first.Before second ↔ _
  unfold Before count
  rw [CalendarDate.before_iff]
  simp only [daySeconds] at *
  constructor
  · rintro (hdate | ⟨hdate, htime⟩)
    · omega
    · rw [hdate]
      omega
  · intro hlt
    rcases Int.lt_trichotomy first.date.dayNumber second.date.dayNumber with hdate | hdate | hdate
    · exact .inl hdate
    · refine .inr ⟨CalendarDate.dayNumber_inj hdate, ?_⟩
      rw [hdate] at hlt
      omega
    · omega

theorem count_inj (heq : first.count = second.count) :
    first.date = second.date ∧ first.second = second.second := by
  have hday := first.second_lt
  have hday' := second.second_lt
  unfold count at heq
  simp only [daySeconds] at *
  have hdate : first.date = second.date := CalendarDate.dayNumber_inj (by omega)
  rw [hdate] at heq
  exact ⟨hdate, by omega⟩

theorem instant_eq (reading : Reading) :
    reading.instant = reading.count * nanosPerSecond + reading.nano := rfl

/-- **Instants order readings.** -/
theorem lt_iff (hfirst : first.Plain) (hsecond : second.Plain) :
    first < second ↔ first.instant < second.instant := by
  rw [lt_iff_count, instant_eq, instant_eq]
  unfold Plain at *
  simp only [nanosPerSecond] at *
  omega

theorem eq_of_count (hcount : first.count = second.count) (hnano : first.nano = second.nano) :
    first = second := by
  obtain ⟨hdate, hsecond⟩ := count_inj hcount
  cases first
  cases second
  simp_all only

theorem trichotomy (first second : Reading) : first < second ∨ first = second ∨ second < first := by
  rw [lt_iff_count, lt_iff_count]
  by_cases hsame : first.count = second.count ∧ first.nano = second.nano
  · exact .inr (.inl (eq_of_count hsame.1 hsame.2))
  · omega

theorem le_iff (hfirst : first.Plain) (hsecond : second.Plain) :
    first ≤ second ↔ first.instant ≤ second.instant := by
  rw [← not_lt, lt_iff hsecond hfirst, Int.not_lt]

theorem lt_irrefl (reading : Reading) : ¬ reading < reading := by
  change ¬ reading.Before reading
  simp [Before, CalendarDate.Before]

/-! ## Going on -/

theorem plain_addSeconds (hplain : reading.Plain) (seconds : Nat) :
    (reading.addSeconds seconds).Plain := by
  unfold addSeconds
  split
  · exact hplain
  · exact Nat.mod_lt _ (by decide)

theorem nano_addSeconds (hplain : reading.Plain) (seconds : Nat) :
    (reading.addSeconds seconds).nano = reading.nano := by
  unfold addSeconds
  split
  · rfl
  · exact Nat.mod_eq_of_lt hplain

theorem count_addSeconds (reading : Reading) (seconds : Nat) :
    (reading.addSeconds seconds).count = reading.count + seconds := by
  unfold addSeconds
  split
  · simp [*]
  · simp only [count, CalendarDate.dayNumber_addDays, daySeconds]
    omega

/-- **Going on by some seconds adds to the instant.** -/
theorem instant_addSeconds (hplain : reading.Plain) (seconds : Nat) :
    (reading.addSeconds seconds).instant = reading.instant + seconds * nanosPerSecond := by
  rw [instant_eq, instant_eq, count_addSeconds, nano_addSeconds hplain, Int.add_mul]
  omega

theorem plain_midnight (reading : Reading) : reading.midnight.Plain := by
  change 0 < nanosPerSecond
  decide

theorem count_midnight (reading : Reading) :
    reading.midnight.count = reading.date.dayNumber * daySeconds := by
  simp [count, midnight]

theorem date_cases (hle : first ≤ second) :
    first.date.Before second.date ∨ first.date = second.date ∧ first.second ≤ second.second := by
  have hnot : ¬ second.Before first := hle
  unfold Before at hnot
  rcases CalendarDate.before_trichotomy first.date second.date with hbefore | hsame | hafter
  · exact .inl hbefore
  · refine .inr ⟨hsame, Nat.le_of_not_lt fun hlt => hnot (.inr ⟨hsame.symm, .inl hlt⟩)⟩
  · exact absurd (.inl hafter) hnot

end Reading

/-! ## Stamps -/

namespace Stamp

/-- The years that stamps can tell apart. -/
def Covers (reading : Reading) : Prop := 1900 ≤ reading.date.year ∧ reading.date.year ≤ 2154

instance (reading : Reading) : Decidable (Covers reading) :=
  inferInstanceAs (Decidable (_ ∧ _))

/-- A second of the day as hour, minute and second, read as one number. -/
def timeDigits (second : Nat) : Nat :=
  (second / 3600 * 256 + second / 60 % 60) * 256 + second % 60

theorem timeDigits_lt {second : Nat} (hsecond : second < daySeconds) :
    timeDigits second < 16777216 := by
  unfold timeDigits
  unfold daySeconds at hsecond
  omega

theorem timeDigits_lt_of_lt {first second : Nat} (hlt : first < second) :
    timeDigits first < timeDigits second := by
  have hhour : first / 3600 = first / 60 / 60 := (Nat.div_div_eq_div_mul first 60 60).symm
  have hhour' : second / 3600 = second / 60 / 60 := (Nat.div_div_eq_div_mul second 60 60).symm
  have hle := Nat.div_le_div_right (c := 60) (Nat.le_of_lt hlt)
  unfold timeDigits
  rw [hhour, hhour']
  -- Seconds count only within the same minute, and minutes only within the same hour.
  rcases Nat.eq_or_lt_of_le hle with hsame | hminute
  · omega
  · rcases Nat.eq_or_lt_of_le (Nat.div_le_div_right (c := 60) hle) with hsame | hhour
    · omega
    · omega

theorem key_ofReading {reading : Reading} (hcovers : Covers reading) :
    (ofReading reading).key =
      ((((reading.date.year - 1900).toNat * 256 + reading.date.month) * 256 + reading.date.day) *
          16777216 + timeDigits reading.second) * 256 := by
  obtain ⟨hfrom, hto⟩ := hcovers
  have hmonth := reading.date.isDate.2.1
  have hday := Nat.le_trans reading.date.day_le (Calendar.monthLength_le _ _)
  have hsecond := reading.second_lt
  unfold daySeconds at hsecond
  have hyear : min (reading.date.year - 1900).toNat 254 = (reading.date.year - 1900).toNat := by
    omega
  simp only [key, ofReading, hyear, List.foldl_cons, List.foldl_nil, UInt8.toNat_ofNat']
  rw [Nat.mod_eq_of_lt (by omega : (reading.date.year - 1900).toNat < 2 ^ 8),
    Nat.mod_eq_of_lt (by omega : reading.date.month < 2 ^ 8),
    Nat.mod_eq_of_lt (by omega : reading.date.day < 2 ^ 8),
    Nat.mod_eq_of_lt (by omega : reading.second / 3600 < 2 ^ 8),
    Nat.mod_eq_of_lt (by omega : reading.second / 60 % 60 < 2 ^ 8),
    Nat.mod_eq_of_lt (by omega : reading.second % 60 < 2 ^ 8)]
  simp only [UInt8.toNat_zero, timeDigits]
  omega

/-- A stamp is behind another of an earlier date, or of an earlier second on the same date. -/
theorem key_lt {first second : Reading} (hfirst : Covers first) (hsecond : Covers second)
    (hlater : first.date.Before second.date ∨
      first.date = second.date ∧ first.second < second.second) :
    (ofReading first).key < (ofReading second).key := by
  have hfrom := hfirst.1
  have hmonth := first.date.isDate.2.1
  have hday := Nat.le_trans first.date.day_le (Calendar.monthLength_le _ _)
  have htime := timeDigits_lt first.second_lt
  rw [key_ofReading hfirst, key_ofReading hsecond]
  refine Nat.mul_lt_mul_of_pos_right ?_ (by decide)
  rcases hlater with (hyear | ⟨hyear, hmonths | ⟨hmonths, hdays⟩⟩) | ⟨hsame, hseconds⟩
  · have hmonth' := second.date.isDate.2.1
    omega
  · omega
  · omega
  · rw [hsame]
    exact Nat.add_lt_add_left (timeDigits_lt_of_lt hseconds) _

/-- **As the clock goes on, stamps do not decrease.** -/
theorem ofReading_le {first second : Reading} (hfirst : Covers first) (hsecond : Covers second)
    (hle : first ≤ second) : ofReading first ≤ ofReading second := by
  rcases Reading.date_cases hle with hbefore | ⟨hsame, hseconds⟩
  · exact Nat.le_of_lt (key_lt hfirst hsecond (.inl hbefore))
  · rcases Nat.eq_or_lt_of_le hseconds with heq | hlt
    · refine Nat.le_of_eq ?_
      rw [key_ofReading hfirst, key_ofReading hsecond, hsame, heq]
    · exact Nat.le_of_lt (key_lt hfirst hsecond (.inr ⟨hsame, hlt⟩))

end Stamp

end Historian
