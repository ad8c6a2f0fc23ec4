import Historian.Log.TrendLog
import Historian.Proofs.Time.Instant
import Mathlib.Order.Bounds.Basic

/-!
# The grid of aligned sampling times

Aligned sampling times are whole numbers of intervals after midnight.  The boundary that a
schedule goes by is found from the midnight before `now`: it is the first multiple of the
interval to come, counted from there (`Schedule.exists_boundary_eq`).

Every midnight starts the count again, so what is counted from one day is on the grid as far as
the next midnight and no further.  Hence the boundary is the first grid point to come exactly if
it lies no later than the next midnight (`Schedule.boundary_first`).  If the interval divides the
day that is always so: the grid goes on evenly over all days (`Schedule.onGrid_iff`), the
boundary is on it (`Schedule.boundary_spec`), and it has come by some time exactly if any point
of the grid has (`Schedule.boundary_le_iff`).
-/

namespace Historian

namespace Reading

/-- The start of the next day. -/
def tomorrow (reading : Reading) : Reading := reading.midnight.addSeconds daySeconds

theorem nano_tomorrow (reading : Reading) : reading.tomorrow.nano = 0 :=
  nano_addSeconds reading.plain_midnight _

theorem count_tomorrow (reading : Reading) :
    reading.tomorrow.count = reading.midnight.count + daySeconds :=
  count_addSeconds _ _

/-- Before a whole second, only seconds count. -/
theorem le_iff_count {first second : Reading} (hwhole : first.nano = 0) :
    first ≤ second ↔ first.count ≤ second.count := by
  rw [← not_lt, lt_iff_count, hwhole]
  omega

end Reading

namespace Schedule

/-- A whole number of intervals after midnight. -/
def OnGrid (interval : Nat) (reading : Reading) : Prop :=
  reading.nano = 0 ∧ interval ∣ reading.second

variable {interval : Nat} {now time reading : Reading}

theorem OnGrid.plain (hgrid : OnGrid interval reading) : reading.Plain := by
  change reading.nano < nanosPerSecond
  rw [hgrid.1]
  decide

/-- The nanoseconds of an interval. -/
def pitch (interval : Nat) : Int := interval * nanosPerSecond

/-- If the interval divides the day, the grid goes on evenly over midnight. -/
theorem onGrid_iff (hdivides : interval ∣ daySeconds) (hplain : reading.Plain) :
    OnGrid interval reading ↔ pitch interval ∣ reading.instant := by
  have hday : (interval : Int) ∣ reading.date.dayNumber * daySeconds :=
    Int.dvd_mul_of_dvd_right (Int.natCast_dvd_natCast.mpr hdivides)
  unfold OnGrid pitch Reading.instant
  constructor
  · rintro ⟨hnano, hsecond⟩
    have hsum := Int.dvd_add hday (Int.natCast_dvd_natCast.mpr hsecond)
    rw [hnano, Int.natCast_zero, Int.add_zero]
    exact Int.mul_dvd_mul_right _ hsum
  · intro hpitch
    have hsecond : (nanosPerSecond : Int) ∣ reading.nano :=
      (Int.dvd_add_right (Int.dvd_mul_left _ _)).mp (Int.dvd_trans (Int.dvd_mul_left _ _) hpitch)
    have hnano : reading.nano = 0 :=
      Nat.eq_zero_of_dvd_of_lt (Int.natCast_dvd_natCast.mp hsecond) hplain
    have hnonzero : (nanosPerSecond : Int) ≠ 0 := by decide
    rw [hnano, Int.natCast_zero, Int.add_zero] at hpitch
    have hsum := Int.dvd_of_mul_dvd_mul_right hnonzero hpitch
    exact ⟨hnano, Int.natCast_dvd_natCast.mp ((Int.dvd_add_right hday).mp hsum)⟩

/-- Not before a reading, or with `strict` after it. -/
def Follows (strict : Bool) (now reading : Reading) : Prop :=
  if strict then now < reading else now ≤ reading

/-! ## What follows a reading -/

/-- The second of the day from which on whole seconds follow a reading. -/
def needed (strict : Bool) (now : Reading) : Nat :=
  if strict = true ∨ 0 < now.nano then now.second + 1 else now.second

theorem count_eq (now : Reading) : now.count = now.midnight.count + now.second := by
  rw [Reading.count_midnight, Reading.count]

theorem follows_iff_count (strict : Bool) (now : Reading) (hwhole : reading.nano = 0) :
    Follows strict now reading ↔ now.midnight.count + needed strict now ≤ reading.count := by
  have hafter : now < reading ↔ now.count < reading.count := by
    rw [Reading.lt_iff_count, hwhole]
    omega
  have hbefore : reading < now ↔
      reading.count < now.count ∨ reading.count = now.count ∧ 0 < now.nano := by
    rw [Reading.lt_iff_count, hwhole]
  unfold Follows needed
  rw [hafter, ← Reading.not_lt, hbefore, count_eq now]
  cases strict with
  | true =>
      simp only [if_true, true_or]
      omega
  | false =>
      simp only [Bool.false_eq_true, if_false, false_or]
      split <;> omega

theorem needed_le (strict : Bool) (now : Reading) : needed strict now ≤ daySeconds := by
  have hsecond := now.second_lt
  unfold needed
  split <;> omega

/-- A leap second has an elapsed second of its own, and that is the one needed. -/
theorem elapsed_le_needed (strict : Bool) (now : Reading) :
    now.elapsed ≤ needed strict now ∧ needed strict now ≤ now.elapsed + 1 := by
  have hnano := now.nano_lt
  unfold Reading.elapsed needed nanosPerSecond at *
  split <;> omega

/-- Midnight is on every grid. -/
theorem onGrid_tomorrow (interval : Nat) (now : Reading) : OnGrid interval now.tomorrow := by
  have hcount := now.count_tomorrow
  have hsecond := now.tomorrow.second_lt
  rw [Reading.count_midnight, Reading.count] at hcount
  simp only [daySeconds] at *
  have hzero : now.tomorrow.second = 0 := by omega
  exact ⟨now.nano_tomorrow, hzero ▸ Nat.dvd_zero interval⟩

theorem follows_tomorrow (strict : Bool) (now : Reading) : Follows strict now now.tomorrow := by
  have hneeded := needed_le strict now
  rw [follows_iff_count strict now now.nano_tomorrow, Reading.count_tomorrow]
  omega

/-- A reading of the same day. -/
theorem count_of_lt_tomorrow (hfrom : now.midnight.count ≤ reading.count)
    (hto : reading.count < now.tomorrow.count) :
    reading.count = now.midnight.count + reading.second := by
  have hsecond := reading.second_lt
  rw [now.count_tomorrow] at hto
  rw [Reading.count_midnight] at *
  unfold Reading.count at *
  simp only [daySeconds] at *
  omega

/-! ## Multiples counted from one midnight -/

/-- Some intervals after the midnight before a reading. -/
def multiple (interval : Nat) (now : Reading) (steps : Nat) : Reading :=
  now.midnight.addSeconds (steps * interval)

theorem nano_multiple (interval : Nat) (now : Reading) (steps : Nat) :
    (multiple interval now steps).nano = 0 :=
  Reading.nano_addSeconds now.plain_midnight _

theorem count_multiple (interval : Nat) (now : Reading) (steps : Nat) :
    (multiple interval now steps).count = now.midnight.count + (steps * interval : Nat) :=
  Reading.count_addSeconds _ _

theorem follows_multiple_iff (strict : Bool) (now : Reading) (steps : Nat) :
    Follows strict now (multiple interval now steps) ↔ needed strict now ≤ steps * interval := by
  rw [follows_iff_count strict now (nano_multiple interval now steps), count_multiple]
  omega

/-- Up to the end of the day the multiples are the points of the grid. -/
theorem exists_multiple_eq_iff (hwhole : reading.nano = 0)
    (hfrom : now.midnight.count ≤ reading.count) (hto : reading.count < now.tomorrow.count) :
    (∃ steps, reading = multiple interval now steps) ↔ OnGrid interval reading := by
  have hcount := count_of_lt_tomorrow hfrom hto
  constructor
  · rintro ⟨steps, hmultiple⟩
    have hsteps := count_multiple interval now steps
    rw [← hmultiple] at hsteps
    have hsecond : reading.second = steps * interval := by omega
    exact ⟨hwhole, hsecond ▸ Nat.dvd_mul_left interval steps⟩
  · rintro ⟨-, steps, hsteps⟩
    refine ⟨steps, Reading.eq_of_count ?_ ?_⟩
    · rw [hcount, count_multiple, hsteps, Nat.mul_comm]
    · rw [hwhole, nano_multiple]

/-! ## The boundary -/

/-- The last multiple that is not after `now`. -/
def start (now : Reading) (interval : Nat) : Reading :=
  multiple interval now (now.elapsed / interval)

/-- What makes the boundary go on is that the last multiple does not follow. -/
theorem passed_iff (strict : Bool) (now : Reading) (interval : Nat) :
    (start now interval < now ∨ strict = true ∧ start now interval = now) ↔
      ¬ Follows strict now (start now interval) := by
  unfold Follows
  cases strict with
  | false => simp [← Reading.not_lt]
  | true =>
      simp only [true_and, if_true]
      constructor
      · rintro (hbefore | hsame)
        · rw [Reading.lt_iff_count] at hbefore ⊢
          omega
        · rw [hsame]
          exact Reading.lt_irrefl now
      · intro hnot
        rcases Reading.trichotomy (start now interval) now with hbefore | hsame | hafter
        · exact .inl hbefore
        · exact .inr hsame
        · exact absurd hafter hnot

theorem addSeconds_start (now : Reading) (interval : Nat) :
    (start now interval).addSeconds interval =
      multiple interval now (now.elapsed / interval + 1) := by
  have hwhole := nano_multiple interval now (now.elapsed / interval)
  have hplain : (start now interval).Plain := by
    change (start now interval).nano < nanosPerSecond
    rw [start, hwhole]
    decide
  refine Reading.eq_of_count ?_ ?_
  · rw [Reading.count_addSeconds, start, count_multiple, count_multiple, Nat.succ_mul]
    omega
  · rw [Reading.nano_addSeconds hplain, start, hwhole, nano_multiple]

/-- **The boundary is the first multiple to come.** -/
theorem exists_boundary_eq (hinterval : 0 < interval) (strict : Bool) (now : Reading) :
    ∃ steps, boundary now interval strict = multiple interval now steps ∧
      needed strict now ≤ steps * interval ∧
      steps * interval < needed strict now + interval := by
  obtain ⟨hleast, hmost⟩ := elapsed_le_needed strict now
  have hmod := Nat.mod_lt now.elapsed hinterval
  have hdiv := Nat.div_add_mod' now.elapsed interval
  have hfollows : Follows strict now (start now interval) ↔
      needed strict now ≤ now.elapsed / interval * interval :=
    follows_multiple_iff strict now _
  by_cases hpast : start now interval < now ∨ strict = true ∧ start now interval = now
  · have hshort := mt hfollows.mpr ((passed_iff strict now interval).mp hpast)
    have hboundary : boundary now interval strict = (start now interval).addSeconds interval :=
      if_pos hpast
    refine ⟨now.elapsed / interval + 1, ?_, ?_, ?_⟩
    · rw [hboundary, addSeconds_start]
    all_goals
      rw [Nat.succ_mul]
      omega
  · have hneeded := hfollows.mp (not_not.mp (mt (passed_iff strict now interval).mpr hpast))
    exact ⟨now.elapsed / interval, if_neg hpast, hneeded, by omega⟩

section

variable (hinterval : 0 < interval) (strict : Bool) (now : Reading)

include hinterval

theorem nano_boundary : (boundary now interval strict).nano = 0 := by
  obtain ⟨steps, hboundary, -⟩ := exists_boundary_eq hinterval strict now
  rw [hboundary, nano_multiple]

theorem isLeast_multiple :
    IsLeast {reading | (∃ steps, reading = multiple interval now steps) ∧
      Follows strict now reading} (boundary now interval strict) := by
  obtain ⟨steps, hboundary, hneeded, hfirst⟩ := exists_boundary_eq hinterval strict now
  rw [hboundary]
  refine ⟨⟨⟨steps, rfl⟩, (follows_multiple_iff strict now steps).mpr hneeded⟩, ?_⟩
  rintro _ ⟨⟨later, rfl⟩, hfollows⟩
  rw [follows_multiple_iff strict now later] at hfollows
  rw [Reading.le_iff_count (nano_multiple interval now steps), count_multiple, count_multiple]
  -- A multiple less than an interval past what is needed is the first that reaches it.
  have hlt : steps * interval < (later + 1) * interval := by
    rw [Nat.succ_mul]
    omega
  have hsteps := Nat.le_of_lt_succ (Nat.lt_of_mul_lt_mul_right hlt)
  have hmul := Nat.mul_le_mul_right interval hsteps
  omega

/-- A point of the grid to come lies no earlier than the boundary, or on another day. -/
theorem boundary_le_or_tomorrow_le {reading : Reading} (hgrid : OnGrid interval reading)
    (hfollows : Follows strict now reading) :
    boundary now interval strict ≤ reading ∨ now.tomorrow ≤ reading := by
  rw [Reading.le_iff_count now.nano_tomorrow]
  rcases Int.lt_or_le reading.count now.tomorrow.count with hto | hlater
  · have hfrom := (follows_iff_count strict now hgrid.1).mp hfollows
    have hmultiple := (exists_multiple_eq_iff hgrid.1 (by omega) hto).mpr hgrid
    exact .inl ((isLeast_multiple hinterval strict now).2 ⟨hmultiple, hfollows⟩)
  · exact .inr hlater

theorem onGrid_boundary (hwithin : boundary now interval strict ≤ now.tomorrow) :
    OnGrid interval (boundary now interval strict) := by
  have hwhole := nano_boundary hinterval strict now
  obtain ⟨⟨hmultiple, hfollows⟩, -⟩ := isLeast_multiple hinterval strict now
  have hfrom := (follows_iff_count strict now hwhole).mp hfollows
  rw [Reading.le_iff_count hwhole] at hwithin
  rcases Int.lt_or_eq_of_le hwithin with hto | hsame
  · exact (exists_multiple_eq_iff hwhole (by omega) hto).mp hmultiple
  · have hmidnight := Reading.eq_of_count hsame (hwhole.trans now.nano_tomorrow.symm)
    rw [hmidnight]
    exact onGrid_tomorrow interval now

/-- What comes first on the grid is the boundary, unless the next midnight comes before it. -/
theorem isLeast_onGrid :
    IsLeast {reading | OnGrid interval reading ∧ Follows strict now reading}
      (if now.tomorrow < boundary now interval strict then now.tomorrow
        else boundary now interval strict) := by
  have hwhole := nano_boundary hinterval strict now
  split
  · -- No multiple of this day is left, and midnight is on every grid.
    rename_i hbeyond
    refine ⟨⟨onGrid_tomorrow interval now, follows_tomorrow strict now⟩, ?_⟩
    rintro reading ⟨hgrid, hfollows⟩
    rcases boundary_le_or_tomorrow_le hinterval strict now hgrid hfollows with hle | hle
    · rw [Reading.lt_iff_count, Reading.nano_tomorrow, hwhole] at hbeyond
      rw [Reading.le_iff_count hwhole] at hle
      rw [Reading.le_iff_count now.nano_tomorrow]
      omega
    · exact hle
  · rename_i hwithin
    obtain ⟨⟨-, hfollows⟩, -⟩ := isLeast_multiple hinterval strict now
    refine ⟨⟨onGrid_boundary hinterval strict now hwithin, hfollows⟩, ?_⟩
    rintro reading ⟨hgrid, hlater⟩
    rcases boundary_le_or_tomorrow_le hinterval strict now hgrid hlater with hle | hle
    · exact hle
    · rw [Reading.not_lt, Reading.le_iff_count hwhole] at hwithin
      rw [Reading.le_iff_count now.nano_tomorrow] at hle
      rw [Reading.le_iff_count hwhole]
      omega

/-- Intervals that divide the day do not go past its end. -/
theorem boundary_le_tomorrow (hdivides : interval ∣ daySeconds) :
    boundary now interval strict ≤ now.tomorrow := by
  obtain ⟨steps, hboundary, -, hfirst⟩ := exists_boundary_eq hinterval strict now
  have hneeded := needed_le strict now
  obtain ⟨most, hday⟩ := hdivides
  have hlt : steps * interval < (most + 1) * interval := by
    rw [Nat.succ_mul, Nat.mul_comm most, ← hday]
    omega
  have hsteps := Nat.le_of_lt_succ (Nat.lt_of_mul_lt_mul_right hlt)
  have hmul := Nat.mul_le_mul_right interval hsteps
  rw [Nat.mul_comm most, ← hday] at hmul
  rw [hboundary, Reading.le_iff_count (nano_multiple interval now steps), count_multiple,
    Reading.count_tomorrow]
  omega

end

/-- **The boundary is the first multiple to come, counted from the midnight before.  It is the
first point of the grid to come exactly if it lies no later than the next midnight, as it does
for an interval that divides the day.  Else the grid starts again before it, at midnight.** -/
theorem boundary_first (hinterval : 0 < interval) (now : Reading) (strict : Bool) :
    IsLeast {reading | (∃ steps, reading = now.midnight.addSeconds (steps * interval)) ∧
        Follows strict now reading} (boundary now interval strict) ∧
      IsLeast {reading | OnGrid interval reading ∧ Follows strict now reading}
        (if now.tomorrow < boundary now interval strict then now.tomorrow
          else boundary now interval strict) ∧
      (IsLeast {reading | OnGrid interval reading ∧ Follows strict now reading}
          (boundary now interval strict) ↔ boundary now interval strict ≤ now.tomorrow) ∧
      (interval ∣ daySeconds → boundary now interval strict ≤ now.tomorrow) := by
  have hgrid := isLeast_onGrid hinterval strict now
  refine ⟨isLeast_multiple hinterval strict now, hgrid, ⟨fun hleast => ?_, fun hwithin => ?_⟩,
    boundary_le_tomorrow hinterval strict now⟩
  · exact hleast.2 ⟨onGrid_tomorrow interval now, follows_tomorrow strict now⟩
  · rwa [if_neg hwithin] at hgrid

/-- Seven minutes do not divide the day.  Half a minute before midnight the boundary lies two
minutes behind it, though midnight comes first, and is a boundary to itself. -/
theorem boundary_first_seven_minutes :
    let now : Reading := ⟨⟨2025, 5, 6, by decide⟩, 86370, 0, by decide, by decide⟩
    let midnight : Reading := ⟨⟨2025, 5, 7, by decide⟩, 0, 0, by decide, by decide⟩
    let later : Reading := ⟨⟨2025, 5, 7, by decide⟩, 120, 0, by decide, by decide⟩
    boundary now 420 false = later ∧
      IsLeast {reading | OnGrid 420 reading ∧ Follows false now reading} midnight ∧
      ¬ IsLeast {reading | OnGrid 420 reading ∧ Follows false now reading} later ∧
      boundary midnight 420 false = midnight := by
  intro now midnight later
  have hboundary : boundary now 420 false = later := by decide
  obtain ⟨-, hfirst, hwithin, -⟩ := boundary_first (by decide : 0 < 420) now false
  have hbeyond : now.tomorrow < later := by decide
  have htomorrow : now.tomorrow = midnight := by decide
  rw [hboundary, if_pos hbeyond, htomorrow] at hfirst
  rw [hboundary] at hwithin
  exact ⟨hboundary, hfirst, mt hwithin.mp (by decide), by decide⟩

section

variable (hinterval : 0 < interval) (hdivides : interval ∣ daySeconds) (now : Reading)
  (strict : Bool)

include hinterval hdivides

/-- **On an even grid the boundary is the first grid point to come.** -/
theorem boundary_spec :
    IsLeast {reading | OnGrid interval reading ∧ Follows strict now reading}
      (boundary now interval strict) := by
  have hgrid := isLeast_onGrid hinterval strict now
  rwa [if_neg (boundary_le_tomorrow hinterval strict now hdivides)] at hgrid

/-- So it has come exactly if some grid point has. -/
theorem boundary_le_iff (time : Reading) :
    boundary now interval strict ≤ time ↔
      ∃ reading, OnGrid interval reading ∧ Follows strict now reading ∧ reading ≤ time := by
  obtain ⟨⟨hgrid, hfollows⟩, hleast⟩ := boundary_spec hinterval hdivides now strict
  constructor
  · intro hle
    exact ⟨_, hgrid, hfollows, hle⟩
  · rintro ⟨reading, hreading, hafter, hle⟩
    have hbefore := hleast ⟨hreading, hafter⟩
    rw [Reading.le_iff_count hgrid.1] at hbefore ⊢
    rw [Reading.le_iff_count hreading.1] at hle
    exact Int.le_trans hbefore hle

end

end Schedule

end Historian
