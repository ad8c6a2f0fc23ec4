import Historian.Proofs.Log.Sequence
import Mathlib.Dynamics.PeriodicPts.Defs

/-!
# Sequence numbers form a cycle without zero

Appending records takes the sequence number of a log through all the numbers but zero and then
through them again (`Sequence.minimalPeriod_next`).  Going on by a number of steps is appending as
many records (`Sequence.after_eq_iterate`), going back undoes it, and the distance is the number of
steps from one number to another.  `Sequence.cyclic` puts together what follows for any two numbers
and any steps, also for more steps than the cycle is long.

The definitions reckon without bound.  A device does the same in words of 64 bits, whose sums and
differences must not leave the words; with `Sequence.after?` and its like, which give up where one
does, it is part of the result that none does.

## Strategy

A number is that of many places, and one of them lies behind a whole cycle
(`Sequence.exists_number_eq`), so that no 32-bit number of steps leads back beyond the first place.
Everything is then addition and subtraction of places.  In words, every number comes of a place by
the same last steps (`Sequence.number?_eq`), and what is added up before is below 2³³.
-/

namespace Historian

/-! ## Words of 64 bits -/

namespace Wide

/-- The sum of two words, if it is a word. -/
def sum? (first second : UInt64) : Option UInt64 :=
  if first.toNat + second.toNat < UInt64.size then some (first + second) else none

/-- The difference of two words, if it is a word. -/
def difference? (first second : UInt64) : Option UInt64 :=
  if second ≤ first then some (first - second) else none

/-- The difference of two words, or zero. -/
def excess (first second : UInt64) : UInt64 :=
  if second ≤ first then first - second else 0

/-- A word in 32 bits, if it fits them. -/
def narrow? (word : UInt64) : Option UInt32 :=
  if word.toNat < UInt32.size then some word.toUInt32 else none

variable {first second word : UInt64}

theorem exists_sum? (hsmall : first.toNat + second.toNat < UInt64.size) :
    ∃ sum, sum? first second = some sum ∧ sum.toNat = first.toNat + second.toNat := by
  refine ⟨first + second, if_pos hsmall, ?_⟩
  rw [UInt64.toNat_add]
  exact Nat.mod_eq_of_lt hsmall

theorem exists_difference? (hle : second.toNat ≤ first.toNat) :
    ∃ difference, difference? first second = some difference ∧
      difference.toNat = first.toNat - second.toNat := by
  have hword : second ≤ first := UInt64.le_iff_toNat_le.mpr hle
  exact ⟨first - second, if_pos hword, UInt64.toNat_sub_of_le _ _ hword⟩

theorem toNat_excess (first second : UInt64) :
    (excess first second).toNat = first.toNat - second.toNat := by
  unfold excess
  split
  · rename_i hle
    exact UInt64.toNat_sub_of_le _ _ hle
  · rename_i hlt
    rw [UInt64.not_le, UInt64.lt_iff_toNat_lt] at hlt
    exact (Nat.sub_eq_zero_of_le (Nat.le_of_lt hlt)).symm

theorem narrow?_eq (hsmall : word.toNat < UInt32.size) :
    narrow? word = some (UInt32.ofNat word.toNat) := by
  rw [narrow?, if_pos hsmall]
  rfl

end Wide

namespace Sequence

/-! ## Steps -/

/-- Appending records goes on by as many places. -/
theorem iterate_next_number (place steps : Nat) :
    next^[steps] (number place) = number (place + steps) := by
  induction steps with
  | zero => rfl
  | succ steps ih => rw [Function.iterate_succ_apply', ih, next_number, Nat.add_assoc]

variable {sequence other : UInt32}

/-- **Going on is appending records.** -/
theorem after_eq_iterate (hne : sequence ≠ 0) (steps : UInt32) :
    after sequence steps = next^[steps.toNat] sequence := by
  obtain ⟨place, -, rfl⟩ := exists_number_eq hne
  rw [after_number, iterate_next_number]

/-- **Appending leads through all numbers before it leads back.** -/
theorem minimalPeriod_next (hne : sequence ≠ 0) : Function.minimalPeriod next sequence = cycle := by
  obtain ⟨place, -, rfl⟩ := exists_number_eq hne
  have hback : Function.IsPeriodicPt next cycle (number place) := by
    rw [Function.IsPeriodicPt, Function.IsFixedPt, iterate_next_number, number_add_cycle]
  have hpos : 0 < cycle := by decide
  have hperiod : number (place + Function.minimalPeriod next (number place)) = number place := by
    rw [← iterate_next_number]
    exact Function.isPeriodicPt_minimalPeriod next (number place)
  refine Nat.le_antisymm (hback.minimalPeriod_le hpos) ?_
  -- Two places closer than the cycle have different numbers.
  by_contra hshort
  have hsame := number_inj (Nat.le_add_right _ _) (by omega) hperiod.symm
  have hsome := hback.minimalPeriod_pos hpos
  omega

/-! ## Words -/

/-- The place that a number stands for, counted from zero; zero stands for the first too. -/
def placeOf (sequence : UInt32) : UInt64 := Wide.excess sequence.toUInt64 1

/-- The number of a place. -/
def number? (place : UInt64) : Option UInt32 := do
  let counted ← Wide.sum? (place % 4294967295) 1
  Wide.narrow? counted

/-- `after` in words. -/
def after? (sequence steps : UInt32) : Option UInt32 := do
  let place ← Wide.sum? (placeOf sequence) steps.toUInt64
  number? place

/-- `before` in words. -/
def before? (sequence steps : UInt32) : Option UInt32 := do
  let ahead ← Wide.sum? (placeOf sequence) 4294967295
  let place ← Wide.difference? ahead (steps.toUInt64 % 4294967295)
  number? place

/-- `distance` in words. -/
def distance? (first second : UInt32) : Option UInt32 := do
  let ahead ← Wide.sum? (placeOf second) 4294967295
  let left ← Wide.difference? ahead (placeOf first)
  Wide.narrow? (left % 4294967295)

theorem toNat_placeOf (sequence : UInt32) : (placeOf sequence).toNat = sequence.toNat - 1 :=
  Wide.toNat_excess _ _

theorem number?_eq (place : UInt64) : number? place = some (number place.toNat) := by
  have hrest : (place % 4294967295).toNat = place.toNat % cycle := UInt64.toNat_mod _ _
  have hlt : place.toNat % cycle < cycle := Nat.mod_lt _ (by decide)
  have hone : (1 : UInt64).toNat = 1 := rfl
  have hcycle : cycle + 1 = UInt32.size := rfl
  have hwide : UInt32.size < UInt64.size := by decide
  obtain ⟨counted, hcounted, hcountedNat⟩ :=
    Wide.exists_sum? (show (place % 4294967295).toNat + (1 : UInt64).toNat < UInt64.size by omega)
  rw [number?, hcounted, Option.bind_eq_bind, Option.bind_some, Wide.narrow?_eq (by omega),
    hcountedNat, hrest, hone, number]

/-- A number and its place are far below the end of the words. -/
theorem toNat_placeOf_lt (sequence : UInt32) : (placeOf sequence).toNat < cycle := by
  have hlt := sequence.toNat_lt
  rw [toNat_placeOf, cycle]
  omega

theorem after?_eq (sequence steps : UInt32) :
    after? sequence steps = some (after sequence steps) := by
  have hplace := toNat_placeOf_lt sequence
  have hsteps : steps.toUInt64.toNat = steps.toNat := UInt32.toNat_toUInt64 steps
  have hlt := steps.toNat_lt
  obtain ⟨place, hsum, hsumNat⟩ := Wide.exists_sum?
    (show (placeOf sequence).toNat + steps.toUInt64.toNat < UInt64.size by
      simp only [cycle, UInt64.size] at *; omega)
  rw [after?, hsum, Option.bind_eq_bind, Option.bind_some, number?_eq, hsumNat, toNat_placeOf,
    hsteps]
  rfl

/-- The sum that `before` and `distance` subtract from. -/
theorem exists_ahead (sequence : UInt32) :
    ∃ ahead, Wide.sum? (placeOf sequence) 4294967295 = some ahead ∧
      ahead.toNat = sequence.toNat - 1 + cycle := by
  have hplace := toNat_placeOf_lt sequence
  obtain ⟨ahead, hsum, hsumNat⟩ := Wide.exists_sum?
    (show (placeOf sequence).toNat + (4294967295 : UInt64).toNat < UInt64.size by
      simp only [cycle, UInt64.size, UInt64.reduceToNat] at *; omega)
  rw [toNat_placeOf] at hsumNat
  exact ⟨ahead, hsum, hsumNat⟩

theorem before?_eq (sequence steps : UInt32) :
    before? sequence steps = some (before sequence steps) := by
  obtain ⟨ahead, hahead, haheadNat⟩ := exists_ahead sequence
  have hsteps : (steps.toUInt64 % 4294967295).toNat = steps.toNat % cycle := by
    rw [UInt64.toNat_mod, UInt32.toNat_toUInt64]
    rfl
  have hlt : steps.toNat % cycle < cycle := Nat.mod_lt _ (by decide)
  obtain ⟨place, hplace, hplaceNat⟩ := Wide.exists_difference?
    (show (steps.toUInt64 % 4294967295).toNat ≤ ahead.toNat by omega)
  rw [before?, hahead, Option.bind_eq_bind, Option.bind_some, hplace, Option.bind_some,
    number?_eq, hplaceNat, haheadNat, hsteps]
  rfl

theorem distance?_eq (first second : UInt32) :
    distance? first second = some (distance first second) := by
  obtain ⟨ahead, hahead, haheadNat⟩ := exists_ahead second
  have hfirst := toNat_placeOf_lt first
  obtain ⟨left, hleft, hleftNat⟩ := Wide.exists_difference?
    (show (placeOf first).toNat ≤ ahead.toNat by omega)
  have hrest : (left % 4294967295).toNat = left.toNat % cycle := UInt64.toNat_mod _ _
  have hlt : left.toNat % cycle < cycle := Nat.mod_lt _ (by decide)
  have hcycle : cycle + 1 = UInt32.size := rfl
  rw [distance?, hahead, Option.bind_eq_bind, Option.bind_some, hleft, Option.bind_some,
    Wide.narrow?_eq (by omega), hrest, hleftNat, haheadNat, toNat_placeOf]
  rfl

/-! ## The cycle -/

/-- What a cycle makes of two of its numbers and of numbers of steps. -/
structure Cyclic (sequence other steps more : UInt32) : Prop where
  after_bounds : 1 ≤ (after sequence steps).toNat ∧ (after sequence steps).toNat ≤ cycle
  before_bounds : 1 ≤ (before sequence steps).toNat ∧ (before sequence steps).toNat ≤ cycle
  /-- Going on by one step is appending a record. -/
  counts : after sequence steps = next^[steps.toNat] sequence
  after_after : after (after sequence steps) more =
    after sequence (UInt32.ofNat ((steps.toNat + more.toNat) % cycle))
  before_after : before (after sequence steps) steps = sequence
  after_before : after (before sequence steps) steps = sequence
  distance_lt : (distance sequence other).toNat < cycle
  after_distance : after sequence (distance sequence other) = other
  distance_after : (distance sequence (after sequence steps)).toNat = steps.toNat % cycle
  /-- No sum or difference in words of 64 bits, and no number in one of 32, is out of bounds. -/
  words : after? sequence steps = some (after sequence steps) ∧
    before? sequence steps = some (before sequence steps) ∧
    distance? sequence other = some (distance sequence other)

theorem number_bounds (place : Nat) :
    1 ≤ (number place).toNat ∧ (number place).toNat ≤ cycle := by
  have hlt : place % cycle < cycle := Nat.mod_lt _ (by decide)
  rw [toNat_number]
  omega

theorem after_after (hne : sequence ≠ 0) (steps more : UInt32) :
    after (after sequence steps) more =
      after sequence (UInt32.ofNat ((steps.toNat + more.toNat) % cycle)) := by
  obtain ⟨place, -, rfl⟩ := exists_number_eq hne
  have hlt : (steps.toNat + more.toNat) % cycle < cycle := Nat.mod_lt _ (by decide)
  calc after (after (number place) steps) more
      = number (place + (steps.toNat + more.toNat)) := by
        rw [after_number, after_number, Nat.add_assoc]
    _ = number (place + (steps.toNat + more.toNat) % cycle) := by
        rw [← number_mod, ← Nat.add_mod_mod, number_mod]
    _ = after (number place) (UInt32.ofNat ((steps.toNat + more.toNat) % cycle)) := by
        rw [after_number, toNat_ofNat hlt]

theorem before_after (hne : sequence ≠ 0) (steps : UInt32) :
    before (after sequence steps) steps = sequence := by
  obtain ⟨place, -, rfl⟩ := exists_number_eq hne
  rw [after_number, before_number (Nat.le_add_left _ _), Nat.add_sub_cancel]

theorem after_before (hne : sequence ≠ 0) (steps : UInt32) :
    after (before sequence steps) steps = sequence := by
  obtain ⟨place, hlate, rfl⟩ := exists_number_eq hne
  have hsteps : steps.toNat ≤ cycle := Nat.le_of_lt_succ steps.toNat_lt
  have hle : steps.toNat ≤ place := Nat.le_trans hsteps hlate
  rw [before_number hle, after_number, Nat.sub_add_cancel hle]

theorem distance_lt (first second : UInt32) : (distance first second).toNat < cycle := by
  rw [distance, toNat_ofNat (Nat.mod_lt _ (by decide))]
  exact Nat.mod_lt _ (by decide)

theorem after_distance (hne : sequence ≠ 0) (hother : other ≠ 0) :
    after sequence (distance sequence other) = other := by
  obtain ⟨place, -, rfl⟩ := exists_number_eq hne
  obtain ⟨place', -, rfl⟩ := exists_number_eq hother
  rw [after_number, number_add_distance]

theorem toNat_distance_after (hne : sequence ≠ 0) (steps : UInt32) :
    (distance sequence (after sequence steps)).toNat = steps.toNat % cycle := by
  obtain ⟨place, -, rfl⟩ := exists_number_eq hne
  have hlt : steps.toNat % cycle < cycle := Nat.mod_lt _ (by decide)
  -- The distance does not tell a whole cycle from no step.
  have hnear : after (number place) steps = number (place + steps.toNat % cycle) := by
    rw [after_number, ← number_mod, ← Nat.add_mod_mod, number_mod]
  rw [hnear, toNat_distance_number (Nat.le_add_right _ _) (by omega), Nat.add_sub_cancel_left]

/-- **Sequence numbers form a cycle without zero.** -/
theorem cyclic (hne : sequence ≠ 0) (hother : other ≠ 0) (steps more : UInt32) :
    Cyclic sequence other steps more where
  after_bounds := number_bounds _
  before_bounds := number_bounds _
  counts := after_eq_iterate hne steps
  after_after := after_after hne steps more
  before_after := before_after hne steps
  after_before := after_before hne steps
  distance_lt := distance_lt sequence other
  after_distance := after_distance hne hother
  distance_after := toNat_distance_after hne steps
  words := ⟨after?_eq sequence steps, before?_eq sequence steps, distance?_eq sequence other⟩

/-- From the last number a whole cycle on, which leads back to it and is no distance, and then one
step less than a cycle, which leads to the number before. -/
theorem cyclic_last :
    let last : UInt32 := 4294967295
    last ≠ 0 ∧ (1 : UInt32) ≠ 0 ∧ Cyclic last 1 last 4294967294 ∧
      after last last = last ∧ (distance last (after last last)).toNat = 0 ∧
      after (after last last) 4294967294 = 4294967294 := by
  intro last
  have hlast : last ≠ 0 := by decide
  have hone : (1 : UInt32) ≠ 0 := by decide
  have hcyclic := cyclic hlast hone last 4294967294
  refine ⟨hlast, hone, hcyclic, by decide, ?_, ?_⟩
  · rw [hcyclic.distance_after]
    exact Nat.mod_self cycle
  · rw [hcyclic.after_after]
    decide

end Sequence

end Historian
