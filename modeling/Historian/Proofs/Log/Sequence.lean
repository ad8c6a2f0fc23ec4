import Historian.Log.Sequence

/-!
# Sequence numbers of places

The records of a log stand at places 0, 1, 2, … of its history, in the order they were
appended, and `Sequence.number` is the sequence number of a place.  Going on, going
back and measuring a distance are then addition and subtraction of places
(`after_number`, `before_number`, `toNat_distance_number`), as long as no distance
reaches the length of the cycle.
-/

namespace Historian.Sequence

/-- The sequence number of the record that was appended after `place` others. -/
def number (place : Nat) : UInt32 := UInt32.ofNat (place % cycle + 1)

theorem toNat_number (place : Nat) : (number place).toNat = place % cycle + 1 := by
  simp only [number, cycle, UInt32.toNat_ofNat']
  omega

theorem number_ne_zero (place : Nat) : number place ≠ 0 := by
  intro hzero
  have hnat := congrArg UInt32.toNat hzero
  rw [toNat_number] at hnat
  exact absurd hnat (Nat.succ_ne_zero _)

theorem toNat_ofNat {steps : Nat} (hclose : steps < cycle) : (UInt32.ofNat steps).toNat = steps :=
  UInt32.toNat_ofNat_of_lt' (Nat.lt_of_lt_of_le hclose (by decide))

theorem after_ne_zero (sequence steps : UInt32) : after sequence steps ≠ 0 :=
  number_ne_zero _

/-- Two places closer than the cycle have different numbers. -/
theorem number_inj {first second : Nat} (hle : first ≤ second) (hclose : second < first + cycle)
    (heq : number first = number second) : first = second := by
  have hnat := congrArg UInt32.toNat heq
  simp only [toNat_number, cycle] at *
  omega

/-- The numbers start over after a cycle. -/
theorem number_add_cycle (place : Nat) : number (place + cycle) = number place := by
  rw [number, Nat.add_mod_right, number]

theorem number_mod (place : Nat) : number (place % cycle) = number place := by
  rw [number, Nat.mod_mod, number]

/-- Every number but zero is that of a place. -/
theorem number_toNat_sub_one {sequence : UInt32} (hne : sequence ≠ 0) :
    number (sequence.toNat - 1) = sequence := by
  have hpos : 0 < sequence.toNat :=
    Nat.pos_of_ne_zero fun hzero => hne (UInt32.toNat_inj.mp hzero)
  have hlt := sequence.toNat_lt
  apply UInt32.toNat_inj.mp
  rw [toNat_number, cycle]
  omega

/-- There is such a place behind a whole cycle. -/
theorem exists_number_eq {sequence : UInt32} (hne : sequence ≠ 0) :
    ∃ place, cycle ≤ place ∧ number place = sequence := by
  refine ⟨sequence.toNat - 1 + cycle, Nat.le_add_left _ _, ?_⟩
  rw [number_add_cycle, number_toNat_sub_one hne]

/-! ## Moving -/

theorem after_number (place : Nat) (steps : UInt32) :
    after (number place) steps = number (place + steps.toNat) := by
  rw [after, toNat_number, Nat.add_sub_cancel, Nat.mod_add_mod, number]

theorem before_number {place : Nat} {steps : UInt32} (hle : steps.toNat ≤ place) :
    before (number place) steps = number (place - steps.toNat) := by
  have hplace : (place % cycle + cycle - steps.toNat % cycle) % cycle =
      (place - steps.toNat) % cycle := by
    simp only [cycle]
    omega
  rw [before, toNat_number, Nat.add_sub_cancel, hplace, number]

/-- Appending a record. -/
theorem next_number (place : Nat) : next (number place) = number (place + 1) := by
  apply UInt32.toNat_inj.mp
  have hplace := toNat_number place
  have hlast : (4294967295 : UInt32).toNat = cycle := rfl
  rw [toNat_number, next]
  split
  · rename_i heq
    have hnat := hplace.symm.trans (congrArg UInt32.toNat heq)
    rw [hlast] at hnat
    simp only [cycle] at *
    change 1 = _
    omega
  · rename_i hne
    have hnat : (number place).toNat ≠ cycle := fun heq => hne (UInt32.toNat_inj.mp heq)
    rw [hplace] at hnat
    simp only [UInt32.toNat_add, hplace, cycle, UInt32.reduceToNat] at *
    omega

theorem next_zero : next 0 = number 0 := rfl

/-! ## Counting back -/

/-- The number before a number: that of the record appended just before. -/
def previous (sequence : UInt32) : UInt32 :=
  if sequence = 1 then 4294967295 else sequence - 1

/-- The number so many steps before a number. -/
def back (sequence : UInt32) : (steps : Nat) → UInt32
  | 0 => sequence
  | steps + 1 => previous (back sequence steps)

/-- Taking the previous number undoes appending a record. -/
theorem previous_number (place : Nat) : previous (number (place + 1)) = number place := by
  have hplace := toNat_number (place + 1)
  have hone : (1 : UInt32).toNat = 1 := rfl
  apply UInt32.toNat_inj.mp
  rw [previous, toNat_number]
  split
  · rename_i heq
    rw [heq, hone] at hplace
    have hlast : (4294967295 : UInt32).toNat = cycle := rfl
    rw [hlast]
    simp only [cycle] at *
    omega
  · rename_i hne
    have hmore : (number (place + 1)).toNat ≠ 1 := fun heq => hne (UInt32.toNat_inj.mp heq)
    have hle : 1 ≤ number (place + 1) := by
      rw [UInt32.le_iff_toNat_le, hone]
      omega
    rw [UInt32.toNat_sub_of_le _ _ hle, hone, hplace]
    rw [hplace] at hmore
    simp only [cycle] at *
    omega

theorem back_number {place steps : Nat} (hle : steps ≤ place) :
    back (number place) steps = number (place - steps) := by
  induction steps with
  | zero => rfl
  | succ steps ih =>
      have hplace : place - steps = place - (steps + 1) + 1 := by omega
      rw [back, ih (Nat.le_of_succ_le hle), hplace, previous_number]

/-! ## Distances -/

theorem toNat_distance_number {first second : Nat} (hle : first ≤ second)
    (hclose : second < first + cycle) :
    (distance (number first) (number second)).toNat = second - first := by
  simp only [distance, toNat_number, Nat.add_sub_cancel, cycle, UInt32.toNat_ofNat'] at *
  omega

/-- As far from a place on as a number lies, there is a place with this number. -/
theorem number_add_distance (first place : Nat) :
    number (first + (distance (number first) (number place)).toNat) = number place := by
  apply UInt32.toNat_inj.mp
  simp only [distance, toNat_number, Nat.add_sub_cancel, cycle, UInt32.toNat_ofNat'] at *
  omega

end Historian.Sequence
