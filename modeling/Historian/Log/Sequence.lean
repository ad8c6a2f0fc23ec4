/-!
# Sequence numbers

The records of a log are numbered in the order they were appended, from 1 to
2³² − 1 and then from 1 again.  Zero numbers no record.
-/

namespace Historian.Sequence

/-- The number of sequence numbers. -/
def cycle : Nat := 4294967295

/-- The sequence number `steps` places after `sequence`. -/
def after (sequence steps : UInt32) : UInt32 :=
  UInt32.ofNat (((sequence.toNat - 1) + steps.toNat) % cycle + 1)

/-- The sequence number `steps` places before `sequence`. -/
def before (sequence steps : UInt32) : UInt32 :=
  UInt32.ofNat (((sequence.toNat - 1) + cycle - steps.toNat % cycle) % cycle + 1)

/-- The number of places from `first` on to `second`. -/
def distance (first second : UInt32) : UInt32 :=
  UInt32.ofNat (((second.toNat - 1) + cycle - (first.toNat - 1)) % cycle)

/-- The sequence number that follows `sequence` when a record is appended; a log
that never had a record stands at zero. -/
def next (sequence : UInt32) : UInt32 :=
  if sequence = 4294967295 then 1 else sequence + 1

end Historian.Sequence
