import Historian.Log.Ring

/-!
# What a reader sees of a log

A reader asks a log for the count of its records, for the count of records it has
ever taken, and for single records by index, oldest first.  A record that cannot be
produced is skipped.
-/

namespace Historian

/-- A log as its readers see it. -/
structure LogView where
  count : UInt32
  total : UInt32
  /-- The record at an index, 0 being the oldest. -/
  record? : Nat → Option LogRecord

/-- The logs of a device by instance number. -/
abbrev Repository := UInt32 → Option LogView

/-- A buffer as its readers see it. -/
def Ring.view (ring : Ring) : LogView :=
  ⟨UInt32.ofNat ring.records.length, ring.total, fun index => ring.records[index]?⟩

namespace LogView

/-- The sequence number of the oldest record. -/
def firstLive (view : LogView) : UInt32 :=
  Sequence.before view.total (view.count - 1)

/-- The sequence number of the record at an index. -/
def sequenceAt (view : LogView) (index : Nat) : UInt32 :=
  Sequence.after view.firstLive (UInt32.ofNat index)

end LogView

end Historian
