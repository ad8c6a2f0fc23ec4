import Historian.Log.Sequence
import Historian.Record

/-!
# The buffer of a log

A log keeps its latest records in a buffer of fixed capacity.  A record that does
not fit pushes out the oldest.  The buffer counts the records it has ever taken,
which is also the sequence number of the newest: the numbers of the others follow
from their places and are not stored.  Clearing the buffer does not reset the
count, so no number is given to two records before all have been used.
-/

namespace Historian

/-- A buffer of log records, oldest first. -/
structure Ring where
  capacity : Nat
  records : List LogRecord
  /-- The count of records ever taken, wrapping from 2³² − 1 to 1. -/
  total : UInt32
  deriving DecidableEq, Repr

namespace Ring

/-- An empty buffer.  It has room for at least one record. -/
def ofCapacity (capacity : Nat) : Ring := ⟨max capacity 1, [], 0⟩

/-- Whether the next record pushes one out. -/
def isFull (ring : Ring) : Bool := ring.records.length = ring.capacity

/-- Appends a record and gives the record that was pushed out. -/
def push (ring : Ring) (record : LogRecord) : Ring × Option LogRecord :=
  let total := Sequence.next ring.total
  if ring.isFull then
    ({ ring with records := ring.records.drop 1 ++ [record], total }, ring.records.head?)
  else
    ({ ring with records := ring.records ++ [record], total }, none)

/-- Drops every record. -/
def clear (ring : Ring) : Ring := { ring with records := [] }

/-- The sequence number of the oldest record, or 0 if there is none. -/
def firstSequence (ring : Ring) : UInt32 :=
  if ring.records = [] then 0
  else Sequence.before ring.total (UInt32.ofNat (ring.records.length - 1))

end Ring

end Historian
