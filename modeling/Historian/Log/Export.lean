import Historian.Record
import Historian.Time.Clock

/-!
# Records as a table

An export has a line per record: the time if the stamp names one, the number if the
datum stands for one, with two decimals, and the status bits.  Fields are separated
by commas; none of them can hold a comma or a quote.
-/

namespace Historian.Export

/-- The line of a record. -/
def line (record : LogRecord) : String :=
  let time := (record.stamp.toReading?.map Reading.text).getD ""
  let value := (record.datum.number?.map (Decimal.fixed 2)).getD ""
  s!"{time},{value},{record.status.bits}"

/-- The table of a list of records. -/
def table (records : List LogRecord) : String :=
  String.join (("Timestamp,Value,Status" :: records.map line).map fun row => row ++ "\n")

end Historian.Export
