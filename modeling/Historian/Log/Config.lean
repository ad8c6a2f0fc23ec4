import Historian.Object

/-!
# The configuration of a log

A log is set up with a buffer size, with the point it samples and with what makes
it take a sample.
-/

namespace Historian

/-- What makes a log take a sample. -/
inductive Trigger where
  /-- The passing of its interval. -/
  | periodic
  /-- A change of the value by its increment. -/
  | change
  /-- Nothing but a request to record. -/
  | request
  deriving DecidableEq, Repr

namespace Trigger

/-- The name of a trigger in configurations. -/
def name : Trigger → String
  | periodic => "PERIODIC"
  | change => "COV"
  | request => "TRIGGERED"

/-- The trigger that a configuration calls `written`; its names may be in lower
case. -/
def ofName? : String → Option Trigger
  | "PERIODIC" => some periodic
  | "periodic" => some periodic
  | "COV" => some change
  | "cov" => some change
  | "TRIGGERED" => some request
  | "triggered" => some request
  | _ => none

/-- The number of a trigger as a logging type. -/
def code : Trigger → UInt32
  | periodic => 0
  | change => 1
  | request => 2

end Trigger

/-- A point by its type and instance number. -/
structure PointRef where
  type : ObjectType
  number : UInt32
  deriving DecidableEq, Repr

/-- The configuration of a log. -/
structure LogConfig where
  number : UInt32
  name : String
  description : String
  /-- Whether the log runs from the start. -/
  enable : Bool
  /-- Seconds between periodic samples. -/
  interval : UInt32
  bufferSize : UInt32
  trigger : Trigger
  /-- The least change that is logged. -/
  increment : Float
  /-- Whether a full log drops new records instead of old ones. -/
  stopWhenFull : Bool
  /-- Whether periodic samples fall on multiples of the interval since midnight. -/
  aligned : Bool
  /-- The point that is sampled. -/
  point : Option PointRef

namespace LogConfig

/-- The buffer size of a log that names none. -/
def defaultBufferSize : UInt32 := 2016

/-- The largest buffer size. -/
def maxBufferSize : UInt32 := 10000

/-- A log with a number and a name, and the usual settings otherwise. -/
def of (number : UInt32) (name : String) : LogConfig where
  number := number
  name := name
  description := ""
  enable := true
  interval := 300
  bufferSize := defaultBufferSize
  trigger := .periodic
  increment := 0.5
  stopWhenFull := false
  aligned := true
  point := none

/-- The interval in seconds, at least one. -/
def seconds (config : LogConfig) : Nat := max config.interval.toNat 1

end LogConfig

end Historian
