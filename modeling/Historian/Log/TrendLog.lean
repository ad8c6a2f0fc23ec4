import Historian.Log.Config
import Historian.Log.View
import Historian.Message.ReadProperty
import Historian.Time.Clock

/-!
# A trend log

A trend log takes samples of one point while it runs, and records when it is
switched on or off.  A log set to stop when full drops what comes after; any other
log drops what is oldest.

Periodic samples fall due one interval after the last reading, or on the multiples
of the interval since midnight.  The time of the next reading is fixed only when a
reading is asked for, so a log that has just been switched on or cleared starts
over.  A change is measured from the last number logged: what is not logged does
not move the reference.
-/

namespace Historian

/-- A value read from a point, with the state of the point. -/
structure Sample where
  datum : Datum
  status : StatusFlags
  deriving DecidableEq, Repr

/-! ## Due times -/

namespace Schedule

/-- The first multiple of `interval` seconds, counted from the midnight before
`now`, that is not before `now`, or with `strict` the first after it. -/
def boundary (now : Reading) (interval : Nat) (strict : Bool) : Reading :=
  let start := now.midnight.addSeconds (now.elapsed / interval * interval)
  if start < now ∨ (strict = true ∧ start = now) then start.addSeconds interval else start

/-- When a log that has no due time yet is due. -/
def first (config : LogConfig) (now : Reading) : Reading :=
  if config.aligned then boundary now config.seconds false else now

/-- When a log that has been read at `now` is due again. -/
def following (config : LogConfig) (now : Reading) : Reading :=
  if config.aligned then boundary now config.seconds true else now.addSeconds config.seconds

end Schedule

/-! ## The state of a log -/

/-- A trend log. -/
structure TrendLog where
  config : LogConfig
  ring : Ring
  running : Bool
  /-- The last number logged. -/
  lastValue : Option Float
  /-- When the last sample was logged. -/
  lastLogged : Option Reading
  /-- When the next periodic sample is due, once that is fixed. -/
  nextDue : Option Reading

namespace TrendLog

/-- A log as it is set up. -/
def ofConfig (config : LogConfig) : TrendLog where
  config := config
  ring := Ring.ofCapacity config.bufferSize.toNat
  running := config.enable
  lastValue := none
  lastLogged := none
  nextDue := none

/-- The instance number of a log. -/
def number (log : TrendLog) : UInt32 := log.config.number

/-- A log as its readers see it. -/
def view (log : TrendLog) : LogView := log.ring.view

/-! ## Appending -/

/-- Whether a record would be dropped. -/
def refuses (log : TrendLog) : Bool := log.config.stopWhenFull && log.ring.isFull

/-- Offers a record and tells whether it was stored. -/
def append (log : TrendLog) (record : LogRecord) : TrendLog × Bool :=
  if log.refuses then (log, false)
  else ({ log with ring := (log.ring.push record).1 }, true)

/-- Offers a sample and tells whether it was stored.  A log that is switched off
takes none. -/
def record (log : TrendLog) (sample : Sample) (now : Reading) : TrendLog × Bool :=
  if log.running then
    match log.append ⟨Stamp.ofReading now, sample.datum, sample.status⟩ with
    | (_, false) => (log, false)
    | (appended, true) =>
        ({ appended with
            lastValue := sample.datum.number?.or appended.lastValue
            lastLogged := some now }, true)
  else (log, false)

/-- Switches logging on or off.  A switch that changes something is itself recorded,
even where samples are not. -/
def switch (log : TrendLog) (enable : Bool) (now : Reading) : TrendLog :=
  if log.running = enable then log
  else
    let status : LogStatus := if enable then FlagSet.empty else LogStatus.disabled
    ({ log with running := enable, nextDue := none }.append
      ⟨Stamp.ofReading now, .logStatus status, FlagSet.empty⟩).1

/-- Drops all records and what was remembered of them. -/
def clear (log : TrendLog) : TrendLog :=
  { log with ring := log.ring.clear, lastValue := none, lastLogged := none, nextDue := none }

/-! ## Sampling -/

/-- The point whose interval drives the log, if the log runs. -/
def periodicPoint? (log : TrendLog) : Option PointRef :=
  if log.running ∧ log.config.trigger = .periodic then log.config.point else none

/-- When the log is due, as far as is known at `now`. -/
def due (log : TrendLog) (now : Reading) : Reading :=
  log.nextDue.getD (Schedule.first log.config now)

/-- The point that a round of sampling at `now` reads for the log. -/
def reads? (log : TrendLog) (now : Reading) : Option PointRef :=
  if now < log.due now then none else log.periodicPoint?

/-- One round of sampling; `read` gives the value of a point that is available.
Tells whether a record was stored. -/
def sample (log : TrendLog) (now : Reading) (read : PointRef → Option Sample) :
    TrendLog × Bool :=
  match log.periodicPoint? with
  | none => (log, false)
  | some point =>
      if now < log.due now then ({ log with nextDue := some (log.due now) }, false)
      else
        let (recorded, stored) :=
          match read point with
          | some value => log.record value now
          | none => (log, false)
        ({ recorded with nextDue := some (Schedule.following log.config now) }, stored)

/-- Whether a sample differs enough from the last number logged.  What is not a
number always does. -/
def exceeds (log : TrendLog) (sample : Sample) : Bool :=
  match log.lastValue, sample.datum.number? with
  | some previous, some value => (value - previous).abs ≥ log.config.increment
  | _, _ => true

/-- Whether the log follows the changes of a point. -/
def follows (log : TrendLog) (point : PointRef) : Bool :=
  log.running && log.config.trigger = .change && log.config.point = some point

/-- Offers a new value of a point.  Tells whether a record was stored. -/
def observe (log : TrendLog) (point : PointRef) (sample : Sample) (now : Reading) :
    TrendLog × Bool :=
  if log.follows point && log.exceeds sample then log.record sample now else (log, false)

/-! ## Properties -/

/-- The interval in hundredths of a second, as far as 32 bits go. -/
def intervalHundredths (config : LogConfig) : UInt32 :=
  UInt32.ofNat (min (config.interval.toNat * 100) 4294967295)

/-- The value of a property of a log. -/
def property (log : TrendLog) : PropertyId → Except Refusal PropertyValue
  | .objectIdentifier => .ok (.objectId (ObjectId.of .trendLog log.number))
  | .objectName => .ok (.text log.config.name)
  | .objectType => .ok (.enumerated ObjectType.trendLog.code.toUInt32)
  | .description => .ok (.text log.config.description)
  | .statusFlags => .ok (.statusFlags FlagSet.empty)
  | .enable => .ok (.boolean log.running)
  | .logInterval => .ok (.unsigned (intervalHundredths log.config))
  | .bufferSize => .ok (.unsigned log.config.bufferSize)
  | .recordCount => .ok (.unsigned log.view.count)
  | .totalRecordCount => .ok (.unsigned log.view.total)
  | .stopWhenFull => .ok (.boolean log.config.stopWhenFull)
  | .alignIntervals => .ok (.boolean log.config.aligned)
  | .loggingType => .ok (.enumerated log.config.trigger.code)
  | .logBuffer => .error .readAccessDenied
  | _ => .error .unknownProperty

end TrendLog

end Historian
