import Historian.Device.Config
import Historian.Link.Transport
import Historian.Log.Documents
import Historian.Reply

/-!
# The state of a device

A device is its points, its logs and the configuration they were built from.  A
value written to a point is first stored and then shown to the logs that follow the
point; these are two steps, since other work may come between them.
-/

namespace Historian

/-- Why a device does not do as it is told. -/
inductive DeviceError where
  | link (error : LinkError)
  | encode (error : EncodeError)
  | decode (error : DecodeError)
  | range (failure : PageFailure)
  | archive (error : ArchiveError)
  /-- A text that is no command or configuration. -/
  | badText
  /-- A file that cannot be read. -/
  | badFile
  | unknownPoint (point : PointRef)
  | notAPoint (type : ObjectType)
  deriving DecidableEq, Repr

/-- The wording of a device error. -/
def DeviceError.message : DeviceError → String
  | link error => s!"datalink error: {error.message}"
  | encode error => s!"encode error: {error.message}"
  | decode error => s!"decode error: {error.message}"
  | range failure => s!"read range: {failure.message}"
  | archive error => s!"trend log error: {error.message}"
  | badText => "json error"
  | badFile => "io error"
  | unknownPoint point => s!"unknown point {point.type.label} {point.number}"
  | notAPoint type => s!"{type.label} is not a point type"

/-- A device. -/
structure Device where
  config : DeviceConfig
  points : PointTable
  archive : Archive

namespace Device

/-- The device that a configuration describes, with the number of its logs. -/
def configure (config : DeviceConfig) : Device × Nat :=
  let (archive, count) := Archive.empty.loadDocuments config.logs
  (⟨config, PointTable.ofConfigs config.points, archive⟩, count)

/-- The device that a configuration describes. -/
def ofConfig (config : DeviceConfig) : Device := (configure config).1

/-- One round of periodic sampling.  Gives the number of records stored. -/
def samplePeriodic (device : Device) (now : Reading) : Device × Nat :=
  let (archive, count) := device.archive.samplePeriodic now device.points.sample?
  ({ device with archive := archive }, count)

/-! ## Writing to points -/

/-- Stores a value in a point and gives the sample that results. -/
def store (device : Device) (point : PointRef) (value : Float) :
    Except DeviceError (Device × Sample) :=
  match device.points.write? point value with
  | none => .error (.unknownPoint point)
  | some (points, sample) => .ok ({ device with points := points }, sample)

/-- Shows a new sample of a point to the logs that follow it.  Gives the number of
records stored. -/
def observe (device : Device) (point : PointRef) (sample : Sample) (now : Reading) :
    Device × Nat :=
  let (archive, count) := device.archive.observe point sample now
  ({ device with archive := archive }, count)

/-- Writes a value to a point.  Gives the number of records stored. -/
def write (device : Device) (point : PointRef) (value : Float) (now : Reading) :
    Except DeviceError (Device × Nat) :=
  (device.store point value).map fun (stored, sample) => stored.observe point sample now

/-! ## Properties -/

/-- The properties of the points and logs of a device. -/
def property (points : PointTable) (archive : Archive) : Reply.PropertySource :=
  fun object property =>
  if object.type = .trendLog then archive.property object property
  else
    match points.get? ⟨object.type, object.number⟩ with
    | none => .error .unknownObject
    | some point => point.property object property

end Device

end Historian
