import Historian.Device.Point
import Historian.Json.Reader

/-!
# Device configurations

The configuration of a device names the device, its points and its logs.  Every
field may be missing.  The logs are kept as documents, so that one bad entry does
not keep out the others.
-/

namespace Historian

/-- The configuration of a device. -/
structure DeviceConfig where
  number : UInt32
  name : String
  points : List PointConfig
  logs : List Json
  /-- How often to look for samples that are due, in milliseconds. -/
  tickMillis : Option UInt64

namespace DeviceConfig

/-- The configuration without any points or logs. -/
def usual : DeviceConfig := ⟨260001, "bactrend", [], [], none⟩

/-- The document of a configuration. -/
def toJson (config : DeviceConfig) : Json :=
  .obj [("device_instance", .int config.number.toNat), ("device_name", .str config.name),
    ("points", .arr (config.points.map PointConfig.toJson)), ("trendlogs", .arr config.logs),
    ("sample_tick_ms", Json.ofOption (fun (tick : UInt64) => .int tick.toNat) config.tickMillis)]

/-- The configuration of a document. -/
def ofJson? (document : Json) : Option DeviceConfig := do
  match ← document.fields? [["device_instance", "deviceId"], ["device_name", "deviceName"],
      ["points", "objects"], ["trendlogs"], ["sample_tick_ms"]] with
  | [number, name, points, logs, tickMillis] =>
      return {
        number := ← Json.withDefault Json.word? usual.number number
        name := ← Json.withDefault Json.str? usual.name name
        points := ← Json.withDefault (Json.each? PointConfig.ofJson?) usual.points points
        logs := ← Json.withDefault (Json.each? Json.value?) usual.logs logs
        tickMillis := ← Json.withDefault (Json.optional? Json.longWord?) usual.tickMillis
          tickMillis }
  | _ => none

/-- The configuration of a text. -/
def ofText? (text : String) : Option DeviceConfig :=
  (Json.parse? text).bind ofJson?

end DeviceConfig

end Historian
