import Historian.Json.Reader
import Historian.Json.Records
import Historian.Log.Archive

/-!
# Logs in documents

The configuration of a log is a record of eleven fields, of which only the number
and the name must be given.  A list of configurations is loaded entry by entry, so
that one bad entry does not keep out the others.
-/

namespace Historian

/-- The document of a point's name. -/
def PointRef.toJson (point : PointRef) : Json :=
  .obj [("type", point.type.toJson), ("instance", .int point.number.toNat)]

/-- The point that a document names. -/
def PointRef.ofJson? (document : Json) : Option PointRef := do
  match ← document.fields? [["type"], ["instance"]] with
  | [type, number] =>
      return ⟨← Json.required ObjectType.ofJson? type, ← Json.required Json.word? number⟩
  | _ => none

/-- The trigger that a document names. -/
def Trigger.ofJson? (document : Json) : Option Trigger :=
  document.alternative?.bind Trigger.ofName?

namespace LogConfig

/-- The document of a configuration. -/
def toJson (config : LogConfig) : Json :=
  .obj [("instance", .int config.number.toNat), ("name", .str config.name),
    ("description", .str config.description), ("enable", .bool config.enable),
    ("log_interval", .int config.interval.toNat),
    ("buffer_size", .int config.bufferSize.toNat),
    ("trigger_type", .str config.trigger.name),
    ("cov_increment", Json.ofDouble config.increment),
    ("stop_when_full", .bool config.stopWhenFull),
    ("align_intervals", .bool config.aligned),
    ("linked_object", Json.ofOption PointRef.toJson config.point)]

/-- The configuration of a document. -/
def ofJson? (document : Json) : Option LogConfig := do
  let usual := LogConfig.of 0 ""
  match ← document.fields? [["instance"], ["name"], ["description"], ["enable"],
      ["log_interval", "logInterval"], ["buffer_size", "bufferSize"],
      ["trigger_type", "triggerType"], ["cov_increment"], ["stop_when_full"],
      ["align_intervals"], ["linked_object", "linkedObject"]] with
  | [number, name, description, enable, interval, bufferSize, trigger, increment, stopWhenFull,
      aligned, point] =>
      return {
        number := ← Json.required Json.word? number
        name := ← Json.required Json.str? name
        description := ← Json.withDefault Json.str? usual.description description
        enable := ← Json.withDefault Json.bool? usual.enable enable
        interval := ← Json.withDefault Json.word? usual.interval interval
        bufferSize := ← Json.withDefault Json.word? usual.bufferSize bufferSize
        trigger := ← Json.withDefault Trigger.ofJson? usual.trigger trigger
        increment := ← Json.withDefault Json.double? usual.increment increment
        stopWhenFull := ← Json.withDefault Json.bool? usual.stopWhenFull stopWhenFull
        aligned := ← Json.withDefault Json.bool? usual.aligned aligned
        point := ← Json.withDefault (Json.optional? PointRef.ofJson?) usual.point point }
  | _ => none

end LogConfig

/-- The document of what a log is doing. -/
def TrendLog.statusJson (log : TrendLog) : Json :=
  .obj [("instance", .int log.number.toNat), ("name", .str log.config.name),
    ("enabled", .bool log.running), ("record_count", .int log.view.count.toNat),
    ("total_record_count", .int log.view.total.toNat),
    ("buffer_size", .int log.config.bufferSize.toNat),
    ("log_interval_seconds", .int log.config.interval.toNat),
    ("trigger_type", .str log.config.trigger.name),
    ("linked_object", Json.ofOption PointRef.toJson log.config.point)]

namespace Archive

/-- Adds the logs of a list of documents. -/
def loadDocuments (archive : Archive) (entries : List Json) : Archive × Nat :=
  load LogConfig.ofJson? archive entries

/-- Adds the logs that a text lists under `trendlogs`. -/
def loadText (archive : Archive) (text : String) : Except ArchiveError (Archive × Nat) :=
  match (Json.parse? text).bind Json.value? with
  | none => .error .badText
  | some (.obj members) =>
      match members.lookup "trendlogs" with
      | some (.arr entries) => .ok (archive.loadDocuments entries)
      | _ => .error .noLogs
  | some _ => .error .noLogs

/-- The document of what all logs are doing. -/
def statusJson (archive : Archive) : Json := .arr (archive.logs.map TrendLog.statusJson)

end Archive

end Historian
