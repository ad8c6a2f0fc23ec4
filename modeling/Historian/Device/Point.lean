import Historian.Json.Records
import Historian.Log.TrendLog

/-!
# The points of a device

A point is an input, an output or a value: an analog one, a binary one or one of
several states.  Its present value is written from outside and read by logs and by
property requests.  Inputs and outputs are marked out of service, since no field
stands behind them.
-/

namespace Historian

/-- What kind of value a point has. -/
inductive PointKind where
  | analog | binary | multiState
  deriving DecidableEq, Repr

/-- Where the value of a point comes from or goes to. -/
inductive PointDirection where
  | input | output | value
  deriving DecidableEq, Repr

/-- The name of a kind. -/
def PointKind.label : PointKind → String
  | analog => "Analog"
  | binary => "Binary"
  | multiState => "MultiState"

/-- The name of a direction. -/
def PointDirection.label : PointDirection → String
  | input => "Input"
  | output => "Output"
  | value => "Value"

/-- Kind and direction of the points of an object type; other objects are no
points. -/
def ObjectType.pointClass? : ObjectType → Option (PointKind × PointDirection)
  | analogInput => some (.analog, .input)
  | analogOutput => some (.analog, .output)
  | analogValue => some (.analog, .value)
  | binaryInput => some (.binary, .input)
  | binaryOutput => some (.binary, .output)
  | binaryValue => some (.binary, .value)
  | multiStateInput => some (.multiState, .input)
  | multiStateOutput => some (.multiState, .output)
  | multiStateValue => some (.multiState, .value)
  | _ => none

/-! ## Configurations -/

/-- The configuration of a point. -/
structure PointConfig where
  type : ObjectType
  number : UInt32
  /-- The name, empty for the usual one. -/
  name : String
  presentValue : Option Float

namespace PointConfig

/-- The document of a configuration. -/
def toJson (config : PointConfig) : Json :=
  .obj [("type", config.type.toJson), ("instance", .int config.number.toNat),
    ("name", .str config.name),
    ("present_value", Json.ofOption Json.ofDouble config.presentValue)]

/-- The configuration of a document. -/
def ofJson? (document : Json) : Option PointConfig := do
  match ← document.fields? [["type"], ["instance"], ["name"],
      ["present_value", "presentValue"]] with
  | [type, number, name, presentValue] =>
      return {
        type := ← Json.required ObjectType.ofJson? type
        number := ← Json.required Json.word? number
        name := ← Json.withDefault Json.str? "" name
        presentValue := ← Json.withDefault (Json.optional? Json.double?) none presentValue }
  | _ => none

end PointConfig

/-! ## Points -/

/-- A point with its present value. -/
structure Point where
  name : String
  presentValue : Float
  kind : PointKind
  status : StatusFlags

namespace Point

/-- The present value as it is logged: rounded to a single for an analog point, zero
or one for a binary point, the whole part for a point of several states. -/
def datum (point : Point) : Datum :=
  match point.kind with
  | .analog => .real (Single.ofDouble point.presentValue)
  | .binary => .enumerated (if point.presentValue == 0 then 0 else 1)
  | .multiState => .unsigned point.presentValue.toUInt32

/-- The present value with the state of the point. -/
def sample (point : Point) : Sample := ⟨point.datum, point.status⟩

/-- The present value as a property. -/
def presentProperty (point : Point) : Except Refusal PropertyValue :=
  match point.datum with
  | .real value => .ok (.real value)
  | .enumerated value => .ok (.enumerated value)
  | .unsigned value => .ok (.unsigned value)
  | _ => .error .unknownProperty

/-- The value of a property of a point. -/
def property (point : Point) (object : ObjectId) : PropertyId → Except Refusal PropertyValue
  | .objectIdentifier => .ok (.objectId object)
  | .objectName => .ok (.text point.name)
  | .objectType => .ok (.enumerated object.type.code.toUInt32)
  | .presentValue => point.presentProperty
  | .statusFlags => .ok (.statusFlags point.status)
  | .outOfService => .ok (.boolean (point.status.has 3))
  | _ => .error .unknownProperty

/-- The document of a point. -/
def toJson (point : Point) : Json :=
  .obj [("name", .str point.name), ("present_value", Json.ofDouble point.presentValue)]

/-- The point that a configuration describes, unless its type is that of no point. -/
def ofConfig? (config : PointConfig) : Option Point :=
  config.type.pointClass?.map fun (kind, direction) =>
    { name :=
        if config.name = "" then s!"{config.type.label}-{config.number}" else config.name
      presentValue := config.presentValue.getD 0
      kind := kind
      status := if direction = .value then FlagSet.empty else StatusFlags.outOfService }

end Point

/-! ## Tables of points -/

/-- The points of a device by type and instance number. -/
structure PointTable where
  entries : List (PointRef × Point)

namespace PointTable

/-- A table without points. -/
def empty : PointTable := ⟨[]⟩

/-- The point with a name. -/
def get? (table : PointTable) (point : PointRef) : Option Point :=
  table.entries.lookup point

/-- Puts a point into the table, in place of one of the same name. -/
def put (table : PointTable) (ref : PointRef) (point : Point) : PointTable :=
  if (table.get? ref).isSome then
    ⟨table.entries.map fun entry => if entry.1 = ref then (ref, point) else entry⟩
  else ⟨table.entries ++ [(ref, point)]⟩

/-- Adds a configured point, unless its type is that of no point. -/
def insert? (table : PointTable) (config : PointConfig) : Option PointTable :=
  (Point.ofConfig? config).map fun point => table.put ⟨config.type, config.number⟩ point

/-- The table of a list of configurations.  Those that describe no point are passed
over. -/
def ofConfigs (configs : List PointConfig) : PointTable :=
  configs.foldl (fun table config => (table.insert? config).getD table) empty

/-- The number of points. -/
def size (table : PointTable) : Nat := table.entries.length

/-- The sample of a point, if there is one. -/
def sample? (table : PointTable) (point : PointRef) : Option Sample :=
  (table.get? point).map Point.sample

/-- Sets a present value and gives the sample that results. -/
def write? (table : PointTable) (ref : PointRef) (value : Float) : Option (PointTable × Sample) :=
  (table.get? ref).map fun point =>
    let written := { point with presentValue := value }
    (table.put ref written, written.sample)

/-- The number of points of each type that has any. -/
def counts (table : PointTable) : List (String × Nat) :=
  ObjectType.named.filterMap fun type =>
    let count := (table.entries.filter fun entry => entry.1.type = type).length
    if count = 0 then none else type.name?.map fun name => (name, count)

/-- The document of the counts. -/
def countsJson (table : PointTable) : Json :=
  .obj (table.counts.map fun (name, count) => (name, .int count))

end PointTable

end Historian
