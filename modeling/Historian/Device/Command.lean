import Historian.Device.State
import Historian.Log.Export

/-!
# Commands to a device

A command is a document with the member `cmd`, or an array whose first item is the
name of the command.  The reply is a document, and a command that fails has a reply
with the member `error` and changes nothing.
-/

namespace Historian

/-- What a device can be told. -/
inductive Command where
  | ping
  | status
  | logs
  | log (number : UInt32)
  /-- Asks for the newest records of a log. -/
  | records (number : UInt32) (count : Option Int64)
  | switch (number : UInt32) (enable : Bool)
  | clear (number : UInt32)
  | exportLog (number : UInt32) (path : String)
  | write (point : PointRef) (value : Float)
  | configure (config : DeviceConfig)

namespace Command

/-! ## Reading commands -/

/-- A command that names only a log. -/
def ofLog? (make : UInt32 → Command) (parameters : Json) : Option Command := do
  match ← parameters.fields? [["instance"]] with
  | [number] => return make (← Json.required Json.word? number)
  | _ => none

/-- A command without parameters.  Members that stand beside its name are ignored,
items behind it are not. -/
def ofNothing? (command : Command) : Json → Option Command
  | .obj _ => some command
  | .arr [] => some command
  | _ => none

/-- The command with a name and parameters. -/
def ofName? (name : String) (parameters : Json) : Option Command :=
  match name with
  | "ping" => ofNothing? ping parameters
  | "status" => ofNothing? status parameters
  | "trendlogs" => ofNothing? logs parameters
  | "trendlog" => ofLog? log parameters
  | "trendlog-data" => do
      match ← parameters.fields? [["instance"], ["count"]] with
      | [number, count] =>
          return records (← Json.required Json.word? number)
            (← Json.withDefault (Json.optional? Json.signedLongWord?) none count)
      | _ => none
  | "trendlog-enable" => do
      match ← parameters.fields? [["instance"], ["enable"]] with
      | [number, enable] =>
          return switch (← Json.required Json.word? number) (← Json.required Json.bool? enable)
      | _ => none
  | "trendlog-clear" => ofLog? clear parameters
  | "trendlog-export" => do
      match ← parameters.fields? [["instance"], ["path"]] with
      | [number, path] =>
          return exportLog (← Json.required Json.word? number) (← Json.required Json.str? path)
      | _ => none
  | "write" => do
      match ← parameters.fields? [["object_type", "type"], ["instance"], ["value"]] with
      | [type, number, value] =>
          return write
            ⟨← Json.required ObjectType.ofJson? type, ← Json.required Json.word? number⟩
            (← Json.required Json.double? value)
      | _ => none
  | "config" => do
      match ← parameters.fields? [["config"]] with
      | [config] => return configure (← Json.required DeviceConfig.ofJson? config)
      | _ => none
  | _ => none

/-- The command of a document, all of which must have a value. -/
def ofJson? (document : Json) : Option Command :=
  if document.isSound then
    match document with
    | .arr (.str name :: parameters) => ofName? name (.arr parameters)
    | .obj members => do
        match ← Json.member? members ["cmd"] with
        | some (.str name) =>
            ofName? name (.obj (members.filter fun member => member.1 ≠ "cmd"))
        | _ => none
    | _ => none
  else none

/-- The command of a text. -/
def ofText? (text : String) : Option Command :=
  (Json.parse? text).bind ofJson?

end Command

/-! ## The newest records of a log -/

namespace Newest

/-- How many records are given when the command does not say, and at most. -/
def usualCount : UInt32 := 10
def mostRecords : UInt32 := 100

/-- How many records a command asks for. -/
def effectiveCount : Option Int64 → UInt32
  | none => usualCount
  | some count => if 0 < count then UInt32.ofNat (min count.toInt.toNat mostRecords.toNat)
      else usualCount

/-- The length of the buffer that the records pass through. -/
def bufferLength : Nat := 8192

/-- The request for the newest records of a log, counted from its last record
backwards. -/
def request (number : UInt32) (view : LogView) (count : UInt32) : RangeRequest where
  object := ObjectId.of .trendLog number
  property := .logBuffer
  index := none
  range := .byPosition view.count (Int32.ofInt (-count.toNat))
  invoke := 0

/-- The newest records of a log, exactly as a range request over the network gets
them. -/
def read (archive : Archive) (number count : UInt32) : Except DeviceError RangeAck :=
  match archive.get? number with
  | none => .error (.archive (.unknown number))
  | some log =>
      match Page.answer archive.repository (request number log.view count)
          (List.replicate bufferLength 0) with
      | (.error failure, _) => .error (.range failure)
      | (.ok page, out) =>
          match RangeAck.decode (out.take page.length) with
          | .error error => .error (.decode error)
          | .ok (ack, _) => .ok ack

/-- The reply with the newest records of a log. -/
def reply (archive : Archive) (number count : UInt32) : Except DeviceError Json :=
  (read archive number count).map fun ack =>
    .obj [("instance", .int number.toNat), ("count", .int count.toNat),
      ("retrieved_count", .int ack.count.toNat),
      ("first_sequence", Json.ofOption (fun (number : UInt32) => .int number.toNat)
        ack.firstSequence),
      ("data", .arr (ack.items.map LogRecord.summary))]

end Newest

/-! ## Carrying out commands -/

/-- What comes of a command. -/
structure Outcome where
  device : Device
  reply : Json
  /-- The path and the text of a file that is written. -/
  file : Option (String × String)

namespace Device

/-- The document of what a device is. -/
def statusJson (device : Device) : Json :=
  .obj [("device_instance", .int device.config.number.toNat),
    ("device_name", .str device.config.name), ("points", device.points.countsJson),
    ("trendlogs", .int device.archive.logs.length)]

/-- The document of a log: how it is configured and what it is doing. -/
def logJson (log : TrendLog) : Json :=
  .obj [("config", log.config.toJson), ("status", log.statusJson),
    ("last_logged", Json.ofOption (fun (time : Reading) => .str time.text) log.lastLogged)]

/-- The log with a number, which must be there. -/
def log (device : Device) (number : UInt32) : Except DeviceError TrendLog :=
  match device.archive.get? number with
  | none => .error (.archive (.unknown number))
  | some log => .ok log

/-- A reply that tells of success. -/
def success (members : List (String × Json)) : Json :=
  .obj (("success", .bool true) :: members)

/-- A reply after which the device is as it was. -/
def saying (device : Device) (reply : Json) : Outcome := ⟨device, reply, none⟩

/-- The outcome of a change to the logs. -/
def withArchive (device : Device) (reply : Json) :
    Except ArchiveError Archive → Except DeviceError Outcome
  | .error error => .error (.archive error)
  | .ok archive => .ok ⟨{ device with archive := archive }, reply, none⟩

/-- Carries out a command. -/
def execute (device : Device) (command : Command) (now : Reading) : Except DeviceError Outcome :=
  match command with
  | .ping => .ok (device.saying (.obj [("pong", .bool true)]))
  | .status => .ok (device.saying device.statusJson)
  | .logs => .ok (device.saying (.obj [("trendlogs", device.archive.statusJson)]))
  | .log number => (device.log number).map fun log => device.saying (logJson log)
  | .records number count =>
      (Newest.reply device.archive number (Newest.effectiveCount count)).map device.saying
  | .switch number enable =>
      device.withArchive
        (success [("instance", .int number.toNat), ("enabled", .bool enable)])
        (device.archive.switch number enable now)
  | .clear number =>
      device.withArchive (success [("instance", .int number.toNat)])
        (device.archive.clear number)
  | .exportLog number path =>
      (device.log number).map fun log =>
        ⟨device,
          success [("instance", .int number.toNat), ("rows", .int log.ring.records.length)],
          some (path, Export.table log.ring.records)⟩
  | .write point value =>
      (device.write point value now).map fun (written, count) =>
        written.saying (success [("records", .int count)])
  | .configure config =>
      let (configured, count) := configure config
      .ok (configured.saying (success [("trendlogs", .int count)]))

/-- The reply to a command that fails. -/
def failure (error : DeviceError) : Json := .obj [("error", .str error.message)]

/-- Carries out the command of a text. -/
def perform (device : Device) (text : String) (now : Reading) : Except DeviceError Outcome :=
  match Command.ofText? text with
  | none => .error .badText
  | some command => device.execute command now

/-- Answers the command of a text.  A command that fails changes nothing. -/
def answer (device : Device) (text : String) (now : Reading) : Outcome :=
  match device.perform text now with
  | .ok outcome => outcome
  | .error error => device.saying (failure error)

end Device

end Historian
