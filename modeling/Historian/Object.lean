/-!
# Objects and properties

A device is a set of objects, and an object is named by its type and an instance
number, packed into 32 bits: ten for the type, twenty-two for the instance.  What
can be asked of an object is one of its properties.  Types and properties that
this device gives no meaning to keep their number.
-/

namespace Historian

/-! ## Object types -/

/-- The type of an object. -/
inductive ObjectType where
  | analogInput | analogOutput | analogValue
  | binaryInput | binaryOutput | binaryValue
  | device | multiStateInput | multiStateOutput | schedule | multiStateValue
  | trendLog | trendLogMultiple
  | other (code : UInt16)
  deriving DecidableEq, Repr

namespace ObjectType

/-- The number of an object type. -/
def code : ObjectType → UInt16
  | analogInput => 0
  | analogOutput => 1
  | analogValue => 2
  | binaryInput => 3
  | binaryOutput => 4
  | binaryValue => 5
  | device => 8
  | multiStateInput => 13
  | multiStateOutput => 14
  | schedule => 17
  | multiStateValue => 19
  | trendLog => 20
  | trendLogMultiple => 27
  | other code => code

/-- The object type with a number. -/
def ofCode : UInt16 → ObjectType
  | 0 => analogInput
  | 1 => analogOutput
  | 2 => analogValue
  | 3 => binaryInput
  | 4 => binaryOutput
  | 5 => binaryValue
  | 8 => device
  | 13 => multiStateInput
  | 14 => multiStateOutput
  | 17 => schedule
  | 19 => multiStateValue
  | 20 => trendLog
  | 27 => trendLogMultiple
  | code => other code

/-- The types that have a name. -/
def named : List ObjectType :=
  [analogInput, analogOutput, analogValue, binaryInput, binaryOutput, binaryValue,
    device, multiStateInput, multiStateOutput, schedule, multiStateValue, trendLog,
    trendLogMultiple]

/-- The name of an object type in messages. -/
def label : ObjectType → String
  | analogInput => "AnalogInput"
  | analogOutput => "AnalogOutput"
  | analogValue => "AnalogValue"
  | binaryInput => "BinaryInput"
  | binaryOutput => "BinaryOutput"
  | binaryValue => "BinaryValue"
  | device => "Device"
  | multiStateInput => "MultiStateInput"
  | multiStateOutput => "MultiStateOutput"
  | schedule => "Schedule"
  | multiStateValue => "MultiStateValue"
  | trendLog => "TrendLog"
  | trendLogMultiple => "TrendLogMultiple"
  | other code => s!"Other({code})"

/-- The name of an object type in configurations. -/
def name? : ObjectType → Option String
  | analogInput => some "ANALOG_INPUT"
  | analogOutput => some "ANALOG_OUTPUT"
  | analogValue => some "ANALOG_VALUE"
  | binaryInput => some "BINARY_INPUT"
  | binaryOutput => some "BINARY_OUTPUT"
  | binaryValue => some "BINARY_VALUE"
  | device => some "DEVICE"
  | multiStateInput => some "MULTI_STATE_INPUT"
  | multiStateOutput => some "MULTI_STATE_OUTPUT"
  | schedule => some "SCHEDULE"
  | multiStateValue => some "MULTI_STATE_VALUE"
  | trendLog => some "TRENDLOG"
  | trendLogMultiple => some "TRENDLOG_MULTIPLE"
  | other _ => none

/-- Whether a written name stands for a configuration name: letters of either
case, and a hyphen for an underscore. -/
def spells (written name : List Char) : Bool :=
  written.length = name.length &&
    (written.zip name).all fun (w, n) => w.toUpper = n || (w = '-' && n = '_')

/-- The object type that a configuration calls `written`. -/
def ofName? (written : String) : Option ObjectType :=
  named.find? fun type => type.name?.any fun name => spells written.toList name.toList

/-- Whether objects of this type have a present value that a log can sample. -/
def isPoint : ObjectType → Bool
  | analogInput | analogOutput | analogValue | binaryInput | binaryOutput
  | binaryValue | multiStateInput | multiStateOutput | multiStateValue => true
  | _ => false

end ObjectType

/-! ## Object identifiers -/

/-- The identifier of an object, packed as it travels. -/
structure ObjectId where
  raw : UInt32
  deriving DecidableEq, Repr

namespace ObjectId

/-- One more than the largest instance number. -/
def instanceSpan : Nat := 4194304

/-- The identifier of an object.  Higher bits of the type's number and of the
instance are dropped. -/
def of (type : ObjectType) (number : UInt32) : ObjectId :=
  ⟨UInt32.ofNat (type.code.toNat % 1024 * instanceSpan + number.toNat % instanceSpan)⟩

/-- The type of the object. -/
def type (id : ObjectId) : ObjectType :=
  ObjectType.ofCode (UInt16.ofNat (id.raw.toNat / instanceSpan))

/-- The instance number of the object. -/
def number (id : ObjectId) : UInt32 :=
  UInt32.ofNat (id.raw.toNat % instanceSpan)

/-- The text of an identifier. -/
def text (id : ObjectId) : String :=
  s!"{id.type.label}:{id.number}"

end ObjectId

/-! ## Properties -/

/-- A property of an object. -/
inductive PropertyId where
  | description | objectIdentifier | objectName | objectType | outOfService
  | presentValue | statusFlags | bufferSize | logBuffer | enable | logInterval
  | recordCount | stopWhenFull | totalRecordCount | alignIntervals | loggingType
  | other (code : UInt32)
  deriving DecidableEq, Repr

namespace PropertyId

/-- The number of a property. -/
def code : PropertyId → UInt32
  | description => 28
  | objectIdentifier => 75
  | objectName => 77
  | objectType => 79
  | outOfService => 81
  | presentValue => 85
  | statusFlags => 111
  | bufferSize => 126
  | logBuffer => 131
  | enable => 133
  | logInterval => 134
  | recordCount => 141
  | stopWhenFull => 144
  | totalRecordCount => 145
  | alignIntervals => 193
  | loggingType => 197
  | other code => code

/-- The property with a number. -/
def ofCode : UInt32 → PropertyId
  | 28 => description
  | 75 => objectIdentifier
  | 77 => objectName
  | 79 => objectType
  | 81 => outOfService
  | 85 => presentValue
  | 111 => statusFlags
  | 126 => bufferSize
  | 131 => logBuffer
  | 133 => enable
  | 134 => logInterval
  | 141 => recordCount
  | 144 => stopWhenFull
  | 145 => totalRecordCount
  | 193 => alignIntervals
  | 197 => loggingType
  | code => other code

/-- The name of a property in messages. -/
def label : PropertyId → String
  | description => "Description"
  | objectIdentifier => "ObjectIdentifier"
  | objectName => "ObjectName"
  | objectType => "ObjectType"
  | outOfService => "OutOfService"
  | presentValue => "PresentValue"
  | statusFlags => "StatusFlags"
  | bufferSize => "BufferSize"
  | logBuffer => "LogBuffer"
  | enable => "Enable"
  | logInterval => "LogInterval"
  | recordCount => "RecordCount"
  | stopWhenFull => "StopWhenFull"
  | totalRecordCount => "TotalRecordCount"
  | alignIntervals => "AlignIntervals"
  | loggingType => "LoggingType"
  | other code => s!"Other({code})"

end PropertyId

end Historian
