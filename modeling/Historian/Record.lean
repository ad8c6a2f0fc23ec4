import Historian.Decimal.Fixed
import Historian.Value.Field

/-!
# Log records

A log record is a stamp, a datum and the status flags of the point at that time.
The datum is a choice of seven kinds of values, each behind the context tag of its
alternative.  Enumerated and unsigned values have the same content and stay apart
by their tags.
-/

namespace Historian

/-- The value of a log record. -/
inductive Datum where
  /-- The log itself changed state. -/
  | logStatus (status : LogStatus)
  | boolean (value : Bool)
  | real (value : Single)
  | enumerated (value : UInt32)
  | unsigned (value : UInt32)
  | signed (value : Int32)
  | null
  deriving DecidableEq, Repr

namespace Datum

/-- The context tag number of the alternative. -/
def choice : Datum → UInt8
  | logStatus _ => 0
  | boolean _ => 1
  | real _ => 2
  | enumerated _ => 3
  | unsigned _ => 4
  | signed _ => 5
  | null => 7

/-- The number that a datum stands for; a state change and null stand for none. -/
def number? : Datum → Option Float
  | boolean value => some (if value then 1.0 else 0.0)
  | real value => some value.toDouble
  | enumerated value => some value.toUInt64.toFloat
  | unsigned value => some value.toUInt64.toFloat
  | signed value => some value.toInt64.toFloat
  | logStatus _ => none
  | null => none

/-- The text of a datum. -/
def text : Datum → String
  | logStatus status => s!"status:0x{Decimal.hex status.octet}"
  | boolean value => if value then "1" else "0"
  | real value => Decimal.fixed 2 value.toDouble
  | enumerated value => toString value
  | unsigned value => toString value
  | signed value => toString value
  | null => "null"

/-- The encoding of a datum. -/
def encode (datum : Datum) : Encoding :=
  match datum with
  | logStatus status => Ctx.flags datum.choice status
  | boolean value => Ctx.boolean datum.choice value
  | real value => Ctx.real datum.choice value
  | enumerated value => Ctx.enumerated datum.choice value
  | unsigned value => Ctx.unsigned datum.choice value
  | signed value => Ctx.signed datum.choice value
  | null => Ctx.null datum.choice

/-- Reads the content of the alternative `number`. -/
def decodeChoice (number : UInt8) (length : Nat) : Decoder Datum :=
  match number with
  | 0 => return logStatus (FlagSet.ofBitString (← Value.decodeBitString length))
  | 1 => return boolean (← Value.decodeBoolean length)
  | 2 => return real (← Value.decodeReal length)
  | 3 => return enumerated (← Value.decodeUnsigned length)
  | 4 => return unsigned (← Value.decodeUnsigned length)
  | 5 => return signed (← Value.decodeSigned length)
  | 7 => do
      Decoder.require (length = 0) .invalidLength
      return null
  | other => Decoder.fail (.unknownChoice other)

/-- Reads a datum. -/
def decode : Decoder Datum := do
  match ← Tag.decode with
  | .context number length => decodeChoice number length.toNat
  | _ => Decoder.fail .invalidTag

end Datum

/-- One entry of a log. -/
structure LogRecord where
  stamp : Stamp
  datum : Datum
  status : StatusFlags
  deriving DecidableEq, Repr

namespace LogRecord

/-- The encoding of a record: stamp, datum and status flags. -/
def encode (record : LogRecord) : Encoding :=
  enclosed 0 (App.date record.stamp.date ++ App.time record.stamp.time) ++
    enclosed 1 record.datum.encode ++
    Ctx.flags 2 record.status

/-- Status flags that may be left out, which reads as none set. -/
def decodeStatus : Decoder StatusFlags := do
  if ← Decoder.atEnd then
    return FlagSet.empty
  match ← Tag.peek with
  | .context number _ =>
      if number = 2 then Ctx.decodeFlags 2 else return FlagSet.empty
  | _ => return FlagSet.empty

/-- Reads a record. -/
def decode : Decoder LogRecord := do
  Tag.decodeOpening 0
  let date ← App.decodeDate
  let time ← App.decodeTime
  Tag.decodeClosing 0
  Tag.decodeOpening 1
  let datum ← Datum.decode
  Tag.decodeClosing 1
  let status ← decodeStatus
  return ⟨⟨date, time⟩, datum, status⟩

end LogRecord

end Historian
