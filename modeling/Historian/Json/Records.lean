import Historian.Json.Fields
import Historian.Record
import Historian.Text.Blank
import Historian.Time.Clock

/-!
# Object types, flags and records in documents

An object type is a name or a number, a flag set is the names of its flags with
bars between them, and a datum says its kind beside its value.
-/

namespace Historian

/-! ## Object types -/

namespace ObjectType

/-- One more than the largest number that an object identifier has room for. -/
def codeLimit : Nat := 1024

/-- The document of an object type. -/
def toJson (type : ObjectType) : Json :=
  match type.name? with
  | some name => .str name
  | none => .int type.code.toNat

/-- The object type of a document. -/
def ofJson? : Json → Option ObjectType
  | .str name => ofName? name
  | document => (document.nat? codeLimit).map fun code => ofCode (UInt16.ofNat code)

end ObjectType

/-! ## Flags -/

namespace FlagSet

/-- The digits of a number in lower-case hexadecimal. -/
def hexText (value : Nat) : String := String.ofList (Nat.toDigits 16 value)

/-- The text of a flag set: its flags by name, then the bits without a name. -/
def text {kind : FlagKind} (flags : FlagSet kind) : String :=
  let named := (kind.names.zipIdx.filter fun (_, index) => flags.has index).map Prod.fst
  let unnamed := flags.bits.toNat >>> kind.width <<< kind.width
  " | ".intercalate (named ++ if unnamed = 0 then [] else ["0x" ++ hexText unnamed])

/-- The value of a hexadecimal digit. -/
def hexValue? (digit : Char) : Option Nat :=
  if digit.isDigit then some (digit.toNat - '0'.toNat)
  else if 'a' ≤ digit.toLower ∧ digit.toLower ≤ 'f' then
    some (digit.toLower.toNat - 'a'.toNat + 10)
  else none

/-- The octet with the given hexadecimal digits, which a plus sign may precede. -/
def hexOctet? (text : List Char) : Option Nat :=
  let digits :=
    match text with
    | '+' :: rest => rest
    | text => text
  if digits = [] then none
  else
    (digits.mapM hexValue?).bind fun values =>
      let value := values.foldl (fun value digit => value * 16 + digit) 0
      if value < 256 then some value else none

/-- The bits that one part of the text of a flag set stands for. -/
def partBits? (kind : FlagKind) (part : List Char) : Option Nat :=
  match part with
  | '0' :: 'x' :: digits => hexOctet? digits
  | name =>
      (kind.names.zipIdx.find? fun (candidate, _) => candidate.toList = name).map
        fun (_, index) => 1 <<< index

/-- The flag set of a text. -/
def ofText? {kind : FlagKind} (text : String) : Option (FlagSet kind) :=
  if Text.trim text.toList = [] then some empty
  else
    ((Text.splitAt '|' text.toList).mapM fun part => partBits? kind (Text.trim part)).map
      fun parts => ⟨UInt8.ofNat (parts.foldl (· ||| ·) 0)⟩

/-- The document of a flag set. -/
def toJson {kind : FlagKind} (flags : FlagSet kind) : Json := .str flags.text

/-- The flag set of a document. -/
def ofJson? {kind : FlagKind} (document : Json) : Option (FlagSet kind) :=
  document.str?.bind ofText?

end FlagSet

/-! ## Stamps -/

namespace Date

/-- The document of a date. -/
def toJson (date : Date) : Json :=
  .obj [("year_since_1900", .int date.yearSince1900.toNat), ("month", .int date.month.toNat),
    ("day", .int date.day.toNat), ("weekday", .int date.weekday.toNat)]

/-- The date of a document. -/
def ofJson? (document : Json) : Option Date := do
  match ← document.fields? [["year_since_1900"], ["month"], ["day"], ["weekday"]] with
  | [year, month, day, weekday] =>
      return ⟨← Json.required Json.octet? year, ← Json.required Json.octet? month,
        ← Json.required Json.octet? day, ← Json.required Json.octet? weekday⟩
  | _ => none

end Date

namespace Time

/-- The document of a time of day. -/
def toJson (time : Time) : Json :=
  .obj [("hour", .int time.hour.toNat), ("minute", .int time.minute.toNat),
    ("second", .int time.second.toNat), ("hundredths", .int time.hundredths.toNat)]

/-- The time of day of a document. -/
def ofJson? (document : Json) : Option Time := do
  match ← document.fields? [["hour"], ["minute"], ["second"], ["hundredths"]] with
  | [hour, minute, second, hundredths] =>
      return ⟨← Json.required Json.octet? hour, ← Json.required Json.octet? minute,
        ← Json.required Json.octet? second, ← Json.required Json.octet? hundredths⟩
  | _ => none

end Time

namespace Stamp

/-- The document of a stamp. -/
def toJson (stamp : Stamp) : Json :=
  .obj [("date", stamp.date.toJson), ("time", stamp.time.toJson)]

/-- The stamp of a document. -/
def ofJson? (document : Json) : Option Stamp := do
  match ← document.fields? [["date"], ["time"]] with
  | [date, time] => return ⟨← Json.required Date.ofJson? date, ← Json.required Time.ofJson? time⟩
  | _ => none

end Stamp

/-! ## Records -/

namespace Single

/-- The single nearest to the number of a document. -/
def ofJson? : Json → Option Single
  | .int value =>
      some (if 0 ≤ value then ofNat (UInt64.ofNat value.toNat) else ofInt (Int64.ofInt value))
  | .float value => some (ofDouble value)
  | _ => none

end Single

namespace Datum

/-- The name of the kind of a datum. -/
def kind : Datum → String
  | logStatus _ => "log_status"
  | boolean _ => "boolean"
  | real _ => "real"
  | enumerated _ => "enumerated"
  | unsigned _ => "unsigned"
  | signed _ => "signed"
  | null => "null"

/-- The document of the value of a datum; null has none. -/
def valueJson? : Datum → Option Json
  | logStatus status => some status.toJson
  | boolean value => some (.bool value)
  | real value => some (Json.ofDouble value.toDouble)
  | enumerated value => some (.int value.toNat)
  | unsigned value => some (.int value.toNat)
  | signed value => some (.int value.toInt)
  | null => none

/-- The document of a datum. -/
def toJson (datum : Datum) : Json :=
  .obj (("kind", .str datum.kind) ::
    match datum.valueJson? with
    | some value => [("value", value)]
    | none => [])

/-- The datum of a kind with a value. -/
def ofKind? (kind : String) (value : Option Json) : Option Datum :=
  match kind with
  | "log_status" => (Json.required FlagSet.ofJson? value).map logStatus
  | "boolean" => (Json.required Json.bool? value).map boolean
  | "real" => (Json.required Single.ofJson? value).map real
  | "enumerated" => (Json.required Json.word? value).map enumerated
  | "unsigned" => (Json.required Json.word? value).map unsigned
  | "signed" => (Json.required Json.signedWord? value).map signed
  | "null" =>
      match value with
      | none => some null
      | some .null => some null
      | _ => none
  | _ => none

/-- The datum of a document.  As an array it has exactly its kind and its value, and
the kind is a plain string; as an object it may name its kind in the long form of an
alternative too. -/
def ofJson? : Json → Option Datum
  | .arr [.str kind, value] => ofKind? kind (some value)
  | .obj members => do
      let kind ← Json.required Json.alternative? (← Json.member? members ["kind"])
      ofKind? kind (← Json.member? members ["value"])
  | _ => none

end Datum

namespace LogRecord

/-- The document of a record with all its parts. -/
def toJson (record : LogRecord) : Json :=
  .obj [("timestamp", record.stamp.toJson), ("datum", record.datum.toJson),
    ("status_flags", record.status.toJson)]

/-- The record of a document. -/
def ofJson? (document : Json) : Option LogRecord := do
  match ← document.fields? [["timestamp"], ["datum"], ["status_flags"]] with
  | [stamp, datum, status] =>
      return ⟨← Json.required Stamp.ofJson? stamp, ← Json.required Datum.ofJson? datum,
        ← Json.required FlagSet.ofJson? status⟩
  | _ => none

/-- The document of a record for a reader: the time as a text, if the stamp names
one, and the status as bits. -/
def summary (record : LogRecord) : Json :=
  .obj [("timestamp", Json.ofOption (fun time => .str time.text) record.stamp.toReading?),
    ("datum", record.datum.toJson), ("status", .int record.status.bits.toNat)]

end LogRecord

end Historian
