import Historian.Tag
import Historian.Time.Stamp
import Historian.Object
import Historian.Value.BitString
import Historian.Value.Integer
import Historian.Value.Single

/-!
# Tagged values

A primitive value stands behind an application tag where its kind is open, and
behind a context tag where the field is known.  The content is the same in both,
except for Booleans: behind an application tag the value is the tag's length,
behind a context tag it has an octet of its own.
-/

namespace Historian

/-! ## Contents -/

namespace Value

/-- The octet after which the characters of a string follow in UTF-8. -/
def utf8 : UInt8 := 0

/-- The characters of a string as octets. -/
def textOctets (text : String) : Octets := text.toUTF8.data.toList

/-- The string that octets spell in UTF-8. -/
def textOfOctets? (octets : Octets) : Option String :=
  String.fromUTF8? ⟨octets.toArray⟩

/-- The next four octets, if `length` says so. -/
def fourOctets (length : Nat) : Decoder UInt32 := do
  Decoder.require (length = 4) .invalidLength
  Decoder.word32

/-- Reads a real of `length` octets. -/
def decodeReal (length : Nat) : Decoder Single := do
  return ⟨← fourOctets length⟩

/-- Reads a bit string of `length` octets. -/
def decodeBitString (length : Nat) : Decoder BitString := do
  Decoder.require (length ≠ 0) .invalidLength
  match ← Decoder.take length with
  | unused :: data =>
      Decoder.require (unused ≤ 7) .invalidValue
      return ⟨unused, data⟩
  | [] => Decoder.fail .invalidLength

/-- Reads a character string of `length` octets.  UTF-8 is the only character set
known. -/
def decodeText (length : Nat) : Decoder String := do
  Decoder.require (length ≠ 0) .invalidLength
  match ← Decoder.take length with
  | charset :: octets =>
      Decoder.require (charset = utf8) .invalidValue
      match textOfOctets? octets with
      | some text => return text
      | none => Decoder.fail .invalidValue
  | [] => Decoder.fail .invalidLength

/-- Reads a Boolean that has an octet of its own. -/
def decodeBoolean (length : Nat) : Decoder Bool := do
  Decoder.require (length = 1) .invalidLength
  return (← Decoder.octet) ≠ 0

/-- Reads a date of `length` octets. -/
def decodeDate (length : Nat) : Decoder Date := do
  Decoder.require (length = 4) .invalidLength
  match ← Decoder.take 4 with
  | [year, month, day, weekday] => return ⟨year, month, day, weekday⟩
  | _ => Decoder.fail .unexpectedEof

/-- Reads a time of day of `length` octets. -/
def decodeTime (length : Nat) : Decoder Time := do
  Decoder.require (length = 4) .invalidLength
  match ← Decoder.take 4 with
  | [hour, minute, second, hundredths] => return ⟨hour, minute, second, hundredths⟩
  | _ => Decoder.fail .unexpectedEof

/-- The largest length a tag can state. -/
def lengthLimit : Nat := 4294967295

/-- The head of a counted content and the content, or the fault of a content too
long to count. -/
def counted (head : UInt32 → Tag) (lead : UInt8) (content : Octets) : Encoding :=
  if content.length + 1 ≤ lengthLimit then
    (head (UInt32.ofNat (content.length + 1))).encode ++ [.run [lead], .run content]
  else [.fault .valueOutOfRange]

/-- The encoding of a bit string.  More than seven unused bits cannot be. -/
def bitString (head : UInt32 → Tag) (value : BitString) : Encoding :=
  if 7 < value.unused then [.fault .valueOutOfRange]
  else counted head value.unused value.data

end Value

/-! ## Behind application tags -/

namespace App

/-- A content behind an application tag. -/
def content (tag : AppTag) (octets : Octets) : Encoding :=
  (Tag.application tag (UInt32.ofNat octets.length)).encode ++ [.run octets]

def unsigned (value : UInt32) : Encoding := content .unsignedInt (Value.unsignedContent value)

def enumerated (value : UInt32) : Encoding := content .enumerated (Value.unsignedContent value)

def signed (value : Int32) : Encoding := content .signedInt (Value.signedContent value)

def real (value : Single) : Encoding := content .real (Octets.ofWord32 value.bits)

def date (value : Date) : Encoding := content .date value.octets

def time (value : Time) : Encoding := content .time value.octets

def objectId (id : ObjectId) : Encoding := content .objectId (Octets.ofWord32 id.raw)

/-- The value stands in the tag. -/
def boolean (value : Bool) : Encoding :=
  (Tag.application .boolean (if value then 1 else 0)).encode

def bitString (value : BitString) : Encoding :=
  Value.bitString (Tag.application .bitString) value

def text (value : String) : Encoding :=
  Value.counted (Tag.application .characterString) Value.utf8 (Value.textOctets value)

def decodeUnsigned : Decoder UInt32 := do
  Value.decodeUnsigned (← Tag.decodeApplication .unsignedInt)

def decodeSigned : Decoder Int32 := do
  Value.decodeSigned (← Tag.decodeApplication .signedInt)

def decodeDate : Decoder Date := do
  Value.decodeDate (← Tag.decodeApplication .date)

def decodeTime : Decoder Time := do
  Value.decodeTime (← Tag.decodeApplication .time)

end App

/-! ## Behind context tags -/

namespace Ctx

/-- A content behind the context tag `number`. -/
def content (number : UInt8) (octets : Octets) : Encoding :=
  (Tag.context number (UInt32.ofNat octets.length)).encode ++ [.run octets]

def unsigned (number : UInt8) (value : UInt32) : Encoding :=
  content number (Value.unsignedContent value)

/-- An enumerated value has the content of an unsigned one. -/
def enumerated (number : UInt8) (value : UInt32) : Encoding := unsigned number value

def signed (number : UInt8) (value : Int32) : Encoding :=
  content number (Value.signedContent value)

def real (number : UInt8) (value : Single) : Encoding :=
  content number (Octets.ofWord32 value.bits)

def objectId (number : UInt8) (id : ObjectId) : Encoding :=
  content number (Octets.ofWord32 id.raw)

def boolean (number : UInt8) (value : Bool) : Encoding :=
  content number [if value then 1 else 0]

def null (number : UInt8) : Encoding := content number []

def bitString (number : UInt8) (value : BitString) : Encoding :=
  Value.bitString (Tag.context number) value

/-- A flag set as a bit string. -/
def flags {kind : FlagKind} (number : UInt8) (value : FlagSet kind) : Encoding :=
  bitString number value.toBitString

/-- An unsigned field that may be left out. -/
def unsigned? (number : UInt8) : Option UInt32 → Encoding
  | some value => unsigned number value
  | none => []

def decodeUnsigned (number : UInt8) : Decoder UInt32 := do
  Value.decodeUnsigned (← Tag.decodeContext number)

/-- An unsigned field that may be left out: at the end of the input, or in front
of any other tag, it is absent and nothing is consumed. -/
def decodeUnsigned? (number : UInt8) : Decoder (Option UInt32) := do
  if ← Decoder.atEnd then
    return none
  match ← Tag.peek with
  | .context found _ =>
      if found = number then return some (← decodeUnsigned number) else return none
  | _ => return none

def decodeObjectId (number : UInt8) : Decoder ObjectId := do
  return ⟨← Value.fourOctets (← Tag.decodeContext number)⟩

/-- A flag set of any stated width. -/
def decodeFlags {kind : FlagKind} (number : UInt8) : Decoder (FlagSet kind) := do
  return FlagSet.ofBitString (← Value.decodeBitString (← Tag.decodeContext number))

end Ctx

/-- Encodings between the opening and the closing tag `number`. -/
def enclosed (number : UInt8) (inner : Encoding) : Encoding :=
  (Tag.opening number).encode ++ inner ++ (Tag.closing number).encode

end Historian
