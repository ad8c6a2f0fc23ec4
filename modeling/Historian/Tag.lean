import Historian.Octets.Decoder
import Historian.Octets.Writer

/-!
# Tags

Every value on the wire stands behind a tag.  An application tag says what kind
of value follows, a context tag says which field it is, and an opening and a
closing tag of one number enclose a constructed value.

The first octet of a tag holds the number in its high half, the class in bit 3
and the length in the low three bits.  A number above 14 moves to an octet of its
own and a length above 4 to one, three or five octets.
-/

namespace Historian

/-- The kinds of application-tagged values; the tag numbers 13 to 15 are reserved. -/
inductive AppTag where
  | null | boolean | unsignedInt | signedInt | real | double | octetString
  | characterString | bitString | enumerated | date | time | objectId
  deriving DecidableEq, Repr

namespace AppTag

/-- The number of an application tag. -/
def number : AppTag → UInt8
  | null => 0
  | boolean => 1
  | unsignedInt => 2
  | signedInt => 3
  | real => 4
  | double => 5
  | octetString => 6
  | characterString => 7
  | bitString => 8
  | enumerated => 9
  | date => 10
  | time => 11
  | objectId => 12

/-- The application tag with a number. -/
def ofNumber? : UInt8 → Option AppTag
  | 0 => some null
  | 1 => some boolean
  | 2 => some unsignedInt
  | 3 => some signedInt
  | 4 => some real
  | 5 => some double
  | 6 => some octetString
  | 7 => some characterString
  | 8 => some bitString
  | 9 => some enumerated
  | 10 => some date
  | 11 => some time
  | 12 => some objectId
  | _ => none

/-- The name of an application tag. -/
def name : AppTag → String
  | null => "Null"
  | boolean => "Boolean"
  | unsignedInt => "UnsignedInt"
  | signedInt => "SignedInt"
  | real => "Real"
  | double => "Double"
  | octetString => "OctetString"
  | characterString => "CharacterString"
  | bitString => "BitString"
  | enumerated => "Enumerated"
  | date => "Date"
  | time => "Time"
  | objectId => "ObjectId"

theorem ofNumber?_number (tag : AppTag) : ofNumber? tag.number = some tag := by
  cases tag <;> rfl

end AppTag

/-- The head of a value.  The length counts the octets of the content, except that
an application Boolean keeps its value there and has no content. -/
inductive Tag where
  | application (tag : AppTag) (length : UInt32)
  | context (number : UInt8) (length : UInt32)
  | opening (number : UInt8)
  | closing (number : UInt8)
  deriving DecidableEq, Repr

namespace Tag

/-! ## Writing -/

/-- The first octet, and the number if it needs an octet of its own.  `low` is the
class bit with the length bits. -/
def encodeInitial (number : UInt8) (low : UInt8) : Encoding :=
  if number < 15 then [.run [number * 16 + low]]
  else [.run [240 + low], .run [number]]

/-- A tag with a length field; `classBit` is 0 for application and 8 for context
tags. -/
def encodeSized (number classBit : UInt8) (length : UInt32) : Encoding :=
  if length < 5 then encodeInitial number (classBit + length.toUInt8)
  else
    encodeInitial number (classBit + 5) ++
      if length < 254 then [.run [length.toUInt8]]
      else if length < 65536 then [.run [254], .run (Octets.ofWord16 length.toUInt16)]
      else [.run [255], .run (Octets.ofWord32 length)]

/-- The encoding of a tag. -/
def encode : Tag → Encoding
  | application tag length => encodeSized tag.number 0 length
  | context number length => encodeSized number 8 length
  | opening number => encodeInitial number 14
  | closing number => encodeInitial number 15

/-! ## Reading -/

/-- The length that the low three bits of the first octet stand for. -/
def decodeLength (low : UInt8) : Decoder UInt32 := do
  if low < 5 then
    return low.toUInt32
  else if low = 5 then
    let short ← Decoder.octet
    if short = 254 then
      return (← Decoder.word16).toUInt32
    else if short = 255 then
      Decoder.word32
    else
      return short.toUInt32
  else
    Decoder.fail .invalidLength

/-- Reads a tag.  A reserved application tag number is refused before its length
is looked at. -/
def decode : Decoder Tag := do
  let initial ← Decoder.octet
  let number ← if initial / 16 = 15 then Decoder.octet else pure (initial / 16)
  let low := initial % 8
  if Octets.bit initial 3 then
    if low = 6 then
      return opening number
    else if low = 7 then
      return closing number
    else
      return context number (← decodeLength low)
  else
    match AppTag.ofNumber? number with
    | some tag => return application tag (← decodeLength low)
    | none => Decoder.fail .invalidTag

/-- The next tag, which stays unread. -/
def peek : Decoder Tag := Decoder.peek decode

/-- Reads an application tag that must be `expected` and gives its length. -/
def decodeApplication (expected : AppTag) : Decoder Nat := do
  match ← decode with
  | application tag length =>
      if tag = expected then return length.toNat else Decoder.fail .invalidTag
  | _ => Decoder.fail .invalidTag

/-- Reads a context tag that must carry `expected` and gives its length. -/
def decodeContext (expected : UInt8) : Decoder Nat := do
  match ← decode with
  | context number length =>
      if number = expected then return length.toNat else Decoder.fail .invalidTag
  | _ => Decoder.fail .invalidTag

/-- Reads the opening tag `number`. -/
def decodeOpening (number : UInt8) : Decoder Unit := do
  if (← decode) = opening number then return () else Decoder.fail .invalidTag

/-- Reads the closing tag `number`. -/
def decodeClosing (number : UInt8) : Decoder Unit := do
  if (← decode) = closing number then return () else Decoder.fail .invalidTag

end Tag

end Historian
