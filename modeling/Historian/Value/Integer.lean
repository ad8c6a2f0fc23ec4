import Historian.Octets.Decoder

/-!
# Integer contents

An integer stands in the shortest run of one to four octets that holds it: an
unsigned number without leading zero octets, a signed number in two's complement
without leading octets that only repeat its sign.  The readers take any run of one
to four octets, so redundant leading octets are understood.
-/

namespace Historian.Value

/-! ## Writing -/

/-- Drops leading zero octets, but never the last octet. -/
def dropZeros : Octets → Octets
  | first :: second :: rest =>
      if first = 0 then dropZeros (second :: rest) else first :: second :: rest
  | short => short

/-- Drops leading octets that the sign of the next octet already implies. -/
def dropSigns : Octets → Octets
  | first :: second :: rest =>
      if (first = 0 ∧ second < 128) ∨ (first = 255 ∧ 128 ≤ second) then
        dropSigns (second :: rest)
      else first :: second :: rest
  | short => short

/-- The content of an unsigned integer. -/
def unsignedContent (value : UInt32) : Octets :=
  dropZeros (Octets.ofWord32 value)

/-- The content of a signed integer. -/
def signedContent (value : Int32) : Octets :=
  dropSigns (Octets.ofWord32 value.toUInt32)

/-! ## Reading -/

/-- The octets of an integer behind a length field, which must be 1 to 4. -/
def integerContent (length : Nat) : Decoder Octets := do
  Decoder.require (1 ≤ length ∧ length ≤ 4) .invalidLength
  Decoder.take length

/-- The big-endian value of octets that follow the digits in `start`. -/
def shiftIn (start : UInt32) (content : Octets) : UInt32 :=
  content.foldl (fun value octet => value * 256 + octet.toUInt32) start

/-- The 32 bits that a two's complement content extends to. -/
def signExtend (content : Octets) : UInt32 :=
  let negative := content.head?.any fun first => 128 ≤ first
  shiftIn (if negative then 0xFFFFFFFF else 0) content

/-- Reads an unsigned integer of `length` octets. -/
def decodeUnsigned (length : Nat) : Decoder UInt32 := do
  return shiftIn 0 (← integerContent length)

/-- Reads a signed integer of `length` octets. -/
def decodeSigned (length : Nat) : Decoder Int32 := do
  return (signExtend (← integerContent length)).toInt32

end Historian.Value
