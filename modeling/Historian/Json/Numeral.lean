import Historian.Json.Basic

/-!
# Numbers in texts

A numeral is read into an integer if it has neither fraction nor exponent and fits
into 64 bits.  Any other is read into a double: the first digits, as many as fit
into 64 bits, are multiplied or divided once by a power of ten.  The result is the
nearest double for numerals of usual length, and may be its neighbour for others.
A numeral beyond the range of doubles has no value; one too small is zero.
-/

namespace Historian.Json

/-- The parts of a numeral. -/
structure Numeral where
  negative : Bool
  /-- The digits in front of the point. -/
  whole : List Char
  /-- The digits behind the point, if there is one. -/
  fraction : Option (List Char)
  /-- The sign and digits of the exponent, if there is one. -/
  exponent : Option (Bool × List Char)

namespace Numeral

/-- The digits at the front of a text, and the rest. -/
def digits (text : List Char) : List Char × List Char :=
  (text.takeWhile Char.isDigit, text.dropWhile Char.isDigit)

/-- Reads one digit or more. -/
def digits? (text : List Char) : Option (List Char × List Char) :=
  match digits text with
  | ([], _) => none
  | found => some found

/-- Reads the digits in front of the point; a leading zero stands alone. -/
def whole? : List Char → Option (List Char × List Char)
  | '0' :: rest => some (['0'], rest)
  | text => digits? text

/-- Reads a fraction, if there is one. -/
def fraction? : List Char → Option (Option (List Char) × List Char)
  | '.' :: rest => (digits? rest).map fun (found, rest) => (some found, rest)
  | text => some (none, text)

/-- Reads the sign of an exponent: whether it is negative. -/
def exponentSign : List Char → Bool × List Char
  | '-' :: rest => (true, rest)
  | '+' :: rest => (false, rest)
  | text => (false, text)

/-- Reads an exponent, if there is one. -/
def exponent? : List Char → Option (Option (Bool × List Char) × List Char)
  | mark :: rest =>
      if mark = 'e' ∨ mark = 'E' then
        let (negative, rest) := exponentSign rest
        (digits? rest).map fun (found, rest) => (some (negative, found), rest)
      else some (none, mark :: rest)
  | [] => some (none, [])

/-- Reads a numeral. -/
def read? (text : List Char) : Option (Numeral × List Char) := do
  let (negative, text) :=
    match text with
    | '-' :: rest => (true, rest)
    | text => (false, text)
  let (whole, text) ← whole? text
  let (fraction, text) ← fraction? text
  let (exponent, text) ← exponent? text
  return (⟨negative, whole, fraction, exponent⟩, text)

/-! ## Values -/

/-- The number that digits denote. -/
def natOf (digits : List Char) : Nat :=
  digits.foldl (fun value digit => value * 10 + (digit.toNat - '0'.toNat)) 0

/-- Appends digits to a number while it fits into 64 bits.  Gives the digits left
over. -/
def absorb : Nat → List Char → Nat × List Char
  | value, [] => (value, [])
  | value, digit :: rest =>
      let longer := value * 10 + (digit.toNat - '0'.toNat)
      if longer < UInt64.size then absorb longer rest else (value, digit :: rest)

/-- The double `value * 10 ^ exponent`, in steps of at most 308 places.  A value
below 2⁶⁴ is zero after two divisions, so `steps` of three are enough. -/
def scale : (steps : Nat) → Float → Int → Option Float
  | 0, value, _ => some value
  | steps + 1, value, exponent =>
      if exponent.natAbs ≤ 308 then
        let power := Float.ofScientific 1 false exponent.natAbs
        if 0 ≤ exponent then
          let scaled := value * power
          if scaled.isInf then none else some scaled
        else some (value / power)
      else if value == 0 then some value
      else if 0 ≤ exponent then none
      else scale steps (value / Float.ofScientific 1 false 308) (exponent + 308)

/-- The double that a numeral denotes, if it is not too large. -/
def toFloat? (numeral : Numeral) : Option Float :=
  let (significand, cut) := absorb 0 numeral.whole
  let fraction := numeral.fraction.getD []
  let (significand, dropped) := absorb significand fraction
  let places : Int := (cut.length : Int) - ((fraction.length : Int) - (dropped.length : Int))
  let shift : Int :=
    match numeral.exponent with
    | none => 0
    | some (negative, digits) => if negative then -(natOf digits : Int) else natOf digits
  (scale 4 (UInt64.ofNat significand).toFloat (places + shift)).map fun value =>
    if numeral.negative then -value else value

/-- The value of a numeral.  Minus zero is a double. -/
def toJson (numeral : Numeral) : Json :=
  let value := natOf numeral.whole
  let isInt := numeral.fraction.isNone && numeral.exponent.isNone &&
    (if numeral.negative then 0 < value && Int64.minValue.toInt ≤ -(value : Int)
      else value < UInt64.size)
  if isInt then .int (if numeral.negative then -(value : Int) else value)
  else
    match numeral.toFloat? with
    | some value => .float value
    | none => .valueless

end Numeral

end Historian.Json
