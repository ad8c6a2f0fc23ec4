/-!
# Numbers with a fixed count of decimals

A double is an integer times a power of two, so its value has finitely many
decimal digits.  It is printed with a given count of decimals, rounded from the
exact value, a tie going to the even digit.
-/

namespace Historian.Decimal

/-- What the bits of a double denote. -/
inductive Double where
  | nan
  | infinite (negative : Bool)
  /-- The value `mantissa * 2 ^ exponent`, with a sign. -/
  | finite (negative : Bool) (mantissa : Nat) (exponent : Int)
  deriving DecidableEq, Repr

/-- Takes the bits of a double apart. -/
def Double.ofBits (bits : UInt64) : Double :=
  let word := bits.toNat
  let negative := word.testBit 63
  let biased : Nat := (word >>> 52) % 2048
  let fraction : Nat := word % (1 <<< 52)
  if biased = 2047 then
    if fraction = 0 then infinite negative else nan
  else if biased = 0 then finite negative fraction (-1074)
  else finite negative ((1 <<< 52) + fraction) ((biased : Int) - 1075)

/-- The integer nearest to a quotient, a tie going to the even one. -/
def roundHalfEven (numerator denominator : Nat) : Nat :=
  let quotient := numerator / denominator
  let twice := 2 * (numerator % denominator)
  if twice < denominator then quotient
  else if denominator < twice then quotient + 1
  else quotient + quotient % 2

/-- The value of `mantissa * 2 ^ exponent` in units of the last of `places`
decimals. -/
def scaled (mantissa : Nat) (exponent : Int) (places : Nat) : Nat :=
  if 0 ≤ exponent then (mantissa <<< exponent.toNat) * Nat.pow 10 places
  else roundHalfEven (mantissa * Nat.pow 10 places) (1 <<< (-exponent).toNat)

/-- A decimal number of at least `width` digits. -/
def padded (width value : Nat) : String :=
  let digits := Nat.toDigits 10 value
  String.ofList (List.replicate (width - digits.length) '0' ++ digits)

/-- A count of units of the last of `places` decimals, written with a point. -/
def withPoint (places units : Nat) : String :=
  let unit := Nat.pow 10 places
  s!"{padded 1 (units / unit)}.{padded places (units % unit)}"

/-- A double with `places` decimals. -/
def fixed (places : Nat) (value : Float) : String :=
  match Double.ofBits value.toBits with
  | .nan => "NaN"
  | .infinite negative => if negative then "-inf" else "inf"
  | .finite negative mantissa exponent =>
      (if negative then "-" else "") ++ withPoint places (scaled mantissa exponent places)

/-- Two digits of an octet in lower-case hexadecimal. -/
def hex (octet : UInt8) : String :=
  String.ofList [Nat.digitChar (octet.toNat / 16), Nat.digitChar (octet.toNat % 16)]

end Historian.Decimal
