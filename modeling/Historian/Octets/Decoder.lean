import Historian.Octets.Basic

/-!
# Reading octets

A decoder takes a value from the front of an octet string and hands on the rest.
It is a function, so a failing decoder has consumed nothing: the caller still
holds the string it started from.  Every format of this library is a decoder
built from the four readers of this file.
-/

namespace Historian

/-- Why an octet string could not be read. -/
inductive DecodeError where
  /-- The input stops in the middle of a value. -/
  | unexpectedEof
  /-- A tag other than the one the format asks for. -/
  | invalidTag
  /-- A length field that the value cannot have. -/
  | invalidLength
  /-- Content that denotes no value. -/
  | invalidValue
  /-- A choice carries a context tag number that names no alternative. -/
  | unknownChoice (number : UInt8)
  deriving DecidableEq, Repr

/-- The wording of a decode error. -/
def DecodeError.message : DecodeError → String
  | unexpectedEof => "input ends early"
  | invalidTag => "unexpected tag"
  | invalidLength => "invalid length"
  | invalidValue => "invalid value"
  | unknownChoice number => s!"unknown choice [{number}]"

/-- A reader of values: the value and the octets that follow it, or an error. -/
abbrev Decoder := StateT Octets (Except DecodeError)

namespace Decoder

/-- The next octet. -/
def octet : Decoder UInt8
  | [] => .error .unexpectedEof
  | first :: rest => .ok (first, rest)

/-- The next two octets as a number. -/
def word16 : Decoder UInt16
  | a :: b :: rest => .ok (Octets.word16 a b, rest)
  | _ => .error .unexpectedEof

/-- The next four octets as a number. -/
def word32 : Decoder UInt32
  | a :: b :: c :: d :: rest => .ok (Octets.word32 a b c d, rest)
  | _ => .error .unexpectedEof

/-- The next `count` octets. -/
def take (count : Nat) : Decoder Octets := fun input =>
  if count ≤ input.length then .ok (input.take count, input.drop count)
  else .error .unexpectedEof

/-- What `decoder` would read here; nothing is consumed. -/
def peek {α : Type} (decoder : Decoder α) : Decoder α := fun input =>
  match decoder input with
  | .ok (value, _) => .ok (value, input)
  | .error error => .error error

/-- Whether no octet is left. -/
def atEnd : Decoder Bool := fun input => .ok (input.isEmpty, input)

/-- Fails with `error`. -/
def fail {α : Type} (error : DecodeError) : Decoder α := fun _ => .error error

/-- Goes on only if `condition` holds. -/
def require (condition : Bool) (error : DecodeError) : Decoder Unit :=
  if condition then pure () else fail error

end Decoder

end Historian
