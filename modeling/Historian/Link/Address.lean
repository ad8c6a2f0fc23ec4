import Historian.Decimal.Fixed
import Historian.Octets.Basic

/-!
# Addresses on an IP network

A peer is known by its IP address and the UDP number it listens on.  An address of
version 4 is written as four decimal numbers between points, one of version 6 as
eight hexadecimal groups between colons; of those the longest run of two or more zero
groups is left out.
-/

namespace Historian

/-- An IP address. -/
inductive Host where
  | v4 (a b c d : UInt8)
  /-- The groups of an address of version 6, and the number of its zone, 0 for
  none. -/
  | v6 (groups : List UInt16) (zone : UInt32)
  deriving DecidableEq, Repr

/-- An IP address with a UDP number. -/
structure Address where
  host : Host
  udp : UInt16
  deriving DecidableEq, Repr

namespace Host

/-! ## Writing -/

/-- The text of an address of version 4. -/
def v4Text (a b c d : UInt8) : String := s!"{a}.{b}.{c}.{d}"

/-- A group in hexadecimal digits, without leading zeros. -/
def groupText (group : UInt16) : String :=
  String.ofList (Nat.toDigits 16 group.toNat)

/-- Groups with colons between them. -/
def groupsText (groups : List UInt16) : String :=
  ":".intercalate (groups.map groupText)

/-- The number of zeros at the front of a list of groups. -/
def zerosAt (groups : List UInt16) : Nat :=
  (groups.takeWhile fun group => group = 0).length

/-- Start and length of the longest run of zero groups, the first of several. -/
def longestZeros (groups : List UInt16) : Nat × Nat :=
  (List.range groups.length).foldl
    (fun best start =>
      let length := zerosAt (groups.drop start)
      if best.2 < length then (start, length) else best)
    (0, 0)

/-- The text of an address of version 6.  An address of version 4 in disguise keeps
its own form. -/
def v6Text (groups : List UInt16) : String :=
  match groups with
  | [0, 0, 0, 0, 0, 0xFFFF, high, low] =>
      let octets := Octets.ofWord16 high ++ Octets.ofWord16 low
      "::ffff:" ++ ".".intercalate (octets.map fun octet => toString octet)
  | _ =>
      let (start, length) := longestZeros groups
      if 1 < length then
        groupsText (groups.take start) ++ "::" ++ groupsText (groups.drop (start + length))
      else groupsText groups

end Host

namespace Address

/-- The usual UDP number of a building network. -/
def usualUdp : UInt16 := 47808

/-- Whether everything on the local network is addressed. -/
def isBroadcast (address : Address) : Bool :=
  address.host = .v4 255 255 255 255

/-- The text of an address with its UDP number. -/
def text (address : Address) : String :=
  match address.host with
  | .v4 a b c d => s!"{Host.v4Text a b c d}:{address.udp}"
  | .v6 groups zone =>
      let zoneText := if zone = 0 then "" else s!"%{zone}"
      s!"[{Host.v6Text groups}{zoneText}]:{address.udp}"

/-! ## Reading -/

/-- The value of a digit in a base of at most sixteen. -/
def digit? (base : Nat) (char : Char) : Option Nat :=
  let value? :=
    if char.isDigit then some (char.toNat - '0'.toNat)
    else if 'a' ≤ char.toLower ∧ char.toLower ≤ 'f' then
      some (char.toLower.toNat - 'a'.toNat + 10)
    else none
  value?.filter fun value => value < base

/-- The digits at the front of a text, and the rest. -/
def digits (base : Nat) : List Char → List Nat × List Char
  | [] => ([], [])
  | char :: rest =>
      match digit? base char with
      | none => ([], char :: rest)
      | some value =>
          let (values, rest) := digits base rest
          (value :: values, rest)

/-- Reads a number below `limit` of at most `width` digits. -/
def number? (base width limit : Nat) (text : List Char) : Option (Nat × List Char) :=
  let (values, rest) := digits base text
  let value := values.foldl (fun value digit => value * base + digit) 0
  if values = [] ∨ width < values.length ∨ limit ≤ value then none else some (value, rest)

/-- Reads a decimal octet without leading zeros. -/
def octet? (text : List Char) : Option (UInt8 × List Char) := do
  let (value, rest) ← number? 10 3 256 text
  if text.head? = some '0' ∧ (digits 10 text).1.length ≠ 1 then none
  else return (UInt8.ofNat value, rest)

/-- Reads one character. -/
def char? (expected : Char) : List Char → Option (List Char)
  | first :: rest => if first = expected then some rest else none
  | [] => none

/-- Reads an address of version 4. -/
def v4? (text : List Char) : Option ((UInt8 × UInt8 × UInt8 × UInt8) × List Char) := do
  let (a, text) ← octet? text
  let (b, text) ← octet? (← char? '.' text)
  let (c, text) ← octet? (← char? '.' text)
  let (d, text) ← octet? (← char? '.' text)
  return ((a, b, c, d), text)

/-- The text behind the colon that stands before every group but the first. -/
def separated? (first : Bool) (text : List Char) : Option (List Char) :=
  if first then some text else char? ':' text

/-- Reads at most `room` groups.  Where two groups fit, they may be given as an
address of version 4, which comes last; whether it was is the second part of the
result. -/
def groups : (room : Nat) → (first : Bool) → List Char → List UInt16 × Bool × List Char
  | 0, _, text => ([], false, text)
  | room + 1, first, text =>
      let embedded :=
        if room = 0 then none else (separated? first text).bind v4?
      match embedded with
      | some ((a, b, c, d), rest) => ([Octets.word16 a b, Octets.word16 c d], true, rest)
      | none =>
          match (separated? first text).bind (number? 16 4 65536) with
          | some (group, rest) =>
              let (found, isV4, rest) := groups room false rest
              (UInt16.ofNat group :: found, isV4, rest)
          | none => ([], false, text)

/-- Reads the groups of an address of version 6.  Two colons stand for as many zeros
as are missing, at least one. -/
def v6? (text : List Char) : Option (List UInt16 × List Char) :=
  match groups 8 true text with
  | (front, isV4, rest) =>
      if front.length = 8 then some (front, rest)
      else if isV4 then none
      else do
        let rest ← char? ':' (← char? ':' rest)
        let (back, _, rest) := groups (7 - front.length) true rest
        return (front ++ List.replicate (8 - front.length - back.length) 0 ++ back, rest)

/-- Reads the number of a zone, if there is one. -/
def zone (text : List Char) : UInt32 × List Char :=
  match (char? '%' text).bind fun rest => number? 10 rest.length UInt32.size rest with
  | some (value, rest) => (UInt32.ofNat value, rest)
  | none => (0, text)

/-- Reads a UDP number that ends the text. -/
def udp? (text : List Char) : Option UInt16 := do
  let rest ← char? ':' text
  match number? 10 rest.length 65536 rest with
  | some (value, []) => some (UInt16.ofNat value)
  | _ => none

/-- The address that a text names. -/
def ofText? (text : String) : Option Address :=
  match v4? text.toList with
  | some ((a, b, c, d), rest) => (udp? rest).map fun udp => ⟨.v4 a b c d, udp⟩
  | none => do
      let (groups, rest) ← v6? (← char? '[' text.toList)
      let (zone, rest) := zone rest
      let udp ← udp? (← char? ']' rest)
      return ⟨.v6 groups zone, udp⟩

end Address

end Historian
