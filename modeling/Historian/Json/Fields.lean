import Historian.Json.Basic

/-!
# Records in documents

A record is written as an object with named members, or as an array of its fields
in order.  In an object a field may have further names, members of other names are
ignored, and a field given twice is an error.  In an array the last fields may be
missing.
-/

namespace Historian.Json

/-! ## Simple values -/

/-- The integer of a document, if it lies between two bounds. -/
def int? (lowest highest : Int) : Json → Option Int
  | int value => if lowest ≤ value ∧ value ≤ highest then some value else Option.none
  | _ => Option.none

/-- The natural number below a limit. -/
def nat? (limit : Nat) (document : Json) : Option Nat :=
  (document.int? 0 (limit - 1)).map Int.toNat

def octet? (document : Json) : Option UInt8 := (document.nat? UInt8.size).map UInt8.ofNat

def word? (document : Json) : Option UInt32 := (document.nat? UInt32.size).map UInt32.ofNat

def longWord? (document : Json) : Option UInt64 := (document.nat? UInt64.size).map UInt64.ofNat

def signedWord? (document : Json) : Option Int32 :=
  (document.int? Int32.minValue.toInt Int32.maxValue.toInt).map Int32.ofInt

def signedLongWord? (document : Json) : Option Int64 :=
  (document.int? Int64.minValue.toInt Int64.maxValue.toInt).map Int64.ofInt

def bool? : Json → Option Bool
  | bool value => some value
  | _ => Option.none

def str? : Json → Option String
  | str value => some value
  | _ => Option.none

def list? : Json → Option (List Json)
  | arr items => some items
  | _ => Option.none

/-- The double of a number; an integer is rounded to the nearest. -/
def double? : Json → Option Float
  | int value =>
      some (if 0 ≤ value then (UInt64.ofNat value.toNat).toFloat else (Int64.ofInt value).toFloat)
  | float value => some value
  | _ => Option.none

/-- A value that may be null. -/
def optional? {α : Type} (read : Json → Option α) : Json → Option (Option α)
  | null => some Option.none
  | document => (read document).map some

/-- A value for each item of an array. -/
def each? {α : Type} (read : Json → Option α) (document : Json) : Option (List α) :=
  document.list?.bind fun items => items.mapM read

/-! ## Records -/

/-- The value of the field with the given names, if it is given; nothing if it is
given twice. -/
def member? (members : List (String × Json)) (names : List String) : Option (Option Json) :=
  match members.filter fun member => names.contains member.1 with
  | [] => some Option.none
  | [(_, value)] => some (some value)
  | _ => Option.none

/-- The fields of a record, of which each has the given names. -/
def fields? (names : List (List String)) : Json → Option (List (Option Json))
  | obj members => names.mapM (member? members)
  | arr items =>
      if items.length ≤ names.length then
        some (items.map some ++ List.replicate (names.length - items.length) Option.none)
      else Option.none
  | _ => Option.none

/-- A field that must be given. -/
def required {α : Type} (read : Json → Option α) (field : Option Json) : Option α :=
  field.bind read

/-- A field that has a value of its own if it is not given. -/
def withDefault {α : Type} (read : Json → Option α) (default : α) : Option Json → Option α
  | Option.none => some default
  | some document => read document

/-! ## Alternatives without fields -/

/-- The name of an alternative: a string, or an object with null as its only
member. -/
def alternative? : Json → Option String
  | str name => some name
  | obj [(name, null)] => some name
  | _ => Option.none

end Historian.Json
