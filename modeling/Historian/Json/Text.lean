import Historian.Json.Basic

/-!
# Strings in texts

A string is a run of characters and escapes up to the closing quote.  An escape
names a character, or one unit of UTF-16; a pair of surrogate units names one
character, and a surrogate without its partner leaves the string without a value.
-/

namespace Historian.Json.Text

/-- A part of a string. -/
inductive Part where
  | char (value : Char)
  /-- A unit of UTF-16, by number. -/
  | unit (value : Nat)
  deriving DecidableEq

/-- The value of a hexadecimal digit. -/
def hexDigit? (digit : Char) : Option Nat :=
  if digit.isDigit then some (digit.toNat - '0'.toNat)
  else if 'a' ≤ digit ∧ digit ≤ 'f' then some (digit.toNat - 'a'.toNat + 10)
  else if 'A' ≤ digit ∧ digit ≤ 'F' then some (digit.toNat - 'A'.toNat + 10)
  else none

/-- The unit with four hexadecimal digits. -/
def unit? (a b c d : Char) : Option Nat := do
  return ((← hexDigit? a) * 16 + (← hexDigit? b)) * 256 + (← hexDigit? c) * 16 + (← hexDigit? d)

/-- The character that a letter stands for behind a backslash. -/
def escape? : Char → Option Char
  | '"' => some '"'
  | '\\' => some '\\'
  | '/' => some '/'
  | 'b' => some '\x08'
  | 'f' => some '\x0c'
  | 'n' => some '\n'
  | 'r' => some '\r'
  | 't' => some '\t'
  | _ => none

/-- Reads the parts of a string up to and including the closing quote.  Control
characters must be escaped. -/
def parts? : List Char → Option (List Part × List Char)
  | [] => none
  | '"' :: rest => some ([], rest)
  | '\\' :: 'u' :: a :: b :: c :: d :: rest =>
      match unit? a b c d, parts? rest with
      | some unit, some (parts, rest) => some (.unit unit :: parts, rest)
      | _, _ => none
  | '\\' :: letter :: rest =>
      match escape? letter, parts? rest with
      | some char, some (parts, rest) => some (.char char :: parts, rest)
      | _, _ => none
  | char :: rest =>
      if char.toNat < 32 ∨ char = '\\' then none
      else
        match parts? rest with
        | some (parts, rest) => some (.char char :: parts, rest)
        | none => none

/-- Whether a unit is the first or the second half of a pair. -/
def isHigh (unit : Nat) : Bool := 0xD800 ≤ unit && unit < 0xDC00
def isLow (unit : Nat) : Bool := 0xDC00 ≤ unit && unit < 0xE000

/-- The characters of a string, if every surrogate has its partner. -/
def chars? : List Part → Option (List Char)
  | [] => some []
  | .char char :: rest => (chars? rest).map (char :: ·)
  | .unit high :: .unit low :: rest =>
      if isHigh high then
        if isLow low then
          (chars? rest).map
            (Char.ofNat ((high - 0xD800) * 1024 + (low - 0xDC00) + 0x10000) :: ·)
        else none
      else if isLow high then none
      else (chars? (.unit low :: rest)).map (Char.ofNat high :: ·)
  | .unit unit :: rest =>
      if isHigh unit || isLow unit then none else (chars? rest).map (Char.ofNat unit :: ·)

/-- The string that its parts add up to. -/
def string? (parts : List Part) : Option String :=
  (chars? parts).map String.ofList

end Historian.Json.Text
