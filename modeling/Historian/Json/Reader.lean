import Historian.Json.Numeral
import Historian.Json.Text

/-!
# Reading documents

The reader follows the grammar of JSON to the letter: no comments, no trailing
commas, nothing but white space around the document.
-/

namespace Historian.Json

namespace Reader

/-- Arrays and objects may stand in each other this deep. -/
def depthLimit : Nat := 127

/-- The text behind white space. -/
def skipBlanks (text : List Char) : List Char :=
  text.dropWhile fun char => char = ' ' || char = '\n' || char = '\t' || char = '\r'

/-- The text behind `expected`. -/
def expect? (expected : Char) : List Char → Option (List Char)
  | first :: rest => if first = expected then some rest else none
  | [] => none

/-- The text behind a word. -/
def word? (word : String) (text : List Char) : Option (List Char) :=
  if word.toList.isPrefixOf text then some (text.drop word.length) else none

/-- A container has a value up to the depth limit. -/
def container (depth : Nat) (document : Json) : Json :=
  if depth < depthLimit then document else .valueless

/-- The object with the members read, if every key has a value. -/
def object (members : List (Option String × Json)) : Json :=
  match members.mapM fun (key, value) => key.map fun key => (key, value) with
  | some members => .obj members
  | none => .valueless

mutual

/-- Reads a document inside `depth` containers.  Every step of the reader takes a
character, so `fuel` characters of text need no more steps than that many at each
of three levels. -/
def document? (fuel depth : Nat) (text : List Char) : Option (Json × List Char) :=
  match fuel with
  | 0 => none
  | fuel + 1 =>
      match text with
      | '{' :: rest =>
          match skipBlanks rest with
          | '}' :: rest => some (container depth (.obj []), rest)
          | rest =>
              (members? fuel depth rest).map fun (members, rest) =>
                (container depth (object members), rest)
      | '[' :: rest =>
          match skipBlanks rest with
          | ']' :: rest => some (container depth (.arr []), rest)
          | rest =>
              (items? fuel depth rest).map fun (items, rest) =>
                (container depth (.arr items), rest)
      | '"' :: rest =>
          (Text.parts? rest).map fun (parts, rest) =>
            (((Text.string? parts).map Json.str).getD .valueless, rest)
      | 'n' :: _ => (word? "null" text).map fun rest => (.null, rest)
      | 't' :: _ => (word? "true" text).map fun rest => (.bool true, rest)
      | 'f' :: _ => (word? "false" text).map fun rest => (.bool false, rest)
      | _ => (Numeral.read? text).map fun (numeral, rest) => (numeral.toJson, rest)

/-- Reads the items of an array up to its closing bracket. -/
def items? (fuel depth : Nat) (text : List Char) : Option (List Json × List Char) :=
  match fuel with
  | 0 => none
  | fuel + 1 =>
      match document? fuel (depth + 1) text with
      | none => none
      | some (item, rest) =>
          match skipBlanks rest with
          | ']' :: rest => some ([item], rest)
          | ',' :: rest =>
              (items? fuel depth (skipBlanks rest)).map fun (items, rest) =>
                (item :: items, rest)
          | _ => none

/-- Reads the members of an object up to its closing brace. -/
def members? (fuel depth : Nat) (text : List Char) :
    Option (List (Option String × Json) × List Char) :=
  match fuel with
  | 0 => none
  | fuel + 1 =>
      match member? fuel depth text with
      | none => none
      | some (member, rest) =>
          match skipBlanks rest with
          | '}' :: rest => some ([member], rest)
          | ',' :: rest =>
              (members? fuel depth (skipBlanks rest)).map fun (members, rest) =>
                (member :: members, rest)
          | _ => none

/-- Reads a key, a colon and a value. -/
def member? (fuel depth : Nat) (text : List Char) :
    Option ((Option String × Json) × List Char) :=
  match fuel with
  | 0 => none
  | fuel + 1 =>
      match expect? '"' text with
      | none => none
      | some rest =>
          match Text.parts? rest with
          | none => none
          | some (parts, rest) =>
              match expect? ':' (skipBlanks rest) with
              | none => none
              | some rest =>
                  (document? fuel (depth + 1) (skipBlanks rest)).map fun (value, rest) =>
                    ((Text.string? parts, value), rest)

end

end Reader

/-- The document that a text is, if it is one. -/
def parse? (text : String) : Option Json :=
  let chars := text.toList
  match Reader.document? (3 * chars.length + 3) 0 (Reader.skipBlanks chars) with
  | some (document, rest) => if (Reader.skipBlanks rest).isEmpty then some document else none
  | none => none

end Historian.Json
