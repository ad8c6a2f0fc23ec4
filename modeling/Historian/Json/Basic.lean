/-!
# Documents

Configurations, commands and replies are JSON documents.  A number keeps whether it
was written as an integer, and an object keeps its members in order, repeated keys
included: what a repeated key means is for the reader of the object to say.

Some texts are well-formed and still have no value: a number too large for a
double, a string with half a surrogate pair, anything nested too deeply.  They are
kept as `valueless`, so that they are an error where they are used and harmless
where they are ignored.
-/

namespace Historian

/-- A JSON document. -/
inductive Json where
  | null
  | bool (value : Bool)
  | int (value : Int)
  | float (value : Float)
  | str (value : String)
  | arr (items : List Json)
  | obj (members : List (String × Json))
  /-- A well-formed text without a value. -/
  | valueless
  deriving Inhabited

namespace Json

/-! ## Building documents -/

/-- The document of a double; only finite ones are numbers. -/
def ofDouble (value : Float) : Json :=
  if value.isFinite then float value else null

/-- The document of a value that may be missing. -/
def ofOption {α : Type} (toJson : α → Json) : Option α → Json
  | none => null
  | some value => toJson value

/-! ## Documents as values -/

mutual

/-- Whether every part of a document has a value. -/
def isSound : Json → Bool
  | valueless => false
  | arr items => allSound items
  | obj members => allMembersSound members
  | _ => true

/-- Whether every document of a list is sound. -/
def allSound : List Json → Bool
  | [] => true
  | item :: rest => item.isSound && allSound rest

/-- Whether the value of every member is sound. -/
def allMembersSound : List (String × Json) → Bool
  | [] => true
  | (_, value) :: rest => value.isSound && allMembersSound rest

end

/-- The members of an object when the last member with a key counts. -/
def lastMembers (members : List (String × Json)) : List (String × Json) :=
  match members with
  | [] => []
  | (key, value) :: rest =>
      if rest.any fun member => member.1 = key then lastMembers rest
      else (key, value) :: lastMembers rest

mutual

/-- A document with one member per key, the last one given. -/
def normal : Json → Json
  | arr items => arr (normalItems items)
  | obj members => obj (lastMembers (normalMembers members))
  | other => other

/-- The documents of a list, each with one member per key. -/
def normalItems : List Json → List Json
  | [] => []
  | item :: rest => item.normal :: normalItems rest

/-- Members whose values have one member per key. -/
def normalMembers : List (String × Json) → List (String × Json)
  | [] => []
  | (key, value) :: rest => (key, value.normal) :: normalMembers rest

end

/-- The value of a document, if all of it has one. -/
def value? (document : Json) : Option Json :=
  if document.isSound then some document.normal else none

end Json

end Historian
