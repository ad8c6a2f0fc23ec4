import Historian.Object

/-!
# Object types on the command line

On the command line an object type is a word in lower case with hyphens.  Only the
types that a client reads from are offered.
-/

namespace Historian

/-- The object types that can be named on the command line. -/
def ObjectType.arguments : List (String × ObjectType) :=
  [("analog-input", .analogInput), ("analog-output", .analogOutput),
    ("analog-value", .analogValue), ("binary-input", .binaryInput),
    ("binary-output", .binaryOutput), ("binary-value", .binaryValue), ("device", .device),
    ("trend-log", .trendLog), ("multi-state-input", .multiStateInput),
    ("multi-state-output", .multiStateOutput), ("multi-state-value", .multiStateValue)]

/-- The object type that a word on the command line names. -/
def ObjectType.ofArgument? (word : String) : Option ObjectType :=
  arguments.lookup word

end Historian
