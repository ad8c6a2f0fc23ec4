import Historian.Octets.Basic

/-!
# Bit strings and flag sets

A bit string travels as the number of unused bits at its end, then its octets,
first bit first: bit `n` is the octet bit worth `128 / 2 ^ n`.  A flag set is a bit
string of fixed width of at most eight bits.  Its own bits are kept the other way
round, flag `n` worth `2 ^ n`.
-/

namespace Historian

/-- A bit string as it travels. -/
structure BitString where
  /-- The number of unused bits at the end of the last octet. -/
  unused : UInt8
  data : Octets
  deriving DecidableEq, Repr

/-- The flag sets in use. -/
inductive FlagKind where
  /-- The state of a point or of the value it gave. -/
  | status
  /-- What part of a log an answer holds. -/
  | result
  /-- A change in the state of a log. -/
  | log
  deriving DecidableEq, Repr

namespace FlagKind

/-- The names of the flags of a kind, flag 0 first. -/
def names : FlagKind → List String
  | status => ["IN_ALARM", "FAULT", "OVERRIDDEN", "OUT_OF_SERVICE"]
  | result => ["FIRST_ITEM", "LAST_ITEM", "MORE_ITEMS"]
  | log => ["LOG_DISABLED", "BUFFER_PURGED", "LOG_INTERRUPTED"]

/-- The number of flags of a kind. -/
def width : FlagKind → Nat
  | status => 4
  | result => 3
  | log => 3

end FlagKind

/-- A set of flags of one kind.  Bits beyond its width have no name and do not
travel. -/
structure FlagSet (kind : FlagKind) where
  bits : UInt8
  deriving DecidableEq, Repr

/-- The state of a point or of the value it gave. -/
abbrev StatusFlags := FlagSet .status

/-- What part of a log an answer holds. -/
abbrev ResultFlags := FlagSet .result

/-- A change in the state of a log. -/
abbrev LogStatus := FlagSet .log

namespace FlagSet

variable {kind : FlagKind}

/-- No flag. -/
def empty : FlagSet kind := ⟨0⟩

/-- The flag `index` alone if `condition` holds, else no flag. -/
def only (index : Nat) (condition : Bool) : FlagSet kind :=
  ⟨if condition then UInt8.ofNat (1 <<< index) else 0⟩

/-- The flags of both sets. -/
def union (first second : FlagSet kind) : FlagSet kind :=
  ⟨first.bits ||| second.bits⟩

instance : Union (FlagSet kind) := ⟨union⟩

/-- Whether the flag `index` is set. -/
def has (flags : FlagSet kind) (index : Nat) : Bool :=
  Octets.bit flags.bits index

/-- The named flags of the set. -/
def defined (flags : FlagSet kind) : FlagSet kind :=
  ⟨UInt8.ofNat (flags.bits.toNat % (1 <<< kind.width))⟩

/-- The flags in the first bits of an octet, first flag first. -/
def octet (flags : FlagSet kind) : UInt8 :=
  UInt8.ofNat ((List.range kind.width).foldl
    (fun value index => value + if flags.has index then 1 <<< (7 - index) else 0) 0)

/-- The flags that the first bits of an octet stand for. -/
def ofOctet (octet : UInt8) : FlagSet kind :=
  ⟨UInt8.ofNat ((List.range kind.width).foldl
    (fun value index => value + if Octets.bit octet (7 - index) then 1 <<< index else 0) 0)⟩

/-- The bit string of a flag set. -/
def toBitString (flags : FlagSet kind) : BitString :=
  ⟨UInt8.ofNat (8 - kind.width), [flags.octet]⟩

/-- The flags in a received bit string, however many bits it says it has: missing
octets read as clear, further bits are dropped. -/
def ofBitString (value : BitString) : FlagSet kind :=
  ofOctet (value.data.head?.getD 0)

end FlagSet

namespace StatusFlags

/-- The value does not come from the field. -/
def outOfService : StatusFlags := FlagSet.only 3 true

end StatusFlags

namespace ResultFlags

/-- The answer begins with the first record of the log, ends with the last one,
or leaves records behind it. -/
def of (first last more : Bool) : ResultFlags :=
  FlagSet.only 0 first ∪ FlagSet.only 1 last ∪ FlagSet.only 2 more

end ResultFlags

namespace LogStatus

/-- Logging was switched off. -/
def disabled : LogStatus := FlagSet.only 0 true

end LogStatus

end Historian
