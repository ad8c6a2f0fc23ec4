import Historian.Octets.Basic

/-!
# Writing octets

An encoder names the runs of octets it puts out, one after another, as an
`Encoding`.  A `Writer` is a buffer of fixed size with a part already written;
`Writer.emit` puts the runs into it.  A run goes in whole or not at all, so a
writer that overflows keeps the runs before the one that did not fit, and
`Writer.rewind` takes them back.

A value that has no encoding stops the encoder where it is met, after the runs
before it.  Hence a buffer that is too small for those is reported first.
-/

namespace Historian

/-- Why a value could not be written. -/
inductive EncodeError where
  /-- The output buffer ran out. -/
  | bufferTooSmall
  /-- A component outside the range its field can carry. -/
  | valueOutOfRange
  /-- A length that no field can carry. -/
  | invalidLength
  /-- The value has no wire form. -/
  | unsupported
  deriving DecidableEq, Repr

/-- The wording of an encode error. -/
def EncodeError.message : EncodeError → String
  | bufferTooSmall => "output buffer too small"
  | valueOutOfRange => "value out of range"
  | invalidLength => "invalid length"
  | unsupported => "no encoding for value"

/-- One step of an encoder. -/
inductive Piece where
  /-- Octets that are written together. -/
  | run (octets : Octets)
  /-- A component that cannot be written. -/
  | fault (error : EncodeError)
  deriving DecidableEq, Repr

/-- The steps of an encoder in order. -/
abbrev Encoding := List Piece

/-- A buffer of fixed size: what has been written, and what the rest holds so
far. -/
structure Writer where
  /-- The octets written. -/
  written : Octets
  /-- The octets of the buffer behind them. -/
  free : Octets
  deriving DecidableEq, Repr

namespace Writer

/-- A writer at the start of `buffer`. -/
def ofBuffer (buffer : Octets) : Writer := ⟨[], buffer⟩

/-- A writer with room for `capacity` octets. -/
def blank (capacity : Nat) : Writer := ofBuffer (List.replicate capacity 0)

/-- The buffer as a whole. -/
def buffer (writer : Writer) : Octets := writer.written ++ writer.free

/-- Puts a run into the buffer if it fits. -/
def write (writer : Writer) (run : Octets) : Option Writer :=
  if run.length ≤ writer.free.length then
    some ⟨writer.written ++ run, writer.free.drop run.length⟩
  else none

/-- Performs the steps of an encoder up to the first that fails. -/
def emit (writer : Writer) : Encoding → Writer × Except EncodeError Unit
  | [] => (writer, .ok ())
  | .fault error :: _ => (writer, .error error)
  | .run octets :: rest =>
      match writer.write octets with
      | some next => next.emit rest
      | none => (writer, .error .bufferTooSmall)

/-- Takes back what was written after the first `position` octets; those octets
stay in the buffer.  A position that has not been passed changes nothing. -/
def rewind (writer : Writer) (position : Nat) : Writer :=
  if position < writer.written.length then
    ⟨writer.written.take position, writer.written.drop position ++ writer.free⟩
  else writer

end Writer

namespace Encoding

/-- The octets that the runs of an encoding add up to. -/
def octets : Encoding → Octets
  | [] => []
  | .run octets :: rest => octets ++ Encoding.octets rest
  | .fault _ :: rest => Encoding.octets rest

/-- The octets of an encoding, if it can be written into `capacity` octets. -/
def within (encoding : Encoding) (capacity : Nat) : Except EncodeError Octets :=
  match (Writer.blank capacity).emit encoding with
  | (writer, .ok ()) => .ok writer.written
  | (_, .error error) => .error error

end Encoding

end Historian
