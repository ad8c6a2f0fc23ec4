import Historian.Link.Address
import Historian.Octets.Decoder
import Historian.Octets.Writer

/-!
# Frames on an IP network

A datagram starts with a frame header: the octet `0x81`, a function and the length
of the frame, these four octets included.  What follows depends on the function.
Octets behind the frame are ignored.
-/

namespace Historian

/-- A frame as received. -/
inductive Frame where
  /-- A message from the peer that sent the datagram. -/
  | message (octets : Octets)
  /-- A message relayed for another peer. -/
  | relayed (origin : Address) (octets : Octets)
  /-- A frame that carries no message. -/
  | other (function : UInt8)
  deriving DecidableEq, Repr

namespace Frame

/-- The first octet of every frame. -/
def mark : UInt8 := 0x81

/-- The length of a frame header. -/
def headLength : Nat := 4

/-! ## Functions -/

/-- The function of a relayed message. -/
def relayedFunction : UInt8 := 0x04

/-- The function of a message to be spread over the network. -/
def spreadFunction : UInt8 := 0x09

/-- The functions of a message to one peer and to all. -/
def unicastFunction : UInt8 := 0x0A
def broadcastFunction : UInt8 := 0x0B

/-! ## Reading -/

/-- Reads the address in front of a relayed message. -/
def decodeOrigin : Decoder Address := do
  match ← Decoder.take 4 with
  | [a, b, c, d] => return ⟨.v4 a b c d, ← Decoder.word16⟩
  | _ => Decoder.fail .unexpectedEof

/-- The frame with a function and a body. -/
def ofBody (function : UInt8) (body : Octets) : Except DecodeError Frame :=
  if function = unicastFunction ∨ function = broadcastFunction ∨ function = spreadFunction then
    .ok (message body)
  else if function = relayedFunction then
    (decodeOrigin body).map fun (origin, octets) => relayed origin octets
  else .ok (other function)

/-- Reads a frame header and body: the function and the octets that follow. -/
def decodeBody : Decoder (UInt8 × Octets) := do
  Decoder.require ((← Decoder.octet) = mark) .invalidValue
  let function ← Decoder.octet
  let length ← Decoder.word16
  Decoder.require (headLength ≤ length.toNat) .invalidLength
  return (function, ← Decoder.take (length.toNat - headLength))

/-- The frame at the front of a datagram. -/
def ofDatagram (datagram : Octets) : Except DecodeError Frame :=
  match decodeBody datagram with
  | .ok ((function, body), _) => ofBody function body
  | .error error => .error error

/-! ## Writing -/

/-- A frame around a message to one peer or to all. -/
def encodeMessage (octets : Octets) (broadcast : Bool) : Encoding :=
  let length := headLength + octets.length
  if 65535 < length then [.fault .invalidLength]
  else
    [.run [mark, if broadcast then broadcastFunction else unicastFunction],
      .run (Octets.ofWord16 (UInt16.ofNat length)), .run octets]

end Frame

end Historian
