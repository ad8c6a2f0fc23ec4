import Historian.Link.Frame

/-!
# Sending and receiving over an IP network

A message travels in one frame, a frame in one datagram of at most 1600 octets.  A
datagram is written to the network and read from it whole; whether the network
carries it is not for the link to decide.
-/

namespace Historian

/-- Why a link cannot send or receive a message. -/
inductive LinkError where
  /-- The network or its socket does not work. -/
  | socket (cause : String)
  /-- A message of `size` octets does not fit into the datagram or the buffer. -/
  | oversized (size : Nat)
  /-- The datagram is no frame. -/
  | invalidFrame
  /-- The frame carries no message. -/
  | notMessage (function : UInt8)
  deriving DecidableEq, Repr

namespace LinkError

/-- The wording of a link error. -/
def message : LinkError → String
  | socket cause => s!"socket: {cause}"
  | oversized size => s!"{size}-octet NPDU does not fit"
  | invalidFrame => "malformed frame"
  | notMessage function => s!"BVLL function 0x{Decimal.hex function} carries no NPDU"

/-- Whether the error concerns one frame only, so that receiving can go on. -/
def isPerFrame : LinkError → Bool
  | socket _ => false
  | _ => true

end LinkError

/-- What becomes of a datagram that is handed to the network. -/
inductive Network where
  /-- It arrives as it was sent. -/
  | delivering
  /-- It cannot be sent. -/
  | unreachable
  deriving DecidableEq, Repr

/-- Hands a datagram to the network. -/
def Network.carry (network : Network) (datagram : Octets) : Except LinkError Octets :=
  match network with
  | delivering => .ok datagram
  | unreachable => .error (.socket "Network is unreachable (os error 101)")

namespace Transport

/-- The largest datagram that is sent or received. -/
def datagramLimit : Nat := 1600

/-- The datagram that carries a message to an address. -/
def datagramFor (destination : Address) (message : Octets) : Except LinkError Octets :=
  match (Frame.encodeMessage message destination.isBroadcast).within datagramLimit with
  | .ok datagram => .ok datagram
  | .error _ => .error (.oversized message.length)

/-- Sends a message. Gives the datagram that arrives. -/
def send (network : Network) (destination : Address) (message : Octets) :
    Except LinkError Octets :=
  (datagramFor destination message).bind network.carry

/-- The message in a datagram from `peer`, with its sender. -/
def messageIn (peer : Address) (datagram : Octets) : Except LinkError (Octets × Address) :=
  match Frame.ofDatagram (datagram.take datagramLimit) with
  | .ok (.message octets) => .ok (octets, peer)
  | .ok (.relayed origin octets) => .ok (octets, origin)
  | .ok (.other function) => .error (.notMessage function)
  | .error _ => .error .invalidFrame

/-- Puts octets at the front of a buffer, if they fit. -/
def deliver (octets buffer : Octets) : Except LinkError Octets :=
  if octets.length ≤ buffer.length then .ok (octets ++ buffer.drop octets.length)
  else .error (.oversized octets.length)

/-- Receives a datagram into a buffer.  Gives the buffer afterwards, and the length
of the message with its sender; a datagram without a message that fits leaves the
buffer as it was. -/
def receive (peer : Address) (datagram buffer : Octets) :
    Octets × Except LinkError (Nat × Address) :=
  match messageIn peer datagram with
  | .error error => (buffer, .error error)
  | .ok (octets, sender) =>
      match deliver octets buffer with
      | .error error => (buffer, .error error)
      | .ok filled => (filled, .ok (octets.length, sender))

end Transport

end Historian
