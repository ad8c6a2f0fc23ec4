import Historian.Octets.Decoder
import Historian.Octets.Writer

/-!
# The network header

Every message starts with a header of the network layer.  A control octet says
which of its optional parts follow: where the message goes, where it comes from,
how many routers it may still pass, and, for a message of the network layer
itself, its type.
-/

namespace Historian

/-- A node on a numbered network.  The address keeps six octets, of which the first
`size` count. -/
structure NetworkAddress where
  network : UInt16
  mac : Octets
  size : UInt8
  deriving DecidableEq, Repr

namespace NetworkAddress

/-- The octets kept of an address. -/
def macLimit : Nat := 6

/-- The address of `octets` on `network`, filled up with zeros. -/
def of (network : UInt16) (octets : Octets) : NetworkAddress :=
  ⟨network, octets ++ List.replicate (macLimit - octets.length) 0,
    UInt8.ofNat octets.length⟩

/-- The octets of the address that count. -/
def octets (address : NetworkAddress) : Octets :=
  address.mac.take address.size.toNat

/-- The encoding of an address.  An address cannot count more octets than are
kept. -/
def encode (address : NetworkAddress) : Encoding :=
  if address.size.toNat ≤ macLimit then
    [.run (Octets.ofWord16 address.network), .run [address.size], .run address.octets]
  else [.fault .invalidLength]

/-- Reads an address. -/
def decode : Decoder NetworkAddress := do
  let network ← Decoder.word16
  let size ← Decoder.octet
  Decoder.require (size.toNat ≤ macLimit) .invalidLength
  return of network (← Decoder.take size.toNat)

end NetworkAddress

/-- The header of the network layer.  The control octet is kept as received. -/
structure NetworkHeader where
  control : UInt8
  destination : Option NetworkAddress
  source : Option NetworkAddress
  hopCount : Option UInt8
  messageType : Option UInt8
  vendor : Option UInt16
  deriving DecidableEq, Repr

namespace NetworkHeader

/-- The version of the protocol. -/
def version : UInt8 := 1

/-- The hop count of a message that has passed no router. -/
def fullHopCount : UInt8 := 255

/-- The message types from here on belong to vendors and name theirs. -/
def firstVendorType : UInt8 := 128

/-- A header with no optional part. -/
def plain (control : UInt8) : NetworkHeader := ⟨control, none, none, none, none, none⟩

/-- Whether a destination follows. -/
def hasDestination (control : UInt8) : Bool := Octets.bit control 5

/-- Whether a source follows. -/
def hasSource (control : UInt8) : Bool := Octets.bit control 3

/-- Whether this is a message of the network layer itself. -/
def isNetworkMessage (header : NetworkHeader) : Bool := Octets.bit header.control 7

/-- The header of the answer.  A message that a router relayed names its source, and
the answer goes back there. -/
def reply (header : NetworkHeader) : NetworkHeader :=
  match header.source with
  | none => plain 0
  | some source =>
      { plain 32 with destination := some source, hopCount := some fullHopCount }

/-- The encoding of an address that may be absent. -/
def encodeAddress : Option NetworkAddress → Encoding
  | none => []
  | some address => address.encode

/-- The encoding of a header. -/
def encode (header : NetworkHeader) : Encoding :=
  [.run [version, header.control]] ++
    encodeAddress header.destination ++
    encodeAddress header.source ++
    (if header.destination.isSome then [.run [header.hopCount.getD fullHopCount]] else []) ++
    if header.isNetworkMessage then
      let messageType := header.messageType.getD 0
      .run [messageType] ::
        if firstVendorType ≤ messageType then
          [.run (Octets.ofWord16 (header.vendor.getD 0))]
        else []
    else []

/-- Reads a part that is there only under a condition. -/
def decodeWhen {α : Type} (condition : Bool) (decoder : Decoder α) : Decoder (Option α) := do
  if condition then return some (← decoder) else return none

/-- Reads a header. -/
def decode : Decoder NetworkHeader := do
  let found ← Decoder.octet
  Decoder.require (found = version) .invalidValue
  let control ← Decoder.octet
  let destination ← decodeWhen (hasDestination control) NetworkAddress.decode
  let source ← decodeWhen (hasSource control) NetworkAddress.decode
  let hopCount ← decodeWhen (hasDestination control) Decoder.octet
  let messageType ← decodeWhen (Octets.bit control 7) Decoder.octet
  let vendor ← decodeWhen (messageType.any fun type => firstVendorType ≤ type) Decoder.word16
  return ⟨control, destination, source, hopCount, messageType, vendor⟩

end NetworkHeader

end Historian
