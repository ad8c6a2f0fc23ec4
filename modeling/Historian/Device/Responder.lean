import Historian.Device.State
import Historian.Message.Network

/-!
# Answering requests from the network

A frame that holds a confirmed request gets one reply, addressed to where the
request came from.  Frames that hold anything else are passed over.  The length of a
reply is limited by what the requester accepts and by what the network carries.
-/

namespace Historian

namespace Device

/-- The longest reply, network header apart. -/
def replyLimit : Nat := 1476

/-- The room for a network header in front of a reply. -/
def headerRoom : Nat := 16

/-- The reply to a request, of at most `capacity` octets.  Only the services to read
a range and to read a property are offered, and no request in segments is taken. -/
def replyTo (device : Device) (header : RequestHeader) (service : Octets) (capacity : Nat) :
    Except EncodeError Octets :=
  if header.isSegmented then (AbortMessage.tooLong header.invoke).encode.within capacity
  else if header.service = RangeRequest.service then
    Reply.readRange device.archive.repository service header.invoke capacity
  else if header.service = PropertyRequest.service then
    Reply.readProperty (property device.points device.archive) service header.invoke capacity
  else (RejectMessage.of header.invoke .unrecognizedService).encode.within capacity

/-- The request in a frame, with the network header in front of it and the
parameters behind it; none if the frame holds something else. -/
def decodeRequest : Decoder (Option (NetworkHeader × RequestHeader)) := do
  let network ← NetworkHeader.decode
  if network.isNetworkMessage || (← Decoder.atEnd) then return none
  else if MessageKind.ofFirstOctet? (← Decoder.peek Decoder.octet) = some .confirmedRequest then
    return some (network, ← RequestHeader.decode)
  else return none

/-- The reply to a frame, network header and all, if one is owed. -/
def reply? (device : Device) (frame : Octets) : Except DeviceError (Option Octets) :=
  match decodeRequest frame with
  | .error error => .error (.decode error)
  | .ok (none, _) => .ok none
  | .ok (some (network, header), service) =>
      match network.reply.encode.within (headerRoom + replyLimit) with
      | .error error => .error (.encode error)
      | .ok front =>
          match device.replyTo header service (min header.maxReplyLength replyLimit) with
          | .error error => .error (.encode error)
          | .ok message => .ok (some (front ++ message))

/-! ## Serving a link -/

/-- How a link sends a message: nothing if it is sent, else why not. -/
abbrev SendOutcome := Address → Octets → Option LinkError

/-- A message that the device has tried to send. -/
structure Sending where
  destination : Address
  message : Octets
  /-- Why the message was not sent, if it was not. -/
  failure : Option LinkError
  deriving DecidableEq, Repr

/-- Answers a frame from `source`: what the device has tried to send, if a reply is
owed. -/
def handleFrame (device : Device) (send : SendOutcome) (frame : Octets) (source : Address) :
    Except DeviceError (Option Sending) :=
  (device.reply? frame).map fun reply =>
    reply.map fun message => ⟨source, message, send source message⟩

/-- What a link has for a device that receives. -/
inductive Arrival where
  | frame (octets : Octets) (source : Address)
  | failure (error : LinkError)
  deriving DecidableEq, Repr

/-- Receives into a buffer.  Gives the buffer afterwards, and the length of the frame
with its source. -/
def Arrival.into (buffer : Octets) : Arrival → Octets × Except LinkError (Nat × Address)
  | frame octets source =>
      match Transport.deliver octets buffer with
      | .ok filled => (filled, .ok (octets.length, source))
      | .error error => (buffer, .error error)
  | failure error => (buffer, .error error)

/-- Answers what arrives, with one buffer for all frames, until the link fails for
good; `send i` is how the link sends once `i` messages have been tried.  When
nothing more arrives the link fails with `closing`.  Gives what the device has tried
to send, and the error that ended it. -/
def serve (device : Device) (send : Nat → SendOutcome) (closing : LinkError) (tried : Nat)
    (buffer : Octets) : List Arrival → List Sending × DeviceError
  | [] => ([], .link closing)
  | arrival :: rest =>
      match arrival.into buffer with
      | (buffer, .error error) =>
          if error.isPerFrame then device.serve send closing tried buffer rest
          else ([], .link error)
      | (buffer, .ok (length, source)) =>
          match device.handleFrame (send tried) (buffer.take length) source with
          | .ok (some sending) =>
              let (sendings, error) := device.serve send closing (tried + 1) buffer rest
              (sending :: sendings, error)
          | _ => device.serve send closing tried buffer rest

/-- The length of the buffer that frames are received into. -/
def frameLimit : Nat := 1500

/-- Answers all that arrives over a link. -/
def run (device : Device) (send : Nat → SendOutcome) (closing : LinkError)
    (arrivals : List Arrival) : List Sending × DeviceError :=
  device.serve send closing 0 (List.replicate frameLimit 0) arrivals

end Device

end Historian
