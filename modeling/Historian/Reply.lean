import Historian.Log.Page
import Historian.Message.ReadProperty

/-!
# Replies to requests

Every request gets one reply: the results, or an error if it is refused, a reject
if it is not understood, an abort if the results do not fit.  Only a reply buffer
of fewer octets than the shortest of these leaves a request without a reply.
-/

namespace Historian.Reply

/-- The reason to reject a request that cannot be read. -/
def rejectReason : DecodeError → RejectReason
  | .unexpectedEof => .missingRequiredParameter
  | .invalidTag => .invalidTag
  | .invalidLength => .invalidParameterDataType
  | .invalidValue => .invalidParameterDataType
  | .unknownChoice _ => .other

/-- Reads the parameters of a request, which must use up the input. -/
def accept {α : Type} (decoder : Decoder α) (service : Octets) : Except RejectReason α :=
  match decoder service with
  | .ok (request, []) => .ok request
  | .ok _ => .error .tooManyArguments
  | .error error => .error (rejectReason error)

/-- The reply to a request to read a range, of at most `capacity` octets.  Room for
the head of the results is set aside before anything is looked up. -/
def readRange (repository : Repository) (service : Octets) (invoke : UInt8)
    (capacity : Nat) : Except EncodeError Octets :=
  match accept (RangeRequest.decodeService invoke) service with
  | .error reason => (RejectMessage.of invoke reason).encode.within capacity
  | .ok request =>
      match (AckHeader.of invoke RangeRequest.service).encode.within capacity with
      | .error error => .error error
      | .ok head =>
          match Page.answer repository request (List.replicate (capacity - head.length) 0) with
          | (.ok page, body) => .ok (head ++ body.take page.length)
          | (.error (.refused refusal), _) =>
              (ErrorMessage.of invoke RangeRequest.service refusal).encode.within capacity
          | (.error (.unwritten _), _) => (AbortMessage.tooLong invoke).encode.within capacity

/-- The objects of a device as property requests find them. -/
abbrev PropertySource := ObjectId → PropertyId → Except Refusal PropertyValue

/-- The value that a property request asks for.  No property here is an array, which
is found out after the object and the property. -/
def propertyValue (source : PropertySource) (request : PropertyRequest) :
    Except Refusal PropertyValue :=
  match source request.object request.property with
  | .error refusal => .error refusal
  | .ok value => if request.index.isSome then .error .propertyIsNotAnArray else .ok value

/-- The reply to a request to read a property, of at most `capacity` octets. -/
def readProperty (source : PropertySource) (service : Octets) (invoke : UInt8)
    (capacity : Nat) : Except EncodeError Octets :=
  match accept (PropertyRequest.decodeService invoke) service with
  | .error reason => (RejectMessage.of invoke reason).encode.within capacity
  | .ok request =>
      match propertyValue source request with
      | .error refusal =>
          (ErrorMessage.of invoke PropertyRequest.service refusal).encode.within capacity
      | .ok value =>
          let ack : PropertyAck := ⟨request.object, request.property, none, value⟩
          match ((AckHeader.of invoke PropertyRequest.service).encode ++ ack.encode).within
              capacity with
          | .ok octets => .ok octets
          | .error _ => (AbortMessage.tooLong invoke).encode.within capacity

end Historian.Reply
