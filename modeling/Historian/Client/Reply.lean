import Historian.Json.Records
import Historian.Message.ReadRange

/-!
# Replies as a client reads them

A client matches a reply to its request by the invoke number, and shows it as a
document: the records of a range, or why there are none.
-/

namespace Historian.Client

/-- The kind of the message that begins with an octet string. -/
def kind? : Octets → Option MessageKind
  | first :: _ => MessageKind.ofFirstOctet? first
  | [] => none

/-- The invoke number of a reply; other messages have none for a client. -/
def invoke? (message : Octets) : Option UInt8 :=
  match kind? message with
  | some .complexAck | some .error | some .reject | some .abort => message[1]?
  | _ => none

/-- The document of the records of a range. -/
def recordsJson (ack : RangeAck) : Json :=
  .obj [("object_type", .str ack.object.type.label),
    ("instance", .int ack.object.number.toNat), ("item_count", .int ack.count.toNat),
    ("first_sequence", Json.ofOption (fun (number : UInt32) => .int number.toNat)
      ack.firstSequence),
    ("first_item", .bool (ack.flags.has 0)), ("last_item", .bool (ack.flags.has 1)),
    ("more_items", .bool (ack.flags.has 2)), ("items", .arr (ack.items.map LogRecord.summary))]

/-- The document of an error, in which unknown numbers are null. -/
def errorJson (message : ErrorMessage) : Json :=
  .obj [("error", .obj [
    ("class", Json.ofOption (fun (errorClass : ErrorClass) => .str errorClass.label)
      message.errorClass?),
    ("code", Json.ofOption (fun (code : ErrorCode) => .str code.label) message.errorCode?)])]

/-- Reads a reply of a kind as a document. -/
def decodeReply : MessageKind → Decoder Json
  | .complexAck => do
      let _ ← AckHeader.decode
      return recordsJson (← RangeAck.decode)
  | .error => return errorJson (← ErrorMessage.decode)
  | .reject => return .obj [("reject", .int (← RejectMessage.decode).reason.toNat)]
  | .abort => do
      let abort ← AbortMessage.decode
      return .obj [("abort", .int abort.reason.toNat), ("server", .bool abort.server)]
  | _ => Decoder.fail .invalidValue

/-- The document of a reply to a range request. -/
def replyJson (message : Octets) : Except DecodeError Json :=
  match message with
  | [] => .error .unexpectedEof
  | first :: _ =>
      match MessageKind.ofFirstOctet? first with
      | none => .error .invalidValue
      | some kind => (decodeReply kind message).map Prod.fst

end Historian.Client
