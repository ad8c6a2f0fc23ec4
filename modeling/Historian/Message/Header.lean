import Historian.Refusal
import Historian.Value.Field

/-!
# Application messages

A message of the application layer says in the high half of its first octet what
it is: a request that wants an answer, or one of the answers.  The low half holds
flags.  This file has the heads of the messages that a device of this library
reads or sends; the parameters of the service follow them.
-/

namespace Historian

/-! ## Kinds of messages -/

/-- The kinds of application messages. -/
inductive MessageKind where
  | confirmedRequest | unconfirmedRequest | simpleAck | complexAck | segmentAck
  | error | reject | abort
  deriving DecidableEq, Repr

namespace MessageKind

/-- The number of a kind. -/
def number : MessageKind → UInt8
  | confirmedRequest => 0
  | unconfirmedRequest => 1
  | simpleAck => 2
  | complexAck => 3
  | segmentAck => 4
  | error => 5
  | reject => 6
  | abort => 7

/-- The kind with a number; 8 to 15 are reserved. -/
def ofNumber? : UInt8 → Option MessageKind
  | 0 => some confirmedRequest
  | 1 => some unconfirmedRequest
  | 2 => some simpleAck
  | 3 => some complexAck
  | 4 => some segmentAck
  | 5 => some error
  | 6 => some reject
  | 7 => some abort
  | _ => none

/-- The name of a kind. -/
def label : MessageKind → String
  | confirmedRequest => "ConfirmedRequest"
  | unconfirmedRequest => "UnconfirmedRequest"
  | simpleAck => "SimpleAck"
  | complexAck => "ComplexAck"
  | segmentAck => "SegmentAck"
  | error => "Error"
  | reject => "Reject"
  | abort => "Abort"

/-- The kind as it stands in a first octet without flags. -/
def highHalf (kind : MessageKind) : UInt8 := kind.number * 16

/-- The kind that a first octet states. -/
def ofFirstOctet? (first : UInt8) : Option MessageKind := ofNumber? (first / 16)

/-- Reads the first octet of a message of this kind. -/
def decodeFirst (kind : MessageKind) : Decoder UInt8 := do
  let first ← Decoder.octet
  Decoder.require (first / 16 = kind.number) .invalidValue
  return first

end MessageKind

/-! ## Segments -/

/-- The place of a message that is one segment of a larger one. -/
structure Segment where
  sequence : UInt8
  window : UInt8
  more : Bool
  deriving DecidableEq, Repr

namespace Segment

/-- The flags that a segment sets in the first octet. -/
def flags : Option Segment → UInt8
  | none => 0
  | some segment => if segment.more then 12 else 8

/-- The two octets of a segment. -/
def encode : Option Segment → Encoding
  | none => []
  | some segment => [.run [segment.sequence, segment.window]]

/-- Reads a segment if the first octet announces one. -/
def decode (first : UInt8) : Decoder (Option Segment) := do
  if Octets.bit first 3 then
    let sequence ← Decoder.octet
    let window ← Decoder.octet
    return some ⟨sequence, window, Octets.bit first 2⟩
  else
    return none

end Segment

/-! ## Requests and acknowledgements -/

/-- The head of a request that wants an answer. -/
structure RequestHeader where
  segment : Option Segment
  /-- Whether the answer may come in segments. -/
  segmentedReply : Bool
  /-- The code of the number of segments taken, four bits. -/
  maxSegments : UInt8
  /-- The code of the largest answer taken, four bits. -/
  maxReply : UInt8
  invoke : UInt8
  service : UInt8
  deriving DecidableEq, Repr

namespace RequestHeader

/-- The head of an unsegmented request that takes the largest answers. -/
def of (invoke service : UInt8) : RequestHeader := ⟨none, false, 0, 5, invoke, service⟩

/-- Whether the request is one segment of several. -/
def isSegmented (header : RequestHeader) : Bool := header.segment.isSome

/-- The length of the largest answer taken.  The codes above 5 are reserved and
read as the largest. -/
def maxReplyLength (header : RequestHeader) : Nat :=
  [50, 128, 206, 480, 1024, 1476].getD header.maxReply.toNat 1476

/-- The encoding of a head. -/
def encode (header : RequestHeader) : Encoding :=
  [.run [MessageKind.confirmedRequest.highHalf + Segment.flags header.segment +
        (if header.segmentedReply then 2 else 0),
      header.maxSegments * 16 + header.maxReply % 16, header.invoke]] ++
    Segment.encode header.segment ++ [.run [header.service]]

/-- Reads a head. -/
def decode : Decoder RequestHeader := do
  let first ← MessageKind.decodeFirst .confirmedRequest
  let sizes ← Decoder.octet
  let invoke ← Decoder.octet
  let segment ← Segment.decode first
  let service ← Decoder.octet
  return ⟨segment, Octets.bit first 1, sizes / 16, sizes % 16, invoke, service⟩

end RequestHeader

/-- The head of an answer that carries results. -/
structure AckHeader where
  segment : Option Segment
  invoke : UInt8
  service : UInt8
  deriving DecidableEq, Repr

namespace AckHeader

/-- The head of an unsegmented answer. -/
def of (invoke service : UInt8) : AckHeader := ⟨none, invoke, service⟩

/-- The encoding of a head. -/
def encode (header : AckHeader) : Encoding :=
  [.run [MessageKind.complexAck.highHalf + Segment.flags header.segment, header.invoke]] ++
    Segment.encode header.segment ++ [.run [header.service]]

/-- Reads a head. -/
def decode : Decoder AckHeader := do
  let first ← MessageKind.decodeFirst .complexAck
  let invoke ← Decoder.octet
  let segment ← Segment.decode first
  let service ← Decoder.octet
  return ⟨segment, invoke, service⟩

end AckHeader

/-! ## Answers without results -/

/-- The answer to a request that is understood but refused.  Class and code are kept
as numbers, since other devices use numbers that have no name here. -/
structure ErrorMessage where
  invoke : UInt8
  service : UInt8
  classCode : Option UInt32
  errorCode : Option UInt32
  deriving DecidableEq, Repr

namespace ErrorMessage

/-- The message for a refusal. -/
def of (invoke service : UInt8) (refusal : Refusal) : ErrorMessage :=
  ⟨invoke, service, some refusal.errorClass.code, some refusal.errorCode.code⟩

/-- The class of the error, if it has a name. -/
def errorClass? (message : ErrorMessage) : Option ErrorClass :=
  message.classCode.bind ErrorClass.ofCode?

/-- The code of the error, if it has a name. -/
def errorCode? (message : ErrorMessage) : Option ErrorCode :=
  message.errorCode.bind ErrorCode.ofCode?

/-- The encoding of an error.  Class and code are written only together. -/
def encode (message : ErrorMessage) : Encoding :=
  [.run [MessageKind.error.highHalf, message.invoke, message.service]] ++
    match message.classCode, message.errorCode with
    | some classCode, some errorCode => App.enumerated classCode ++ App.enumerated errorCode
    | _, _ => []

/-- Reads a class or code behind `tag`: enumerated, or behind the context tag
`number`. -/
def decodeCode (tag : Tag) (number : UInt8) : Decoder UInt32 :=
  match tag with
  | .context found length =>
      if found = number then Value.decodeUnsigned length.toNat
      else Decoder.fail .invalidTag
  | .application .enumerated length => Value.decodeUnsigned length.toNat
  | _ => Decoder.fail .invalidTag

/-- Reads an error.  Class and code may be missing, may stand behind application or
context tags, and may be enclosed in the tag 0. -/
def decode : Decoder ErrorMessage := do
  let _ ← MessageKind.decodeFirst .error
  let invoke ← Decoder.octet
  let service ← Decoder.octet
  if ← Decoder.atEnd then
    return ⟨invoke, service, none, none⟩
  let first ← Tag.decode
  let isEnclosed := first == Tag.opening 0
  let classTag ← if isEnclosed then Tag.decode else pure first
  let classCode ← decodeCode classTag 0
  let codeTag ← Tag.decode
  let errorCode ← decodeCode codeTag 1
  if isEnclosed then
    Tag.decodeClosing 0
  return ⟨invoke, service, some classCode, some errorCode⟩

end ErrorMessage

/-- The answer to a request that is not understood. -/
structure RejectMessage where
  invoke : UInt8
  reason : UInt8
  deriving DecidableEq, Repr

namespace RejectMessage

/-- The message for a reason. -/
def of (invoke : UInt8) (reason : RejectReason) : RejectMessage := ⟨invoke, reason.code⟩

/-- The encoding of a reject. -/
def encode (message : RejectMessage) : Encoding :=
  [.run [MessageKind.reject.highHalf, message.invoke, message.reason]]

/-- Reads a reject. -/
def decode : Decoder RejectMessage := do
  let _ ← MessageKind.decodeFirst .reject
  let invoke ← Decoder.octet
  let reason ← Decoder.octet
  return ⟨invoke, reason⟩

end RejectMessage

/-- The end of an exchange that one side cannot go on with. -/
structure AbortMessage where
  /-- Whether the answering side aborts. -/
  server : Bool
  invoke : UInt8
  reason : UInt8
  deriving DecidableEq, Repr

namespace AbortMessage

/-- The reason that segments are not supported. -/
def segmentationNotSupported : UInt8 := 4

/-- The abort of a device that cannot answer in one segment. -/
def tooLong (invoke : UInt8) : AbortMessage := ⟨true, invoke, segmentationNotSupported⟩

/-- The encoding of an abort. -/
def encode (message : AbortMessage) : Encoding :=
  [.run [MessageKind.abort.highHalf + (if message.server then 1 else 0), message.invoke,
    message.reason]]

/-- Reads an abort. -/
def decode : Decoder AbortMessage := do
  let first ← MessageKind.decodeFirst .abort
  let invoke ← Decoder.octet
  let reason ← Decoder.octet
  return ⟨Octets.bit first 0, invoke, reason⟩

end AbortMessage

end Historian
