import Historian.Message.Header

/-!
# Reading a property

The request names an object, a property and perhaps an array index; the answer
repeats them and encloses the value, which stands behind application tags.
-/

namespace Historian

/-! ## Values -/

/-- The value of a property. -/
inductive PropertyValue where
  | boolean (value : Bool)
  | unsigned (value : UInt32)
  | real (value : Single)
  | enumerated (value : UInt32)
  | text (value : String)
  | bitString (value : BitString)
  /-- Status flags travel as a bit string and are received as one. -/
  | statusFlags (value : StatusFlags)
  | objectId (value : ObjectId)
  deriving DecidableEq, Repr

namespace PropertyValue

/-- The encoding of a value. -/
def encode : PropertyValue → Encoding
  | boolean value => App.boolean value
  | unsigned value => App.unsigned value
  | real value => App.real value
  | enumerated value => App.enumerated value
  | text value => App.text value
  | bitString value => App.bitString value
  | statusFlags value => App.bitString value.toBitString
  | objectId value => App.objectId value

/-- Reads a value. -/
def decode : Decoder PropertyValue := do
  match ← Tag.decode with
  | .application tag length =>
      let length := length.toNat
      match tag with
      | .boolean => return boolean (length ≠ 0)
      | .unsignedInt => return unsigned (← Value.decodeUnsigned length)
      | .real => return real (← Value.decodeReal length)
      | .enumerated => return enumerated (← Value.decodeUnsigned length)
      | .characterString => return text (← Value.decodeText length)
      | .bitString => return bitString (← Value.decodeBitString length)
      | .objectId =>
          Decoder.require (length = 4) .invalidTag
          return objectId ⟨← Decoder.word32⟩
      | _ => Decoder.fail .invalidTag
  | _ => Decoder.fail .invalidTag

end PropertyValue

/-! ## Requests and answers -/

/-- A request for a property. -/
structure PropertyRequest where
  object : ObjectId
  property : PropertyId
  index : Option UInt32
  invoke : UInt8
  deriving DecidableEq, Repr

namespace PropertyRequest

/-- The number of the service. -/
def service : UInt8 := 12

/-- The encoding of the service parameters. -/
def encodeService (request : PropertyRequest) : Encoding :=
  Ctx.objectId 0 request.object ++ Ctx.unsigned 1 request.property.code ++
    Ctx.unsigned? 2 request.index

/-- The encoding of the whole request. -/
def encode (request : PropertyRequest) : Encoding :=
  (RequestHeader.of request.invoke service).encode ++ request.encodeService

/-- Reads the service parameters of a request. -/
def decodeService (invoke : UInt8) : Decoder PropertyRequest := do
  let object ← Ctx.decodeObjectId 0
  let property ← Ctx.decodeUnsigned 1
  let index ← Ctx.decodeUnsigned? 2
  return ⟨object, PropertyId.ofCode property, index, invoke⟩

end PropertyRequest

/-- An answer with the value of a property. -/
structure PropertyAck where
  object : ObjectId
  property : PropertyId
  index : Option UInt32
  value : PropertyValue
  deriving DecidableEq, Repr

namespace PropertyAck

/-- The enclosure of the value. -/
def valueTag : UInt8 := 3

/-- The encoding of the service parameters of an answer. -/
def encode (ack : PropertyAck) : Encoding :=
  Ctx.objectId 0 ack.object ++ Ctx.unsigned 1 ack.property.code ++
    Ctx.unsigned? 2 ack.index ++ enclosed valueTag ack.value.encode

/-- Reads the service parameters of an answer. -/
def decode : Decoder PropertyAck := do
  let object ← Ctx.decodeObjectId 0
  let property ← Ctx.decodeUnsigned 1
  let index ← Ctx.decodeUnsigned? 2
  Tag.decodeOpening valueTag
  let value ← PropertyValue.decode
  Tag.decodeClosing valueTag
  return ⟨object, PropertyId.ofCode property, index, value⟩

end PropertyAck

end Historian
