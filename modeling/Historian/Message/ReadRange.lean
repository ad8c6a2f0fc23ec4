import Historian.Message.Header
import Historian.Record

/-!
# Reading a range of a list

The request names an object, a property that is a list, perhaps an array index,
and the range of items wanted.  The answer repeats the first three, says by flags
which part of the list it holds, counts its items, gives them, and ends with the
sequence number of the first.
-/

namespace Historian

/-! ## Ranges -/

/-- The items wanted of a list.  A positive count goes forward from the reference, a
negative count ends there. -/
inductive Range where
  /-- From a position in the list; the first item has position 1. -/
  | byPosition (reference : UInt32) (count : Int32)
  /-- From the item with a sequence number. -/
  | bySequence (reference : UInt32) (count : Int32)
  /-- From the first item at or after, or up to the last item at or before, a
  time. -/
  | byTime (reference : Stamp) (count : Int32)
  /-- The whole list. -/
  | all
  /-- A range of a kind that is not served, by its context tag number. -/
  | unsupported (choice : UInt8)
  deriving DecidableEq, Repr

namespace Range

/-- The context tag number of each kind of range. -/
def positionChoice : UInt8 := 3
def sequenceChoice : UInt8 := 6
def timeChoice : UInt8 := 7

/-- The encoding of a range.  The whole list is what a request without a range
asks for. -/
def encode : Range → Encoding
  | byPosition reference count =>
      enclosed positionChoice (App.unsigned reference ++ App.signed count)
  | bySequence reference count =>
      enclosed sequenceChoice (App.unsigned reference ++ App.signed count)
  | byTime reference count =>
      enclosed timeChoice
        (App.date reference.date ++ App.time reference.time ++ App.signed count)
  | all => []
  | unsupported _ => [.fault .unsupported]

/-- Reads values up to the closing tag `number` that ends the enclosure they stand
in.  `nested` counts the enclosures opened inside it that are still open.  Every
value takes an octet, so `fuel` octets of input need no more steps. -/
def skipEnclosed (number : UInt8) : (fuel nested : Nat) → Decoder Unit
  | 0, _ => Decoder.fail .unexpectedEof
  | fuel + 1, nested => do
      match ← Tag.decode with
      | .closing found =>
          match nested with
          | 0 => Decoder.require (found = number) .invalidTag
          | outer + 1 => skipEnclosed number fuel outer
      | .opening _ => skipEnclosed number fuel (nested + 1)
      | .application .boolean _ => skipEnclosed number fuel nested
      | .application _ length | .context _ length =>
          let _ ← Decoder.take length.toNat
          skipEnclosed number fuel nested

/-- Reads the rest of the enclosure `number`, whatever it holds. -/
def skipRest (number : UInt8) : Decoder Unit := fun input =>
  skipEnclosed number input.length 0 input

/-- Reads the part of a range behind its opening tag. -/
def decodeChoice (choice : UInt8) : Decoder Range := do
  if choice = positionChoice then
    let reference ← App.decodeUnsigned
    let count ← App.decodeSigned
    Tag.decodeClosing choice
    return byPosition reference count
  else if choice = sequenceChoice then
    let reference ← App.decodeUnsigned
    let count ← App.decodeSigned
    Tag.decodeClosing choice
    return bySequence reference count
  else if choice = timeChoice then
    let date ← App.decodeDate
    let time ← App.decodeTime
    let count ← App.decodeSigned
    Tag.decodeClosing choice
    return byTime ⟨date, time⟩ count
  else
    skipRest choice
    return unsupported choice

/-- Reads a range.  At the end of the input the whole list is meant; a range of
another kind is skipped as a whole. -/
def decode : Decoder Range := do
  if ← Decoder.atEnd then
    return all
  match ← Tag.decode with
  | .opening choice => decodeChoice choice
  | _ => Decoder.fail .invalidTag

end Range

/-! ## Requests -/

/-- A request for a range of a list. -/
structure RangeRequest where
  object : ObjectId
  property : PropertyId
  index : Option UInt32
  range : Range
  invoke : UInt8
  deriving DecidableEq, Repr

namespace RangeRequest

/-- The number of the service. -/
def service : UInt8 := 26

/-- The encoding of the service parameters. -/
def encodeService (request : RangeRequest) : Encoding :=
  Ctx.objectId 0 request.object ++ Ctx.unsigned 1 request.property.code ++
    Ctx.unsigned? 2 request.index ++ request.range.encode

/-- The encoding of the whole request. -/
def encode (request : RangeRequest) : Encoding :=
  (RequestHeader.of request.invoke service).encode ++ request.encodeService

/-- Reads the service parameters of a request. -/
def decodeService (invoke : UInt8) : Decoder RangeRequest := do
  let object ← Ctx.decodeObjectId 0
  let property ← Ctx.decodeUnsigned 1
  let index ← Ctx.decodeUnsigned? 2
  let range ← Range.decode
  return ⟨object, PropertyId.ofCode property, index, range, invoke⟩

end RangeRequest

/-! ## Answers -/

/-- The part of an answer in front of its items. -/
structure RangeAckHead where
  object : ObjectId
  property : PropertyId
  index : Option UInt32
  flags : ResultFlags
  count : UInt32
  deriving DecidableEq, Repr

namespace RangeAckHead

/-- The encoding of the head of an answer. -/
def encode (head : RangeAckHead) : Encoding :=
  Ctx.objectId 0 head.object ++ Ctx.unsigned 1 head.property.code ++
    Ctx.unsigned? 2 head.index ++ Ctx.flags 3 head.flags ++ Ctx.unsigned 4 head.count

/-- Reads the head of an answer. -/
def decode : Decoder RangeAckHead := do
  let object ← Ctx.decodeObjectId 0
  let property ← Ctx.decodeUnsigned 1
  let index ← Ctx.decodeUnsigned? 2
  let flags ← Ctx.decodeFlags 3
  let count ← Ctx.decodeUnsigned 4
  return ⟨object, PropertyId.ofCode property, index, flags, count⟩

end RangeAckHead

/-- An answer with the items of a range. -/
structure RangeAck where
  object : ObjectId
  property : PropertyId
  index : Option UInt32
  flags : ResultFlags
  count : UInt32
  items : List LogRecord
  firstSequence : Option UInt32
  deriving DecidableEq, Repr

namespace RangeAck

/-- The enclosure of the items. -/
def itemsTag : UInt8 := 5

/-- The head of an answer. -/
def head (ack : RangeAck) : RangeAckHead :=
  ⟨ack.object, ack.property, ack.index, ack.flags, ack.count⟩

/-- The encoding of the last field.  Zero is the number of no item and is left
out. -/
def encodeFirstSequence : Option UInt32 → Encoding
  | none => []
  | some sequence => if sequence = 0 then [] else Ctx.unsigned 6 sequence

/-- The encoding of the service parameters of an answer. -/
def encode (ack : RangeAck) : Encoding :=
  ack.head.encode ++ enclosed itemsTag (ack.items.flatMap LogRecord.encode) ++
    encodeFirstSequence ack.firstSequence

/-- Reads records up to the closing tag of the items.  Every record takes an octet,
so `fuel` octets of input need no more steps. -/
def decodeItems : (fuel : Nat) → Decoder (List LogRecord)
  | 0 => Decoder.fail .unexpectedEof
  | fuel + 1 => do
      if (← Tag.peek) = .closing itemsTag then
        return []
      else
        let record ← LogRecord.decode
        return record :: (← decodeItems fuel)

/-- Reads all items. -/
def decodeAllItems : Decoder (List LogRecord) := fun input =>
  decodeItems input.length input

/-- Reads the service parameters of an answer. -/
def decode : Decoder RangeAck := do
  let head ← RangeAckHead.decode
  Tag.decodeOpening itemsTag
  let items ← decodeAllItems
  Tag.decodeClosing itemsTag
  let firstSequence ← Ctx.decodeUnsigned? 6
  return ⟨head.object, head.property, head.index, head.flags, head.count, items,
    firstSequence⟩

end RangeAck

end Historian
