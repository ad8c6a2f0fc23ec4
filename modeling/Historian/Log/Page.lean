import Historian.Log.Selection
import Historian.Octets.Writer

/-!
# Answers to range requests

The records that a range selects rarely fit into one answer.  A page holds as many
of the first ones as fit, says whether it begins with the first record of the log,
ends with the last or leaves some behind, and gives the sequence number of its
first record, so that the reader can ask for the rest.

Room for the head of the answer is set aside before the records are known, for the
largest count and the longest sequence number that can turn out.
-/

namespace Historian

/-- Why a range request has no page. -/
inductive PageFailure where
  /-- The request is refused, whatever the size of the answer. -/
  | refused (refusal : Refusal)
  /-- The answer does not fit. -/
  | unwritten (error : EncodeError)
  deriving DecidableEq, Repr

/-- The wording of a failure. -/
def PageFailure.message : PageFailure → String
  | refused refusal => refusal.message
  | unwritten error => s!"encode error: {error.message}"

/-- What a page says about itself. -/
structure Page where
  count : UInt32
  /-- The sequence number of the first record, 0 if there is none. -/
  firstSequence : UInt32
  flags : ResultFlags
  /-- The number of octets written. -/
  length : Nat
  deriving DecidableEq, Repr

namespace Page

/-! ## What is asked for -/

/-- The log and the span that a request asks for.  The first fault of the request
refuses it. -/
def locate (repository : Repository) (request : RangeRequest) :
    Except Refusal (LogView × Option Span) :=
  if request.object.type ≠ .trendLog then .error .unknownObject
  else
    match repository request.object.number with
    | none => .error .unknownObject
    | some view =>
        if request.property ≠ .logBuffer then .error .propertyIsNotAList
        else if request.index.isSome then .error .propertyIsNotAnArray
        else
          match view.resolve request.range with
          | .error refusal => .error refusal
          | .ok span => .ok (view, span)

/-- The records of a span that can be produced, with their indexes. -/
def recordsIn (view : LogView) (span : Span) : List (Nat × LogRecord) :=
  (List.range span.count).filterMap fun offset =>
    (view.record? (span.start + offset)).map fun record => (span.start + offset, record)

/-! ## Writing -/

/-- The head of the answer to a request. -/
def headFor (request : RangeRequest) (flags : ResultFlags) (count : UInt32) : RangeAckHead :=
  ⟨request.object, request.property, request.index, flags, count⟩

/-- The room that the enclosure of the items and the sequence number may need. -/
def tailRoom : Nat := 2 + 5

/-- Writes records until one does not fit; that one is taken back.  Gives the number
written and whether one was left out. -/
def fill (writer : Writer) : List LogRecord → Writer × Nat × Bool
  | [] => (writer, 0, false)
  | record :: rest =>
      match writer.emit record.encode with
      | (next, .ok ()) =>
          let (filled, count, cut) := fill next rest
          (filled, count + 1, cut)
      | (next, .error _) => (next.rewind writer.written.length, 0, true)

/-- The whole answer around items already encoded. -/
def assemble (request : RangeRequest) (flags : ResultFlags) (count : UInt32)
    (items : Octets) (firstSequence : UInt32) : Encoding :=
  (headFor request flags count).encode ++ enclosed RangeAck.itemsTag [.run items] ++
    RangeAck.encodeFirstSequence (some firstSequence)

/-- Writes an answer over `out`.  Gives what `out` holds afterwards. -/
def write (request : RangeRequest) (flags : ResultFlags) (count : UInt32) (items : Octets)
    (firstSequence : UInt32) (out : Octets) : Except PageFailure Page × Octets :=
  match (Writer.ofBuffer out).emit (assemble request flags count items firstSequence) with
  | (writer, .ok ()) =>
      (.ok ⟨count, firstSequence, flags, writer.written.length⟩, writer.buffer)
  | (writer, .error error) => (.error (.unwritten error), writer.buffer)

/-- The page for a span, written over `out`. -/
def ofSpan (request : RangeRequest) (view : LogView) (span : Span) (out : Octets) :
    Except PageFailure Page × Octets :=
  let headLength :=
    (headFor request FlagSet.empty (UInt32.ofNat span.count)).encode.octets.length
  if out.length < headLength + tailRoom then (.error (.unwritten .bufferTooSmall), out)
  else
    let records := recordsIn view span
    let (items, count, cut) :=
      fill (Writer.blank (out.length - (headLength + tailRoom))) (records.map Prod.snd)
    if cut && count = 0 then (.error (.unwritten .bufferTooSmall), out)
    else
      let firstIndex := (records.take count).head?.map Prod.fst
      let complete := !cut && view.count.toNat ≤ span.stop
      write request
        (ResultFlags.of (firstIndex = some 0) complete (!complete))
        (UInt32.ofNat count) items.written
        ((firstIndex.map view.sequenceAt).getD 0) out

/-- The answer to a range request, written over `out`.  Gives what `out` holds
afterwards; a refusal leaves it as it was. -/
def answer (repository : Repository) (request : RangeRequest) (out : Octets) :
    Except PageFailure Page × Octets :=
  match locate repository request with
  | .error refusal => (.error (.refused refusal), out)
  | .ok (_, none) => write request (ResultFlags.of true true false) 0 [] 0 out
  | .ok (view, some span) => ofSpan request view span out

end Page

end Historian
