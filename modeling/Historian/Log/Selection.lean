import Historian.Log.View
import Historian.Message.ReadRange
import Historian.Refusal

/-!
# Which records a range selects

A range is resolved against a log to a span of indexes, to nothing, or to a
refusal.  Positions and sequence numbers are two ways to name an index; a time
names the first match going forward or the last going back.  If stamps do not
increase along the log, the matches of a time need not be neighbours, and the span
is the smallest that holds those wanted.
-/

namespace Historian

/-- A run of `count` indexes from `start`. -/
structure Span where
  start : Nat
  count : Nat
  deriving DecidableEq, Repr

/-- The index after the last of a span. -/
def Span.stop (span : Span) : Nat := span.start + span.count

namespace Selection

/-- The span of `count` items from position `reference` of a list of `size`.  A
count of zero selects nothing. -/
def byPosition (reference size : Nat) (count : Int) : Option Span :=
  let span : Span :=
    if 0 < count then
      let start := reference - 1
      ⟨start, min count.toNat (size - start)⟩
    else
      let start := reference - count.natAbs
      ⟨start, reference - start⟩
  if 0 < span.count then some span else none

/-- Whether the record at an index lies on the wanted side of a reference time. -/
def matchesTime (view : LogView) (reference : Stamp) (forward : Bool) (index : Nat) : Bool :=
  match view.record? index with
  | none => false
  | some record =>
      if forward then decide (reference ≤ record.stamp) else decide (record.stamp ≤ reference)

/-- The indexes of a log of `size` records in the order in which they are looked
at. -/
def scan (size : Nat) (forward : Bool) : List Nat :=
  if forward then List.range size else (List.range size).reverse

/-- The matches nearest to a reference time, as many as `count` asks for. -/
def timeMatches (view : LogView) (reference : Stamp) (count : Int) : List Nat :=
  let forward : Bool := 0 < count
  ((scan view.count.toNat forward).filter (matchesTime view reference forward)).take
    count.natAbs

/-- The span from the lowest to the highest of the matches of a time. -/
def byTime (view : LogView) (reference : Stamp) (count : Int) : Option Span :=
  let found := timeMatches view reference count
  match found.min?, found.max? with
  | some lowest, some highest => some ⟨lowest, highest - lowest + 1⟩
  | _, _ => none

/-- The span that a sequence number and a count select.  A number that no record of
the log has selects nothing. -/
def bySequence (view : LogView) (reference : UInt32) (count : Int) : Option Span :=
  if reference = 0 ∨ count = 0 then none
  else
    let offset := (Sequence.distance view.firstLive reference).toNat
    if view.count.toNat ≤ offset then none
    else byPosition (offset + 1) view.count.toNat count

end Selection

/-- The records that a range selects of a log.  A kind of range that is not served
is refused even of an empty log; a position outside the log only if there are
records. -/
def LogView.resolve (view : LogView) (range : Range) : Except Refusal (Option Span) :=
  match range with
  | .unsupported _ => .error .invalidParameterDataType
  | range =>
      if view.count = 0 then .ok none
      else
        match range with
        | .byPosition reference count =>
            if reference = 0 ∨ view.count < reference then .error .invalidArrayIndex
            else .ok (Selection.byPosition reference.toNat view.count.toNat count.toInt)
        | .bySequence reference count =>
            .ok (Selection.bySequence view reference count.toInt)
        | .byTime reference count => .ok (Selection.byTime view reference count.toInt)
        | .all => .ok (some ⟨0, view.count.toNat⟩)
        | .unsupported _ => .error .invalidParameterDataType

end Historian
