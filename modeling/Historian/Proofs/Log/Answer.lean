import Historian.Proofs.Log.Page

/-!
# What a reader gets from a buffer

Every record of a buffer can be produced, so the page of a span of a buffer is known
outright but for the number of records that fit.  `Page.answer_span` says what a
reader decodes (`Ring.sent`): records from the start of the span, at least one and
all that fit, marked as followed by more exactly if the buffer goes on behind them.
`Page.answer_nothing` is the answer to a request that selects nothing.
-/

namespace Historian

open Encoding

namespace Ring

/-- The answer that a reader decodes when it is sent `size` records of a buffer from
an index on. -/
def sent (ring : Ring) (object : ObjectId) (start size : Nat) : RangeAck where
  object := object
  property := .logBuffer
  index := none
  flags := ResultFlags.of (start = 0) (ring.records.length ≤ start + size)
    (!decide (ring.records.length ≤ start + size))
  count := UInt32.ofNat size
  items := ((ring.records.drop start).take size).map LogRecord.received
  firstSequence := some (ring.view.sequenceAt start)

end Ring

/-- The answer that a reader decodes when nothing was selected. -/
def RangeAck.nothing (object : ObjectId) : RangeAck :=
  ⟨object, .logBuffer, none, ResultFlags.of true true false, 0, [], none⟩

namespace Page

/-! ## The records of a span -/

theorem filterMap_getElem?_range {α : Type} (list : List α) (size : Nat) :
    ((List.range size).filterMap fun index => list[index]?) = list.take size := by
  induction size with
  | zero => rfl
  | succ size ih =>
      rw [List.range_succ, List.filterMap_append, ih, List.take_add_one]
      cases hlast : list[size]? <;> simp [hlast]

theorem records_recordsIn (ring : Ring) (span : Span) :
    (recordsIn ring.view span).map Prod.snd = (ring.records.drop span.start).take span.count := by
  rw [← filterMap_getElem?_range, recordsIn, List.map_filterMap]
  congr 1
  funext offset
  rw [List.getElem?_drop, Option.map_map]
  exact Option.map_id_apply

theorem length_recordsIn (ring : Ring) {span : Span} (hstop : span.stop ≤ ring.records.length) :
    (recordsIn ring.view span).length = span.count := by
  rw [← List.length_map Prod.snd, records_recordsIn, List.length_take, List.length_drop]
  unfold Span.stop at hstop
  omega

theorem head_recordsIn (ring : Ring) {span : Span} (hpos : 0 < span.count)
    (hstop : span.stop ≤ ring.records.length) :
    (recordsIn ring.view span).head?.map Prod.fst = some span.start := by
  obtain ⟨size, hsize⟩ : ∃ size, span.count = size + 1 := ⟨span.count - 1, by omega⟩
  have hstart : span.start < ring.records.length := by
    unfold Span.stop at hstop
    omega
  rw [recordsIn, hsize, List.range_succ_eq_map, List.filterMap_cons]
  simp [Ring.view, hstart]

/-! ## Room -/

/-- Less is set aside than the shortest buffers hold. -/
theorem reserved_le {request : RangeRequest} (hproperty : request.property = .logBuffer)
    (hindex : request.index = none) (span : Span) : reserved request span ≤ 22 := by
  have hcount := Ctx.length_unsigned_le (UInt32.ofNat span.count) (by decide : (4 : UInt8) < 15)
  rw [reserved, length_headFor hproperty hindex, tailRoom]
  omega

/-- Room for the largest records is room for all of them. -/
theorem fitting_eq_length {room : Nat} {records : List LogRecord}
    (hroom : 22 * records.length ≤ room) : fitting room records = records.length := by
  induction records generalizing room with
  | nil => rfl
  | cons record rest ih =>
      have hrecord := record.length_encode_le
      rw [List.length_cons] at hroom ⊢
      rw [fitting, if_pos (by omega), ih (by omega)]

/-! ## Answers -/

theorem records_taken (request : RangeRequest) (ring : Ring) (span : Span) (size : Nat) :
    (taken request ring.view span size).map Prod.snd =
      (ring.records.drop span.start).take (taken request ring.view span size).length := by
  have hle := length_taken_le request ring.view span size
  rw [length_taken, records_recordsIn] at hle ⊢
  rw [taken, List.map_take, records_recordsIn, List.take_take, Nat.min_eq_left hle]

theorem head_taken (request : RangeRequest) (ring : Ring) {span : Span} {size : Nat}
    (hstop : span.stop ≤ ring.records.length)
    (hsome : 0 < (taken request ring.view span size).length) :
    (taken request ring.view span size).head?.map Prod.fst = some span.start := by
  have hpos : 0 < span.count :=
    Nat.lt_of_lt_of_le hsome (length_taken_le request ring.view span size)
  rw [length_taken] at hsome
  rw [taken, List.head?_take, if_neg (by omega), head_recordsIn ring hpos hstop]

/-- The flags of a page of a span of a buffer: behind the page there are records
exactly if the buffer goes on. -/
theorem flagsOf_eq (ring : Ring) {span : Span} {entries : List (Nat × LogRecord)}
    (hcount : ring.view.count.toNat = ring.records.length)
    (hstop : span.stop ≤ ring.records.length) (hle : entries.length ≤ span.count)
    (hhead : entries.head?.map Prod.fst = some span.start) :
    flagsOf ring.view span entries =
      ResultFlags.of (span.start = 0) (ring.records.length ≤ span.start + entries.length)
        (!decide (ring.records.length ≤ span.start + entries.length)) := by
  have hcompletes : completes ring.view span entries =
      decide (ring.records.length ≤ span.start + entries.length) := by
    -- A page that leaves out a record of its span ends before the span does.
    rw [completes, length_recordsIn ring hstop, hcount, Bool.eq_iff_iff]
    simp only [Bool.and_eq_true, Bool.not_eq_true', decide_eq_false_iff_not, decide_eq_true_eq]
    unfold Span.stop at *
    omega
  simp only [flagsOf, hcompletes, hhead, Option.some.injEq]

/-- What a page of a span of a buffer is read back to. -/
theorem received_ackOf {request : RangeRequest} {ring : Ring} {span : Span} {size : Nat}
    (hproperty : request.property = .logBuffer) (hindex : request.index = none)
    (hsmall : ring.records.length < 4294967296) (hstop : span.stop ≤ ring.records.length)
    (hsome : 0 < (taken request ring.view span size).length) :
    (ackOf request ring.view (flagsOf ring.view span (taken request ring.view span size))
      (taken request ring.view span size)).received =
      ring.sent request.object span.start (taken request ring.view span size).length := by
  have hcount : ring.view.count.toNat = ring.records.length := UInt32.toNat_ofNat_of_lt' hsmall
  have hle := length_taken_le request ring.view span size
  have hrecords := records_taken request ring span size
  have hhead := head_taken request ring hstop hsome
  have hsequence : ((taken request ring.view span size).head?.map fun entry =>
      ring.view.sequenceAt entry.1) = some (ring.view.sequenceAt span.start) := by
    have hmapped := congrArg (Option.map ring.view.sequenceAt) hhead
    rwa [Option.map_map] at hmapped
  simp only [RangeAck.received, ackOf, Ring.sent, hproperty, hindex, hrecords, hsequence,
    flagsOf_eq ring hcount hstop hle hhead, ResultFlags.defined_of]
  rfl

/-- The reader of an answer that is sent decodes it. -/
theorem decode_of_sending {repository : Repository} {request : RangeRequest} {ack : RangeAck}
    {out : Octets} (hfit : ack.encode.octets.length ≤ out.length)
    (hsequence : ack.firstSequence ≠ some 0)
    (hanswer : answer repository request out = sending ack out) :
    ∃ page after, answer repository request out = (.ok page, after) ∧
      RangeAck.decode (after.take page.length) = .ok (ack.received, []) := by
  obtain ⟨page, after, hsent⟩ : ∃ page after, sending ack out = (.ok page, after) :=
    ⟨_, _, rfl⟩
  refine ⟨page, after, hanswer.trans hsent, ?_⟩
  rw [(of_sending hfit hsent).2.2]
  exact RangeAck.decode_encode ack hsequence

/-- The answer to a span of a buffer holds the records that fit, and there is room for one at
least. -/
theorem answer_fitting {repository : Repository} {request : RangeRequest} {ring : Ring}
    {span : Span} {out : Octets}
    (hlocate : locate repository request = .ok (ring.view, some span))
    (hsmall : ring.records.length < 4294967296) (hstop : span.stop ≤ ring.records.length)
    (hpos : 0 < span.count) (hroom : 44 ≤ out.length) :
    ∃ size page after, 0 < size ∧
      size = fitting (out.length - reserved request span)
        ((ring.records.drop span.start).take span.count) ∧
      answer repository request out = (.ok page, after) ∧
      RangeAck.decode (after.take page.length) =
        .ok (ring.sent request.object span.start size, []) := by
  obtain ⟨-, -, hproperty, hindex, -⟩ := (locate_eq_ok_iff _ _ _ _).mp hlocate
  have hspan : span.count < 4294967296 := by
    unfold Span.stop at hstop
    omega
  have hreserved := reserved_le hproperty hindex span
  have hsome : (recordsIn ring.view span).map Prod.snd ≠ [] := by
    rw [← List.length_pos_iff, List.length_map, length_recordsIn ring hstop]
    exact hpos
  -- Behind what is set aside there are 22 octets at least, enough for one record.
  have hsize : 0 < (taken request ring.view span out.length).length := by
    rw [length_taken]
    exact fitting_pos (by omega) hsome
  have hfits : reserved request span ≤ out.length := by omega
  have hreceived := received_ackOf hproperty hindex hsmall hstop hsize
  have hanswer := (answer_of_some hlocate).trans
    (ofSpan_eq_sending request ring.view hspan hfits (List.length_pos_iff.mp hsize))
  obtain ⟨page, after, hpage, hdecode⟩ := decode_of_sending
    (length_ackOf_taken_le request ring.view _ hspan hfits) (firstSequence_ackOf_ne _ _ _ _) hanswer
  rw [hreceived] at hdecode
  exact ⟨_, page, after, hsize, by rw [length_taken, records_recordsIn], hpage, hdecode⟩

/-- **A span of a buffer is answered from its start on**, with at least one record,
and with all if there is room for all. -/
theorem answer_span {repository : Repository} {request : RangeRequest} {ring : Ring}
    {span : Span} {out : Octets}
    (hlocate : locate repository request = .ok (ring.view, some span))
    (hsmall : ring.records.length < 4294967296) (hstop : span.stop ≤ ring.records.length)
    (hpos : 0 < span.count) (hroom : 44 ≤ out.length) :
    ∃ size page after, 0 < size ∧ size ≤ span.count ∧
      (22 + 22 * span.count ≤ out.length → size = span.count) ∧
      answer repository request out = (.ok page, after) ∧
      RangeAck.decode (after.take page.length) =
        .ok (ring.sent request.object span.start size, []) := by
  obtain ⟨-, -, hproperty, hindex, -⟩ := (locate_eq_ok_iff _ _ _ _).mp hlocate
  obtain ⟨size, page, after, hsize, hfitting, hpage, hdecode⟩ :=
    answer_fitting hlocate hsmall hstop hpos hroom
  have hselected : ((ring.records.drop span.start).take span.count).length = span.count := by
    rw [← records_recordsIn, List.length_map, length_recordsIn ring hstop]
  have hle : size ≤ span.count := by
    rw [hfitting]
    exact le_of_le_of_eq (fitting_le _ _) hselected
  have hall : 22 + 22 * span.count ≤ out.length → size = span.count := by
    intro hwide
    have hreserved := reserved_le hproperty hindex span
    rw [hfitting, fitting_eq_length, hselected]
    rw [hselected]
    omega
  exact ⟨size, page, after, hsize, hle, hall, hpage, hdecode⟩

/-- **Nothing is answered where nothing is selected.** -/
theorem answer_nothing {repository : Repository} {request : RangeRequest} {view : LogView}
    {out : Octets} (hlocate : locate repository request = .ok (view, none))
    (hroom : 22 ≤ out.length) :
    ∃ page after, answer repository request out = (.ok page, after) ∧
      RangeAck.decode (after.take page.length) = .ok (RangeAck.nothing request.object, []) := by
  obtain ⟨-, -, hproperty, hindex, -⟩ := (locate_eq_ok_iff _ _ _ _).mp hlocate
  have hfit : (ackOf request view (ResultFlags.of true true false) []).encode.octets.length ≤
      out.length := by
    rw [length_ackOf_nil hproperty hindex]
    omega
  have hreceived : (ackOf request view (ResultFlags.of true true false) []).received =
      RangeAck.nothing request.object := by
    simp only [RangeAck.received, ackOf, RangeAck.nothing, hproperty, hindex,
      ResultFlags.defined_of]
    rfl
  rw [← hreceived]
  exact decode_of_sending hfit (firstSequence_ackOf_ne _ _ _ _)
    ((answer_of_none hlocate).trans (write_eq request view _ [] hfit))

end Page

end Historian
