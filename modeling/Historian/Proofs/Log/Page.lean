import Historian.Log.Page
import Historian.Proofs.Wire.Ack
import Historian.Proofs.Wire.Writer
import Historian.Proofs.Log.Selection
import Historian.Proofs.Log.Sequence

/-!
# A page says what it holds

A page is written field by field, its items before its head.  This file shows that
the octets are nevertheless those of one answer, and which answer that is:
`Page.ofSpan_eq` gives the page of a span outright, with the number of records
that fit (`Page.fitting`) and the answer around them (`Page.ackOf`).

From there `Page.answer_conveys` follows: whoever reads the octets of a page back
finds the request's object and property, the flags and the count that the page is
said to have, and the first records of the selection.

## Strategy

Everything that can be written without a fault is described by its octets, so the
two ways to write an answer need only be compared by octets
(`Page.octets_assemble`).  The room set aside in front is enough because neither a
smaller count nor another flag makes the head longer (`Page.length_headFor_mono`).
-/

namespace Historian

open Encoding

namespace Page

/-! ## Filling -/

/-- The number of records that fit into `room` octets, one after another. -/
def fitting : (room : Nat) → List LogRecord → Nat
  | _, [] => 0
  | room, record :: rest =>
      if record.encode.octets.length ≤ room then
        fitting (room - record.encode.octets.length) rest + 1
      else 0

theorem fitting_le (room : Nat) (records : List LogRecord) :
    fitting room records ≤ records.length := by
  induction records generalizing room with
  | nil => exact Nat.le_refl 0
  | cons record rest ih =>
      rw [fitting]
      split
      · exact Nat.succ_le_succ (ih _)
      · exact Nat.zero_le _

/-- The records that fit take no more than the room. -/
theorem length_items_fitting_le (room : Nat) (records : List LogRecord) :
    (RangeAck.itemOctets (records.take (fitting room records))).length ≤ room := by
  induction records generalizing room with
  | nil => exact Nat.zero_le _
  | cons record rest ih =>
      rw [fitting]
      split
      · rename_i hfit
        have hrest := ih (room - record.encode.octets.length)
        rw [List.take_succ_cons, RangeAck.itemOctets_cons, List.length_append]
        omega
      · exact Nat.zero_le _

/-- The next record would take more. -/
theorem lt_length_items_fitting {room : Nat} {records : List LogRecord}
    (hcut : fitting room records < records.length) :
    room < (RangeAck.itemOctets (records.take (fitting room records + 1))).length := by
  induction records generalizing room with
  | nil => exact absurd hcut (Nat.not_lt_zero _)
  | cons record rest ih =>
      rw [fitting] at hcut ⊢
      split at hcut
      · rename_i hfit
        have hrest := ih (Nat.lt_of_succ_lt_succ hcut)
        rw [if_pos hfit, List.take_succ_cons, RangeAck.itemOctets_cons, List.length_append]
        omega
      · rename_i hover
        rw [if_neg hover, List.take_succ_cons, RangeAck.itemOctets_cons, List.length_append]
        omega

/-- Room for the largest record is room for one. -/
theorem fitting_pos {room : Nat} {records : List LogRecord} (hroom : 22 ≤ room)
    (hsome : records ≠ []) : 0 < fitting room records := by
  cases records with
  | nil => exact absurd rfl hsome
  | cons record rest =>
      rw [fitting, if_pos (Nat.le_trans record.length_encode_le hroom)]
      exact Nat.succ_pos _

/-- **Filling writes the records that fit, and no octet of another.** -/
theorem fill_eq (writer : Writer) (records : List LogRecord) :
    (fill writer records).1.written =
        writer.written ++
          RangeAck.itemOctets (records.take (fitting writer.free.length records)) ∧
      (fill writer records).2 =
        (fitting writer.free.length records,
          decide (fitting writer.free.length records < records.length)) := by
  -- Induction on the records, over all writers: each record that fits leaves less room for the
  -- rest.
  induction records generalizing writer with
  | nil => simp [fill, fitting]
  | cons record rest ih =>
      by_cases hfit : record.encode.octets.length ≤ writer.free.length
      · obtain ⟨hwritten, hcount⟩ := ih ⟨writer.written ++ record.encode.octets,
          writer.free.drop record.encode.octets.length⟩
        rw [List.length_drop] at hwritten hcount
        rw [fill, Writer.emit_of_fits record.plain_encode hfit, fitting, if_pos hfit]
        simp only [hwritten, hcount, List.take_succ_cons, RangeAck.itemOctets_cons,
          List.append_assoc, List.length_cons, Nat.add_lt_add_iff_right, and_self]
      · -- What was written of the record that does not fit is taken back.
        have herror := Writer.emit_eq_error record.plain_encode (Nat.lt_of_not_le hfit)
        have hkept := Writer.written_rewind_emit record.encode writer
        rcases hemit : writer.emit record.encode with ⟨next, result⟩
        rw [hemit] at herror hkept
        rw [fill, hemit, fitting, if_neg hfit]
        cases herror
        simp [hkept]

/-! ## The answer that is written -/

/-- The answer to a request that holds `entries`, records with their indexes. -/
def ackOf (request : RangeRequest) (view : LogView) (flags : ResultFlags)
    (entries : List (Nat × LogRecord)) : RangeAck where
  object := request.object
  property := request.property
  index := request.index
  flags := flags
  count := UInt32.ofNat entries.length
  items := entries.map Prod.snd
  firstSequence := entries.head?.map fun entry => view.sequenceAt entry.1

theorem firstSequence_ackOf_ne (request : RangeRequest) (view : LogView) (flags : ResultFlags)
    (entries : List (Nat × LogRecord)) :
    (ackOf request view flags entries).firstSequence ≠ some 0 := by
  cases entries with
  | nil => exact nofun
  | cons first rest =>
      intro hzero
      exact Sequence.after_ne_zero _ _ (Option.some.inj hzero)

/-- The page that an answer makes. -/
def ofAck (ack : RangeAck) : Page :=
  ⟨ack.count, ack.firstSequence.getD 0, ack.flags, ack.encode.octets.length⟩

/-- Sends an answer over `out`. -/
def sending (ack : RangeAck) (out : Octets) : Except PageFailure Page × Octets :=
  (.ok (ofAck ack), ack.encode.octets ++ out.drop ack.encode.octets.length)

/-- The octets of a page are those of its answer. -/
theorem of_sending {ack : RangeAck} {out after : Octets} {page : Page}
    (hfit : ack.encode.octets.length ≤ out.length)
    (hsent : sending ack out = (.ok page, after)) :
    page = ofAck ack ∧ page.length ≤ out.length ∧
      after.take page.length = ack.encode.octets := by
  rw [sending, Prod.mk.injEq, Except.ok.injEq] at hsent
  obtain ⟨hpage, hafter⟩ := hsent
  have hlength : page.length = ack.encode.octets.length := by rw [← hpage, ofAck]
  rw [← hafter, hlength, List.take_left]
  exact ⟨hpage.symm, hfit, rfl⟩

/-- A sequence number of zero and a missing one are written alike. -/
theorem encodeFirstSequence_getD (sequence : Option UInt32) :
    RangeAck.encodeFirstSequence (some (sequence.getD 0)) =
      RangeAck.encodeFirstSequence sequence := by
  cases sequence <;> rfl

/-- The answer assembled around encoded items is the encoded answer. -/
theorem octets_assemble (request : RangeRequest) (view : LogView) (flags : ResultFlags)
    (entries : List (Nat × LogRecord)) :
    (assemble request flags (UInt32.ofNat entries.length)
      (RangeAck.itemOctets (entries.map Prod.snd))
      ((ackOf request view flags entries).firstSequence.getD 0)).octets =
      (ackOf request view flags entries).encode.octets := by
  rw [RangeAck.octets_encode, assemble, encodeFirstSequence_getD]
  simp only [enclosed, octets_append, octets_run_cons, octets_nil, List.append_nil,
    List.append_assoc]
  rfl

theorem plain_assemble (request : RangeRequest) (flags : ResultFlags) (count : UInt32)
    (items : Octets) (firstSequence : UInt32) :
    (assemble request flags count items firstSequence).Plain := by
  simp [assemble, enclosed, RangeAckHead.plain_encode, Tag.plain_encode,
    RangeAck.plain_encodeFirstSequence]

theorem write_eq (request : RangeRequest) (view : LogView) (flags : ResultFlags)
    (entries : List (Nat × LogRecord)) {out : Octets}
    (hfit : (ackOf request view flags entries).encode.octets.length ≤ out.length) :
    write request flags (UInt32.ofNat entries.length)
      (RangeAck.itemOctets (entries.map Prod.snd))
      ((ackOf request view flags entries).firstSequence.getD 0) out =
      sending (ackOf request view flags entries) out := by
  have hplain := plain_assemble request flags (UInt32.ofNat entries.length)
    (RangeAck.itemOctets (entries.map Prod.snd))
    ((ackOf request view flags entries).firstSequence.getD 0)
  have hroom := hfit
  rw [← octets_assemble] at hroom
  rw [write, Writer.emit_of_fits hplain hroom, octets_assemble]
  simp only [Writer.ofBuffer, Writer.buffer, List.nil_append, sending, ofAck, ackOf]

/-! ## The page of a span -/

/-- The room that is set aside for all but the items. -/
def reserved (request : RangeRequest) (span : Span) : Nat :=
  (headFor request FlagSet.empty (UInt32.ofNat span.count)).encode.octets.length + tailRoom

/-- The records of a span that a page of `size` octets holds. -/
def taken (request : RangeRequest) (view : LogView) (span : Span) (size : Nat) :
    List (Nat × LogRecord) :=
  (recordsIn view span).take
    (fitting (size - reserved request span) ((recordsIn view span).map Prod.snd))

/-- Whether a page that holds `entries` leaves no later record behind. -/
def completes (view : LogView) (span : Span) (entries : List (Nat × LogRecord)) : Bool :=
  !decide (entries.length < (recordsIn view span).length) && view.count.toNat ≤ span.stop

/-- The flags of a page that holds `entries` of a span. -/
def flagsOf (view : LogView) (span : Span) (entries : List (Nat × LogRecord)) : ResultFlags :=
  ResultFlags.of (entries.head?.map Prod.fst = some 0) (completes view span entries)
    (!completes view span entries)

/-- A head is not longer for a smaller count, whatever its flags. -/
theorem length_headFor_mono (request : RangeRequest) (flags others : ResultFlags)
    {smaller larger : UInt32} (hle : smaller.toNat ≤ larger.toNat) :
    (headFor request flags smaller).encode.octets.length ≤
      (headFor request others larger).encode.octets.length := by
  have hcount := Value.length_unsignedContent_mono hle
  have hlow : (3 : UInt8) < 15 ∧ (4 : UInt8) < 15 := by decide
  simp only [headFor, RangeAckHead.encode, octets_append, List.length_append,
    Ctx.length_flags _ hlow.1, Ctx.length_unsigned _ hlow.2]
  omega

/-- A head without an array index is as long as its count makes it. -/
theorem length_headFor {request : RangeRequest} (hproperty : request.property = .logBuffer)
    (hindex : request.index = none) (flags : ResultFlags) (count : UInt32) :
    (headFor request flags count).encode.octets.length =
      10 + (Ctx.unsigned 4 count).octets.length := by
  have hlow : (3 : UInt8) < 15 := by decide
  have hobject : (Ctx.objectId 0 request.object).octets.length = 5 := rfl
  have hlog : (Ctx.unsigned 1 PropertyId.logBuffer.code).octets.length = 2 := rfl
  simp only [headFor, RangeAckHead.encode, hproperty, hindex, Ctx.unsigned?, octets_append,
    octets_nil, List.length_append, List.length_nil, hobject, hlog, Ctx.length_flags _ hlow]

/-- The answer that holds no record takes 14 octets. -/
theorem length_ackOf_nil {request : RangeRequest} (hproperty : request.property = .logBuffer)
    (hindex : request.index = none) (view : LogView) (flags : ResultFlags) :
    (ackOf request view flags []).encode.octets.length = 14 := by
  have hhead : (ackOf request view flags []).head.encode.octets.length = 12 :=
    length_headFor hproperty hindex flags 0
  have hopen : (Tag.opening RangeAck.itemsTag).encode.octets.length = 1 := rfl
  have hclose : (Tag.closing RangeAck.itemsTag).encode.octets.length = 1 := rfl
  rw [RangeAck.octets_encode, List.length_append, List.length_append, List.length_append,
    List.length_append, hhead, hopen, hclose]
  rfl

theorem length_recordsIn_le (view : LogView) (span : Span) :
    (recordsIn view span).length ≤ span.count :=
  Nat.le_trans (List.length_filterMap_le _ _) (Nat.le_of_eq List.length_range)

theorem length_taken_le (request : RangeRequest) (view : LogView) (span : Span) (size : Nat) :
    (taken request view span size).length ≤ span.count :=
  Nat.le_trans (List.length_take_le' _ _) (length_recordsIn_le view span)

theorem length_taken (request : RangeRequest) (view : LogView) (span : Span) (size : Nat) :
    (taken request view span size).length =
      fitting (size - reserved request span) ((recordsIn view span).map Prod.snd) := by
  have hle := fitting_le (size - reserved request span) ((recordsIn view span).map Prod.snd)
  rw [List.length_map] at hle
  rw [taken, List.length_take, Nat.min_eq_left hle]

theorem take_length_taken (request : RangeRequest) (view : LogView) (span : Span) (size : Nat) :
    (recordsIn view span).take (taken request view span size).length =
      taken request view span size := by
  rw [length_taken, taken]

/-- The last field needs no more than its share of the room set aside. -/
theorem length_encodeFirstSequence_le (sequence : Option UInt32) :
    (RangeAck.encodeFirstSequence sequence).octets.length ≤ 5 := by
  unfold RangeAck.encodeFirstSequence
  split
  · exact Nat.zero_le _
  · split
    · exact Nat.zero_le _
    · exact Ctx.length_unsigned_le _ (by decide)

/-- **The room set aside is enough for all but the items.** -/
theorem length_ackOf_le (request : RangeRequest) (view : LogView) (flags : ResultFlags)
    {span : Span} {entries : List (Nat × LogRecord)} (hcount : entries.length ≤ span.count)
    (hsmall : span.count < 4294967296) :
    (ackOf request view flags entries).encode.octets.length ≤
      reserved request span + (RangeAck.itemOctets (entries.map Prod.snd)).length := by
  have hhead : (ackOf request view flags entries).head.encode.octets.length ≤
      (headFor request FlagSet.empty (UInt32.ofNat span.count)).encode.octets.length := by
    refine length_headFor_mono request flags FlagSet.empty ?_
    change (UInt32.ofNat entries.length).toNat ≤ _
    rw [UInt32.toNat_ofNat_of_lt' (Nat.lt_of_le_of_lt hcount hsmall),
      UInt32.toNat_ofNat_of_lt' hsmall]
    exact hcount
  have hlast := length_encodeFirstSequence_le (ackOf request view flags entries).firstSequence
  have hopen : (Tag.opening RangeAck.itemsTag).encode.octets.length = 1 := rfl
  have hclose : (Tag.closing RangeAck.itemsTag).encode.octets.length = 1 := rfl
  rw [RangeAck.octets_encode]
  simp only [List.length_append, hopen, hclose, reserved, tailRoom]
  simp only [ackOf] at hhead hlast ⊢
  omega

theorem fill_taken (request : RangeRequest) (view : LogView) (span : Span) (size : Nat) :
    ∃ items, fill (Writer.blank (size - reserved request span))
        ((recordsIn view span).map Prod.snd) =
          (items, (taken request view span size).length,
            decide ((taken request view span size).length < (recordsIn view span).length)) ∧
      items.written = RangeAck.itemOctets ((taken request view span size).map Prod.snd) := by
  obtain ⟨hwritten, hcount⟩ := fill_eq (Writer.blank (size - reserved request span))
    ((recordsIn view span).map Prod.snd)
  rw [Writer.length_free_blank] at hwritten hcount
  refine ⟨_, Prod.ext rfl ?_, ?_⟩
  · rw [hcount, length_taken, List.length_map]
  · rw [hwritten, taken, List.map_take]
    rfl

/-- What a page of `size` octets holds leaves room for the rest of the answer. -/
theorem length_ackOf_taken_le (request : RangeRequest) (view : LogView) (flags : ResultFlags)
    {span : Span} {size : Nat} (hsmall : span.count < 4294967296)
    (hroom : reserved request span ≤ size) :
    (ackOf request view flags (taken request view span size)).encode.octets.length ≤ size := by
  have hcount := length_taken_le request view span size
  have hlength := length_ackOf_le request view flags hcount hsmall
  have hitems := length_items_fitting_le (size - reserved request span)
    ((recordsIn view span).map Prod.snd)
  rw [← List.map_take, ← taken] at hitems
  omega

/-- **The page of a span**, or the want of room. -/
theorem ofSpan_eq (request : RangeRequest) (view : LogView) {span : Span} (out : Octets)
    (hsmall : span.count < 4294967296) :
    ofSpan request view span out =
      if out.length < reserved request span then (.error (.unwritten .bufferTooSmall), out)
      else if taken request view span out.length = [] ∧ recordsIn view span ≠ [] then
        (.error (.unwritten .bufferTooSmall), out)
      else
        sending (ackOf request view (flagsOf view span (taken request view span out.length))
          (taken request view span out.length)) out := by
  obtain ⟨items, hfill, hitems⟩ := fill_taken request view span out.length
  have hfront := take_length_taken request view span out.length
  by_cases hroom : out.length < reserved request span
  · rw [if_pos hroom]
    exact if_pos hroom
  · have hfit := length_ackOf_taken_le request view
      (flagsOf view span (taken request view span out.length)) hsmall (Nat.le_of_not_lt hroom)
    -- A record is left out and none is written: this is how the code sees that not even
    -- the first record fits.
    have hempty : (decide ((taken request view span out.length).length <
        (recordsIn view span).length) && decide ((taken request view span out.length).length = 0))
          = true ↔ taken request view span out.length = [] ∧ recordsIn view span ≠ [] := by
      rw [Bool.and_eq_true, decide_eq_true_iff, decide_eq_true_iff, List.length_eq_zero_iff,
        and_comm]
      refine and_congr_right fun hnil => ?_
      rw [hnil, List.length_nil, List.length_pos_iff]
    have hroom' := hroom
    unfold reserved at hfill hroom'
    rw [if_neg hroom, ← write_eq request view _ _ hfit, ← hitems]
    simp only [ofSpan, if_neg hroom', hfill, hempty, hfront, Option.map_map]
    rfl

/-- Where there is room for a record, the page is sent. -/
theorem ofSpan_eq_sending (request : RangeRequest) (view : LogView) {span : Span} {out : Octets}
    (hsmall : span.count < 4294967296) (hroom : reserved request span ≤ out.length)
    (hsome : taken request view span out.length ≠ []) :
    ofSpan request view span out =
      sending (ackOf request view (flagsOf view span (taken request view span out.length))
        (taken request view span out.length)) out := by
  rw [ofSpan_eq request view out hsmall, if_neg (Nat.not_lt_of_le hroom),
    if_neg fun hempty => hsome hempty.1]

/-! ## The answer to a request -/

/-- What a request that is not refused asks for. -/
theorem locate_eq_ok_iff (repository : Repository) (request : RangeRequest) (view : LogView)
    (span : Option Span) :
    locate repository request = .ok (view, span) ↔
      request.object.type = .trendLog ∧ repository request.object.number = some view ∧
        request.property = .logBuffer ∧ request.index = none ∧
          view.resolve request.range = .ok span := by
  constructor
  · -- One ground of refusal after the other is ruled out, in the order of the code.
    intro hlocate
    unfold locate at hlocate
    split at hlocate
    · cases hlocate
    rename_i htype
    split at hlocate
    · cases hlocate
    rename_i found hfound
    split at hlocate
    · cases hlocate
    rename_i hproperty
    split at hlocate
    · cases hlocate
    rename_i hindex
    split at hlocate
    · cases hlocate
    rename_i resolved hresolve
    cases hlocate
    exact ⟨Decidable.not_not.mp htype, hfound, Decidable.not_not.mp hproperty,
      by simpa using hindex, hresolve⟩
  · rintro ⟨htype, hview, hproperty, hindex, hresolve⟩
    simp [locate, htype, hview, hproperty, hindex, hresolve]

theorem answer_of_some {repository : Repository} {request : RangeRequest} {view : LogView}
    {span : Span} {out : Octets} (hlocate : locate repository request = .ok (view, some span)) :
    answer repository request out = ofSpan request view span out := by
  rw [answer, hlocate]

theorem answer_of_none {repository : Repository} {request : RangeRequest} {view : LogView}
    {out : Octets} (hlocate : locate repository request = .ok (view, none)) :
    answer repository request out =
      write request (ResultFlags.of true true false) 0 [] 0 out := by
  rw [answer, hlocate]

/-- What is asked for is refused, or else no later step refuses it. -/
theorem answer_ne_refused {repository : Repository} {request : RangeRequest}
    {found : LogView × Option Span} (hlocate : locate repository request = .ok found)
    (out after : Octets) (refusal : Refusal) :
    answer repository request out ≠ (.error (.refused refusal), after) := by
  have hwrite : ∀ flags count items firstSequence,
      write request flags count items firstSequence out ≠ (.error (.refused refusal), after) := by
    intro flags count items firstSequence
    unfold write
    split <;> simp
  obtain ⟨view, span⟩ := found
  cases span with
  | none =>
      rw [answer_of_none hlocate]
      exact hwrite _ _ _ _
  | some span =>
      rw [answer_of_some hlocate]
      unfold ofSpan
      dsimp only
      split
      · simp
      · split
        · simp
        · exact hwrite _ _ _ _

/-- The records of a selection that its log can produce, with their indexes, in
order. -/
def selected (view : LogView) (span : Option Span) : List (Nat × LogRecord) :=
  (span.elim [] Span.indexes).filterMap fun index =>
    (view.record? index).map fun record => (index, record)

theorem recordsIn_eq (view : LogView) (span : Span) :
    recordsIn view span = selected view (some span) := by
  simp only [recordsIn, selected, Option.elim, Span.indexes, List.range'_eq_map_range,
    List.filterMap_map]
  rfl

/-- What an answer says, as far as a page of `view` determines it. -/
structure Conveys (request : RangeRequest) (view : LogView) (span : Option Span) (page : Page)
    (ack : RangeAck) : Prop where
  object : ack.object = request.object
  property : ack.property = request.property
  index : ack.index = none
  flags : ack.flags = page.flags
  count : ack.count = page.count
  length_items : ack.items.length = page.count.toNat
  /-- The first records of the selection, but for flags without a name. -/
  items : ack.items =
    ((selected view span).take page.count.toNat).map fun entry => entry.2.received
  /-- The last field is left out exactly if there is no item. -/
  firstSequence : ack.firstSequence =
    if page.count = 0 then none else some page.firstSequence
  /-- It is the sequence number of the first record. -/
  numbered : ∀ entry ∈ ((selected view span).take page.count.toNat).head?,
    page.firstSequence =
      Sequence.after (Sequence.before view.total (view.count - 1)) (UInt32.ofNat entry.1)

theorem ResultFlags.defined_of (first last more : Bool) :
    (ResultFlags.of first last more).defined = ResultFlags.of first last more := by
  revert first last more
  decide

theorem length_le_of_write {request : RangeRequest} {flags : ResultFlags} {count : UInt32}
    {items : Octets} {firstSequence : UInt32} {out after : Octets} {page : Page}
    (hwrite : write request flags count items firstSequence out = (.ok page, after)) :
    (assemble request flags count items firstSequence).octets.length ≤ out.length := by
  unfold write at hwrite
  split at hwrite
  · rename_i writer hemit
    exact ((Writer.emit_eq_ok_iff _ _ _).mp hemit).2.1
  · cases hwrite

/-- Every page is the sending of an answer that fits and that holds the first records
of the selection. -/
theorem exists_sending_of_answer {repository : Repository} {request : RangeRequest}
    {out after : Octets} {page : Page}
    (hanswer : answer repository request out = (.ok page, after)) :
    ∃ view span flags entries,
      locate repository request = .ok (view, span) ∧
      entries <+: selected view span ∧ entries.length < 4294967296 ∧
      flags.defined = flags ∧
      page = ofAck (ackOf request view flags entries) ∧ page.length ≤ out.length ∧
      after.take page.length = (ackOf request view flags entries).encode.octets := by
  unfold answer at hanswer
  split at hanswer
  · cases hanswer
  · -- Nothing is selected, and the page is sent if the bare answer fits.
    rename_i view hlocate
    have hfit : (ackOf request view (ResultFlags.of true true false) []).encode.octets.length ≤
        out.length := by
      rw [← octets_assemble]
      exact length_le_of_write hanswer
    exact ⟨view, none, _, [], hlocate, List.nil_prefix, by decide,
      ResultFlags.defined_of true true false,
      of_sending hfit ((write_eq request view _ [] hfit).symm.trans hanswer)⟩
  · -- Some records are selected.  Of the three outcomes of `ofSpan_eq` only the last is a page.
    rename_i view span hlocate
    have hsmall := LogView.count_lt_of_resolve
      ((locate_eq_ok_iff _ _ _ _).mp hlocate).2.2.2.2
    have hcount := length_taken_le request view span out.length
    rw [ofSpan_eq request view out hsmall] at hanswer
    split at hanswer
    · cases hanswer
    split at hanswer
    · cases hanswer
    rename_i hroom hempty
    have hfit := length_ackOf_taken_le request view
      (flagsOf view span (taken request view span out.length)) hsmall (Nat.le_of_not_lt hroom)
    refine ⟨view, some span, _, taken request view span out.length, hlocate, ?_, by omega,
      ResultFlags.defined_of _ _ _, of_sending hfit hanswer⟩
    rw [← recordsIn_eq]
    exact List.take_prefix _ _

/-- An answer as it arrives says what its page says. -/
theorem conveys_received {request : RangeRequest} {view : LogView} {span : Option Span}
    {flags : ResultFlags} {entries : List (Nat × LogRecord)}
    (hproperty : request.property = .logBuffer) (hindex : request.index = none)
    (hentries : entries <+: selected view span) (hsmall : entries.length < 4294967296)
    (hflags : flags.defined = flags) :
    Conveys request view span (ofAck (ackOf request view flags entries))
      (ackOf request view flags entries).received := by
  -- The count goes out as a word; the number of entries survives that.
  have hcount : (ofAck (ackOf request view flags entries)).count.toNat = entries.length :=
    UInt32.toNat_ofNat_of_lt' hsmall
  have htake : (selected view span).take (ofAck (ackOf request view flags entries)).count.toNat =
      entries := by
    rw [hcount]
    exact (List.prefix_iff_eq_take.mp hentries).symm
  exact {
    object := rfl
    property := by simp only [RangeAck.received, ackOf, hproperty]; rfl
    index := hindex
    flags := hflags
    count := rfl
    length_items := by
      rw [hcount, ← List.length_map Prod.snd]
      exact List.length_map LogRecord.received
    items := by
      rw [htake]
      exact List.map_map
    firstSequence := by
      cases entries with
      | nil => rfl
      | cons first rest =>
          have hne : (ofAck (ackOf request view flags (first :: rest))).count ≠ 0 := by
            intro hzero
            rw [hzero] at hcount
            simp at hcount
          rw [if_neg hne]
          rfl
    numbered := by
      intro entry hentry
      rw [htake] at hentry
      simp only [ofAck, ackOf, Option.mem_def.mp hentry, Option.map_some, Option.getD_some]
      rfl }

/-- **A page says what it holds.**  Its octets are read back, to the last one, to an
answer with the object and the property of the request, the flags and the count of
the page and the first records of the selection; and they are the octets of that
answer. -/
theorem answer_conveys {repository : Repository} {request : RangeRequest} {out after : Octets}
    {page : Page} (hanswer : answer repository request out = (.ok page, after)) :
    ∃ view span ack,
      repository request.object.number = some view ∧
      view.resolve request.range = .ok span ∧
      page.length ≤ out.length ∧
      RangeAck.decode (after.take page.length) = .ok (ack, []) ∧
      Conveys request view span page ack ∧
      ∀ capacity, page.length ≤ capacity →
        ack.encode.within capacity = .ok (after.take page.length) := by
  obtain ⟨view, span, flags, entries, hlocate, hentries, hsmall, hflags, hpage, hfit, hoctets⟩ :=
    exists_sending_of_answer hanswer
  obtain ⟨-, hview, hproperty, hindex, hresolve⟩ := (locate_eq_ok_iff _ _ _ _).mp hlocate
  have hconveys := conveys_received hproperty hindex hentries hsmall hflags
  rw [← hpage] at hconveys
  have hlength : (ackOf request view flags entries).encode.octets.length ≤ page.length := by
    rw [← hoctets]
    exact List.length_take_le _ _
  rw [hoctets]
  refine ⟨view, span, _, hview, hresolve, hfit,
    RangeAck.decode_encode _ (firstSequence_ackOf_ne _ _ _ _), hconveys,
    fun capacity hcapacity => ?_⟩
  rw [RangeAck.encode_received]
  exact Encoding.within_of_fits (RangeAck.plain_encode _) (Nat.le_trans hlength hcapacity)

/-- Of two records around the end of the cycle, the first fits. -/
theorem answer_conveys_wrapped :
    let record : LogRecord := ⟨⟨⟨125, 3, 14, 5⟩, ⟨10, 3, 0, 0⟩⟩, .unsigned 3, FlagSet.empty⟩
    let repository : Repository := fun _ => some ⟨2, 1, fun index => [record, record][index]?⟩
    ∃ page after ack,
      answer repository ⟨ObjectId.of .trendLog 1, .logBuffer, none, .all, 1⟩
        (List.replicate 47 0) = (.ok page, after) ∧
      page.firstSequence = 4294967295 ∧
      RangeAck.decode (after.take page.length) = .ok (ack, []) ∧ ack.items.length = 1 := by
  intro record repository
  have hfirst : (answer repository ⟨ObjectId.of .trendLog 1, .logBuffer, none, .all, 1⟩
      (List.replicate 47 0)).1 = .ok ⟨1, 4294967295, ⟨5⟩, 38⟩ := by decide +kernel
  rcases hanswer : answer repository ⟨ObjectId.of .trendLog 1, .logBuffer, none, .all, 1⟩
    (List.replicate 47 0) with ⟨result, after⟩
  obtain rfl : result = .ok ⟨1, 4294967295, ⟨5⟩, 38⟩ := by rw [← hfirst, hanswer]
  obtain ⟨view, span, ack, -, -, -, hdecode, hconveys, -⟩ := answer_conveys hanswer
  exact ⟨_, after, ack, rfl, rfl, hdecode, hconveys.length_items⟩

end Page

end Historian
