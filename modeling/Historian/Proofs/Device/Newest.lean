import Historian.Device.Command
import Historian.Proofs.Log.Answer
import Historian.Proofs.Log.Archive

/-!
# The newest records of a log

A command names a log by its instance number and asks for its newest records.  The device
looks the log up to learn how many records it has, and then serves itself a range request,
counted back from the last of them, through a buffer of fixed length.

## Strategy

All that is asked for fits the buffer: at most a hundred records, of at most 22 octets
each (`Page.answer_span`).  What decides is which log the request reaches.  An object
identifier has twenty-two bits for the instance (`ObjectId.number_of`), so a request
carries the remainder of a longer number (`Newest.carried`).  `Newest.reply_eq` gives the
reply by the log that is reached; `Newest.reply_of_reachable` tells apart the numbers that
reach their own log from those that do not.
-/

namespace Historian

/-! ## Object identifiers -/

namespace ObjectId

/-- The parts of an identifier fit their fields. -/
private theorem toNat_raw_of (type : ObjectType) (number : UInt32) :
    (of type number).raw.toNat =
      type.code.toNat % 1024 * instanceSpan + number.toNat % instanceSpan := by
  simp only [of, instanceSpan, UInt32.toNat_ofNat']
  omega

theorem type_of (type : ObjectType) (number : UInt32) :
    (of type number).type = ObjectType.ofCode (UInt16.ofNat (type.code.toNat % 1024)) := by
  have hfield : (of type number).raw.toNat / instanceSpan = type.code.toNat % 1024 := by
    rw [toNat_raw_of]
    simp only [instanceSpan]
    omega
  rw [ObjectId.type, hfield]

/-- Of an instance number, the lowest twenty-two bits remain. -/
theorem number_of (type : ObjectType) (number : UInt32) :
    (of type number).number = UInt32.ofNat (number.toNat % instanceSpan) := by
  have hfield : (of type number).raw.toNat % instanceSpan = number.toNat % instanceSpan := by
    rw [toNat_raw_of]
    simp only [instanceSpan]
    omega
  rw [ObjectId.number, hfield]

end ObjectId

namespace Newest

/-! ## What is asked for -/

/-- How many records a command is given if the log has as many: what it says, up to a
hundred, and ten if it does not say a positive number. -/
def wanted : Option Int64 → Nat
  | none => 10
  | some count => if 0 < count.toInt then min count.toInt.toNat 100 else 10

theorem toNat_effectiveCount (count : Option Int64) :
    (effectiveCount count).toNat = wanted count := by
  cases count with
  | none => rfl
  | some count =>
      have hmost : mostRecords.toNat = 100 := rfl
      have hzero : (0 : Int64).toInt = 0 := Int64.toInt_zero
      simp only [effectiveCount, wanted, Int64.lt_iff_toInt_lt, hzero, hmost]
      split
      · exact UInt32.toNat_ofNat_of_lt' (Nat.lt_of_le_of_lt (Nat.min_le_right _ _) (by decide))
      · rfl

theorem wanted_bounds (count : Option Int64) : 0 < wanted count ∧ wanted count ≤ 100 := by
  unfold wanted
  split
  · decide
  · split <;> omega

/-- The instance number that a request for a log carries. -/
def carried (number : UInt32) : UInt32 := UInt32.ofNat (number.toNat % ObjectId.instanceSpan)

theorem carried_of_lt {number : UInt32} (hshort : number.toNat < ObjectId.instanceSpan) :
    carried number = number := by
  rw [carried, Nat.mod_eq_of_lt hshort, UInt32.ofNat_toNat]

theorem toInt_back {count : UInt32} (hmost : count.toNat ≤ 100) :
    (Int32.ofInt (-count.toNat)).toInt = -count.toNat :=
  Int32.toInt_ofInt_of_le (by omega) (by omega)

/-! ## What is given -/

/-- The document with the records of an answer. -/
def ofAck (number count : UInt32) (ack : RangeAck) : Json :=
  .obj [("instance", .int number.toNat), ("count", .int count.toNat),
    ("retrieved_count", .int ack.count.toNat),
    ("first_sequence", Json.ofOption (fun (number : UInt32) => .int number.toNat)
      ack.firstSequence),
    ("data", .arr (ack.items.map LogRecord.summary))]

/-- The document with the last records of a buffer that lie before index `stop`, at most
`wanted` of them, oldest first.  The records are as they arrive: a flag without a name is
not sent. -/
def document (number : UInt32) (wanted : Nat) (ring : Ring) (stop : Nat) : Json :=
  .obj [("instance", .int number.toNat), ("count", .int wanted),
    ("retrieved_count", .int (min wanted stop : Nat)),
    ("first_sequence",
      if stop = 0 then .null
      else .int (Sequence.after ring.firstSequence (UInt32.ofNat (stop - wanted))).toNat),
    ("data", .arr (((ring.records.take stop).drop (stop - wanted)).map fun record =>
      record.received.summary))]

/-- The reply to a command by the buffer that its request reaches, if there is one; `stop`
is the number of records of the log that the command names. -/
def reached (number : UInt32) (wanted stop : Nat) : Option Ring → Except DeviceError Json
  | none => .error (.range (.refused .unknownObject))
  | some ring =>
      if ring.records = [] then .ok (document number wanted ring 0)
      else if stop = 0 ∨ ring.records.length < stop then
        .error (.range (.refused .invalidArrayIndex))
      else .ok (document number wanted ring stop)

/-! ## From the command to the reply -/

section

variable {archive : Archive} {number count : UInt32} {log other : TrendLog}

theorem reply_of_answered (hlog : archive.get? number = some log) {page : Page} {after : Octets}
    {ack : RangeAck}
    (hanswer : Page.answer archive.repository (request number log.view count)
      (List.replicate bufferLength 0) = (.ok page, after))
    (hdecode : RangeAck.decode (after.take page.length) = .ok (ack, [])) :
    reply archive number count = .ok (ofAck number count ack) := by
  have hread : read archive number count = .ok ack := by
    simp only [read, hlog, hanswer, hdecode]
  rw [reply, hread]
  rfl

theorem reply_of_refused (hlog : archive.get? number = some log) {refusal : Refusal}
    (hlocate : Page.locate archive.repository (request number log.view count) =
      .error refusal) :
    reply archive number count = .error (.range (.refused refusal)) := by
  have hread : read archive number count = .error (.range (.refused refusal)) := by
    simp only [read, hlog, Page.answer, hlocate]
  rw [reply, hread]
  rfl

/-- A request looks for a log at the number that it carries. -/
theorem repository_request (archive : Archive) (number count : UInt32) (view : LogView) :
    archive.repository (request number view count).object.number =
      (archive.get? (carried number)).map TrendLog.view := by
  rw [request, ObjectId.number_of]
  rfl

/-- What a request asks for depends on the log that it reaches, and on the count of the
log that it was made for. -/
theorem locate_request (archive : Archive) (number count : UInt32) (view : LogView) :
    Page.locate archive.repository (request number view count) =
      match archive.get? (carried number) with
      | none => .error .unknownObject
      | some log =>
          (log.view.resolve (request number view count).range).map (Prod.mk log.view) := by
  have htype : (request number view count).object.type = .trendLog := ObjectId.type_of _ _
  unfold Page.locate
  rw [if_neg (not_not.mpr htype), repository_request]
  cases archive.get? (carried number) with
  | none => rfl
  | some log =>
      simp only [Option.map_some]
      cases log.view.resolve (request number view count).range with
      | error refusal => rfl
      | ok span => rfl

/-! ## The log that is reached -/

/-- Nothing is given of an empty log. -/
theorem reply_empty (hlog : archive.get? number = some log)
    (hother : archive.get? (carried number) = some other) (hnil : other.ring.records = []) :
    reply archive number count = .ok (document number count.toNat other.ring 0) := by
  have hnone : other.view.count = 0 := by
    rw [TrendLog.view, Ring.view, hnil]
    rfl
  have hserved : ∀ choice, (request number log.view count).range ≠ .unsupported choice := by
    intro choice heq
    cases heq
  have hlocate : Page.locate archive.repository (request number log.view count) =
      .ok (other.view, none) := by
    simp only [locate_request, hother, LogView.resolve_of_empty hnone hserved]
    rfl
  have hroom : 22 ≤ (List.replicate bufferLength (0 : UInt8)).length := by
    rw [List.length_replicate]
    decide
  obtain ⟨page, after, hanswer, hdecode⟩ := Page.answer_nothing hlocate hroom
  rw [reply_of_answered hlog hanswer hdecode]
  simp [RangeAck.nothing, ofAck, document, Json.ofOption]

/-- The count of another log may be no position of the log that is reached. -/
theorem reply_outside (harchive : archive.InUse) (hlog : archive.get? number = some log)
    (hother : archive.get? (carried number) = some other) (hsome : other.ring.records ≠ [])
    (houtside : log.ring.records.length = 0 ∨
      other.ring.records.length < log.ring.records.length) :
    reply archive number count = .error (.range (.refused .invalidArrayIndex)) := by
  have hposition := (harchive.of_get? hlog).toNat_count
  have hsize := (harchive.of_get? hother).toNat_count
  have hnonempty : other.view.count ≠ 0 := by
    intro hzero
    rw [hzero] at hsize
    exact hsome (List.eq_nil_of_length_eq_zero hsize.symm)
  have hrefused : log.view.count = 0 ∨ other.view.count < log.view.count := by
    rwa [UInt32.lt_iff_toNat_lt, ← UInt32.toNat_inj, hposition, hsize]
  refine reply_of_refused hlog ?_
  simp only [locate_request, hother]
  simp only [request, LogView.resolve_byPosition_outside hnonempty hrefused]
  rfl

/-- The document of the records that are sent from `count` places before `stop` on. -/
theorem ofAck_sent (number : UInt32) (object : ObjectId) {ring : Ring} {count : UInt32}
    {stop : Nat} (hmost : count.toNat ≤ 100) (hpos : 0 < stop)
    (hstop : stop ≤ ring.records.length) (hsmall : ring.records.length < Sequence.cycle) :
    ofAck number count (ring.sent object (stop - count.toNat) (min count.toNat stop)) =
      document number count.toNat ring stop := by
  have hsome : ring.records ≠ [] := List.length_pos_iff.mp (Nat.lt_of_lt_of_le hpos hstop)
  have hcount : (UInt32.ofNat (min count.toNat stop)).toNat = min count.toNat stop :=
    Sequence.toNat_ofNat (by omega)
  have hfirst : ring.view.sequenceAt (stop - count.toNat) =
      Sequence.after ring.firstSequence (UInt32.ofNat (stop - count.toNat)) := by
    rw [LogView.sequenceAt, Ring.firstLive_view hsome hsmall]
  have hitems : (ring.records.drop (stop - count.toNat)).take (min count.toNat stop) =
      (ring.records.take stop).drop (stop - count.toNat) := by
    rw [List.drop_take]
    congr 1
    omega
  simp only [Ring.sent, ofAck, document, hcount, hfirst, hitems, if_neg (Nat.ne_of_gt hpos),
    List.map_map]
  rfl

theorem resolve_inside (harchive : archive.InUse) (hlog : archive.get? number = some log)
    (hother : archive.get? (carried number) = some other) (hmost : count.toNat ≤ 100)
    (hcount : 0 < count.toNat) (hpos : 0 < log.ring.records.length)
    (hinside : log.ring.records.length ≤ other.ring.records.length) :
    other.view.resolve (request number log.view count).range =
      .ok (some ⟨log.ring.records.length - count.toNat,
        min count.toNat log.ring.records.length⟩) := by
  have hposition := (harchive.of_get? hlog).toNat_count
  have hsize := (harchive.of_get? hother).toNat_count
  have hback := toInt_back hmost
  have hnegative : (Int32.ofInt (-count.toNat)).toInt < 0 := by omega
  have hreference : log.view.count ≠ 0 := by
    intro hzero
    rw [hzero] at hposition
    exact Nat.ne_of_lt hpos hposition
  have hle : log.view.count ≤ other.view.count := by
    rwa [UInt32.le_iff_toNat_le, hposition, hsize]
  have hresolve := LogView.resolve_byPosition_backward hreference hle hnegative
  rw [hback, Int.natAbs_neg, Int.natAbs_natCast, hposition, Nat.sub_sub_eq_min,
    Nat.min_comm] at hresolve
  exact hresolve

/-- Counted back from a position of the log that is reached, all records that are wanted
are given. -/
theorem reply_inside (harchive : archive.InUse) (hlog : archive.get? number = some log)
    (hother : archive.get? (carried number) = some other) (hmost : count.toNat ≤ 100)
    (hcount : 0 < count.toNat) (hpos : 0 < log.ring.records.length)
    (hinside : log.ring.records.length ≤ other.ring.records.length) :
    reply archive number count =
      .ok (document number count.toNat other.ring log.ring.records.length) := by
  have hresolve := resolve_inside harchive hlog hother hmost hcount hpos hinside
  have hsmall := (harchive.of_get? hother).length_records_lt
  generalize log.ring.records.length = stop at *
  have hlocate : Page.locate archive.repository (request number log.view count) =
      .ok (other.view, some ⟨stop - count.toNat, min count.toNat stop⟩) := by
    simp only [locate_request, hother, hresolve]
    rfl
  have hstop : (⟨stop - count.toNat, min count.toNat stop⟩ : Span).stop = stop := by
    simp only [Span.stop]
    omega
  -- A hundred records of 22 octets and what is set aside come to 2222 octets.
  have hbuffer : (List.replicate bufferLength (0 : UInt8)).length = 8192 := List.length_replicate
  have hroom : 44 ≤ (List.replicate bufferLength (0 : UInt8)).length := by omega
  obtain ⟨size, page, after, -, -, hall, hanswer, hdecode⟩ :=
    Page.answer_span hlocate (Nat.lt_succ_of_lt hsmall) (le_of_eq_of_le hstop hinside)
      (Nat.lt_min.mpr ⟨hcount, hpos⟩) hroom
  obtain rfl := hall (by simp only; omega)
  rw [reply_of_answered hlog hanswer hdecode]
  congr 1
  exact ofAck_sent number _ hmost hpos hinside hsmall

/-- The log that is reached decides the reply. -/
theorem reply_eq (harchive : archive.InUse) (hlog : archive.get? number = some log)
    (count : Option Int64) :
    reply archive number (effectiveCount count) =
      reached number (wanted count) log.ring.records.length
        ((archive.get? (carried number)).map TrendLog.ring) := by
  have hcount := wanted_bounds count
  rw [← toNat_effectiveCount] at hcount ⊢
  -- The request carries 22 bits of the number, and the log under these is the one that is read.
  cases hother : archive.get? (carried number) with
  | none =>
      refine reply_of_refused hlog ?_
      rw [locate_request, hother]
  | some other =>
      simp only [Option.map_some, reached]
      split
      · rename_i hnil
        exact reply_empty hlog hother hnil
      rename_i hsome
      split
      · rename_i houtside
        exact reply_outside harchive hlog hother hsome houtside
      · rename_i hinside
        obtain ⟨hpos, hle⟩ := not_or.mp hinside
        exact reply_inside harchive hlog hother hcount.2 hcount.1 (Nat.pos_of_ne_zero hpos)
          (Nat.not_lt.mp hle)

end

/-- **The newest records of a log are given if its number fits an object identifier**: as
many as are wanted and there are, oldest first.  A command with a longer number gets what
the log at the lowest twenty-two bits has before the position that counts the records of
the log that is named, or an error. -/
theorem reply_of_reachable {archive : Archive} (hreachable : archive.Reachable) {number : UInt32}
    {log : TrendLog} (hlog : archive.get? number = some log) (count : Option Int64) :
    (number.toNat < ObjectId.instanceSpan →
      reply archive number (effectiveCount count) =
        .ok (document number (wanted count) log.ring log.ring.records.length)) ∧
    (ObjectId.instanceSpan ≤ number.toNat →
      reply archive number (effectiveCount count) =
        reached number (wanted count) log.ring.records.length
          ((archive.get? (carried number)).map TrendLog.ring)) := by
  have hreply := reply_eq (Archive.inUse_of_reachable hreachable) hlog count
  refine ⟨fun hshort => ?_, fun _ => hreply⟩
  rw [hreply, carried_of_lt hshort, hlog, Option.map_some, reached]
  split
  · rename_i hnil
    rw [hnil, List.length_nil]
  · rename_i hsome
    have hpos := List.length_pos_iff.mpr hsome
    rw [if_neg (by omega)]

/-- Two samples of log 1 are given, and the first of them again to a command for log
4194305, which holds one sample of its own. -/
theorem reply_of_reachable_strayed :
    ∃ (archive : Archive) (short long : TrendLog), archive.Reachable ∧
      archive.get? 1 = some short ∧ archive.get? 4194305 = some long ∧
      short.ring.records.map LogRecord.datum = [.unsigned 5, .unsigned 6] ∧
      long.ring.records.map LogRecord.datum = [.unsigned 7] ∧
      reply archive 1 (effectiveCount none) = .ok (document 1 10 short.ring 2) ∧
      reply archive 4194305 (effectiveCount none) = .ok (document 4194305 10 short.ring 1) := by
  let sample (value : UInt32) : Sample := ⟨.unsigned value, FlagSet.empty⟩
  let now : Reading := ⟨⟨2025, 5, 6, by decide⟩, 32400, 0, by decide, by decide⟩
  have hshort := Archive.Reachable.add .empty
    (show Archive.empty.add (.of 1 "short") = .ok _ from rfl)
  have hlong := hshort.add (show Archive.add _ (.of 4194305 "long") = .ok _ from rfl)
  have hfirst := hlong.record (show Archive.record _ 1 (sample 5) now = .ok (_, true) from rfl)
  have hsecond := hfirst.record (show Archive.record _ 1 (sample 6) now = .ok (_, true) from rfl)
  have hthird := hsecond.record
    (show Archive.record _ 4194305 (sample 7) now = .ok (_, true) from rfl)
  refine ⟨_, _, _, hthird, rfl, rfl, rfl, rfl, ?_, ?_⟩
  · exact (reply_of_reachable hthird (show Archive.get? _ 1 = some _ from rfl) none).1 (by decide)
  · exact (reply_of_reachable hthird (show Archive.get? _ 4194305 = some _ from rfl) none).2
      (by decide)

end Newest

end Historian
