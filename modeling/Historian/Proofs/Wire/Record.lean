import Historian.Record
import Historian.Proofs.Wire.Field

/-!
# Log records read back as they were written

A record that was written is read back as it was (`LogRecord.reads_decode`), but for
status bits without a name: those are not sent.  `LogRecord.received` is what arrives.
A record takes at most 22 octets (`LogRecord.length_encode_le`), which is why a page
with room for 22 octets is never empty for want of room.
-/

namespace Historian

open Decoder Encoding

/-! ## Data -/

namespace Datum

/-- A datum as it arrives. -/
def received : Datum → Datum
  | logStatus status => logStatus status.defined
  | datum => datum

/-- Every flag in the datum has a name. -/
def Named (datum : Datum) : Prop := ∀ status, datum = logStatus status → status.Named

theorem received_of_named {datum : Datum} (hnamed : datum.Named) : datum.received = datum := by
  cases datum with
  | logStatus status => rw [received, FlagSet.defined_of_named (hnamed status rfl)]
  | _ => rfl

theorem encode_received (datum : Datum) : datum.received.encode = datum.encode := by
  cases datum with
  | logStatus status => exact Ctx.flags_defined _ status
  | _ => rfl

theorem plain_encode (datum : Datum) : datum.encode.Plain := by
  cases datum with
  | logStatus status => exact Ctx.plain_flags _ status
  | _ => exact Ctx.plain_content _ _

private theorem choice_lt (datum : Datum) : datum.choice < 15 := by
  cases datum <;> exact of_decide_eq_true rfl

theorem length_encode_le (datum : Datum) : datum.encode.octets.length ≤ 5 := by
  have hshort : ∀ {octets : Octets}, octets.length ≤ 4 →
      (Ctx.content datum.choice octets).octets.length ≤ 5 :=
    fun hoctets => Ctx.length_content_le datum.choice_lt hoctets
  cases datum with
  | logStatus status =>
      rw [encode, Ctx.length_flags status (choice_lt _)]
      omega
  | boolean value => exact hshort (by simp)
  | real value => exact hshort (by simp)
  | enumerated value => exact hshort (Value.length_unsignedContent_le value)
  | unsigned value => exact hshort (Value.length_unsignedContent_le value)
  | signed value => exact hshort (Value.length_signedContent_le value)
  | null => exact hshort (by simp)

/-- The content of an alternative is read behind its tag. -/
private theorem reads_choice {number : UInt8} {octets : Octets} {datum : Datum}
    (hshort : octets.length ≤ 4)
    (hread : Reads (decodeChoice number octets.length) octets datum) :
    Reads decode (Ctx.content number octets).octets datum := by
  have hback : (UInt32.ofNat octets.length).toNat = octets.length :=
    UInt32.toNat_ofNat_of_lt' (Nat.lt_of_le_of_lt hshort (by decide))
  rw [Ctx.octets_content]
  refine (Tag.reads_decode _).bind ?_
  simpa only [hback] using hread

theorem reads_decode (datum : Datum) : Reads decode datum.encode.octets datum.received := by
  cases datum with
  | logStatus status =>
      rw [encode, Ctx.flags_eq, octets_append]
      refine (Tag.reads_decode _).bind ?_
      refine (Value.reads_decodeBitString status.unused_toBitString_le).bind_pure ?_
      rw [status.ofBitString_toBitString]
      rfl
  | boolean value =>
      exact reads_choice (by simp) ((Value.reads_decodeBoolean value).bind_pure rfl)
  | real value => exact reads_choice (by simp) ((Value.reads_decodeReal value).bind_pure rfl)
  | enumerated value =>
      exact reads_choice (Value.length_unsignedContent_le value)
        ((Value.reads_decodeUnsigned value).bind_pure rfl)
  | unsigned value =>
      exact reads_choice (Value.length_unsignedContent_le value)
        ((Value.reads_decodeUnsigned value).bind_pure rfl)
  | signed value =>
      exact reads_choice (Value.length_signedContent_le value)
        ((Value.reads_decodeSigned value).bind_pure rfl)
  | null => exact reads_choice (by simp) (Reads.after_require rfl (Reads.pure _))

end Datum

/-! ## Records -/

namespace LogRecord

/-- A record as it arrives. -/
def received (record : LogRecord) : LogRecord :=
  ⟨record.stamp, record.datum.received, record.status.defined⟩

/-- Every flag in the record has a name. -/
structure Named (record : LogRecord) : Prop where
  datum : record.datum.Named
  status : record.status.Named

theorem received_of_named {record : LogRecord} (hnamed : record.Named) :
    record.received = record := by
  rw [received, Datum.received_of_named hnamed.datum, FlagSet.defined_of_named hnamed.status]

theorem encode_received (record : LogRecord) : record.received.encode = record.encode := by
  simp only [encode, received, Datum.encode_received, Ctx.flags_defined]

theorem plain_encode (record : LogRecord) : record.encode.Plain := by
  simp [encode, enclosed, App.date, App.time, App.plain_content, Tag.plain_encode,
    Datum.plain_encode, Ctx.plain_flags]

/-- A record begins with the opening tag of its stamp. -/
theorem ahead_encode (record : LogRecord) (rest : Octets) :
    Tag.Ahead (.opening 0) (record.encode.octets ++ rest) := by
  simp only [encode, enclosed, octets_append, List.append_assoc]
  exact Tag.ahead_encode _ _

/-- **A record takes at most 22 octets.** -/
theorem length_encode_le (record : LogRecord) : record.encode.octets.length ≤ 22 := by
  have hdatum := record.datum.length_encode_le
  have hstamp : (enclosed 0 (App.date record.stamp.date ++
      App.time record.stamp.time)).octets.length = 12 := rfl
  have hopen : (Tag.opening 1).encode.octets.length = 1 := rfl
  have hclose : (Tag.closing 1).encode.octets.length = 1 := rfl
  have hflags : (Ctx.flags 2 record.status).octets.length = 3 :=
    Ctx.length_flags record.status (by decide)
  simp only [encode, octets_append, List.length_append, hstamp, hflags]
  simp only [enclosed, octets_append, List.length_append, hopen, hclose]
  omega

theorem reads_decodeStatus (status : StatusFlags) :
    Reads decodeStatus (Ctx.flags 2 status).octets status.defined := by
  intro rest
  have hahead := Ctx.ahead_flags 2 status [] rest
  rw [List.append_nil] at hahead
  have hsome := List.isEmpty_eq_false_iff.mpr hahead.ne_nil
  rw [decodeStatus, bind_of_ok (atEnd_apply _), hsome]
  simp only [Bool.false_eq_true, if_false]
  rw [bind_of_ok hahead.peek]
  simp only [if_true]
  exact Ctx.reads_decodeFlags 2 status rest

/-- **A record is read back as it was written.** -/
theorem reads_decode (record : LogRecord) :
    Reads decode record.encode.octets record.received := by
  simp only [encode, enclosed, octets_append, List.append_assoc]
  refine (Tag.reads_decodeOpening 0).bind ?_
  refine (App.reads_decodeDate record.stamp.date).bind ?_
  refine (App.reads_decodeTime record.stamp.time).bind ?_
  refine (Tag.reads_decodeClosing 0).bind ?_
  refine (Tag.reads_decodeOpening 1).bind ?_
  refine (Datum.reads_decode record.datum).bind ?_
  refine (Tag.reads_decodeClosing 1).bind ?_
  exact (reads_decodeStatus record.status).bind_pure rfl

end LogRecord

end Historian
