import Historian.Proofs.Wire.Ack

/-!
# Records and answers survive the wire

A record whose flags all have names is read back unchanged in front of anything, so a
string of records is read back record by record (`LogRecord.readsAll_encode`).  An answer
holds such a string between two tags, and `RangeAck.survives_wire` says the same of it.

Only flags with a name are sent, and nothing keeps the flags of an answer to those.  What
an answer loses on the way is therefore the rest of its own flags, and nothing else
(`RangeAck.received_of_named`); `RangeAck.loses_unnamed_flag` is an answer that does.
-/

namespace Historian

open Decoder Encoding

namespace LogRecord

theorem reads_decode_of_named {record : LogRecord} (hnamed : record.Named) :
    Reads decode record.encode.octets record := by
  have hread := record.reads_decode
  rwa [received_of_named hnamed] at hread

/-- **A string of records is read back to those records.** -/
theorem readsAll_encode {records : List LogRecord} (hnamed : ∀ record ∈ records, record.Named) :
    ReadsAll decode (records.flatMap fun record => record.encode.octets) records :=
  .of_reads fun record hrecord => reads_decode_of_named (hnamed record hrecord)

/-- It cannot be read in another way, since a record takes octets. -/
theorem readsAll_encode_iff {records : List LogRecord} (hnamed : ∀ record ∈ records, record.Named)
    (found : List LogRecord) :
    ReadsAll decode (records.flatMap fun record => record.encode.octets) found ↔
      found = records := by
  have hempty : ∀ result, decode [] ≠ .ok result := nofun
  constructor
  · exact ReadsAll.unique hempty (readsAll_encode hnamed)
  · rintro rfl
    exact readsAll_encode hnamed

end LogRecord

namespace RangeAck

/-- An answer of records with named flags arrives as it was, but for its own flags. -/
theorem received_of_named {ack : RangeAck} (hnamed : ∀ record ∈ ack.items, record.Named)
    (hproper : ack.property.Proper) : ack.received = { ack with flags := ack.flags.defined } := by
  have hitems : ack.items.map LogRecord.received = ack.items :=
    List.map_congr_left (fun record hrecord => LogRecord.received_of_named (hnamed record hrecord))
      |>.trans (List.map_id _)
  rw [received, hitems, PropertyId.ofCode_code hproper]

/-- **Records and answers survive the wire.**  A record of named flags is read back unchanged
and leaves what follows it; a string of such records is read back to them and to nothing else;
and an answer of such records is read back to the last octet, and unchanged but for those of
its flags that have no name. -/
theorem survives_wire :
    (∀ record : LogRecord, record.Named →
        record.encode.Gives record.encode.octets ∧
          ∀ tail, LogRecord.decode (record.encode.octets ++ tail) = .ok (record, tail)) ∧
      (∀ records : List LogRecord, (∀ record ∈ records, record.Named) → ∀ found,
        ReadsAll LogRecord.decode (records.flatMap fun record => record.encode.octets) found ↔
          found = records) ∧
      ∀ ack : RangeAck, (∀ record ∈ ack.items, record.Named) → ack.property.Proper →
        ack.firstSequence ≠ some 0 →
          ack.encode.Gives ack.encode.octets ∧
            decode ack.encode.octets = .ok ({ ack with flags := ack.flags.defined }, []) ∧
            (ack.flags.Named → decode ack.encode.octets = .ok (ack, [])) := by
  refine ⟨fun record hnamed => ?_, fun records hnamed => ?_, fun ack hnamed hproper hsequence => ?_⟩
  · exact ⟨record.plain_encode.gives, LogRecord.reads_decode_of_named hnamed⟩
  · exact LogRecord.readsAll_encode_iff hnamed
  · have hread := decode_encode ack hsequence
    rw [received_of_named hnamed hproper] at hread
    refine ⟨ack.plain_encode.gives, hread, fun hflags => ?_⟩
    rw [hread, FlagSet.defined_of_named hflags]

/-- Two records with the same number, not-a-numbers among them, survive with their kinds. -/
theorem survives_wire_three :
    let stamp : Stamp := ⟨⟨125, 3, 14, 5⟩, ⟨10, 3, 0, 255⟩⟩
    let records : List LogRecord := [⟨stamp, .enumerated 70000, ⟨8⟩⟩, ⟨stamp, .unsigned 70000, ⟨0⟩⟩,
      ⟨stamp, .real ⟨0x7FC00001⟩, ⟨1⟩⟩]
    let ack : RangeAck := ⟨ObjectId.of .trendLog 1, .logBuffer, none, ⟨5⟩, 3, records, some 9⟩
    (∀ record ∈ records, record.Named) ∧ ack.property.Proper ∧ ack.flags.Named ∧
      ReadsAll LogRecord.decode (records.flatMap fun record => record.encode.octets) records ∧
      decode ack.encode.octets = .ok (ack, []) := by
  intro stamp records ack
  have hnamed : ∀ record ∈ records, record.Named := by
    simp only [records, List.forall_mem_cons, List.not_mem_nil, false_imp_iff, implies_true, and_true]
    exact ⟨⟨nofun, by decide⟩, ⟨nofun, by decide⟩, ⟨nofun, by decide⟩⟩
  have hproper : ack.property.Proper := nofun
  have hflags : ack.flags.Named := by decide
  obtain ⟨-, hstring, hack⟩ := survives_wire
  obtain ⟨-, -, hunchanged⟩ := hack ack hnamed hproper (by decide)
  exact ⟨hnamed, hproper, hflags, (hstring records hnamed records).mpr rfl, hunchanged hflags⟩

/-- An answer whose flags are not all named arrives without the others. -/
theorem loses_unnamed_flag :
    let record : LogRecord := ⟨⟨⟨125, 3, 14, 5⟩, ⟨10, 3, 0, 0⟩⟩, .unsigned 3, ⟨8⟩⟩
    let ack : RangeAck := ⟨ObjectId.of .trendLog 1, .logBuffer, none, ⟨9⟩, 1, [record], some 1⟩
    (∀ record ∈ ack.items, record.Named) ∧ ack.property.Proper ∧ ack.firstSequence ≠ some 0 ∧
      decode ack.encode.octets = .ok ({ ack with flags := ⟨1⟩ }, []) ∧
      decode ack.encode.octets ≠ .ok (ack, []) := by
  intro record ack
  have hnamed : ∀ record ∈ ack.items, record.Named := by
    intro other hother
    rw [List.mem_singleton.mp hother]
    exact ⟨nofun, by decide⟩
  have hread := decode_encode ack (by decide)
  rw [received_of_named hnamed nofun] at hread
  have hlost : ack.flags.defined = ⟨1⟩ := by decide
  rw [hlost] at hread
  refine ⟨hnamed, nofun, by decide, hread, ?_⟩
  rw [hread]
  intro hsame
  have hflags := congrArg (fun result => result.toOption.map fun found => found.1.flags) hsame
  exact absurd hflags (by decide)

end RangeAck

end Historian
