import Historian.Proofs.Wire.Request

/-!
# Values are written whole or taken back

An encoder puts out its octets in a dozen runs, and any of them may be the one that does not fit.
Whoever tries a value need not know: `Writer.whole_or_rewound` says of records, of the heads of
answers and of the parameters of requests that there is one octet string for the value, whatever
the writer holds, and that it is appended exactly if there is room for all of it.  Otherwise the
buffer is reported as too small, and going back to where the value began leaves the writer as if
the value had not been tried.

## Strategy

Without a fault nothing but the room decides, and what has been put into the buffer when a run
does not fit is a front part of the octets (`Writer.exists_grown_emit`).  Going back makes these
octets free again.  That they now stand in the buffer makes no difference to anything written
later, since a writer looks only at how many octets are free (`Writer.Alike.emit`).
-/

namespace Historian

namespace Writer

/-! ## What a writer looks at -/

/-- The writers hold the same octets and have room for as many. -/
structure Alike (first second : Writer) : Prop where
  written : first.written = second.written
  room : first.free.length = second.free.length

/-- **The octets that are free make no difference to what is written over them.** -/
theorem Alike.emit {first second : Writer} (halike : Alike first second) (encoding : Encoding) :
    (first.emit encoding).2 = (second.emit encoding).2 ∧
      Alike (first.emit encoding).1 (second.emit encoding).1 := by
  induction encoding generalizing first second with
  | nil => exact ⟨rfl, halike⟩
  | cons piece rest ih =>
      cases piece with
      | fault error => exact ⟨rfl, halike⟩
      | run run =>
          by_cases hfirst : run.length ≤ first.free.length
          · have hsecond : run.length ≤ second.free.length := halike.room ▸ hfirst
            simp only [Writer.emit, write, if_pos hfirst, if_pos hsecond]
            apply ih
            refine ⟨?_, ?_⟩
            · rw [halike.written]
            · rw [List.length_drop, List.length_drop, halike.room]
          · have hsecond : ¬ run.length ≤ second.free.length := halike.room ▸ hfirst
            simp only [Writer.emit, write, if_neg hfirst, if_neg hsecond]
            exact ⟨trivial, halike⟩

/-! ## Trying a value -/

/-- What comes of `encoding` on a writer, where `octets` is what it puts out in all. -/
structure Tries (encoding : Encoding) (octets : Octets) (writer : Writer) : Prop where
  succeeds_iff : (writer.emit encoding).2 = .ok () ↔ octets.length ≤ writer.free.length
  appends : octets.length ≤ writer.free.length →
    (writer.emit encoding).1 = ⟨writer.written ++ octets, writer.free.drop octets.length⟩
  fails : writer.free.length < octets.length →
    (writer.emit encoding).2 = .error .bufferTooSmall
  /-- The octets in front of the position stay as they are in the buffer. -/
  keeps : (writer.emit encoding).1.buffer.take writer.written.length = writer.written
  undone : Alike ((writer.emit encoding).1.rewind writer.written.length) writer
  /-- After going back, any other encoding fares as on the writer before. -/
  again : ∀ other : Encoding,
    (((writer.emit encoding).1.rewind writer.written.length).emit other).2 =
        (writer.emit other).2 ∧
      Alike (((writer.emit encoding).1.rewind writer.written.length).emit other).1
        (writer.emit other).1

/-- No two octet strings are what an encoding puts out on every writer. -/
theorem Tries.unique {encoding : Encoding} {first second : Octets}
    (hfirst : ∀ writer, Tries encoding first writer)
    (hsecond : ∀ writer, Tries encoding second writer) : first = second := by
  -- A buffer with room for both holds both.
  have hroom : (blank (first.length + second.length)).free.length =
      first.length + second.length := length_free_blank _
  have hboth := ((hfirst (blank (first.length + second.length))).appends (by omega)).symm.trans
    ((hsecond _).appends (by omega))
  exact congrArg written hboth

/-- An encoding without faults is tried as a whole. -/
theorem tries_of_plain {encoding : Encoding} (hplain : encoding.Plain) (writer : Writer) :
    Tries encoding encoding.octets writer := by
  obtain ⟨part, -, hgrown⟩ := exists_grown_emit encoding writer
  have hundone : Alike ((writer.emit encoding).1.rewind writer.written.length) writer :=
    ⟨written_rewind_emit encoding writer, hgrown.length_free_rewind⟩
  have happends : encoding.octets.length ≤ writer.free.length → writer.emit encoding =
      (⟨writer.written ++ encoding.octets, writer.free.drop encoding.octets.length⟩, .ok ()) :=
    fun hfit => emit_of_fits hplain hfit
  have hfails : writer.free.length < encoding.octets.length →
      (writer.emit encoding).2 = .error .bufferTooSmall := fun hover => emit_eq_error hplain hover
  refine ⟨⟨?_, ?_⟩, ?_, hfails, hgrown.take_buffer, hundone, fun other => hundone.emit other⟩
  · intro hsucceeded
    by_contra hover
    rw [hfails (Nat.lt_of_not_le hover)] at hsucceeded
    cases hsucceeded
  · intro hfit
    rw [happends hfit]
  · intro hfit
    rw [happends hfit]

theorem existsUnique_tries {encoding : Encoding} {property : Octets → Prop}
    (hplain : encoding.Plain) (hproperty : property encoding.octets) :
    ∃! octets, (∀ writer, Tries encoding octets writer) ∧ property octets := by
  refine ⟨encoding.octets, ⟨tries_of_plain hplain, hproperty⟩, ?_⟩
  rintro octets ⟨htries, -⟩
  exact Tries.unique htries (tries_of_plain hplain)

/-! ## Records, heads and requests -/

/-- **A value is written whole or taken back.**  A record takes at most 22 octets, the head of an
answer 23, and the parameters of a request for a range that is served 32.  The value is read back
from them. -/
theorem whole_or_rewound :
    (∀ record : LogRecord, ∃! octets,
        (∀ writer, Tries record.encode octets writer) ∧ octets.length ≤ 22 ∧
          LogRecord.decode octets = .ok (record.received, [])) ∧
      (∀ head : RangeAckHead, ∃! octets,
        (∀ writer, Tries head.encode octets writer) ∧ octets.length ≤ 23 ∧
          RangeAckHead.decode octets = .ok (head.received, [])) ∧
      ∀ request : RangeRequest, request.range.Served → ∃! octets,
        (∀ writer, Tries request.encodeService octets writer) ∧ octets.length ≤ 32 ∧
          (request.property.Proper →
            RangeRequest.decodeService request.invoke octets = .ok (request, [])) := by
  refine ⟨?_, ?_, ?_⟩
  · intro record
    exact existsUnique_tries record.plain_encode
      ⟨record.length_encode_le, record.reads_decode.whole⟩
  · intro head
    exact existsUnique_tries head.plain_encode ⟨head.length_encode_le, head.reads_decode.whole⟩
  · intro request hserved
    have hplain : request.encodeService.Plain :=
      request.plain_encodeService_iff.mpr (Range.plain_encode hserved)
    exact existsUnique_tries hplain ⟨request.length_encodeService_le,
      RangeRequest.decodeService_encodeService hserved⟩

/-- A request of the greatest length behind an octet already written: with 31 octets left it runs
into the end of the buffer in its last run and is taken back, with 32 it is written. -/
theorem whole_or_rewound_last :
    let request : RangeRequest := ⟨ObjectId.of .trendLog 4194302, .other 4294967295,
      some 4294967295, .byTime ⟨⟨125, 3, 14, 5⟩, ⟨10, 5, 0, 0⟩⟩ (-2147483648), 7⟩
    let short : Writer := ⟨[94], List.replicate 31 255⟩
    let enough : Writer := ⟨[94], List.replicate 32 255⟩
    request.range.Served ∧
      (short.emit request.encodeService).1.written.length = 32 ∧
      (short.emit request.encodeService).2 = .error .bufferTooSmall ∧
      ((short.emit request.encodeService).1.rewind 1).written = [94] ∧
      (enough.emit request.encodeService).2 = .ok () ∧
      (enough.emit request.encodeService).1.free = [] := by
  intro request short enough
  have hserved : request.range.Served := nofun
  obtain ⟨octets, ⟨htries, hlength, -⟩, -⟩ := whole_or_rewound.2.2 request hserved
  have hlong : ¬ octets.length ≤ 31 := fun hfit =>
    absurd ((htries short).succeeds_iff.mpr hfit) (by decide)
  have hexact : octets.length = 32 := by omega
  refine ⟨hserved, by decide, (htries short).fails ?_, (htries short).undone.written,
    (htries enough).succeeds_iff.mpr hlength, ?_⟩
  · rw [hexact]
    decide
  · rw [(htries enough).appends hlength, hexact]
    exact List.drop_of_length_le (Nat.le_of_eq List.length_replicate)

end Writer

end Historian
