import Historian.Proofs.Wire.Firm
import Historian.Proofs.Wire.Request
import Historian.Proofs.Wire.Survival

/-!
# Messages that are cut short

The last fields of a range request and of its answer may be left out, and the end of the input
stands for that.  So a message that is cut right in front of such a field is another message, the
one without the field; anywhere else the cut is noticed (`RangeRequest.notices_cut`).

## Strategy

Fields that must be there are read by firm decoders, and these notice every cut (`Firm.cuts`).
Two fields that may be missing stand in front of others: the array index of an answer and the
status flags of a record.  A cut in front of them is noticed after all, because what must follow
is missing too (`Ctx.cuts_decodeUnsigned?_bind`, `RangeAck.decodeItems_cut`).
-/

namespace Historian

open Decoder Encoding

/-! ## Fields that may be left out -/

namespace Ctx

variable {α : Type} {number : UInt8}

theorem firmAt_decodeUnsigned? {input : Octets} (hsome : input ≠ []) :
    FirmAt (decodeUnsigned? number) input := by
  refine firmAt_atEnd_bind hsome ?_
  refine (Firm.peek Tag.firm_decode).bind fun tag => ?_
  split
  · split
    · exact (firm_decodeUnsigned number).bind_pure
    · exact .pure _
  · exact .pure _

/-- In front of anything else nothing is taken, if the tag there is not cut short. -/
theorem decodeUnsigned?_of_prefix {tag : Tag} {front input : Octets} (hahead : Tag.Ahead tag input)
    (hne : ∀ length, tag ≠ .context number length) (hfront : front <+: input) (hsome : front ≠ []) :
    decodeUnsigned? number front = .error .unexpectedEof ∨
      decodeUnsigned? number front = .ok (none, front) := by
  rcases hahead.of_prefix hfront with hearly | hahead
  · refine .inl ?_
    rw [decodeUnsigned?, bind_of_ok (atEnd_apply front), List.isEmpty_eq_false_iff.mpr hsome]
    exact bind_of_error (peek_of_error hearly)
  · exact .inr (decodeUnsigned?_of_ahead hahead hne)

/-- A field that may be left out does not hide that what must follow is missing. -/
theorem cuts_decodeUnsigned?_bind {tag : Tag} {next : Option UInt32 → Decoder α} {more : Octets}
    (field : Option UInt32) (hahead : Tag.Ahead tag more)
    (hne : ∀ length, tag ≠ .context number length)
    (hempty : next none [] = .error .unexpectedEof) (hnext : Cuts (next field) more) :
    Cuts (decodeUnsigned? number >>= next) ((unsigned? number field).octets ++ more) := by
  intro front hfront hshort
  by_cases hsome : front = []
  · -- The field reads as left out, but so is what must follow it.
    rw [hsome]
    exact hempty
  cases field with
  | none =>
      rcases decodeUnsigned?_of_prefix hahead hne hfront hsome with hearly | hnone
      · exact bind_of_error hearly
      · rw [bind_of_ok hnone]
        exact hnext front hfront hshort
  | some field =>
      rcases cut_append hfront hshort with ⟨hfirst, hearly⟩ | ⟨part, rfl, hpart, hearly⟩
      · exact bind_of_error ((firmAt_decodeUnsigned? hsome).early
          (reads_decodeUnsigned? number field) hfirst hearly)
      · exact (bind_of_ok (reads_decodeUnsigned? number field part)).trans
          (hnext part hpart hearly)

end Ctx

/-! ## Records -/

namespace LogRecord

theorem firmAt_decodeStatus {input : Octets} (hsome : input ≠ []) : FirmAt decodeStatus input := by
  refine firmAt_atEnd_bind hsome ?_
  refine (Firm.peek Tag.firm_decode).bind fun tag => ?_
  split
  · split
    · exact Ctx.firm_decodeFlags 2
    · exact .pure _
  · exact .pure _

/-- A record that is cut short ends early, or leaves nothing where its flags should be. -/
theorem drains_decode (record : LogRecord) : Drains decode record.encode.octets := by
  simp only [encode, enclosed, octets_append, List.append_assoc]
  refine (Tag.firm_decodeOpening 0).drains_bind (Tag.reads_decodeOpening 0) ?_
  refine App.firm_decodeDate.drains_bind (App.reads_decodeDate record.stamp.date) ?_
  refine App.firm_decodeTime.drains_bind (App.reads_decodeTime record.stamp.time) ?_
  refine (Tag.firm_decodeClosing 0).drains_bind (Tag.reads_decodeClosing 0) ?_
  refine (Tag.firm_decodeOpening 1).drains_bind (Tag.reads_decodeOpening 1) ?_
  refine Datum.firm_decode.drains_bind (Datum.reads_decode record.datum) ?_
  refine (Tag.firm_decodeClosing 1).drains_bind (Tag.reads_decodeClosing 1) ?_
  intro front hfront hshort
  by_cases hsome : front = []
  · rw [hsome]
    exact .inr ⟨_, rfl⟩
  · exact .inl (bind_of_error
      ((firmAt_decodeStatus hsome).early (reads_decodeStatus record.status) hfront hshort))

end LogRecord

/-! ## Answers -/

theorem RangeAckHead.cuts_decode (head : RangeAckHead) : Cuts decode head.encode.octets := by
  simp only [encode, octets_append, List.append_assoc]
  refine (Ctx.firm_decodeObjectId 0).cuts_bind (Ctx.reads_decodeObjectId 0 head.object) ?_
  refine (Ctx.firm_decodeUnsigned 1).cuts_bind (Ctx.reads_decodeUnsigned 1 head.property.code) ?_
  have hahead := Ctx.ahead_flags 3 head.flags (Ctx.unsigned 4 head.count).octets []
  rw [List.append_nil] at hahead
  refine Ctx.cuts_decodeUnsigned?_bind head.index hahead (by simp) rfl ?_
  refine (Ctx.firm_decodeFlags 3).cuts_bind (Ctx.reads_decodeFlags 3 head.flags) ?_
  exact ((Ctx.firm_decodeUnsigned 4).cuts (Ctx.reads_decodeUnsigned 4 head.count)).bind_left

namespace RangeAck

theorem decodeItems_nil (fuel : Nat) : decodeItems fuel [] = .error .unexpectedEof := by
  cases fuel <;> rfl

/-- A record in front is read, or else the items end early. -/
theorem decodeItems_of_prefix {input front : Octets} (fuel : Nat)
    (hahead : Tag.Ahead (.opening 0) input) (hfront : front <+: input) :
    decodeItems fuel front = .error .unexpectedEof ∨
      ∃ less, fuel = less + 1 ∧ decodeItems fuel front =
        (LogRecord.decode >>= fun record => do return record :: (← decodeItems less)) front := by
  cases fuel with
  | zero => exact .inl rfl
  | succ less =>
      rcases hahead.of_prefix hfront with hearly | hahead
      · exact .inl (bind_of_error (peek_of_error hearly))
      · refine .inr ⟨less, rfl, ?_⟩
        rw [decodeItems, bind_of_ok hahead.peek]
        rfl

/-- The items do not end without their closing tag, however much fuel there is. -/
theorem decodeItems_cut (items : List LogRecord) {front : Octets} (fuel : Nat)
    (hfront : front <+: itemOctets items ++ (Tag.closing itemsTag).encode.octets)
    (hshort : front ≠ itemOctets items ++ (Tag.closing itemsTag).encode.octets) :
    decodeItems fuel front = .error .unexpectedEof := by
  induction items generalizing fuel front with
  | nil =>
      have hclosing :=
        Tag.firm_decode.cuts (Tag.reads_decode (.closing itemsTag)) front hfront hshort
      cases fuel with
      | zero => rfl
      | succ less => exact bind_of_error (peek_of_error hclosing)
  | cons record items ih =>
      rw [itemOctets_cons, List.append_assoc] at hfront hshort
      rcases decodeItems_of_prefix fuel (record.ahead_encode _) hfront with
        hearly | ⟨less, -, hread⟩
      · exact hearly
      rw [hread]
      rcases cut_append hfront hshort with ⟨hfirst, hearly⟩ | ⟨part, rfl, hpart, hearly⟩
      · rcases record.drains_decode front hfirst hearly with hnone | ⟨found, hfound⟩
        · exact bind_of_error hnone
        · -- Without its flags the record uses up the input, and the closing tag is missing.
          rw [bind_of_ok hfound]
          exact bind_of_error (decodeItems_nil less)
      · rw [bind_of_ok (record.reads_decode part)]
        exact bind_of_error (ih less hpart hearly)

/-- The answer without its last field. -/
def unnumbered (ack : RangeAck) : RangeAck := { ack with firstSequence := none }

theorem octets_encode_unnumbered (ack : RangeAck) :
    ack.unnumbered.encode.octets = ack.head.encode.octets ++
      ((Tag.opening itemsTag).encode.octets ++
        (itemOctets ack.items ++ (Tag.closing itemsTag).encode.octets)) := by
  rw [octets_encode]
  exact congrArg _ (congrArg _ (congrArg _ (List.append_nil _)))

theorem octets_encode_eq (ack : RangeAck) :
    ack.encode.octets =
      ack.unnumbered.encode.octets ++ (encodeFirstSequence ack.firstSequence).octets := by
  rw [octets_encode, octets_encode_unnumbered]
  simp only [List.append_assoc]

theorem cuts_unnumbered (ack : RangeAck) : Cuts decode ack.unnumbered.encode.octets := by
  rw [octets_encode_unnumbered]
  refine ack.head.cuts_decode.bind ack.head.reads_decode ?_
  refine (Tag.firm_decodeOpening itemsTag).cuts_bind (Tag.reads_decodeOpening itemsTag) ?_
  exact fun front hfront hshort =>
    bind_of_error (decodeItems_cut ack.items front.length hfront hshort)

/-- Behind the items only the last field is left to read. -/
theorem decode_unnumbered_append (ack : RangeAck) (rest : Octets) :
    decode (ack.unnumbered.encode.octets ++ rest) =
      (Ctx.decodeUnsigned? 6 >>= fun sequence =>
        pure { ack.received with firstSequence := sequence }) rest := by
  rw [octets_encode_unnumbered]
  simp only [List.append_assoc]
  rw [decode, bind_of_ok (ack.head.reads_decode _), bind_of_ok (Tag.reads_decodeOpening itemsTag _),
    bind_of_ok (reads_decodeAllItems ack.items _),
    bind_of_ok (Tag.reads_decodeClosing itemsTag _)]
  rfl

theorem octets_encodeFirstSequence (sequence : Option UInt32) :
    (encodeFirstSequence sequence).octets = [] ∨
      ∃ value, (encodeFirstSequence sequence).octets = (Ctx.unsigned 6 value).octets := by
  cases sequence with
  | none => exact .inl rfl
  | some value =>
      by_cases hzero : value = 0
      · rw [encodeFirstSequence, if_pos hzero]
        exact .inl rfl
      · rw [encodeFirstSequence, if_neg hzero]
        exact .inr ⟨value, rfl⟩

/-- **An answer that is cut short ends early, unless just its last field is cut off.** -/
theorem decode_cut (ack : RangeAck) {front : Octets} (hfront : front <+: ack.encode.octets)
    (hshort : front ≠ ack.encode.octets) :
    decode front =
      if front = ack.unnumbered.encode.octets then .ok (ack.unnumbered.received, [])
      else .error .unexpectedEof := by
  rw [octets_encode_eq] at hfront hshort
  rcases cut_append hfront hshort with ⟨hfirst, hearly⟩ | ⟨part, rfl, hpart, hearly⟩
  · rw [if_neg hearly]
    exact ack.cuts_unnumbered front hfirst hearly
  rw [decode_unnumbered_append]
  by_cases hnone : part = []
  · rw [hnone, List.append_nil, if_pos rfl]
    rfl
  · rw [if_neg (fun heq => hnone (List.append_right_eq_self.mp heq))]
    refine bind_of_error ?_
    rcases octets_encodeFirstSequence ack.firstSequence with hnil | ⟨value, hvalue⟩
    · rw [hnil] at hpart
      exact absurd (List.prefix_nil.mp hpart) hnone
    · rw [hvalue] at hpart hearly
      exact (Ctx.firmAt_decodeUnsigned? hnone).early (Ctx.reads_decodeUnsigned? 6 value) hpart
        hearly

end RangeAck

/-! ## Requests -/

namespace Range

theorem firm_decodeCounted (choice : UInt8) (range : UInt32 → Int32 → Range) :
    Firm (decodeCounted choice range) := by
  refine App.firm_decodeUnsigned.bind fun reference => ?_
  refine App.firm_decodeSigned.bind fun count => ?_
  exact (Tag.firm_decodeClosing choice).bind_pure

theorem firm_decodeChoice_time : Firm (decodeChoice timeChoice) := by
  refine App.firm_decodeDate.bind fun date => ?_
  refine App.firm_decodeTime.bind fun time => ?_
  refine App.firm_decodeSigned.bind fun count => ?_
  exact (Tag.firm_decodeClosing timeChoice).bind_pure

/-- The part of a range behind its opening tag, of the kinds that are served. -/
theorem firm_decodeChoice {choice : UInt8}
    (hserved : choice = positionChoice ∨ choice = sequenceChoice ∨ choice = timeChoice) :
    Firm (decodeChoice choice) := by
  rcases hserved with rfl | rfl | rfl
  · exact firm_decodeCounted positionChoice byPosition
  · exact firm_decodeCounted sequenceChoice bySequence
  · exact firm_decodeChoice_time

theorem exists_enclosed {range : Range} (hserved : range.Served) (hpart : range ≠ all) :
    ∃ choice inner,
      (choice = positionChoice ∨ choice = sequenceChoice ∨ choice = timeChoice) ∧
        range.encode = enclosed choice inner := by
  cases range with
  | byPosition reference count => exact ⟨_, _, .inl rfl, rfl⟩
  | bySequence reference count => exact ⟨_, _, .inr (.inl rfl), rfl⟩
  | byTime reference count => exact ⟨_, _, .inr (.inr rfl), rfl⟩
  | all => exact absurd rfl hpart
  | unsupported choice => exact absurd rfl (hserved choice)

theorem exists_ahead {range : Range} (hserved : range.Served) (hpart : range ≠ all) :
    ∃ choice, Tag.Ahead (.opening choice) range.encode.octets := by
  obtain ⟨choice, inner, -, hencode⟩ := exists_enclosed hserved hpart
  rw [hencode]
  simp only [enclosed, octets_append, List.append_assoc]
  exact ⟨choice, Tag.ahead_encode _ _⟩

theorem decode_of_ne_nil {input : Octets} (hsome : input ≠ []) :
    decode input = (Tag.decode >>= fun tag =>
      match tag with
      | .opening choice => decodeChoice choice
      | _ => Decoder.fail .invalidTag) input := by
  rw [decode, bind_of_ok (atEnd_apply input), List.isEmpty_eq_false_iff.mpr hsome]
  rfl

theorem decode_opening (choice : UInt8) (rest : Octets) :
    decode ((Tag.opening choice).encode.octets ++ rest) = decodeChoice choice rest := by
  rw [decode_of_ne_nil (Tag.ahead_encode (.opening choice) rest).ne_nil,
    bind_of_ok (Tag.reads_decode (.opening choice) rest)]

/-- A range that is cut short ends early, unless all of it is cut off. -/
theorem decode_cut {range : Range} (hserved : range.Served) {front : Octets}
    (hfront : front <+: range.encode.octets) (hshort : front ≠ range.encode.octets)
    (hsome : front ≠ []) : decode front = .error .unexpectedEof := by
  by_cases hpart : range = all
  · rw [hpart] at hfront
    exact absurd (List.prefix_nil.mp hfront) hsome
  obtain ⟨choice, inner, hchoice, hencode⟩ := exists_enclosed hserved hpart
  have hread := reads_decode hserved hpart
  rw [hencode] at hfront hshort hread
  simp only [enclosed, octets_append, List.append_assoc] at hfront hshort hread
  -- The cut is in the opening tag or behind it.
  rcases cut_append hfront hshort with ⟨hfirst, hearly⟩ | ⟨part, rfl, hinner, hearly⟩
  · rw [decode_of_ne_nil hsome]
    exact bind_of_error
      (Tag.firm_decode.cuts (Tag.reads_decode (.opening choice)) front hfirst hearly)
  · -- Behind the opening tag the reader is bound to this kind of range, and has to see its end.
    have hbehind : Reads (decodeChoice choice)
        (inner.octets ++ (Tag.closing choice).encode.octets) range := by
      intro rest
      rw [← decode_opening, ← List.append_assoc]
      exact hread rest
    rw [decode_opening]
    exact (firm_decodeChoice hchoice).cuts hbehind part hinner hearly

end Range

namespace RangeRequest

/-- The request without its range. -/
def unranged (request : RangeRequest) : RangeRequest := { request with range := .all }

/-- The request without its array index and its range. -/
def unindexed (request : RangeRequest) : RangeRequest :=
  { request with index := none, range := .all }

theorem octets_encodeService_unindexed (request : RangeRequest) :
    request.unindexed.encodeService.octets =
      (Ctx.objectId 0 request.object).octets ++ (Ctx.unsigned 1 request.property.code).octets := by
  simp [encodeService, unindexed, Ctx.unsigned?, Range.encode]

theorem octets_encodeService_unranged (request : RangeRequest) :
    request.unranged.encodeService.octets =
      request.unindexed.encodeService.octets ++ (Ctx.unsigned? 2 request.index).octets := by
  rw [octets_encodeService_unindexed]
  simp [encodeService, unranged, Range.encode]

theorem octets_encodeService_eq (request : RangeRequest) :
    request.encodeService.octets = request.unindexed.encodeService.octets ++
      ((Ctx.unsigned? 2 request.index).octets ++ request.range.encode.octets) := by
  rw [octets_encodeService_unindexed]
  simp [encodeService]

theorem cuts_unindexed (request : RangeRequest) (invoke : UInt8) :
    Cuts (decodeService invoke) request.unindexed.encodeService.octets := by
  rw [octets_encodeService_unindexed]
  refine (Ctx.firm_decodeObjectId 0).cuts_bind (Ctx.reads_decodeObjectId 0 request.object) ?_
  exact ((Ctx.firm_decodeUnsigned 1).cuts
    (Ctx.reads_decodeUnsigned 1 request.property.code)).bind_left

/-- Behind the property only the fields are left to read that may be left out. -/
theorem decodeService_unindexed_append (request : RangeRequest) (rest : Octets) :
    decodeService request.invoke (request.unindexed.encodeService.octets ++ rest) =
      (Ctx.decodeUnsigned? 2 >>= fun index => Range.decode >>= fun range =>
        pure { request with property := PropertyId.ofCode request.property.code, index, range })
        rest := by
  rw [octets_encodeService_unindexed, List.append_assoc, decodeService,
    bind_of_ok (Ctx.reads_decodeObjectId 0 request.object _),
    bind_of_ok (Ctx.reads_decodeUnsigned 1 request.property.code _)]

/-- Cut short behind the property, a request still ends early, unless just its range is cut off. -/
theorem decode_optional_cut {request : RangeRequest} (hserved : request.range.Served)
    {front : Octets}
    (hfront : front <+: (Ctx.unsigned? 2 request.index).octets ++ request.range.encode.octets)
    (hshort : front ≠ (Ctx.unsigned? 2 request.index).octets ++ request.range.encode.octets)
    (hsome : front ≠ []) :
    (Ctx.decodeUnsigned? 2 >>= fun index => Range.decode >>= fun range =>
        pure { request with index, range }) front =
      if front = (Ctx.unsigned? 2 request.index).octets then .ok (request.unranged, [])
      else .error .unexpectedEof := by
  cases hindex : request.index with
  | none =>
      rw [hindex] at hfront hshort
      change front <+: request.range.encode.octets at hfront
      change front ≠ request.range.encode.octets at hshort
      -- The range is cut, and its opening tag, if that is whole, is no array index.
      have hcut : front ≠ (Ctx.unsigned? 2 none).octets := hsome
      rw [if_neg hcut]
      have hearly := Range.decode_cut hserved hfront hshort hsome
      have hpart : request.range ≠ .all := by
        intro hall
        rw [hall] at hfront
        exact hsome (List.prefix_nil.mp hfront)
      obtain ⟨choice, hahead⟩ := Range.exists_ahead hserved hpart
      rcases Ctx.decodeUnsigned?_of_prefix hahead (by simp) hfront hsome with hnone | habsent
      · exact bind_of_error hnone
      · rw [bind_of_ok habsent]
        exact bind_of_error hearly
  | some index =>
      rw [hindex] at hfront hshort
      -- The cut is in the index, behind it, or in the range.
      rcases cut_append hfront hshort with ⟨hfirst, hearly⟩ | ⟨part, rfl, hpart, hearly⟩
      · rw [if_neg hearly]
        exact bind_of_error ((Ctx.firmAt_decodeUnsigned? hsome).early
          (Ctx.reads_decodeUnsigned? 2 index) hfirst hearly)
      · refine (bind_of_ok (Ctx.reads_decodeUnsigned? 2 index part)).trans ?_
        by_cases hnone : part = []
        · rw [hnone, List.append_nil, if_pos rfl, unranged, hindex]
          rfl
        · rw [if_neg (fun heq => hnone (List.append_right_eq_self.mp heq))]
          exact bind_of_error (Range.decode_cut hserved hpart hearly hnone)

/-- **A request that is cut short ends early, unless just its range is cut off, or its array index
and its range.** -/
theorem decodeService_cut {request : RangeRequest} (hserved : request.range.Served)
    (hproper : request.property.Proper) {front : Octets}
    (hfront : front <+: request.encodeService.octets)
    (hshort : front ≠ request.encodeService.octets) :
    decodeService request.invoke front =
      if front = request.unindexed.encodeService.octets then .ok (request.unindexed, [])
      else if front = request.unranged.encodeService.octets then .ok (request.unranged, [])
      else .error .unexpectedEof := by
  rw [octets_encodeService_eq] at hfront hshort
  rw [octets_encodeService_unranged]
  rcases cut_append hfront hshort with ⟨hfirst, hearly⟩ | ⟨part, rfl, hpart, hearly⟩
  · have hless : front ≠ request.unindexed.encodeService.octets ++
        (Ctx.unsigned? 2 request.index).octets := by
      rintro rfl
      exact hearly (hfirst.eq_of_length_le (by simp))
    rw [if_neg hearly, if_neg hless]
    exact request.cuts_unindexed request.invoke front hfirst hearly
  rw [decodeService_unindexed_append, PropertyId.ofCode_code hproper]
  by_cases hnone : part = []
  · rw [hnone, List.append_nil, if_pos rfl]
    rfl
  rw [if_neg (fun heq => hnone (List.append_right_eq_self.mp heq))]
  simp only [List.append_right_inj]
  exact decode_optional_cut hserved hpart hearly hnone

/-- **A message that is cut short is noticed.**  Cut anywhere, the octets of an answer or of a
request end early, unless just the fields are cut off that may be left out at its end; then they
are the octets of the message without these, and are read as that. -/
theorem notices_cut :
    (∀ ack : RangeAck, (∀ record ∈ ack.items, record.Named) → ack.flags.Named →
        ack.property.Proper →
          ack.encode.Gives ack.encode.octets ∧
            ∀ front, front <+: ack.encode.octets → front ≠ ack.encode.octets →
              RangeAck.decode front =
                if front = ack.unnumbered.encode.octets then .ok (ack.unnumbered, [])
                else .error .unexpectedEof) ∧
      ∀ request : RangeRequest, request.range.Served → request.property.Proper →
        request.encodeService.Gives request.encodeService.octets ∧
          ∀ front, front <+: request.encodeService.octets →
            front ≠ request.encodeService.octets →
              decodeService request.invoke front =
                if front = request.unindexed.encodeService.octets then .ok (request.unindexed, [])
                else if front = request.unranged.encodeService.octets then
                  .ok (request.unranged, [])
                else .error .unexpectedEof := by
  refine ⟨fun ack hnamed hflags hproper => ?_, fun request hserved hproper => ?_⟩
  · have hreceived : ack.unnumbered.received =
        { ack.unnumbered with flags := ack.flags.defined } :=
      RangeAck.received_of_named hnamed hproper
    rw [FlagSet.defined_of_named hflags] at hreceived
    refine ⟨ack.plain_encode.gives, fun front hfront hshort => ?_⟩
    rw [ack.decode_cut hfront hshort, hreceived]
    rfl
  · exact ⟨(request.plain_encodeService_iff.mpr (Range.plain_encode hserved)).gives,
      fun front hfront hshort => decodeService_cut hserved hproper hfront hshort⟩

/-- Of an answer of 35 octets the first 33 are read as the answer without its last field; of a
request of 15 octets the first nine are read without the range and the first seven without the
index too.  All other parts of both end early. -/
theorem notices_cut_all :
    let record : LogRecord := ⟨⟨⟨125, 3, 14, 5⟩, ⟨10, 3, 0, 0⟩⟩, .unsigned 3, ⟨8⟩⟩
    let ack : RangeAck := ⟨ObjectId.of .trendLog 1, .logBuffer, none, ⟨1⟩, 1, [record], some 1⟩
    let request : RangeRequest :=
      ⟨ObjectId.of .trendLog 1, .logBuffer, some 4, .byPosition 1 (-10), 7⟩
    ack.encode.octets.length = 35 ∧
      RangeAck.decode (ack.encode.octets.take 33) = .ok ({ ack with firstSequence := none }, []) ∧
      (∀ count < 35, count ≠ 33 →
        RangeAck.decode (ack.encode.octets.take count) = .error .unexpectedEof) ∧
      request.encodeService.octets.length = 15 ∧
      decodeService 7 (request.encodeService.octets.take 9) =
        .ok ({ request with range := .all }, []) ∧
      decodeService 7 (request.encodeService.octets.take 7) =
        .ok ({ request with index := none, range := .all }, []) ∧
      ∀ count < 15, count ≠ 7 → count ≠ 9 →
        decodeService 7 (request.encodeService.octets.take count) = .error .unexpectedEof := by
  intro record ack request
  have hnamed : ∀ record ∈ ack.items, record.Named := by
    intro other hother
    rw [List.mem_singleton.mp hother]
    exact ⟨nofun, by decide⟩
  obtain ⟨-, hack⟩ := notices_cut.1 ack hnamed (by decide) nofun
  obtain ⟨-, hrequest⟩ := notices_cut.2 request nofun nofun
  have hackLength : ack.encode.octets.length = 35 := by decide
  have hrequestLength : request.encodeService.octets.length = 15 := by decide
  -- Parts of different lengths differ; by this each part is told from those that are read.
  have htake : ∀ {octets : Octets} {count other : Nat}, count ≤ octets.length → count ≠ other →
      ∀ {shorter : Octets}, shorter.length = other → octets.take count ≠ shorter := by
    rintro octets count other hle hne _ hlength rfl
    rw [List.length_take_of_le hle] at hlength
    exact hne hlength
  refine ⟨hackLength, ?_, fun count hcount hfield => ?_, hrequestLength, ?_, ?_,
    fun count hcount hindex hrange => ?_⟩
  · exact (hack _ (List.take_prefix 33 _) (by decide)).trans (if_pos (by decide))
  · rw [hack _ (List.take_prefix count _) (htake (by omega) (Nat.ne_of_lt hcount) hackLength),
      if_neg (htake (by omega) hfield (by decide))]
  · exact (hrequest _ (List.take_prefix 9 _) (by decide)).trans
      ((if_neg (by decide)).trans (if_pos (by decide)))
  · exact (hrequest _ (List.take_prefix 7 _) (by decide)).trans (if_pos (by decide))
  · rw [hrequest _ (List.take_prefix count _)
        (htake (by omega) (Nat.ne_of_lt hcount) hrequestLength),
      if_neg (htake (by omega) hindex (by decide)), if_neg (htake (by omega) hrange (by decide))]

end RangeRequest

end Historian
