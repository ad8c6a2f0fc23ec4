import Historian.Proofs.Wire.Ack
import Historian.Proofs.Wire.Extent
import Historian.Proofs.Wire.Header

/-!
# Range requests read back as they were written

A request for a kind of range that is served is read back and used up
(`RangeRequest.decode_encode`); for any other kind there is no encoding.  What is read back
may stand in more octets than it is written in, since integers and tags have longer forms.
It never stands in fewer (`RangeRequest.spends_decodeService`), so that the encoding of what
was read is a shortest form of it.

The array index may be missing, and so may the range, so both are told by the tag ahead of
them or by the end of the input (`Range.decodeUnsigned?_encode`).
-/

namespace Historian

open Decoder Encoding

/-! ## Ranges -/

namespace Range

/-- The range is of a kind that is served. -/
def Served (range : Range) : Prop := ∀ choice, range ≠ unsupported choice

/-- What a range with a number as its reference holds between its tags. -/
def counted (reference : UInt32) (count : Int32) : Encoding :=
  App.unsigned reference ++ App.signed count

theorem plain_counted (reference : UInt32) (count : Int32) : (counted reference count).Plain :=
  (plain_append _ _).mpr ⟨App.plain_content _ _, App.plain_content _ _⟩

theorem plain_encode {range : Range} (hserved : range.Served) : range.encode.Plain := by
  cases range with
  | byPosition reference count => exact plain_enclosed (plain_counted reference count)
  | bySequence reference count => exact plain_enclosed (plain_counted reference count)
  | byTime reference count =>
      have hstamp : (App.date reference.date ++ App.time reference.time).Plain :=
        (plain_append _ _).mpr ⟨App.plain_content _ _, App.plain_content _ _⟩
      exact plain_enclosed ((plain_append _ _).mpr ⟨hstamp, App.plain_content _ _⟩)
  | all => exact plain_nil
  | unsupported choice => exact absurd rfl (hserved choice)

theorem not_plain_encode (choice : UInt8) : ¬ (unsupported choice).encode.Plain :=
  not_plain_fault_cons _ _

theorem length_counted_le (reference : UInt32) (count : Int32) :
    (counted reference count).octets.length ≤ 10 := by
  have hreference : (App.unsigned reference).octets.length ≤ 5 :=
    App.length_content_le _ (Value.length_unsignedContent_le reference)
  have hcount : (App.signed count).octets.length ≤ 5 :=
    App.length_content_le _ (Value.length_signedContent_le count)
  rw [counted, octets_append, List.length_append]
  omega

/-- A range takes at most 17 octets. -/
theorem length_encode_le (range : Range) : range.encode.octets.length ≤ 17 := by
  have hcounted : ∀ {choice : UInt8} (reference : UInt32) (count : Int32), choice < 15 →
      (enclosed choice (counted reference count)).octets.length ≤ 12 := by
    intro choice reference count hchoice
    have hinner := length_counted_le reference count
    rw [length_enclosed hchoice]
    omega
  cases range with
  | byPosition reference count => exact Nat.le_trans (hcounted _ _ (by decide)) (by decide)
  | bySequence reference count => exact Nat.le_trans (hcounted _ _ (by decide)) (by decide)
  | byTime reference count =>
      have hdate : (App.date reference.date).octets.length ≤ 5 :=
        App.length_content_le _ (Nat.le_refl 4)
      have htime : (App.time reference.time).octets.length ≤ 5 :=
        App.length_content_le _ (Nat.le_refl 4)
      have hcount : (App.signed count).octets.length ≤ 5 :=
        App.length_content_le _ (Value.length_signedContent_le count)
      rw [encode, length_enclosed (by decide), octets_append, octets_append, List.length_append,
        List.length_append]
      omega
  | all => exact Nat.zero_le 17
  | unsupported choice => exact Nat.zero_le 17

/-! ### Reading back -/

/-- What is read behind its opening tag is read as a range. -/
theorem reads_enclosed {choice : UInt8} {inner : Encoding} {range : Range}
    (hread : Reads (decodeChoice choice)
      (inner.octets ++ (Tag.closing choice).encode.octets) range) :
    Reads decode (enclosed choice inner).octets range := by
  simp only [enclosed, octets_append, List.append_assoc]
  have hopen := (Tag.opening choice).octets_encode_ne_nil
  refine Reads.after_atEnd (List.append_ne_nil_of_left_ne_nil hopen _) ?_
  exact (Tag.reads_decode (.opening choice)).bind hread

/-- Reads a range with a number as its reference behind the opening tag. -/
def decodeCounted (choice : UInt8) (range : UInt32 → Int32 → Range) : Decoder Range := do
  let reference ← App.decodeUnsigned
  let count ← App.decodeSigned
  Tag.decodeClosing choice
  return range reference count

theorem reads_decodeCounted (choice : UInt8) (range : UInt32 → Int32 → Range)
    (reference : UInt32) (count : Int32) :
    Reads (decodeCounted choice range)
      ((counted reference count).octets ++ (Tag.closing choice).encode.octets)
      (range reference count) := by
  rw [counted, octets_append, List.append_assoc]
  refine (App.reads_decodeUnsigned reference).bind ?_
  refine (App.reads_decodeSigned count).bind ?_
  exact (Tag.reads_decodeClosing choice).bind_pure rfl

/-- A range that is not the whole list is read back in front of anything. -/
theorem reads_decode {range : Range} (hserved : range.Served) (hpart : range ≠ all) :
    Reads decode range.encode.octets range := by
  cases range with
  | byPosition reference count =>
      exact reads_enclosed (reads_decodeCounted positionChoice byPosition reference count)
  | bySequence reference count =>
      exact reads_enclosed (reads_decodeCounted sequenceChoice bySequence reference count)
  | byTime reference count =>
      refine reads_enclosed ?_
      rw [octets_append, octets_append, List.append_assoc, List.append_assoc]
      refine (App.reads_decodeDate reference.date).bind ?_
      refine (App.reads_decodeTime reference.time).bind ?_
      refine (App.reads_decodeSigned count).bind ?_
      exact (Tag.reads_decodeClosing timeChoice).bind_pure rfl
  | all => exact absurd rfl hpart
  | unsupported choice => exact absurd rfl (hserved choice)

/-- **A range is read back at the end of a request.** -/
theorem decode_encode {range : Range} (hserved : range.Served) :
    decode range.encode.octets = .ok (range, []) := by
  by_cases hpart : range = all
  · rw [hpart]
    rfl
  · exact (reads_decode hserved hpart).whole

/-- In front of a range no unsigned field is found. -/
theorem decodeUnsigned?_encode (number : UInt8) (range : Range) :
    Ctx.decodeUnsigned? number range.encode.octets = .ok (none, range.encode.octets) := by
  have henclosed : ∀ choice inner, Ctx.decodeUnsigned? number (enclosed choice inner).octets =
      .ok (none, (enclosed choice inner).octets) := by
    intro choice inner
    simp only [enclosed, octets_append, List.append_assoc]
    exact Ctx.decodeUnsigned?_of_ahead (Tag.ahead_encode (.opening choice) _) (by simp)
  cases range with
  | all => rfl
  | unsupported choice => rfl
  | _ => exact henclosed _ _

/-! ### The octets taken -/

/-- What is skipped is not given back. -/
theorem spends_skipEnclosed (number : UInt8) (fuel nested : Nat) :
    Spends (skipEnclosed number fuel nested) fun _ => 0 := by
  induction fuel generalizing nested with
  | zero => exact .fail _ _
  | succ fuel ih =>
      refine .bind_right (Tag.spends_decode.weaken fun _ => Nat.zero_le 1) fun tag => ?_
      cases tag with
      | closing found =>
          cases nested with
          | zero => exact .require _ _
          | succ outer => exact ih outer
      | opening found => exact ih (nested + 1)
      | application tag length =>
          cases tag with
          | boolean => exact ih nested
          | _ => exact .bind_right ((Spends.take _).weaken fun _ => Nat.zero_le _) fun _ => ih nested
      | context found length =>
          exact .bind_right ((Spends.take _).weaken fun _ => Nat.zero_le _) fun _ => ih nested

theorem spends_decodeCounted {choice : UInt8} (hchoice : choice < 15)
    {range : UInt32 → Int32 → Range}
    (hencode : ∀ reference count,
      (range reference count).encode = enclosed choice (counted reference count)) :
    Spends (decodeCounted choice range) fun range => range.encode.octets.length - 1 := by
  refine App.spends_decodeUnsigned.bind fun reference => ?_
  refine App.spends_decodeSigned.bind fun count => ?_
  refine (Tag.spends_decodeClosing choice).bind fun _ => .pure ?_
  rw [hencode, length_enclosed hchoice, counted, octets_append, List.length_append]
  omega

/-- A range takes what it is written in behind the opening tag. -/
theorem spends_decodeChoice (choice : UInt8) :
    Spends (decodeChoice choice) fun range => range.encode.octets.length - 1 := by
  unfold decodeChoice
  split
  · rename_i hposition
    rw [hposition]
    exact spends_decodeCounted (by decide) fun _ _ => rfl
  split
  · rename_i hsequence
    rw [hsequence]
    exact spends_decodeCounted (by decide) fun _ _ => rfl
  split
  · refine App.spends_decodeDate.bind fun date => ?_
    refine App.spends_decodeTime.bind fun time => ?_
    refine App.spends_decodeSigned.bind fun count => ?_
    refine (Tag.spends_decodeClosing choice).bind fun _ => .pure ?_
    rw [encode, length_enclosed (by decide), octets_append, octets_append, List.length_append,
      List.length_append]
    dsimp only
    omega
  · exact .bind_right (fun input => spends_skipEnclosed choice input.length 0 input)
      fun _ => .pure rfl

theorem spends_decode : Spends decode fun range => range.encode.octets.length := by
  refine .bind_right .atEnd fun ended => ?_
  split
  · exact .pure rfl
  · refine Tag.spends_decode.bind fun tag => ?_
    cases tag with
    | opening choice => exact spends_decodeChoice choice
    | _ => exact .fail _ _

end Range

/-! ## Requests -/

namespace RangeRequest

variable {request : RangeRequest}

theorem plain_encodeService_iff (request : RangeRequest) :
    request.encodeService.Plain ↔ request.range.encode.Plain := by
  simp [encodeService, Ctx.objectId, Ctx.plain_content, Ctx.plain_unsigned, Ctx.plain_unsigned?]

theorem plain_encode_iff (request : RangeRequest) :
    request.encode.Plain ↔ request.range.encode.Plain := by
  rw [encode, plain_append, plain_encodeService_iff]
  exact and_iff_right (RequestHeader.plain_encode_of _ _)

/-- The parameters of a request take at most 32 octets. -/
theorem length_encodeService_le (request : RangeRequest) :
    request.encodeService.octets.length ≤ 32 := by
  have hobject : (Ctx.objectId 0 request.object).octets.length = 5 := rfl
  have hproperty : (Ctx.unsigned 1 request.property.code).octets.length ≤ 5 :=
    Ctx.length_unsigned_le _ (by decide)
  have hindex : (Ctx.unsigned? 2 request.index).octets.length ≤ 5 :=
    Ctx.length_unsigned?_le _ (by decide)
  have hrange := request.range.length_encode_le
  simp only [encodeService, octets_append, List.length_append, hobject]
  omega

theorem decodeService_encodeService (hserved : request.range.Served)
    (hproper : request.property.Proper) :
    decodeService request.invoke request.encodeService.octets = .ok (request, []) := by
  simp only [encodeService, octets_append, List.append_assoc]
  have hindex : Ctx.decodeUnsigned? 2
      ((Ctx.unsigned? 2 request.index).octets ++ request.range.encode.octets) =
        .ok (request.index, request.range.encode.octets) := by
    cases request.index with
    | none => exact request.range.decodeUnsigned?_encode 2
    | some index => exact Ctx.reads_decodeUnsigned? 2 index _
  rw [decodeService, bind_of_ok (Ctx.reads_decodeObjectId 0 request.object _),
    bind_of_ok (Ctx.reads_decodeUnsigned 1 request.property.code _), bind_of_ok hindex,
    bind_of_ok (Range.decode_encode hserved), PropertyId.ofCode_code hproper]
  rfl

/-- **A request is read back as it was written, and used up.** -/
theorem decode_encode (hserved : request.range.Served) (hproper : request.property.Proper) :
    RequestHeader.decode request.encode.octets =
        .ok (RequestHeader.of request.invoke service, request.encodeService.octets) ∧
      decodeService request.invoke request.encodeService.octets = .ok (request, []) := by
  refine ⟨?_, decodeService_encodeService hserved hproper⟩
  rw [encode, octets_append]
  exact RequestHeader.reads_decode_of request.invoke service _

/-- What was read has the form of what can be written. -/
theorem of_decodeService_eq_ok {invoke : UInt8} {input rest : Octets}
    (hread : decodeService invoke input = .ok (request, rest)) :
    request.invoke = invoke ∧ request.property.Proper := by
  obtain ⟨object, _, -, hread⟩ := exists_of_bind_eq_ok hread
  obtain ⟨property, _, -, hread⟩ := exists_of_bind_eq_ok hread
  obtain ⟨index, _, -, hread⟩ := exists_of_bind_eq_ok hread
  obtain ⟨range, _, -, hread⟩ := exists_of_bind_eq_ok hread
  cases hread
  exact ⟨rfl, PropertyId.proper_ofCode property⟩

/-- **No request is read from fewer octets than it is written in.** -/
theorem spends_decodeService (invoke : UInt8) :
    Spends (decodeService invoke) fun request => request.encodeService.octets.length := by
  refine (Ctx.spends_decodeObjectId (by decide)).bind fun object => ?_
  refine (Ctx.spends_decodeUnsigned (by decide)).bind fun property => ?_
  refine (Ctx.spends_decodeUnsigned? (by decide)).bind fun index => ?_
  refine Range.spends_decode.bind fun range => .pure ?_
  simp only [encodeService, octets_append, List.length_append, PropertyId.code_ofCode]
  omega

/-- **Requests survive the wire and have a shortest form.**  A request for a served kind of
range is written wherever there is room, and is read back as it was and used up; for another
kind nothing is ever written.  Octets that are read as a request for a served kind of range
and used up are no fewer than it is written in, and that is read back to the same request. -/
theorem shortest_form :
    (∀ request : RangeRequest, request.range.Served → request.property.Proper →
        request.encode.Gives request.encode.octets ∧
          ∃ header parameters,
            RequestHeader.decode request.encode.octets = .ok (header, parameters) ∧
              header = RequestHeader.of request.invoke service ∧
              decodeService header.invoke parameters = .ok (request, [])) ∧
      (∀ request : RangeRequest, ¬ request.range.Served → ∀ capacity octets,
        request.encode.within capacity ≠ .ok octets ∧
          request.encodeService.within capacity ≠ .ok octets) ∧
      ∀ (invoke : UInt8) (input : Octets) (request : RangeRequest),
        decodeService invoke input = .ok (request, []) → request.range.Served →
          request.encodeService.Gives request.encodeService.octets ∧
            request.encodeService.octets.length ≤ input.length ∧
            decodeService invoke request.encodeService.octets = .ok (request, []) := by
  refine ⟨fun request hserved hproper => ?_, fun request hother capacity octets => ?_,
    fun invoke input request hread hserved => ?_⟩
  · obtain ⟨hheader, hservice⟩ := decode_encode hserved hproper
    have hplain := request.plain_encode_iff.mpr (Range.plain_encode hserved)
    exact ⟨hplain.gives, _, _, hheader, rfl, hservice⟩
  · have hfault : ¬ request.range.encode.Plain := by
      intro hplain
      refine hother fun choice hrange => ?_
      rw [hrange] at hplain
      exact Range.not_plain_encode choice hplain
    exact ⟨fun hwritten => hfault (request.plain_encode_iff.mp (of_within_eq_ok hwritten).1),
      fun hwritten => hfault (request.plain_encodeService_iff.mp (of_within_eq_ok hwritten).1)⟩
  · obtain ⟨rfl, hproper⟩ := of_decodeService_eq_ok hread
    have hplain := request.plain_encodeService_iff.mpr (Range.plain_encode hserved)
    have hspent := spends_decodeService request.invoke input request [] hread
    rw [List.length_nil, Nat.zero_add] at hspent
    exact ⟨hplain.gives, hspent, decodeService_encodeService hserved hproper⟩

/-- A request of twenty octets, the integers and two tags in longer forms than they need, is
written in thirteen. -/
theorem shortest_form_thirteen :
    let input : Octets := [0x0D, 4, 5, 0, 0, 1, 0x1A, 0, 131, 0x3E, 0x24, 0, 0, 0, 1,
      0x32, 255, 246, 0xFF, 3]
    let request : RangeRequest :=
      ⟨ObjectId.of .trendLog 1, .logBuffer, none, .byPosition 1 (-10), 7⟩
    decodeService 7 input = .ok (request, []) ∧ request.range.Served ∧
      request.encodeService.octets =
        [0x0C, 5, 0, 0, 1, 0x19, 131, 0x3E, 0x21, 1, 0x31, 246, 0x3F] ∧
      decodeService 7 request.encodeService.octets = .ok (request, []) := by
  intro input request
  have hread : decodeService 7 input = .ok (request, []) := by decide
  have hserved : request.range.Served := nofun
  obtain ⟨-, -, hshortest⟩ := shortest_form
  obtain ⟨-, -, hback⟩ := hshortest 7 input request hread hserved
  exact ⟨hread, hserved, by decide, hback⟩

end RangeRequest

end Historian
