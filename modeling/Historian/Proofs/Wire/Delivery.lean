import Historian.Proofs.Wire.Property
import Historian.Proofs.Wire.Request

/-!
# Property values arrive as they were sent

A value can be written unless it is too long for the length field of a tag or counts more unused
bits than an octet has (`PropertyValue.plain_encode_iff`).  Every value that can be written arrives
as it was, whatever follows it, and so do the requests for properties and the answers with values
(`PropertyValue.arrives_as_sent`).

Status flags are the exception.  They travel as a bit string of four bits and arrive as one, from
which the flags that have a name can be read again.
-/

namespace Historian

open Decoder Encoding

/-! ## What can be written -/

namespace Value

variable {head : UInt32 → Tag}

/-- A counted content can be written exactly if it is not too long. -/
theorem plain_counted_iff {lead : UInt8} {content : Octets} :
    (counted head lead content).Plain ↔ content.length + 1 ≤ lengthLimit := by
  refine ⟨length_le_of_plain_counted, fun hlength => ?_⟩
  rw [counted, if_pos hlength]
  simp [Tag.plain_encode]

theorem plain_bitString_iff {value : BitString} :
    (bitString head value).Plain ↔ value.unused ≤ 7 ∧ value.data.length + 1 ≤ lengthLimit := by
  refine ⟨bounds_of_plain_bitString, fun ⟨hunused, hlength⟩ => ?_⟩
  rw [bitString, if_neg (UInt8.not_lt.mpr hunused)]
  exact plain_counted_iff.mpr hlength

end Value

namespace PropertyValue

variable {value : PropertyValue}

/-- A text and a bit string have an octet in front, with which their length must fit into a tag. -/
def Writable : PropertyValue → Prop
  | text value => (Value.textOctets value).length + 1 ≤ Value.lengthLimit
  | bitString value => value.unused ≤ 7 ∧ value.data.length + 1 ≤ Value.lengthLimit
  | _ => True

/-- **Nothing else can stand in the way of writing a value.** -/
theorem plain_encode_iff (value : PropertyValue) : value.encode.Plain ↔ value.Writable := by
  cases value with
  | text value => exact Value.plain_counted_iff
  | bitString value => exact Value.plain_bitString_iff
  | statusFlags value =>
      exact iff_of_true (Value.plain_bitString_iff.mpr
        ⟨value.unused_toBitString_le, of_decide_eq_true rfl⟩) trivial
  | boolean value =>
      have hplain : (App.boolean value).Plain := Tag.plain_encode _
      exact iff_of_true hplain trivial
  | _ => exact iff_of_true (App.plain_content _ _) trivial

/-- The value is of a kind that arrives as it was. -/
def Lasting (value : PropertyValue) : Prop := ∀ flags, value ≠ statusFlags flags

theorem received_of_lasting (hlasting : value.Lasting) : value.received = value := by
  cases value with
  | statusFlags flags => exact absurd rfl (hlasting flags)
  | _ => rfl

theorem reads_decode_of_lasting (hwritable : value.Writable) (hlasting : value.Lasting) :
    Reads decode value.encode.octets value := by
  have hread := reads_decode (value.plain_encode_iff.mpr hwritable)
  rwa [received_of_lasting hlasting] at hread

end PropertyValue

/-! ## Requests and answers -/

namespace PropertyRequest

variable {request : PropertyRequest}

theorem plain_encode (request : PropertyRequest) : request.encode.Plain := by
  simp [encode, encodeService, RequestHeader.plain_encode_of, Ctx.objectId, Ctx.plain_content,
    Ctx.plain_unsigned, Ctx.plain_unsigned?]

theorem decodeService_encodeService (hproper : request.property.Proper) :
    decodeService request.invoke request.encodeService.octets = .ok (request, []) := by
  simp only [encodeService, octets_append, List.append_assoc]
  rw [decodeService, bind_of_ok (Ctx.reads_decodeObjectId 0 request.object _),
    bind_of_ok (Ctx.reads_decodeUnsigned 1 request.property.code _),
    bind_of_ok (Ctx.decodeUnsigned?_last 2 request.index), PropertyId.ofCode_code hproper]
  rfl

/-- **A request is read back as it was written, and used up.** -/
theorem decode_encode (hproper : request.property.Proper) :
    RequestHeader.decode request.encode.octets =
        .ok (RequestHeader.of request.invoke service, request.encodeService.octets) ∧
      decodeService request.invoke request.encodeService.octets = .ok (request, []) := by
  refine ⟨?_, decodeService_encodeService hproper⟩
  rw [encode, octets_append]
  exact RequestHeader.reads_decode_of request.invoke service _

end PropertyRequest

namespace PropertyAck

variable {ack : PropertyAck}

theorem received_of_lasting (hproper : ack.property.Proper) (hlasting : ack.value.Lasting) :
    ack.received = ack := by
  rw [received, PropertyId.ofCode_code hproper, PropertyValue.received_of_lasting hlasting]

end PropertyAck

/-! ## Values on the wire -/

namespace PropertyValue

/-- **Property values arrive as they were sent.**  A value that can be written and is not a set of
status flags is read back and leaves what follows it.  Status flags are read as a bit string with
four unused bits, which stands for those of them that have a name.  Requests, and answers with
values that arrive as they were, are read back to the last octet. -/
theorem arrives_as_sent :
    (∀ value : PropertyValue, value.Writable → value.Lasting →
        value.encode.Gives value.encode.octets ∧
          ∀ tail, decode (value.encode.octets ++ tail) = .ok (value, tail)) ∧
      (∀ flags : StatusFlags,
        (statusFlags flags).encode.Gives (statusFlags flags).encode.octets ∧
          ∃ bits : BitString, bits.unused = 4 ∧ FlagSet.ofBitString bits = flags.defined ∧
            ∀ tail, decode ((statusFlags flags).encode.octets ++ tail) =
              .ok (bitString bits, tail)) ∧
      (∀ request : PropertyRequest, request.property.Proper →
        request.encode.Gives request.encode.octets ∧
          ∃ header parameters,
            RequestHeader.decode request.encode.octets = .ok (header, parameters) ∧
              header = RequestHeader.of request.invoke PropertyRequest.service ∧
              PropertyRequest.decodeService header.invoke parameters = .ok (request, [])) ∧
      ∀ ack : PropertyAck, ack.property.Proper → ack.value.Writable → ack.value.Lasting →
        ack.encode.Gives ack.encode.octets ∧
          PropertyAck.decode ack.encode.octets = .ok (ack, []) := by
  refine ⟨fun value hwritable hlasting => ?_, fun flags => ?_, fun request hproper => ?_,
    fun ack hproper hwritable hlasting => ?_⟩
  · exact ⟨(value.plain_encode_iff.mpr hwritable).gives, reads_decode_of_lasting hwritable hlasting⟩
  · have hplain : (statusFlags flags).encode.Plain := (plain_encode_iff _).mpr trivial
    exact ⟨hplain.gives, flags.toBitString, rfl, flags.ofBitString_toBitString,
      reads_decode hplain⟩
  · obtain ⟨hheader, hservice⟩ := PropertyRequest.decode_encode hproper
    exact ⟨request.plain_encode.gives, _, _, hheader, rfl, hservice⟩
  · have hplain := ack.plain_encode_iff.mpr (ack.value.plain_encode_iff.mpr hwritable)
    have hread := (PropertyAck.reads_decode hplain).whole
    rw [PropertyAck.received_of_lasting hproper hlasting] at hread
    exact ⟨hplain.gives, hread⟩

/-- An answer with 300 octets of bits behind an array index, whose length takes three octets of
its own, a request for an element that has the largest index, and flags of which one has no name. -/
theorem arrives_as_sent_long :
    let value : PropertyValue := bitString ⟨7, List.replicate 300 0x3F⟩
    let ack : PropertyAck := ⟨ObjectId.of .trendLog 1, .other 600, some 3, value⟩
    let request : PropertyRequest :=
      ⟨ObjectId.of .trendLog 1, .logBuffer, some 4294967295, 255⟩
    value.Writable ∧ value.Lasting ∧ ack.property.Proper ∧ request.property.Proper ∧
      (∀ tail, decode (value.encode.octets ++ tail) = .ok (value, tail)) ∧
      PropertyAck.decode ack.encode.octets = .ok (ack, []) ∧
      PropertyRequest.decodeService 255 request.encodeService.octets = .ok (request, []) ∧
      ∃ bits : BitString, FlagSet.ofBitString bits = (⟨9⟩ : StatusFlags) ∧
        decode ((statusFlags ⟨25⟩).encode.octets ++ [7]) = .ok (bitString bits, [7]) := by
  intro value ack request
  have hwritable : value.Writable := by
    refine ⟨by decide, ?_⟩
    rw [List.length_replicate]
    decide
  have hlasting : value.Lasting := nofun
  have hproper : ack.property.Proper := by
    intro code hcode
    cases hcode
    rfl
  have hnamed : request.property.Proper := nofun
  -- Only the flags are changed on the way: the one without a name does not arrive.
  obtain ⟨hvalues, hflags, hrequests, hacks⟩ := arrives_as_sent
  obtain ⟨-, hvalue⟩ := hvalues value hwritable hlasting
  obtain ⟨-, bits, -, hbits, hread⟩ := hflags ⟨25⟩
  obtain ⟨-, header, parameters, hheader, rfl, hservice⟩ := hrequests request hnamed
  obtain ⟨-, hack⟩ := hacks ack hproper hwritable hlasting
  have hparameters : parameters = request.encodeService.octets :=
    (congrArg Prod.snd (Except.ok.inj
      ((PropertyRequest.decode_encode hnamed).1.symm.trans hheader))).symm
  rw [hparameters] at hservice
  exact ⟨hwritable, hlasting, hproper, hnamed, hvalue, hack, hservice, bits, hbits, hread [7]⟩

end PropertyValue

end Historian
