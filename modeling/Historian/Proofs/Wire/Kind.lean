import Historian.Proofs.Wire.Header

/-!
# No message is taken for one of another kind

Five kinds of messages have a head that is written and read here: requests, acknowledgements,
errors, rejects and aborts.  A head is read back in front of whatever follows it, and the decoders
of the other four kinds refuse it (`MessageKind.heads_unambiguous`).

Each decoder begins with the kind in the high half of the first octet.  The flags stay in the low
half, so the encoding of a head names its own kind there, and a decoder of another kind stops
before it has looked at anything else (`MessageKind.readOnlyAs_of_first`).
-/

namespace Historian

open Decoder Encoding

namespace MessageKind

variable {kind other : MessageKind} {flags : UInt8}

theorem number_injective (hnumber : kind.number = other.number) : kind = other := by
  have hback : ∀ kind : MessageKind, ofNumber? kind.number = some kind := by
    intro kind
    cases kind <;> rfl
  exact Option.some.inj ((hback kind).symm.trans ((congrArg ofNumber? hnumber).trans (hback other)))

/-- A decoder of another kind stops at the first octet. -/
theorem refuses_other {α : Type} (hother : kind ≠ other) (hflags : flags.toNat < 16)
    (next : UInt8 → Decoder α) (rest : Octets) :
    (other.decodeFirst >>= next) ((kind.highHalf + flags) :: rest) = .error .invalidValue := by
  have hnumber : kind.number ≠ other.number := fun hsame => hother (number_injective hsame)
  apply bind_of_error
  rw [decodeFirst, octet_bind_cons, kind.highHalf_add_div hflags, decide_eq_false hnumber]
  rfl

/-- Whatever follows `octets`, only heads of `kind` are read from them. -/
structure ReadOnlyAs (kind : MessageKind) (octets : Octets) : Prop where
  request (hother : kind ≠ .confirmedRequest) (tail : Octets) :
    RequestHeader.decode (octets ++ tail) = .error .invalidValue
  ack (hother : kind ≠ .complexAck) (tail : Octets) :
    AckHeader.decode (octets ++ tail) = .error .invalidValue
  error (hother : kind ≠ .error) (tail : Octets) :
    ErrorMessage.decode (octets ++ tail) = .error .invalidValue
  reject (hother : kind ≠ .reject) (tail : Octets) :
    RejectMessage.decode (octets ++ tail) = .error .invalidValue
  abort (hother : kind ≠ .abort) (tail : Octets) :
    AbortMessage.decode (octets ++ tail) = .error .invalidValue

/-- The first octet settles the kind. -/
theorem readOnlyAs_of_first (kind : MessageKind) (hflags : flags.toNat < 16) (rest : Octets) :
    ReadOnlyAs kind ((kind.highHalf + flags) :: rest) where
  request hother _ := refuses_other hother hflags _ _
  ack hother _ := refuses_other hother hflags _ _
  error hother _ := refuses_other hother hflags _ _
  reject hother _ := refuses_other hother hflags _ _
  abort hother _ := refuses_other hother hflags _ _

/-- A head is written as `encoding`, and read back by `decoder` in front of any tail. -/
structure ReadBack {α : Type} (decoder : Decoder α) (encoding : Encoding) (head : α) : Prop where
  gives : encoding.Gives encoding.octets
  back (tail : Octets) : decoder (encoding.octets ++ tail) = .ok (head, tail)

end MessageKind

/-! ## The five heads -/

open MessageKind

theorem RequestHeader.readOnlyAs (header : RequestHeader) :
    ReadOnlyAs .confirmedRequest header.encode.octets := by
  rw [octets_encode]
  exact readOnlyAs_of_first .confirmedRequest (Segment.allFlags_lt _ _) _

theorem AckHeader.readOnlyAs (header : AckHeader) :
    ReadOnlyAs .complexAck header.encode.octets := by
  rw [octets_encode]
  exact readOnlyAs_of_first .complexAck (Segment.allFlags_lt _ _) _

theorem ErrorMessage.readOnlyAs (message : ErrorMessage) :
    ReadOnlyAs .error message.encode.octets := by
  rw [encode, octets_append]
  exact readOnlyAs_of_first .error (by decide : (0 : UInt8).toNat < 16) _

theorem RejectMessage.readOnlyAs (message : RejectMessage) :
    ReadOnlyAs .reject message.encode.octets :=
  readOnlyAs_of_first .reject (by decide : (0 : UInt8).toNat < 16) _

theorem AbortMessage.readOnlyAs (message : AbortMessage) :
    ReadOnlyAs .abort message.encode.octets :=
  readOnlyAs_of_first .abort (serverFlag_lt message.server) _

namespace MessageKind

/-- **The heads of messages are unambiguous.**  What is written is refused by the decoders of the
other kinds.  Every head, provided that the codes of sizes fit into their four bits and that an
error has both class and code, is read back as it was, and what follows it is left.  An error is
read back alike from each of the layouts in which class and code may stand. -/
theorem heads_unambiguous :
    (∀ header : RequestHeader, ReadOnlyAs .confirmedRequest header.encode.octets ∧
        (header.Sized → ReadBack RequestHeader.decode header.encode header)) ∧
      (∀ header : AckHeader, ReadOnlyAs .complexAck header.encode.octets ∧
        ReadBack AckHeader.decode header.encode header) ∧
      (∀ message : ErrorMessage, ReadOnlyAs .error message.encode.octets ∧
        (message.classCode.isSome → message.errorCode.isSome →
          ReadBack ErrorMessage.decode message.encode message)) ∧
      (∀ message : RejectMessage, ReadOnlyAs .reject message.encode.octets ∧
        ReadBack RejectMessage.decode message.encode message) ∧
      (∀ message : AbortMessage, ReadOnlyAs .abort message.encode.octets ∧
        ReadBack AbortMessage.decode message.encode message) ∧
      ∀ invoke service classCode errorCode,
        ∀ layout ∈ ErrorMessage.layouts classCode errorCode,
          layout.Gives layout.octets ∧
            ∀ tail, ErrorMessage.decode (([80, invoke, service] ++ layout.octets) ++ tail) =
              .ok (⟨invoke, service, some classCode, some errorCode⟩, tail) := by
  refine ⟨fun header => ?_, fun header => ?_, fun message => ?_, fun message => ?_,
    fun message => ?_, ?_⟩
  · exact ⟨header.readOnlyAs,
      fun hsized => ⟨header.plain_encode.gives, RequestHeader.reads_decode hsized⟩⟩
  · exact ⟨header.readOnlyAs, header.plain_encode.gives, header.reads_decode⟩
  · refine ⟨message.readOnlyAs, fun hclass hcode => ⟨message.plain_encode.gives, ?_⟩⟩
    obtain ⟨invoke, service, classCode, errorCode⟩ := message
    obtain ⟨classCode, rfl⟩ := Option.isSome_iff_exists.mp hclass
    obtain ⟨errorCode, rfl⟩ := Option.isSome_iff_exists.mp hcode
    exact ErrorMessage.reads_decode invoke service classCode errorCode
  · exact ⟨message.readOnlyAs, message.plain_encode.gives, message.reads_decode⟩
  · exact ⟨message.readOnlyAs, message.plain_encode.gives, message.reads_decode⟩
  · intro invoke service classCode errorCode layout hlayout
    exact ⟨(ErrorMessage.plain_of_mem_layouts hlayout).gives,
      ErrorMessage.reads_decode_of_mem_layouts invoke service hlayout⟩

/-- A request that is a segment and sets every flag, a segment of an acknowledgement, and an error
whose class and code of two and four octets are enclosed. -/
theorem heads_unambiguous_segments :
    let request : RequestHeader := ⟨some ⟨7, 16, true⟩, true, 15, 15, 1, 26⟩
    let ack : AckHeader := ⟨some ⟨8, 16, false⟩, 1, 26⟩
    let message : ErrorMessage := ⟨1, 26, some 256, some 4294967295⟩
    request.Sized ∧ request.encode.octets = [14, 255, 1, 7, 16, 26] ∧
      RequestHeader.decode [14, 255, 1, 7, 16, 26, 9] = .ok (request, [9]) ∧
      AckHeader.decode [14, 255, 1, 7, 16, 26, 9] = .error .invalidValue ∧
      ack.encode.octets = [56, 1, 8, 16, 26] ∧
      AckHeader.decode [56, 1, 8, 16, 26] = .ok (ack, []) ∧
      AbortMessage.decode [56, 1, 8, 16, 26] = .error .invalidValue ∧
      message.classCode.isSome ∧ message.errorCode.isSome ∧
      ErrorMessage.decode [80, 1, 26, 146, 1, 0, 148, 255, 255, 255, 255] = .ok (message, []) ∧
      ErrorMessage.decode [80, 1, 26, 14, 10, 1, 0, 28, 255, 255, 255, 255, 15] =
        .ok (message, []) := by
  intro request ack message
  have hsized : request.Sized := ⟨by decide, by decide⟩
  obtain ⟨hrequests, hacks, herrors, -, -, hlayouts⟩ := heads_unambiguous
  obtain ⟨hrequest, hback⟩ := hrequests request
  obtain ⟨hack, hackBack⟩ := hacks ack
  obtain ⟨-, herror⟩ := herrors message
  have hmem : enclosed 0 (Ctx.enumerated 0 256 ++ Ctx.enumerated 1 4294967295) ∈
      ErrorMessage.layouts 256 4294967295 := by simp [ErrorMessage.layouts]
  obtain ⟨-, henclosed⟩ := hlayouts 1 26 256 4294967295 _ hmem
  exact ⟨hsized, rfl, (hback hsized).back [9], hrequest.ack (by decide) [9], rfl,
    hackBack.back [], hack.abort (by decide) [], rfl, rfl, (herror rfl rfl).back [], henclosed []⟩

end MessageKind

end Historian
