import Historian.Device.Responder
import Historian.Proofs.Link.Transport
import Historian.Proofs.Reply
import Historian.Proofs.Wire.Network

/-!
# Which frames are answered, and how

A frame asks for an answer if it holds a request (`Device.Asks`), and is passed over if
it holds something else behind its network header (`Device.Passes`); any other frame
cannot be read.  `Device.reply_iff_asks` says that the three cases are told apart, and
that every answer is one complete message behind the header that leads it back
(`Device.Answers`).

## Strategy

No answer needs more than seven octets, and every requester takes at least fifty.  So
there is always room for one (`RequestHeader.fifty_le_maxReplyLength`), and nothing that
is looked up on the way can keep the device from answering.
-/

namespace Historian

open Decoder Encoding

/-! ## Kinds of messages -/

theorem MessageKind.ofFirstOctet?_eq_confirmedRequest_iff (first : UInt8) :
    ofFirstOctet? first = some confirmedRequest ↔ first.toNat / 16 = 0 := by
  have hhalf : first / 16 = 0 ↔ first.toNat / 16 = 0 := by
    rw [← UInt8.toNat_inj, UInt8.toNat_div]
    rfl
  rw [ofFirstOctet?, ← hhalf]
  constructor
  · intro hkind
    unfold ofNumber? at hkind
    split at hkind
    · assumption
    all_goals cases hkind
  · intro hzero
    rw [hzero]
    rfl

/-- **Every requester takes fifty octets.** -/
theorem RequestHeader.fifty_le_maxReplyLength (header : RequestHeader) :
    50 ≤ header.maxReplyLength := by
  have hlengths : ∀ length ∈ [50, 128, 206, 480, 1024, 1476], 50 ≤ length := by decide
  rw [maxReplyLength, List.getD_eq_getElem?_getD]
  cases hcode : [50, 128, 206, 480, 1024, 1476][header.maxReply.toNat]? with
  | none => decide
  | some length => exact hlengths length (List.mem_of_getElem? hcode)

namespace Device

/-! ## The request in a frame -/

/-- A frame holds a request: what follows the network header starts with an octet whose
high half is 0, and with the head of a request. -/
def Asks (frame : Octets) (network : NetworkHeader) (header : RequestHeader)
    (service : Octets) : Prop :=
  ∃ first rest, NetworkHeader.decode frame = .ok (network, first :: rest) ∧
    network.isNetworkMessage = false ∧ first.toNat / 16 = 0 ∧
    RequestHeader.decode (first :: rest) = .ok (header, service)

/-- A frame holds something other than a request behind its network header. -/
def Passes (frame : Octets) : Prop :=
  ∃ network rest, NetworkHeader.decode frame = .ok (network, rest) ∧
    (network.isNetworkMessage = true ∨ rest = [] ∨
      ∃ first, rest.head? = some first ∧ first.toNat / 16 ≠ 0)

section

variable {frame rest : Octets} {network : NetworkHeader}

theorem decodeRequest_of_message (hnetwork : NetworkHeader.decode frame = .ok (network, rest))
    (hmessage : network.isNetworkMessage = true) : decodeRequest frame = .ok (none, rest) := by
  unfold decodeRequest
  rw [bind_of_ok hnetwork, hmessage]
  rfl

theorem decodeRequest_of_nil (hnetwork : NetworkHeader.decode frame = .ok (network, [])) :
    decodeRequest frame = .ok (none, []) := by
  unfold decodeRequest
  rw [bind_of_ok hnetwork, bind_of_ok (atEnd_apply [])]
  simp only [List.isEmpty_nil, Bool.or_true, if_true]
  rfl

theorem decodeRequest_of_cons {first : UInt8}
    (hnetwork : NetworkHeader.decode frame = .ok (network, first :: rest))
    (hmessage : network.isNetworkMessage = false) :
    decodeRequest frame =
      if first.toNat / 16 = 0 then
        (RequestHeader.decode >>= fun header => pure (some (network, header))) (first :: rest)
      else .ok (none, first :: rest) := by
  have hpeek : peek octet (first :: rest) = .ok (first, first :: rest) := rfl
  unfold decodeRequest
  rw [bind_of_ok hnetwork, bind_of_ok (atEnd_apply (first :: rest)), hmessage]
  simp only [List.isEmpty_cons, Bool.or_self, Bool.false_eq_true, if_false]
  rw [bind_of_ok hpeek]
  by_cases hrequest : first.toNat / 16 = 0
  · rw [if_pos hrequest,
      if_pos ((MessageKind.ofFirstOctet?_eq_confirmedRequest_iff first).mpr hrequest)]
  · have hkind := (MessageKind.ofFirstOctet?_eq_confirmedRequest_iff first).not.mpr hrequest
    rw [if_neg hrequest, if_neg hkind]
    rfl

/-! ### What is read from a frame -/

theorem decodeRequest_of_asks {header : RequestHeader} {service : Octets}
    (hasks : Asks frame network header service) :
    decodeRequest frame = .ok (some (network, header), service) := by
  obtain ⟨first, rest, hnetwork, hmessage, hfirst, hheader⟩ := hasks
  rw [decodeRequest_of_cons hnetwork hmessage, if_pos hfirst, bind_of_ok hheader]
  rfl

theorem decodeRequest_of_passes (hpasses : Passes frame) :
    ∃ rest, decodeRequest frame = .ok (none, rest) := by
  obtain ⟨network, rest, hnetwork, hother⟩ := hpasses
  cases hmessage : network.isNetworkMessage with
  | true => exact ⟨rest, decodeRequest_of_message hnetwork hmessage⟩
  | false =>
      rcases hother with htrue | rfl | ⟨first, hfirst, hkind⟩
      · rw [hmessage] at htrue
        cases htrue
      · exact ⟨[], decodeRequest_of_nil hnetwork⟩
      · obtain ⟨tail, rfl⟩ := List.head?_eq_some_iff.mp hfirst
        exact ⟨first :: tail, by rw [decodeRequest_of_cons hnetwork hmessage, if_neg hkind]⟩

/-- A frame from which the device reads anything is one or the other. -/
theorem of_decodeRequest_eq_ok {found : Option (NetworkHeader × RequestHeader)}
    (hread : decodeRequest frame = .ok (found, rest)) :
    match found with
    | some (network, header) => Asks frame network header rest
    | none => Passes frame := by
  have hfirst := hread
  rw [decodeRequest] at hfirst
  obtain ⟨network, behind, hnetwork, -⟩ := exists_of_bind_eq_ok hfirst
  -- The cases are those in which the device stops reading, one after the other.
  cases hmessage : network.isNetworkMessage with
  | true =>
      rw [decodeRequest_of_message hnetwork hmessage] at hread
      cases hread
      exact ⟨network, _, hnetwork, .inl hmessage⟩
  | false =>
      cases behind with
      | nil =>
          rw [decodeRequest_of_nil hnetwork] at hread
          cases hread
          exact ⟨network, _, hnetwork, .inr (.inl rfl)⟩
      | cons first tail =>
          rw [decodeRequest_of_cons hnetwork hmessage] at hread
          split at hread
          · rename_i hkind
            obtain ⟨header, service, hheader, hresult⟩ := exists_of_bind_eq_ok hread
            cases hresult
            exact ⟨first, tail, hnetwork, hmessage, hkind, hheader⟩
          · rename_i hkind
            cases hread
            exact ⟨network, _, hnetwork, .inr (.inr ⟨first, rfl, hkind⟩)⟩

end

/-! ## The message of an answer -/

/-- A message of at most `capacity` octets answers a request.  Segmented requests are aborted,
and services other than the two that are offered are rejected. -/
structure Answers (header : RequestHeader) (capacity : Nat) (message : Octets) : Prop where
  fits : message.length ≤ capacity
  complete : Reply.Complete header.invoke header.service message
  segmented : header.isSegmented = true →
    AbortMessage.decode message = .ok (⟨true, header.invoke, 4⟩, [])
  unrecognized : header.isSegmented = false → header.service ≠ RangeRequest.service →
    header.service ≠ PropertyRequest.service →
    RejectMessage.decode message = .ok (.of header.invoke .unrecognizedService, [])

section

variable {header : RequestHeader} {capacity : Nat}

/-- A served request is answered as its service answers it. -/
theorem answers_of_lawful {refused : Prop} {result : Except EncodeError Octets}
    (hsegmented : header.isSegmented = false)
    (hservice : header.service = RangeRequest.service ∨ header.service = PropertyRequest.service)
    (hroom : 7 ≤ capacity)
    (hlawful : Reply.Lawful header.invoke header.service refused capacity result) :
    ∃ message, result = .ok message ∧ Answers header capacity message := by
  have hthree : 3 ≤ capacity := by omega
  obtain ⟨message, hresult, hfit, hcomplete⟩ := hlawful.answered ⟨hthree, fun _ => hroom⟩
  refine ⟨message, hresult, hfit, hcomplete, fun hyes => ?_, fun _ hrange hproperty => ?_⟩
  · rw [hsegmented] at hyes
    cases hyes
  · rcases hservice with hsame | hsame
    · exact absurd hsame hrange
    · exact absurd hsame hproperty

/-- **Seven octets are enough for an answer to any request.** -/
theorem exists_replyTo (device : Device) (header : RequestHeader) (service : Octets)
    (capacity : Nat) (hroom : 7 ≤ capacity) :
    ∃ message, device.replyTo header service capacity = .ok message ∧
      Answers header capacity message := by
  have hthree : 3 ≤ capacity := by omega
  unfold replyTo
  -- Segments and unknown services are turned down unread: three octets are enough for that.  Only
  -- the two services that are known may need seven.
  split
  · -- A request in segments is aborted.
    rename_i hsegmented
    have habort := AbortMessage.plain_encode (.tooLong header.invoke)
    refine ⟨_, Encoding.within_of_fits habort hthree, hthree, .of_tooLong _ _, fun _ => ?_, ?_⟩
    · exact (AbortMessage.reads_decode_tooLong header.invoke).whole
    · intro hwhole
      rw [hsegmented] at hwhole
      cases hwhole
  · rename_i hsegmented
    rw [Bool.not_eq_true] at hsegmented
    split
    · rename_i hrange
      have hlawful := Reply.lawful_readRange device.archive.repository service header.invoke
        capacity
      rw [← hrange] at hlawful
      exact answers_of_lawful hsegmented (.inl hrange) hroom hlawful
    · split
      · rename_i hproperty
        have hlawful := Reply.lawful_readProperty (property device.points device.archive) service
          header.invoke capacity
        rw [← hproperty] at hlawful
        exact answers_of_lawful hsegmented (.inr hproperty) hroom hlawful
      · -- Any other service is rejected.
        have hreject := RejectMessage.plain_encode (.of header.invoke .unrecognizedService)
        refine ⟨_, Encoding.within_of_fits hreject hthree, hthree, .of_reason _ _ _, ?_, ?_⟩
        · intro hyes
          rw [hsegmented] at hyes
          cases hyes
        · exact fun _ _ _ => (RejectMessage.reads_decode _).whole

end

/-! ## Every frame -/

/-- A frame is replied to: with the header that leads the answer back and with one message that
answers the request.  The header fits into the room kept for it, so the message has all the
room behind it that the requester and the network allow; and a datagram holds both. -/
def Replies (device : Device) (frame : Octets) (network : NetworkHeader)
    (header : RequestHeader) : Prop :=
  ∃ front message, device.reply? frame = .ok (some (front ++ message)) ∧
    network.reply.encode.within headerRoom = .ok front ∧
    NetworkHeader.decode (front ++ message) = .ok (network.reply, message) ∧
    Answers header (min header.maxReplyLength replyLimit) message ∧
    ∀ destination, ∃ datagram,
      Transport.datagramFor destination (front ++ message) = .ok datagram

section

variable {frame service : Octets} {network : NetworkHeader} {header : RequestHeader}

theorem replies_of_asks (device : Device) (hasks : Asks frame network header service) :
    device.Replies frame network header := by
  have hread := decodeRequest_of_asks hasks
  obtain ⟨first, rest, hnetwork, -⟩ := hasks
  obtain ⟨hplain, hlength, hfront⟩ := NetworkHeader.reply_of_decode hnetwork
  -- Header and message together stay within the limit of a datagram: 16 octets are set aside for
  -- the one, and the other is held to 1476.
  have hroom : headerRoom = 16 := rfl
  have hlimit : replyLimit = 1476 := rfl
  have hfifty := header.fifty_le_maxReplyLength
  obtain ⟨message, hreply, hanswers⟩ := exists_replyTo device header service
    (min header.maxReplyLength replyLimit) (by omega)
  have hmessage := hanswers.fits
  refine ⟨network.reply.encode.octets, message, ?_, ?_, hfront message, hanswers, ?_⟩
  · have hwhole : network.reply.encode.within (headerRoom + replyLimit) = .ok _ :=
      Encoding.within_of_fits hplain (by omega)
    simp only [reply?, hread, hwhole, hreply]
  · exact Encoding.within_of_fits hplain (by omega)
  · intro destination
    refine ⟨_, Transport.datagramFor_of_le ?_⟩
    rw [List.length_append]
    omega

theorem reply?_of_passes (device : Device) (hpasses : Passes frame) :
    device.reply? frame = .ok none := by
  obtain ⟨rest, hread⟩ := decodeRequest_of_passes hpasses
  simp only [reply?, hread]

/-- There is no third kind of frame that can be read. -/
theorem asks_or_passes_or_error (device : Device) (frame : Octets) :
    (∃ network header service, Asks frame network header service) ∨ Passes frame ∨
      ∃ cause, device.reply? frame = .error (.decode cause) := by
  cases hread : decodeRequest frame with
  | error cause => exact .inr (.inr ⟨cause, by simp only [reply?, hread]⟩)
  | ok result =>
      obtain ⟨found, service⟩ := result
      have hframe := of_decodeRequest_eq_ok hread
      cases found with
      | none => exact .inr (.inl hframe)
      | some heads => exact .inl ⟨heads.1, heads.2, service, hframe⟩

end

/-- **Every frame is answered lawfully.**  A frame that holds a request gets an answer, a frame
that holds anything else is passed over, and a frame that cannot be read is an error of
reading; an answer never fails to be written, or to fit into a datagram. -/
theorem reply_iff_asks (device : Device) (frame : Octets) :
    ((∃ reply, device.reply? frame = .ok (some reply)) ↔
        ∃ network header service, Asks frame network header service) ∧
      (device.reply? frame = .ok none ↔ Passes frame) ∧
      (∀ error, device.reply? frame = .error error → ∃ cause, error = .decode cause) ∧
      ∀ network header service, Asks frame network header service →
        device.Replies frame network header := by
  have hasked : ∀ network header service, Asks frame network header service →
      ∃ reply, device.reply? frame = .ok (some reply) := by
    intro network header service hasks
    obtain ⟨front, message, hreply, -⟩ := replies_of_asks device hasks
    exact ⟨_, hreply⟩
  -- A frame asks, is passed over, or cannot be read (`asks_or_passes_or_error`).  The outcomes
  -- exclude each other, so each direction back is a case split in which two cases contradict.
  refine ⟨⟨?_, ?_⟩, ⟨?_, reply?_of_passes device⟩, ?_, ?_⟩
  · rintro ⟨reply, hreply⟩
    rcases asks_or_passes_or_error device frame with hasks | hpasses | ⟨cause, herror⟩
    · exact hasks
    · simp [reply?_of_passes device hpasses] at hreply
    · simp [herror] at hreply
  · rintro ⟨network, header, service, hasks⟩
    exact hasked network header service hasks
  · intro hnone
    rcases asks_or_passes_or_error device frame with ⟨_, _, _, hasks⟩ | hpasses | ⟨cause, herror⟩
    · obtain ⟨reply, hreply⟩ := hasked _ _ _ hasks
      simp [hreply] at hnone
    · exact hpasses
    · simp [herror] at hnone
  · intro error hfailed
    rcases asks_or_passes_or_error device frame with ⟨_, _, _, hasks⟩ | hpasses | ⟨cause, herror⟩
    · obtain ⟨reply, hreply⟩ := hasked _ _ _ hasks
      simp [hreply] at hfailed
    · simp [reply?_of_passes device hpasses] at hfailed
    · rw [herror] at hfailed
      exact ⟨cause, (Except.error.inj hfailed).symm⟩
  · intro network header service hasks
    exact replies_of_asks device hasks

/-- A request through a router for a service that is not offered is rejected. -/
theorem reply_iff_asks_unrecognized :
    Asks [1, 8, 0, 5, 1, 7, 0, 5, 42, 14] ⟨8, none, some (.of 5 [7]), none, none, none⟩
        (.of 42 14) [] ∧
      ∃ front message, (ofConfig .usual).reply? [1, 8, 0, 5, 1, 7, 0, 5, 42, 14] =
          .ok (some (front ++ message)) ∧
        NetworkHeader.decode (front ++ message) =
          .ok (⟨32, some (.of 5 [7]), none, some 255, none, none⟩, message) ∧
        RejectMessage.decode message = .ok (⟨42, 9⟩, []) := by
  have hasks : Asks [1, 8, 0, 5, 1, 7, 0, 5, 42, 14]
      ⟨8, none, some (.of 5 [7]), none, none, none⟩ (.of 42 14) [] :=
    ⟨0, [5, 42, 14], rfl, rfl, rfl, rfl⟩
  obtain ⟨-, -, -, hanswered⟩ := reply_iff_asks (ofConfig .usual) [1, 8, 0, 5, 1, 7, 0, 5, 42, 14]
  obtain ⟨front, message, hreply, -, hread, hanswers, -⟩ := hanswered _ _ _ hasks
  exact ⟨hasks, front, message, hreply, hread, hanswers.unrecognized rfl (by decide) (by decide)⟩

end Device

end Historian
