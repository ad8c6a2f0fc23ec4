import Historian.Reply
import Historian.Proofs.Log.Page
import Historian.Proofs.Wire.Header
import Historian.Proofs.Wire.Property

/-!
# Every request gets one reply

A reply is complete if its octets, to the last one, are one answer to the request
(`Reply.Complete`).  Three octets of room are enough for one, unless the request is
understood and refused: an error takes seven octets, and there is nothing shorter to
fall back to (`Reply.Room`).  `Reply.lawful_services` says so of both services.
-/

namespace Historian

namespace Reply

/-! ## Complete replies -/

/-- The parameters behind an acknowledgement are results of the service, with nothing left
unread. -/
def HoldResults (service : UInt8) (parameters : Octets) : Prop :=
  (service = RangeRequest.service ∧ ∃ ack, RangeAck.decode parameters = .ok (ack, [])) ∨
    (service = PropertyRequest.service ∧ ∃ ack, PropertyAck.decode parameters = .ok (ack, []))

/-- The octets are one answer to a request, and nothing else. -/
inductive Complete (invoke service : UInt8) (octets : Octets) : Prop where
  | results {parameters : Octets}
      (head : AckHeader.decode octets = .ok (AckHeader.of invoke service, parameters))
      (body : HoldResults service parameters)
  | error (refusal : Refusal)
      (read : ErrorMessage.decode octets = .ok (ErrorMessage.of invoke service refusal, []))
  | reject (reason : RejectReason)
      (read : RejectMessage.decode octets = .ok (RejectMessage.of invoke reason, []))
  | abort (read : AbortMessage.decode octets = .ok (AbortMessage.tooLong invoke, []))

namespace Complete

theorem of_results (invoke : UInt8) {service : UInt8} {parameters : Octets}
    (hresults : HoldResults service parameters) :
    Complete invoke service ((AckHeader.of invoke service).encode.octets ++ parameters) :=
  .results (AckHeader.reads_decode_of invoke service parameters) hresults

theorem of_refusal (invoke service : UInt8) (refusal : Refusal) :
    Complete invoke service (ErrorMessage.of invoke service refusal).encode.octets :=
  .error refusal (ErrorMessage.reads_decode invoke service _ _).whole

theorem of_reason (invoke service : UInt8) (reason : RejectReason) :
    Complete invoke service (RejectMessage.of invoke reason).encode.octets :=
  .reject reason (RejectMessage.reads_decode _).whole

theorem of_tooLong (invoke service : UInt8) :
    Complete invoke service (AbortMessage.tooLong invoke).encode.octets :=
  .abort (AbortMessage.reads_decode_tooLong invoke).whole

end Complete

/-! ## Room -/

/-- There is room for a reply: three octets, and seven if the request is refused. -/
def Room (refused : Prop) (capacity : Nat) : Prop := 3 ≤ capacity ∧ (refused → 7 ≤ capacity)

/-- A result is a complete reply where there is room, and else the want of room. -/
structure Lawful (invoke service : UInt8) (refused : Prop) (capacity : Nat)
    (result : Except EncodeError Octets) : Prop where
  answered : Room refused capacity →
    ∃ octets, result = .ok octets ∧ octets.length ≤ capacity ∧ Complete invoke service octets
  failed : ¬ Room refused capacity → result = .error .bufferTooSmall

section

variable {invoke service : UInt8} {refused : Prop} {capacity : Nat}

theorem room_of_not_refused (hrefused : ¬ refused) : Room refused capacity ↔ 3 ≤ capacity :=
  and_iff_left fun hyes => absurd hyes hrefused

theorem room_of_refused (hrefused : refused) : Room refused capacity ↔ 7 ≤ capacity := by
  simp only [Room, hrefused, true_imp_iff]
  omega

theorem lawful_within {encoding : Encoding} (hplain : encoding.Plain)
    (hcomplete : Complete invoke service encoding.octets)
    (hroom : Room refused capacity ↔ encoding.octets.length ≤ capacity) :
    Lawful invoke service refused capacity (encoding.within capacity) where
  answered hyes := by
    have hfit := hroom.mp hyes
    exact ⟨_, Encoding.within_of_fits hplain hfit, hfit, hcomplete⟩
  failed hno := by
    refine Encoding.within_of_lt hplain ?_
    rwa [hroom, Nat.not_le] at hno

theorem lawful_reject (hrefused : ¬ refused) (reason : RejectReason) :
    Lawful invoke service refused capacity
      ((RejectMessage.of invoke reason).encode.within capacity) :=
  lawful_within (RejectMessage.plain_encode _) (.of_reason invoke service reason)
    (room_of_not_refused hrefused)

theorem lawful_error (hrefused : refused) (refusal : Refusal) :
    Lawful invoke service refused capacity
      ((ErrorMessage.of invoke service refusal).encode.within capacity) := by
  refine lawful_within (ErrorMessage.plain_encode _) (.of_refusal invoke service refusal) ?_
  rw [room_of_refused hrefused, ErrorMessage.length_encode_of]

theorem lawful_abort (hrefused : ¬ refused) :
    Lawful invoke service refused capacity
      ((AbortMessage.tooLong invoke).encode.within capacity) :=
  lawful_within (AbortMessage.plain_encode _) (.of_tooLong invoke service)
    (room_of_not_refused hrefused)

/-- Where there is room, any complete reply that fits will do. -/
theorem lawful_ok {octets : Octets} (hroom : Room refused capacity)
    (hfit : octets.length ≤ capacity) (hcomplete : Complete invoke service octets) :
    Lawful invoke service refused capacity (.ok octets) where
  answered _ := ⟨octets, rfl, hfit, hcomplete⟩
  failed hno := absurd hroom hno

end

/-! ## Refused requests -/

theorem accept_of_read {α : Type} {decoder : Decoder α} {service : Octets} {request : α}
    (hread : decoder service = .ok (request, [])) : accept decoder service = .ok request := by
  rw [accept, hread]

/-- A request is understood, and refused when what it asks for is looked up. -/
def Refused {α β : Type} (decoder : Decoder α) (find : α → Except Refusal β)
    (service : Octets) : Prop :=
  ∃ request refusal, accept decoder service = .ok request ∧ find request = .error refusal

section

variable {α β : Type} {decoder : Decoder α} {find : α → Except Refusal β} {service : Octets}

theorem not_refused_of_rejected {reason : RejectReason}
    (haccept : accept decoder service = .error reason) : ¬ Refused decoder find service := by
  rintro ⟨request, refusal, hrequest, -⟩
  rw [haccept] at hrequest
  cases hrequest

theorem not_refused_of_found {request : α} {found : β}
    (haccept : accept decoder service = .ok request) (hfind : find request = .ok found) :
    ¬ Refused decoder find service := by
  rintro ⟨other, refusal, hrequest, hrefusal⟩
  rw [haccept] at hrequest
  cases hrequest
  rw [hfind] at hrefusal
  cases hrefusal

end

/-! ## Ranges -/

/-- The octets of a page are results. -/
theorem holdResults_of_answer {repository : Repository} {request : RangeRequest}
    {out after : Octets} {page : Page}
    (hanswer : Page.answer repository request out = (.ok page, after)) :
    page.length ≤ out.length ∧ HoldResults RangeRequest.service (after.take page.length) := by
  obtain ⟨view, span, flags, entries, -, -, -, -, -, hfit, hoctets⟩ :=
    Page.exists_sending_of_answer hanswer
  rw [hoctets]
  exact ⟨hfit, .inl ⟨rfl, _, RangeAck.decode_encode _ (Page.firstSequence_ackOf_ne _ _ _ _)⟩⟩

/-- Where the request is found, an abort stands in for a page that does not fit. -/
theorem lawful_page {repository : Repository} {request : RangeRequest} {refused : Prop}
    {found : LogView × Option Span} (hlocate : Page.locate repository request = .ok found)
    (hrefused : ¬ refused) (invoke : UInt8) {capacity : Nat} (hroom : 3 ≤ capacity) :
    Lawful invoke RangeRequest.service refused capacity
      (match Page.answer repository request (List.replicate (capacity - 3) 0) with
      | (.ok page, body) =>
          .ok ((AckHeader.of invoke RangeRequest.service).encode.octets ++ body.take page.length)
      | (.error (.refused refusal), _) =>
          (ErrorMessage.of invoke RangeRequest.service refusal).encode.within capacity
      | (.error (.unwritten _), _) => (AbortMessage.tooLong invoke).encode.within capacity) := by
  split
  · rename_i page body hanswer
    obtain ⟨hfit, hresults⟩ := holdResults_of_answer hanswer
    rw [List.length_replicate] at hfit
    refine lawful_ok ((room_of_not_refused hrefused).mpr hroom) ?_ (.of_results invoke hresults)
    have hbody := List.length_take_le page.length body
    rw [List.length_append, AckHeader.octets_encode_of]
    simp only [List.length_cons, List.length_nil]
    omega
  · rename_i refusal body hanswer
    exact absurd hanswer (Page.answer_ne_refused hlocate _ _ refusal)
  · exact lawful_abort hrefused

theorem lawful_readRange (repository : Repository) (service : Octets) (invoke : UInt8)
    (capacity : Nat) :
    Lawful invoke RangeRequest.service
      (Refused (RangeRequest.decodeService invoke) (Page.locate repository) service) capacity
      (readRange repository service invoke capacity) := by
  unfold readRange
  cases haccept : accept (RangeRequest.decodeService invoke) service with
  | error reason => exact lawful_reject (not_refused_of_rejected haccept) reason
  | ok request =>
      have hhead := AckHeader.octets_encode_of invoke RangeRequest.service
      have hplain := AckHeader.plain_encode_of invoke RangeRequest.service
      by_cases hroom : 3 ≤ capacity
      · have hfit : (AckHeader.of invoke RangeRequest.service).encode.octets.length ≤ capacity := by
          rwa [hhead]
        simp only [Encoding.within_of_fits hplain hfit]
        cases hlocate : Page.locate repository request with
        | error refusal =>
            simp only [Page.answer, hlocate]
            exact lawful_error ⟨request, refusal, haccept, hlocate⟩ refusal
        | ok found =>
            exact lawful_page hlocate (not_refused_of_found haccept hlocate) invoke hroom
      · -- not even the head of the results fits
        have hover : capacity < (AckHeader.of invoke RangeRequest.service).encode.octets.length := by
          rw [hhead]
          exact Nat.lt_of_not_le hroom
        simp only [Encoding.within_of_lt hplain hover]
        exact ⟨fun hyes => absurd hyes.1 hroom, fun _ => rfl⟩

/-! ## Properties -/

theorem lawful_readProperty (source : PropertySource) (service : Octets) (invoke : UInt8)
    (capacity : Nat) :
    Lawful invoke PropertyRequest.service
      (Refused (PropertyRequest.decodeService invoke) (propertyValue source) service) capacity
      (readProperty source service invoke capacity) := by
  unfold readProperty
  cases haccept : accept (PropertyRequest.decodeService invoke) service with
  | error reason => exact lawful_reject (not_refused_of_rejected haccept) reason
  | ok request =>
      -- The value is found first and written afterwards, so only a value that is too long is left
      -- to abort.
      cases hvalue : propertyValue source request with
      | error refusal =>
          simp only [hvalue]
          exact lawful_error ⟨request, refusal, haccept, hvalue⟩ refusal
      | ok value =>
          have hrefused := not_refused_of_found haccept hvalue
          simp only [hvalue]
          split
          · -- Head and value were written together.  That they fit shows that there was room for
            -- the head.
            rename_i octets hwithin
            obtain ⟨hplain, hfit, rfl⟩ := Encoding.of_within_eq_ok hwithin
            rw [Encoding.plain_append] at hplain
            rw [Encoding.octets_append] at hfit ⊢
            have hresults : HoldResults PropertyRequest.service
                (PropertyAck.encode ⟨request.object, request.property, none, value⟩).octets :=
              .inr ⟨rfl, _, (PropertyAck.reads_decode hplain.2).whole⟩
            have hhead := AckHeader.octets_encode_of invoke PropertyRequest.service
            have hthree : 3 ≤ capacity := by
              rw [List.length_append, hhead] at hfit
              simp only [List.length_cons] at hfit
              omega
            exact lawful_ok ((room_of_not_refused hrefused).mpr hthree) hfit
              (.of_results invoke hresults)
          · exact lawful_abort hrefused

/-! ## Both services -/

/-- **A request gets a complete reply exactly where there is room for it.**  Three octets
are enough, whatever is asked for and of whatever repository or source, unless the request is
refused: then it takes seven, and with fewer there is no reply at all. -/
theorem lawful_services (repository : Repository) (source : PropertySource)
    (service : Octets) (invoke : UInt8) (capacity : Nat) :
    Lawful invoke RangeRequest.service
        (Refused (RangeRequest.decodeService invoke) (Page.locate repository) service) capacity
        (readRange repository service invoke capacity) ∧
      Lawful invoke PropertyRequest.service
        (Refused (PropertyRequest.decodeService invoke) (propertyValue source) service) capacity
        (readProperty source service invoke capacity) :=
  ⟨lawful_readRange repository service invoke capacity,
    lawful_readProperty source service invoke capacity⟩

/-- A request to read a log that is not there has no reply of six octets. -/
theorem lawful_services_six :
    readRange (fun _ => none) [12, 5, 0, 0, 2, 25, 131] 4 6 = .error .bufferTooSmall ∧
      readProperty (fun _ _ => .error .unknownObject) [12, 5, 0, 0, 2, 25, 131] 4 6 =
        .error .bufferTooSmall := by
  obtain ⟨hrange, hproperty⟩ := lawful_services (fun _ => none) (fun _ _ => .error .unknownObject)
    [12, 5, 0, 0, 2, 25, 131] 4 6
  refine ⟨hrange.failed ?_, hproperty.failed ?_⟩
  · rw [room_of_refused ⟨_, _, rfl, rfl⟩]
    decide
  · rw [room_of_refused ⟨_, _, rfl, rfl⟩]
    decide

end Reply

end Historian
