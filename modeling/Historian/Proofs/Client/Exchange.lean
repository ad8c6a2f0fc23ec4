import Historian.Client.Reply
import Historian.Proofs.Device.Responder
import Historian.Proofs.Log.Answer
import Historian.Proofs.Log.Archive
import Historian.Proofs.Wire.Request

/-!
# A client and a device understand each other

A client sends a range request in a frame (`Client.frame`), and shows what comes back as a
document.  `Client.shows_reply` says that the document tells what the device has: the refusal
of the request, or the records of the log that the range selects, as many of the first ones as
the reply holds.

## Strategy

The frame is read as the request that was sent (`Client.asks_frame`), so the reply is the
message of the range service behind a plain network header (`Client.reply?_frame`).  It holds
an error or a page, and either is read back to the last octet (`Client.exists_reply`).  Flags
without a name are not sent, so the records are shown as they arrive; where all flags have
names, those are the records of the log.
-/

namespace Historian

open Decoder Encoding

/-! ## The message of the range service -/

namespace Reply

variable {repository : Repository} {service : Octets} {invoke : UInt8} {capacity : Nat}
  {request : RangeRequest}

theorem readRange_of_refused
    (hread : RangeRequest.decodeService invoke service = .ok (request, [])) {refusal : Refusal}
    (hlocate : Page.locate repository request = .error refusal) (hroom : 7 ≤ capacity) :
    readRange repository service invoke capacity =
      .ok (ErrorMessage.of invoke RangeRequest.service refusal).encode.octets := by
  have hthree : (AckHeader.of invoke RangeRequest.service).encode.octets.length = 3 := rfl
  have hhead : (AckHeader.of invoke RangeRequest.service).encode.octets.length ≤ capacity := by
    omega
  have herror : (ErrorMessage.of invoke RangeRequest.service refusal).encode.octets.length ≤
      capacity := by
    rwa [ErrorMessage.length_encode_of]
  simp only [readRange, accept_of_read hread, Page.answer, hlocate,
    within_of_fits (AckHeader.plain_encode_of _ _) hhead,
    within_of_fits (ErrorMessage.plain_encode _) herror]

theorem readRange_of_answer
    (hread : RangeRequest.decodeService invoke service = .ok (request, [])) {page : Page}
    {after : Octets} (hroom : 3 ≤ capacity)
    (hanswer : Page.answer repository request (List.replicate (capacity - 3) 0) =
      (.ok page, after)) :
    readRange repository service invoke capacity =
      .ok ((AckHeader.of invoke RangeRequest.service).encode.octets ++ after.take page.length) := by
  have hhead : (AckHeader.of invoke RangeRequest.service).encode.octets.length = 3 := rfl
  have hfit := within_of_fits (AckHeader.plain_encode_of invoke RangeRequest.service)
    (le_of_eq_of_le hhead hroom)
  simp only [readRange, accept_of_read hread, hfit, hhead, hanswer]

end Reply

namespace Client

/-! ## From the client to the device -/

/-- What a client sends: a network header that wants an answer, and the request. -/
def frame (request : RangeRequest) : Encoding :=
  (NetworkHeader.plain 4).encode ++ request.encode

theorem plain_frame {request : RangeRequest} (hserved : request.range.Served) :
    (frame request).Plain := by
  have hnetwork : (NetworkHeader.plain 4).encode.Plain := by
    simp [NetworkHeader.encode_plain (show Octets.bit 4 7 = false by decide)]
  exact (plain_append _ _).mpr
    ⟨hnetwork, request.plain_encode_iff.mpr (Range.plain_encode hserved)⟩

/-- The device finds the request in the frame. -/
theorem asks_frame (request : RangeRequest) :
    Device.Asks (frame request).octets (.plain 4) (.of request.invoke RangeRequest.service)
      request.encodeService.octets := by
  have hrequest : (frame request).octets = [1, 4] ++ request.encode.octets :=
    octets_append _ _
  have hheader := RequestHeader.reads_decode_of request.invoke RangeRequest.service
    request.encodeService.octets
  rw [hrequest, RangeRequest.encode, octets_append]
  rw [RequestHeader.octets_encode_of] at hheader ⊢
  exact ⟨0, _, rfl, by decide, by decide, hheader⟩

/-- The reply to a frame is the message of the range service behind a plain header, in the
room of the longest messages. -/
theorem reply?_frame (device : Device) (request : RangeRequest) {message : Octets}
    (hmessage : Reply.readRange device.archive.repository request.encodeService.octets
      request.invoke 1476 = .ok message) :
    device.reply? (frame request).octets = .ok (some ([1, 0] ++ message)) := by
  have hfront : (NetworkHeader.plain 4).reply.encode.within
      (Device.headerRoom + Device.replyLimit) = .ok [1, 0] := by
    have hplain : (NetworkHeader.plain 4).reply.encode = [.run [1, 0]] :=
      NetworkHeader.encode_plain (by decide)
    rw [hplain]
    exact within_of_fits (by simp) (by decide)
  have hreply : device.replyTo (.of request.invoke RangeRequest.service)
      request.encodeService.octets 1476 = .ok message := by
    have hwhole : (RequestHeader.of request.invoke RangeRequest.service).isSegmented = false := rfl
    have hservice : (RequestHeader.of request.invoke RangeRequest.service).service =
      RangeRequest.service := rfl
    rw [Device.replyTo, hwhole, if_neg Bool.false_ne_true, if_pos hservice]
    exact hmessage
  have hlimit : min (RequestHeader.of request.invoke RangeRequest.service).maxReplyLength
      Device.replyLimit = 1476 := rfl
  simp only [Device.reply?, Device.decodeRequest_of_asks (asks_frame request), hfront, hlimit,
    hreply]

/-! ## From the device to the client -/

/-- A client tells the kind of a message and the request that it answers. -/
theorem heads_of_ack (invoke service : UInt8) (body : Octets) :
    invoke? ((AckHeader.of invoke service).encode.octets ++ body) = some invoke ∧
      kind? ((AckHeader.of invoke service).encode.octets ++ body) = some .complexAck := by
  rw [AckHeader.octets_encode_of]
  exact ⟨rfl, rfl⟩

theorem heads_of_refused (invoke service : UInt8) (refusal : Refusal) :
    invoke? (ErrorMessage.of invoke service refusal).encode.octets = some invoke ∧
      kind? (ErrorMessage.of invoke service refusal).encode.octets = some .error := by
  rw [ErrorMessage.of, ErrorMessage.octets_encode]
  exact ⟨rfl, rfl⟩

/-- The document of a refusal. -/
def refusalJson (refusal : Refusal) : Json :=
  .obj [("error", .obj [("class", .str refusal.errorClass.label),
    ("code", .str refusal.errorCode.label)])]

/-- The document of an answer without records. -/
def nothingJson (object : ObjectId) : Json :=
  .obj [("object_type", .str "TrendLog"), ("instance", .int object.number.toNat),
    ("item_count", .int 0), ("first_sequence", .null), ("first_item", .bool true),
    ("last_item", .bool true), ("more_items", .bool false), ("items", .arr [])]

/-- The document of `size` records of a log from an index on, each shown as `item` says. -/
def pageJson (item : LogRecord → Json) (object : ObjectId) (ring : Ring) (start size : Nat) :
    Json :=
  .obj [("object_type", .str "TrendLog"), ("instance", .int object.number.toNat),
    ("item_count", .int size),
    ("first_sequence", .int (Sequence.after ring.firstSequence (UInt32.ofNat start)).toNat),
    ("first_item", .bool (start = 0)),
    ("last_item", .bool (ring.records.length ≤ start + size)),
    ("more_items", .bool (start + size < ring.records.length)),
    ("items", .arr (((ring.records.drop start).take size).map item))]

theorem replyJson_of_refused (invoke service : UInt8) (refusal : Refusal) :
    replyJson (ErrorMessage.of invoke service refusal).encode.octets =
      .ok (refusalJson refusal) := by
  have hread := (ErrorMessage.reads_decode invoke service refusal.errorClass.code
    refusal.errorCode.code).whole
  -- Every class and every code that a refusal can bear is one that the client has a name for.
  have hclass : ErrorClass.ofCode? refusal.errorClass.code = some refusal.errorClass := by
    cases refusal.errorClass <;> rfl
  have hcode : ErrorCode.ofCode? refusal.errorCode.code = some refusal.errorCode := by
    cases refusal.errorCode <;> rfl
  have hdocument : errorJson (ErrorMessage.of invoke service refusal) = refusalJson refusal := by
    simp only [errorJson, ErrorMessage.errorClass?, ErrorMessage.errorCode?, ErrorMessage.of,
      Option.bind_some, hclass, hcode]
    rfl
  have hreply : (decodeReply .error) (ErrorMessage.of invoke service refusal).encode.octets =
      .ok (refusalJson refusal, []) := by
    rw [decodeReply, ErrorMessage.of, bind_of_ok hread, ← hdocument]
    rfl
  rw [ErrorMessage.of, ErrorMessage.octets_encode] at hreply ⊢
  change Except.map Prod.fst (decodeReply .error _) = _
  rw [hreply]
  rfl

theorem replyJson_of_ack (invoke service : UInt8) {body : Octets} {ack : RangeAck}
    (hread : RangeAck.decode body = .ok (ack, [])) :
    replyJson ((AckHeader.of invoke service).encode.octets ++ body) = .ok (recordsJson ack) := by
  have hreply : (decodeReply .complexAck) ((AckHeader.of invoke service).encode.octets ++ body) =
      .ok (recordsJson ack, []) := by
    rw [decodeReply, bind_of_ok (AckHeader.reads_decode_of invoke service body), bind_of_ok hread]
    rfl
  rw [AckHeader.octets_encode_of] at hreply ⊢
  change Except.map Prod.fst (decodeReply .complexAck _) = _
  rw [hreply]
  rfl

theorem recordsJson_nothing {object : ObjectId} (htype : object.type = .trendLog) :
    recordsJson (RangeAck.nothing object) = nothingJson object := by
  simp only [recordsJson, RangeAck.nothing, nothingJson, htype]
  rfl

theorem recordsJson_sent {object : ObjectId} (htype : object.type = .trendLog) {ring : Ring}
    {start size : Nat} (hsize : 0 < size) (hstop : start + size ≤ ring.records.length)
    (hsmall : ring.records.length < Sequence.cycle) :
    recordsJson (ring.sent object start size) =
      pageJson (fun record => record.received.summary) object ring start size := by
  have hsome : ring.records ≠ [] := List.length_pos_iff.mp (by omega)
  have hcount : (UInt32.ofNat size).toNat = size := Sequence.toNat_ofNat (by omega)
  have hfirst : ring.view.sequenceAt start =
      Sequence.after ring.firstSequence (UInt32.ofNat start) := by
    rw [LogView.sequenceAt, Ring.firstLive_view hsome hsmall]
  have hmore : (!decide (ring.records.length ≤ start + size)) =
      decide (start + size < ring.records.length) := by
    simp only [← decide_not, Nat.not_le]
  simp only [recordsJson, Ring.sent, pageJson, htype, hcount, hfirst, (ResultFlags.has_of _ _ _).1,
    (ResultFlags.has_of _ _ _).2.1, (ResultFlags.has_of _ _ _).2.2, hmore, List.map_map]
  rfl

theorem pageJson_inj {item other : LogRecord → Json} {object : ObjectId} {ring : Ring}
    {start size count : Nat}
    (hsame : pageJson item object ring start size = pageJson other object ring start count) :
    size = count ∧ ((ring.records.drop start).take size).map item =
      ((ring.records.drop start).take count).map other := by
  simp only [pageJson, Json.obj.injEq, List.cons.injEq, Prod.mk.injEq, Json.int.injEq,
    Json.arr.injEq, true_and, and_true, Int.natCast_inj] at hsame
  exact ⟨hsame.1, hsame.2.2.2⟩

/-- Records whose flags all have names arrive as they are. -/
theorem pageJson_received {object : ObjectId} {ring : Ring} {start size : Nat}
    (hnamed : ∀ record ∈ (ring.records.drop start).take size, record.Named) :
    pageJson (fun record => record.received.summary) object ring start size =
      pageJson LogRecord.summary object ring start size := by
  have hitems := List.map_congr_left fun record hrecord =>
    congrArg LogRecord.summary (LogRecord.received_of_named (hnamed record hrecord))
  rw [pageJson, hitems, pageJson]

/-! ## What is shown -/

/-- A document tells what an archive has for a request: the refusal; or that nothing is
selected; or the first of the records that are selected, one at least, and so many that there
is no room for another behind what is set aside for the rest of the reply.  The records are
shown as they arrive, which is as they are if all their flags have names. -/
structure Shows (archive : Archive) (request : RangeRequest) (document : Json) : Prop where
  refused : ∀ refusal, Page.locate archive.repository request = .error refusal →
    document = refusalJson refusal
  nothing : ∀ view, Page.locate archive.repository request = .ok (view, none) →
    document = nothingJson request.object
  records : ∀ view span, Page.locate archive.repository request = .ok (view, some span) →
    ∃ log size, archive.get? request.object.number = some log ∧ view = log.view ∧
      0 < size ∧ size ≤ span.count ∧
      (size < span.count → 1473 < Page.reserved request span +
        (RangeAck.itemOctets ((log.ring.records.drop span.start).take (size + 1))).length) ∧
      document =
        pageJson (fun record => record.received.summary) request.object log.ring span.start size ∧
      ((∀ record ∈ (log.ring.records.drop span.start).take size, record.Named) →
        document = pageJson LogRecord.summary request.object log.ring span.start size)

section

variable {archive : Archive} {request : RangeRequest}

theorem shows_refused {refusal : Refusal}
    (hlocate : Page.locate archive.repository request = .error refusal) :
    Shows archive request (refusalJson refusal) where
  refused other hother := by
    rw [hlocate] at hother
    cases hother
    rfl
  nothing view hview := by
    rw [hlocate] at hview
    cases hview
  records view span hspan := by
    rw [hlocate] at hspan
    cases hspan

theorem shows_nothing {view : LogView}
    (hlocate : Page.locate archive.repository request = .ok (view, none)) :
    Shows archive request (nothingJson request.object) where
  refused refusal hrefusal := by
    rw [hlocate] at hrefusal
    cases hrefusal
  nothing _ _ := rfl
  records other span hspan := by
    rw [hlocate] at hspan
    cases hspan

theorem shows_page {log : TrendLog} {span : Span} {size : Nat}
    (hlocate : Page.locate archive.repository request = .ok (log.view, some span))
    (hlog : archive.get? request.object.number = some log)
    (hstop : span.stop ≤ log.ring.records.length) (hpos : 0 < size)
    (hsize : size = Page.fitting (1473 - Page.reserved request span)
      ((log.ring.records.drop span.start).take span.count)) :
    Shows archive request
      (pageJson (fun record => record.received.summary) request.object log.ring span.start size) where
  refused refusal hrefusal := by
    rw [hlocate] at hrefusal
    cases hrefusal
  nothing view hview := by
    rw [hlocate] at hview
    cases hview
  records view other hother := by
    rw [hlocate] at hother
    cases hother
    have hlength : ((log.ring.records.drop span.start).take span.count).length = span.count := by
      rw [← Page.records_recordsIn, List.length_map, Page.length_recordsIn log.ring hstop]
    refine ⟨log, size, hlog, rfl, hpos, ?_, fun hcut => ?_, rfl, pageJson_received⟩
    · rw [hsize]
      exact le_of_le_of_eq (Page.fitting_le _ _) hlength
    · -- Fewer records than were selected: with one more the page would have been over its room.
      have hshort : Page.fitting (1473 - Page.reserved request span)
          ((log.ring.records.drop span.start).take span.count) <
            ((log.ring.records.drop span.start).take span.count).length := by omega
      have hover := Page.lt_length_items_fitting hshort
      have hnext : size + 1 ≤ span.count := hcut
      rw [← hsize, List.take_take, Nat.min_eq_left hnext] at hover
      omega

/-- **The service of the device and the client agree.**  The message of the service is never a
reject or an abort. -/
theorem exists_reply (hreachable : archive.Reachable) (hserved : request.range.Served)
    (hproper : request.property.Proper) :
    ∃ message document,
      Reply.readRange archive.repository request.encodeService.octets request.invoke 1476 =
          .ok message ∧
        invoke? message = some request.invoke ∧
        (kind? message = some .complexAck ∨ kind? message = some .error) ∧
        replyJson message = .ok document ∧ Shows archive request document := by
  have hread := RangeRequest.decodeService_encodeService hserved hproper
  have hroom : (List.replicate (1476 - 3) (0 : UInt8)).length = 1473 := List.length_replicate
  -- Three replies are possible: a refusal, a page without records, and a page with some.
  cases hlocate : Page.locate archive.repository request with
  | error refusal =>
      -- Refused: the message is an error, and the client names what it is told.
      obtain ⟨hinvoke, hkind⟩ := heads_of_refused request.invoke RangeRequest.service refusal
      exact ⟨_, _, Reply.readRange_of_refused hread hlocate (by decide), hinvoke, .inr hkind,
        replyJson_of_refused _ _ refusal, shows_refused hlocate⟩
  | ok found =>
      obtain ⟨view, span⟩ := found
      obtain ⟨htype, hview, -, -, hresolve⟩ := (Page.locate_eq_ok_iff _ _ _ _).mp hlocate
      cases span with
      | none =>
          -- Nothing is selected.  A page without records has room in 22 octets.
          obtain ⟨page, after, hanswer, hdecode⟩ := Page.answer_nothing hlocate
            (show 22 ≤ (List.replicate (1476 - 3) (0 : UInt8)).length by omega)
          obtain ⟨hinvoke, hkind⟩ :=
            heads_of_ack request.invoke RangeRequest.service (after.take page.length)
          refine ⟨_, _, Reply.readRange_of_answer hread (by decide) hanswer, hinvoke, .inl hkind,
            replyJson_of_ack _ _ hdecode, ?_⟩
          rw [recordsJson_nothing htype]
          exact shows_nothing hlocate
      | some span =>
          -- Something is selected, so the view that was found is that of a log of the archive.  Its
          -- records are numbered in words because it can be reached.
          obtain ⟨log, hlog, rfl⟩ := Option.map_eq_some_iff.mp hview
          have hinUse := (Archive.inUse_of_reachable hreachable).of_get? hlog
          have hsmall := hinUse.length_records_lt
          obtain ⟨hpos, hstop⟩ := LogView.stop_le_of_resolve hresolve
          rw [hinUse.toNat_count] at hstop
          obtain ⟨size, page, after, hsome, hsize, hanswer, hdecode⟩ :=
            Page.answer_fitting hlocate (Nat.lt_succ_of_lt hsmall) hstop hpos
              (show 44 ≤ (List.replicate (1476 - 3) (0 : UInt8)).length by omega)
          rw [hroom] at hsize
          obtain ⟨hinvoke, hkind⟩ :=
            heads_of_ack request.invoke RangeRequest.service (after.take page.length)
          refine ⟨_, _, Reply.readRange_of_answer hread (by decide) hanswer, hinvoke, .inl hkind,
            replyJson_of_ack _ _ hdecode, ?_⟩
          -- What fits is part of what is selected, so the client is sent records of the log and no
          -- others.
          have hle : span.start + size ≤ log.ring.records.length := by
            have hfits := Page.fitting_le (1473 - Page.reserved request span)
              ((log.ring.records.drop span.start).take span.count)
            rw [← hsize, List.length_take, List.length_drop] at hfits
            omega
          rw [recordsJson_sent htype hsome hle hsmall]
          exact shows_page hlocate hlog hstop hsome hsize

end

/-- **A client is shown what the device has.**  The frame of a request for a served kind of
range is always answered, with a message that is no reject and bears the number of the request;
and the document of the message tells what the archive of the device has for the request. -/
theorem shows_reply {device : Device} (hreachable : device.archive.Reachable)
    {request : RangeRequest} (hserved : request.range.Served)
    (hproper : request.property.Proper) :
    (frame request).Gives (frame request).octets ∧
      ∃ reply network message document,
        device.reply? (frame request).octets = .ok (some reply) ∧
          NetworkHeader.decode reply = .ok (network, message) ∧
          network.isNetworkMessage = false ∧
          invoke? message = some request.invoke ∧
          (kind? message = some .complexAck ∨ kind? message = some .error) ∧
          replyJson message = .ok document ∧ Shows device.archive request document := by
  obtain ⟨message, document, hmessage, hinvoke, hkind, hdocument, hshows⟩ :=
    exists_reply hreachable hserved hproper
  exact ⟨(plain_frame hserved).gives, _, .plain 0, message, document,
    reply?_frame device request hmessage, rfl, by decide, hinvoke, hkind, hdocument, hshows⟩

/-- There is an archive whose log 1 holds one sample, and a request that selects it. -/
private theorem exists_sampled (sample : Sample) :
    ∃ (archive : Archive) (log : TrendLog) (stamp : Stamp), archive.Reachable ∧
      log.ring.records = [⟨stamp, sample.datum, sample.status⟩] ∧
      Page.locate archive.repository ⟨ObjectId.of .trendLog 1, .logBuffer, none, .all, 7⟩ =
        .ok (log.view, some ⟨0, 1⟩) ∧
      archive.get? (ObjectId.of .trendLog 1).number = some log := by
  let now : Reading := ⟨⟨2025, 5, 6, by decide⟩, 32400, 0, by decide, by decide⟩
  have hadded := Archive.Reachable.add .empty
    (show Archive.empty.add (.of 1 "zone") = .ok _ from rfl)
  have hrecorded := hadded.record (show Archive.record _ 1 sample now = .ok (_, true) from rfl)
  exact ⟨_, _, _, hrecorded, rfl,
    (Page.locate_eq_ok_iff _ _ _ _).mpr ⟨by decide, rfl, rfl, rfl, rfl⟩, rfl⟩

/-- A number that was recorded is shown. -/
theorem shows_reply_number :
    let request : RangeRequest := ⟨ObjectId.of .trendLog 1, .logBuffer, none, .all, 7⟩
    ∃ (archive : Archive) (log : TrendLog), archive.Reachable ∧ request.range.Served ∧
      request.property.Proper ∧ log.ring.records.map LogRecord.datum = [.unsigned 5] ∧
      ∃ reply network message,
        (⟨.usual, PointTable.empty, archive⟩ : Device).reply? (frame request).octets =
            .ok (some reply) ∧
          NetworkHeader.decode reply = .ok (network, message) ∧
          invoke? message = some 7 ∧
          replyJson message = .ok (pageJson LogRecord.summary request.object log.ring 0 1) := by
  intro request
  obtain ⟨archive, log, stamp, hreachable, hrecords, hlocate, hlog⟩ :=
    exists_sampled ⟨.unsigned 5, FlagSet.empty⟩
  have hserved : request.range.Served := nofun
  have hproper : request.property.Proper := nofun
  obtain ⟨-, reply, network, message, document, hreply, hnetwork, -, hinvoke, -, hdocument,
    hshows⟩ := @shows_reply ⟨.usual, PointTable.empty, archive⟩ hreachable request hserved hproper
  obtain ⟨other, size, hother, -, hpos, hle, -, -, hsame⟩ := hshows.records _ _ hlocate
  obtain rfl : other = log := Option.some.inj (hother.symm.trans hlog)
  obtain rfl : size = 1 := Nat.le_antisymm hle hpos
  refine ⟨archive, other, hreachable, hserved, hproper, by rw [hrecords]; rfl, reply, network,
    message, hreply, hnetwork, hinvoke, ?_⟩
  rw [hdocument, hsame]
  intro record hrecord
  rw [hrecords] at hrecord
  rw [List.mem_singleton.mp hrecord]
  exact ⟨nofun, show (FlagSet.empty : StatusFlags).Named by decide⟩

/-- A flag without a name is not shown, though the log has recorded it. -/
theorem hides_unnamed_flag :
    let request : RangeRequest := ⟨ObjectId.of .trendLog 1, .logBuffer, none, .all, 7⟩
    ∃ (archive : Archive) (log : TrendLog), archive.Reachable ∧ request.range.Served ∧
      request.property.Proper ∧ archive.get? request.object.number = some log ∧
      log.ring.records.map LogRecord.datum = [.logStatus ⟨8⟩] ∧
      ∃ reply network message document,
        (⟨.usual, PointTable.empty, archive⟩ : Device).reply? (frame request).octets =
            .ok (some reply) ∧
          NetworkHeader.decode reply = .ok (network, message) ∧
          replyJson message = .ok document ∧
          ∀ size, document ≠ pageJson LogRecord.summary request.object log.ring 0 size := by
  intro request
  obtain ⟨archive, log, stamp, hreachable, hrecords, hlocate, hlog⟩ :=
    exists_sampled ⟨.logStatus ⟨8⟩, FlagSet.empty⟩
  have hserved : request.range.Served := nofun
  have hproper : request.property.Proper := nofun
  obtain ⟨message, document, hmessage, -, -, hdocument, hshows⟩ :=
    exists_reply hreachable hserved hproper
  obtain ⟨other, shown, hother, -, hpos, hle, -, rfl, -⟩ := hshows.records _ _ hlocate
  obtain rfl : other = log := Option.some.inj (hother.symm.trans hlog)
  obtain rfl : shown = 1 := Nat.le_antisymm hle hpos
  refine ⟨archive, other, hreachable, hserved, hproper, hlog, by rw [hrecords]; rfl, _, .plain 0,
    message, _, reply?_frame ⟨.usual, PointTable.empty, archive⟩ request hmessage, rfl, hdocument, ?_⟩
  -- Were the records shown as they are stored, the text would be that of the unnamed flag.
  intro size hsame
  obtain ⟨rfl, hitems⟩ := pageJson_inj hsame
  rw [hrecords] at hitems
  simp only [List.drop_zero, List.take_succ_cons, List.take_zero, List.map_cons, List.map_nil,
    LogRecord.received, LogRecord.summary, Datum.received, Datum.toJson, Datum.valueJson?,
    Json.obj.injEq, List.cons.injEq, Prod.mk.injEq, true_and, and_true] at hitems
  have htext : (⟨8⟩ : LogStatus).defined.text = (⟨8⟩ : LogStatus).text :=
    Json.str.inj hitems.1.2
  exact absurd htext (by decide)

end Client

end Historian
