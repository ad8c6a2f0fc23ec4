import Historian.Message.Header
import Historian.Proofs.Wire.Field

/-!
# Heads of messages read back as they were written

Requests and acknowledgements begin with a head, in which flags of the first octet say whether
the place of a segment follows (`Segment.Announced`).  A device answers with an acknowledgement
in front of results, or with an error, a reject or an abort.  Each of these is read back to the
last octet, which takes three octets of an answer without results, and seven of an error with
class and code (`ErrorMessage.length_encode_of`).

Other devices may lay out class and code in other ways.  `ErrorMessage.reads_decode_details` reads
all of them, and what is written here is one case of it.
-/

namespace Historian

open Decoder Encoding

/-! ## The first octet -/

namespace MessageKind

theorem toNat_highHalf_add (kind : MessageKind) {flags : UInt8} (hflags : flags.toNat < 16) :
    (kind.highHalf + flags).toNat = 2 ^ 4 * kind.number.toNat + flags.toNat := by
  have hnumber : kind.number.toNat < 8 := by cases kind <;> decide
  simp only [highHalf, UInt8.toNat_add, UInt8.toNat_mul, UInt8.reduceToNat]
  omega

theorem highHalf_add_div (kind : MessageKind) {flags : UInt8} (hflags : flags.toNat < 16) :
    (kind.highHalf + flags) / 16 = kind.number := by
  apply UInt8.toNat_inj.mp
  simp only [UInt8.toNat_div, kind.toNat_highHalf_add hflags, UInt8.reduceToNat]
  omega

/-- The flags are read as if there were no kind in front of them. -/
theorem bit_highHalf_add (kind : MessageKind) {flags : UInt8} (hflags : flags.toNat < 16)
    {index : Nat} (hindex : index < 4) :
    Octets.bit (kind.highHalf + flags) index = Octets.bit flags index := by
  rw [Octets.bit, kind.toNat_highHalf_add hflags, Nat.testBit_two_pow_mul_add _ hflags,
    if_pos hindex, Octets.bit]

/-- The kind of a message is read from its first octet, whatever the flags beside it. -/
theorem reads_decodeFirst (kind : MessageKind) (flags : UInt8) (hflags : flags.toNat < 16) :
    Reads kind.decodeFirst [kind.highHalf + flags] (kind.highHalf + flags) := by
  refine (Reads.octet _).bind_pure ?_
  simp only [kind.highHalf_add_div hflags, decide_true, require, if_true]
  rfl

end MessageKind

/-! ## Segments -/

namespace Segment

/-- The flags that are set for a segment and for a reply that may come in segments. -/
def allFlags (segment : Option Segment) (segmentedReply : Bool) : UInt8 :=
  flags segment + if segmentedReply then 2 else 0

theorem allFlags_lt (segment : Option Segment) (segmentedReply : Bool) :
    (allFlags segment segmentedReply).toNat < 16 := by
  rcases segment with _ | ⟨sequence, window, _ | _⟩ <;> cases segmentedReply <;>
    exact of_decide_eq_true rfl

/-- The flags of a first octet say whether the message is a segment, and whether more follow. -/
def Announced (first : UInt8) : Option Segment → Prop
  | none => Octets.bit first 3 = false
  | some segment => Octets.bit first 3 = true ∧ Octets.bit first 2 = segment.more

/-- The flags of a segment, read one by one. -/
theorem bits_of_segment : ∀ more segmentedReply : Bool,
    let first : UInt8 := (if more then 12 else 8) + if segmentedReply then 2 else 0
    Octets.bit first 3 = true ∧ Octets.bit first 2 = more ∧
      Octets.bit first 1 = segmentedReply := by
  decide

theorem announced_allFlags (kind : MessageKind) (segment : Option Segment)
    (segmentedReply : Bool) :
    Announced (kind.highHalf + allFlags segment segmentedReply) segment := by
  have hflags := allFlags_lt segment segmentedReply
  cases segment with
  | none =>
      refine (kind.bit_highHalf_add hflags (by omega)).trans ?_
      cases segmentedReply <;> decide
  | some segment =>
      obtain ⟨hsegment, hmore, -⟩ := bits_of_segment segment.more segmentedReply
      exact ⟨(kind.bit_highHalf_add hflags (by omega)).trans hsegment,
        (kind.bit_highHalf_add hflags (by omega)).trans hmore⟩

/-- The flag of a segmented reply is not one of those that a segment sets. -/
theorem bit_allFlags (kind : MessageKind) (segment : Option Segment) (segmentedReply : Bool) :
    Octets.bit (kind.highHalf + allFlags segment segmentedReply) 1 = segmentedReply := by
  refine (kind.bit_highHalf_add (allFlags_lt segment segmentedReply) (by omega)).trans ?_
  cases segment with
  | none => cases segmentedReply <;> decide
  | some segment => exact (bits_of_segment segment.more segmentedReply).2.2

theorem plain_encode (segment : Option Segment) : (encode segment).Plain := by
  cases segment <;> simp [encode]

theorem reads_decode {first : UInt8} {segment : Option Segment}
    (hannounced : Announced first segment) :
    Reads (decode first) (encode segment).octets segment := by
  cases segment with
  | none =>
      have hwhole : Octets.bit first 3 = false := hannounced
      rw [decode, hwhole]
      exact Reads.pure none
  | some segment =>
      obtain ⟨hsegment, hmore⟩ := hannounced
      rw [decode, hsegment]
      change Reads _ ([segment.sequence] ++ [segment.window]) _
      refine (Reads.octet segment.sequence).bind ?_
      refine (Reads.octet segment.window).bind_pure ?_
      rw [hmore]

end Segment

/-! ## Requests -/

namespace RequestHeader

variable {header : RequestHeader}

/-- The codes of the sizes are numbers of four bits. -/
def Sized (header : RequestHeader) : Prop := header.maxSegments < 16 ∧ header.maxReply < 16

/-- The octet that holds the codes of both sizes. -/
def sizes (header : RequestHeader) : UInt8 := header.maxSegments * 16 + header.maxReply % 16

theorem sizes_split (hsized : header.Sized) :
    header.sizes / 16 = header.maxSegments ∧ header.sizes % 16 = header.maxReply := by
  obtain ⟨hsegments, hreply⟩ := hsized
  simp only [UInt8.lt_iff_toNat_lt, UInt8.reduceToNat] at hsegments hreply
  rw [← UInt8.toNat_inj, ← UInt8.toNat_inj]
  simp only [sizes, UInt8.toNat_div, UInt8.toNat_mod, UInt8.toNat_add, UInt8.toNat_mul,
    UInt8.reduceToNat]
  omega

theorem octets_encode (header : RequestHeader) :
    header.encode.octets =
      [MessageKind.confirmedRequest.highHalf +
        Segment.allFlags header.segment header.segmentedReply] ++
      ([header.sizes] ++ ([header.invoke] ++
        ((Segment.encode header.segment).octets ++ [header.service]))) := by
  simp [encode, Segment.allFlags, sizes, UInt8.add_assoc]

theorem plain_encode (header : RequestHeader) : header.encode.Plain := by
  simp [encode, Segment.plain_encode]

/-- **The head of a request is read back, whether or not the request is a segment.** -/
theorem reads_decode (hsized : header.Sized) :
    Reads decode header.encode.octets header := by
  rw [octets_encode]
  refine (MessageKind.reads_decodeFirst .confirmedRequest _ (Segment.allFlags_lt _ _)).bind ?_
  refine (Reads.octet header.sizes).bind ?_
  refine (Reads.octet header.invoke).bind ?_
  refine (Segment.reads_decode (Segment.announced_allFlags _ _ _)).bind ?_
  refine (Reads.octet header.service).bind_pure ?_
  obtain ⟨hsegments, hreply⟩ := sizes_split hsized
  rw [Segment.bit_allFlags, hsegments, hreply]

theorem octets_encode_of (invoke service : UInt8) :
    (of invoke service).encode.octets = [0, 5, invoke, service] := rfl

theorem plain_encode_of (invoke service : UInt8) : (of invoke service).encode.Plain :=
  plain_encode _

theorem reads_decode_of (invoke service : UInt8) :
    Reads decode (of invoke service).encode.octets (of invoke service) :=
  reads_decode ⟨of_decide_eq_true rfl, of_decide_eq_true rfl⟩

end RequestHeader

/-! ## Acknowledgements -/

namespace AckHeader

theorem octets_encode (header : AckHeader) :
    header.encode.octets =
      [MessageKind.complexAck.highHalf + Segment.allFlags header.segment false] ++
      ([header.invoke] ++ ((Segment.encode header.segment).octets ++ [header.service])) := by
  simp [encode, Segment.allFlags]

theorem plain_encode (header : AckHeader) : header.encode.Plain := by
  simp [encode, Segment.plain_encode]

/-- **The head of an acknowledgement is read back.** -/
theorem reads_decode (header : AckHeader) : Reads decode header.encode.octets header := by
  rw [octets_encode]
  refine (MessageKind.reads_decodeFirst .complexAck _ (Segment.allFlags_lt _ _)).bind ?_
  refine (Reads.octet header.invoke).bind ?_
  refine (Segment.reads_decode (Segment.announced_allFlags _ _ _)).bind ?_
  exact (Reads.octet header.service).bind_pure rfl

theorem octets_encode_of (invoke service : UInt8) :
    (of invoke service).encode.octets = [48, invoke, service] := rfl

theorem plain_encode_of (invoke service : UInt8) : (of invoke service).encode.Plain :=
  plain_encode _

theorem reads_decode_of (invoke service : UInt8) :
    Reads decode (of invoke service).encode.octets (of invoke service) :=
  reads_decode _

end AckHeader

/-! ## Errors -/

namespace ErrorMessage

variable {classCode errorCode : UInt32} {classTag codeTag : Tag}

theorem plain_encode (message : ErrorMessage) : message.encode.Plain := by
  rw [encode, plain_append]
  refine ⟨by simp, ?_⟩
  split
  · exact (plain_append _ _).mpr ⟨App.plain_content _ _, App.plain_content _ _⟩
  · exact plain_nil

theorem octets_encode (invoke service : UInt8) (classCode errorCode : UInt32) :
    (encode ⟨invoke, service, some classCode, some errorCode⟩).octets =
      [80, invoke, service] ++ ((App.enumerated classCode).octets ++
        (App.enumerated errorCode).octets) := by
  simp only [encode, octets_append]
  rfl

theorem length_enumerated {code : UInt32} (hcode : code.toNat < 256) :
    (App.enumerated code).octets.length = 2 := by
  have hcontent : (Value.unsignedContent code).length = 1 := by
    rw [Value.length_unsignedContent, if_pos hcode]
  rw [App.enumerated, App.length_content _ (by omega), hcontent]

/-- **An error with class and code takes seven octets.** -/
theorem length_encode_of (invoke service : UInt8) (refusal : Refusal) :
    (of invoke service refusal).encode.octets.length = 7 := by
  have hclass : refusal.errorClass.code.toNat < 256 := by cases refusal.errorClass <;> decide
  have hcode : refusal.errorCode.code.toNat < 256 := by cases refusal.errorCode <;> decide
  rw [of, octets_encode]
  simp only [List.length_append, length_enumerated hclass, length_enumerated hcode]
  rfl

/-! ### Class and code -/

/-- The tags behind which `code` may stand: that of an enumerated value, or the context tag
`number`. -/
inductive Introduces (number : UInt8) (code : UInt32) : Tag → Prop
  | application : Introduces number code
      (.application .enumerated (UInt32.ofNat (Value.unsignedContent code).length))
  | context : Introduces number code
      (.context number (UInt32.ofNat (Value.unsignedContent code).length))

/-- A class or code behind its tag. -/
def field (tag : Tag) (code : UInt32) : Octets := tag.encode.octets ++ Value.unsignedContent code

theorem octets_enumerated (code : UInt32) :
    (App.enumerated code).octets =
      field (.application .enumerated (UInt32.ofNat (Value.unsignedContent code).length)) code := by
  simp [App.enumerated, App.content, field]

theorem octets_context (number : UInt8) (code : UInt32) :
    (Ctx.enumerated number code).octets =
      field (.context number (UInt32.ofNat (Value.unsignedContent code).length)) code :=
  Ctx.octets_content number _

theorem Introduces.reads_decodeCode {number : UInt8} {code : UInt32} {tag : Tag}
    (htag : Introduces number code tag) :
    Reads (decodeCode tag number) (Value.unsignedContent code) code := by
  have hlength := Value.length_unsignedContent_le code
  have hback : (UInt32.ofNat (Value.unsignedContent code).length).toNat =
      (Value.unsignedContent code).length :=
    UInt32.toNat_ofNat_of_lt' (Nat.lt_of_le_of_lt hlength (by decide))
  cases htag with
  | application =>
      rw [decodeCode, hback]
      exact Value.reads_decodeUnsigned code
  | context =>
      rw [decodeCode, if_pos rfl, hback]
      exact Value.reads_decodeUnsigned code

/-- A class that is not enclosed is not taken for one that is. -/
theorem Introduces.beq_opening {number : UInt8} {code : UInt32} {tag : Tag}
    (htag : Introduces number code tag) (opened : UInt8) : (tag == Tag.opening opened) = false := by
  cases htag <;> rfl

/-- Class and code, bare or between the opening and the closing tag 0. -/
def details (isEnclosed : Bool) (pair : Octets) : Octets :=
  if isEnclosed then (Tag.opening 0).encode.octets ++ (pair ++ (Tag.closing 0).encode.octets)
  else pair

theorem details_ne_nil (isEnclosed : Bool) (tag : Tag) (code : UInt32) (more : Octets) :
    details isEnclosed (field tag code ++ more) ≠ [] := by
  cases isEnclosed with
  | false => simp [details, field, Tag.octets_encode_ne_nil]
  | true => simp [details, Tag.octets_encode_ne_nil]

/-- **An error is read back from any layout of class and code**, also from one that mixes the
two sorts of tags. -/
theorem reads_decode_details (invoke service : UInt8) (hclass : Introduces 0 classCode classTag)
    (hcode : Introduces 1 errorCode codeTag) (isEnclosed : Bool) :
    Reads decode ([80, invoke, service] ++
        details isEnclosed (field classTag classCode ++ field codeTag errorCode))
      ⟨invoke, service, some classCode, some errorCode⟩ := by
  refine (MessageKind.reads_decodeFirst .error 0 (by decide)).bind ?_
  change Reads _ ([invoke] ++ ([service] ++ _)) _
  refine (Reads.octet invoke).bind ?_
  refine (Reads.octet service).bind ?_
  refine Reads.after_atEnd (details_ne_nil _ _ _ _) ?_
  cases isEnclosed with
  | false =>
      -- The first tag is that of the class, and is kept for it.
      simp only [details, field, List.append_assoc, Bool.false_eq_true, if_false]
      refine (Tag.reads_decode classTag).bind ?_
      simp only [hclass.beq_opening, Bool.false_eq_true, if_false]
      refine (Reads.pure classTag).bind ?_
      refine hclass.reads_decodeCode.bind ?_
      refine (Tag.reads_decode codeTag).bind ?_
      exact hcode.reads_decodeCode.bind_pure rfl
  | true =>
      -- The first tag only opens the enclosure, so another one is read for the class.
      simp only [details, field, List.append_assoc, if_true]
      refine (Tag.reads_decode (.opening 0)).bind ?_
      simp only [BEq.rfl, if_true]
      refine (Tag.reads_decode classTag).bind ?_
      refine hclass.reads_decodeCode.bind ?_
      refine (Tag.reads_decode codeTag).bind ?_
      refine hcode.reads_decodeCode.bind ?_
      exact (Tag.reads_decodeClosing 0).bind_pure rfl

/-- **An error with class and code is read back.** -/
theorem reads_decode (invoke service : UInt8) (classCode errorCode : UInt32) :
    Reads decode (encode ⟨invoke, service, some classCode, some errorCode⟩).octets
      ⟨invoke, service, some classCode, some errorCode⟩ := by
  rw [octets_encode, octets_enumerated, octets_enumerated]
  exact reads_decode_details invoke service .application .application false

/-- The layouts in which devices state class and code: behind application tags or behind the
context tags 0 and 1, bare or enclosed. -/
def layouts (classCode errorCode : UInt32) : List Encoding :=
  let plain := App.enumerated classCode ++ App.enumerated errorCode
  let context := Ctx.enumerated 0 classCode ++ Ctx.enumerated 1 errorCode
  [plain, context, enclosed 0 plain, enclosed 0 context]

theorem plain_of_mem_layouts {layout : Encoding} (hlayout : layout ∈ layouts classCode errorCode) :
    layout.Plain := by
  have hplain : (App.enumerated classCode ++ App.enumerated errorCode).Plain :=
    (plain_append _ _).mpr ⟨App.plain_content _ _, App.plain_content _ _⟩
  have hcontext : (Ctx.enumerated 0 classCode ++ Ctx.enumerated 1 errorCode).Plain :=
    (plain_append _ _).mpr ⟨Ctx.plain_content _ _, Ctx.plain_content _ _⟩
  simp only [layouts, List.mem_cons, List.not_mem_nil, or_false] at hlayout
  rcases hlayout with rfl | rfl | rfl | rfl
  · exact hplain
  · exact hcontext
  · exact plain_enclosed hplain
  · exact plain_enclosed hcontext

/-- Every layout is an instance of `reads_decode_details`. -/
theorem reads_decode_of_mem_layouts (invoke service : UInt8) {layout : Encoding}
    (hlayout : layout ∈ layouts classCode errorCode) :
    Reads decode ([80, invoke, service] ++ layout.octets)
      ⟨invoke, service, some classCode, some errorCode⟩ := by
  -- The tags are those of the layout's fields, and only the last two are enclosed.
  simp only [layouts, List.mem_cons, List.not_mem_nil, or_false] at hlayout
  rcases hlayout with rfl | rfl | rfl | rfl
  · rw [octets_append, octets_enumerated, octets_enumerated]
    exact reads_decode_details invoke service .application .application false
  · rw [octets_append, octets_context, octets_context]
    exact reads_decode_details invoke service .context .context false
  · rw [enclosed, octets_append, octets_append, octets_append, octets_enumerated,
      octets_enumerated, List.append_assoc]
    exact reads_decode_details invoke service .application .application true
  · rw [enclosed, octets_append, octets_append, octets_append, octets_context, octets_context,
      List.append_assoc]
    exact reads_decode_details invoke service .context .context true

end ErrorMessage

/-! ## Rejects and aborts -/

namespace RejectMessage

theorem plain_encode (message : RejectMessage) : message.encode.Plain := by
  simp [encode]

theorem reads_decode (message : RejectMessage) :
    Reads decode message.encode.octets message := by
  refine (MessageKind.reads_decodeFirst .reject 0 (by decide)).bind ?_
  refine (Reads.octet message.invoke).bind ?_
  exact (Reads.octet message.reason).bind_pure rfl

end RejectMessage

namespace AbortMessage

theorem plain_encode (message : AbortMessage) : message.encode.Plain := by
  simp [encode]

theorem serverFlag_lt (server : Bool) : (if server then 1 else 0 : UInt8).toNat < 16 := by
  cases server <;> decide

/-- **An abort is read back, with the side that aborts.** -/
theorem reads_decode (message : AbortMessage) : Reads decode message.encode.octets message := by
  have hflag := serverFlag_lt message.server
  refine (MessageKind.reads_decodeFirst .abort _ hflag).bind ?_
  refine (Reads.octet message.invoke).bind ?_
  refine (Reads.octet message.reason).bind_pure ?_
  have hserver : Octets.bit (if message.server then 1 else 0) 0 = message.server := by
    cases message.server <;> decide
  rw [MessageKind.bit_highHalf_add .abort hflag (by decide), hserver]

theorem reads_decode_tooLong (invoke : UInt8) :
    Reads decode (tooLong invoke).encode.octets (tooLong invoke) :=
  reads_decode _

end AbortMessage

end Historian
