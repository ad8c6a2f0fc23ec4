import Historian.Value.Field
import Historian.Proofs.Wire.Flags
import Historian.Proofs.Wire.Integer
import Historian.Proofs.Wire.Tag

/-!
# Fields read back as they were written

A field is a tag with the length of a content, and the content.  `Ctx.reads_content`
and `App.reads_content` put the round trip of a content behind its tag once; each
kind of field then needs only the round trip of its content.  A field that may be
left out is told by the tag ahead.
-/

namespace Historian

open Decoder Encoding

/-! ## Contents -/

namespace Value

theorem reads_fourOctets (value : UInt32) : Reads (fourOctets 4) (Octets.ofWord32 value) value :=
  (Reads.word32 value).after_require rfl

theorem reads_decodeReal (value : Single) :
    Reads (decodeReal 4) (Octets.ofWord32 value.bits) value :=
  (reads_fourOctets value.bits).bind_pure rfl

theorem reads_decodeBitString {value : BitString} (hunused : value.unused ≤ 7) :
    Reads (decodeBitString (value.data.length + 1)) (value.unused :: value.data) value := by
  refine Reads.after_require (by simp) ?_
  refine (Reads.take (value.unused :: value.data)).bind_pure ?_
  simp only [decide_eq_true hunused, require, if_true]
  rfl

theorem reads_decodeBoolean (value : Bool) :
    Reads (decodeBoolean 1) [if value then 1 else 0] value := by
  refine Reads.after_require rfl ?_
  refine (Reads.octet _).bind_pure ?_
  cases value <;> rfl

theorem reads_decodeDate (value : Date) : Reads (decodeDate 4) value.octets value :=
  Reads.after_require rfl ((Reads.take value.octets).bind_pure rfl)

theorem reads_decodeTime (value : Time) : Reads (decodeTime 4) value.octets value :=
  Reads.after_require rfl ((Reads.take value.octets).bind_pure rfl)

/-- A bit string is written if it has no more than seven unused bits and a length that
a tag can state. -/
theorem bitString_eq {value : BitString} (head : UInt32 → Tag)
    (hunused : value.unused ≤ 7) (hlength : value.data.length + 1 ≤ lengthLimit) :
    bitString head value = (head (UInt32.ofNat (value.data.length + 1))).encode ++
      [.run [value.unused], .run value.data] := by
  rw [bitString, if_neg (UInt8.not_lt.mpr hunused), counted, if_pos hlength]

end Value

namespace FlagSet

variable {kind : FlagKind}

theorem unused_toBitString_le (flags : FlagSet kind) : flags.toBitString.unused ≤ 7 := by
  cases kind <;> exact of_decide_eq_true rfl

theorem ofBitString_toBitString (flags : FlagSet kind) :
    ofBitString flags.toBitString = flags.defined :=
  flags.ofOctet_octet

end FlagSet

/-! ## Behind application tags -/

namespace App

variable {α : Type} {tag : AppTag} {octets : Octets} {decode : Nat → Decoder α} {value : α}

theorem plain_content (tag : AppTag) (octets : Octets) : (content tag octets).Plain := by
  simp [content, Tag.plain_encode]

theorem reads_content (hlength : octets.length < 4294967296)
    (hread : Reads (decode octets.length) octets value) :
    Reads (Tag.decodeApplication tag >>= decode) (content tag octets).octets value := by
  have hback : (UInt32.ofNat octets.length).toNat = octets.length :=
    UInt32.toNat_ofNat_of_lt' hlength
  have hhead := Tag.reads_decodeApplication tag (UInt32.ofNat octets.length)
  rw [hback] at hhead
  simpa [content] using hhead.bind hread

/-- A short content has one octet in front. -/
theorem length_content (tag : AppTag) {octets : Octets} (hlength : octets.length < 5) :
    (content tag octets).octets.length = 1 + octets.length := by
  have hshort : UInt32.ofNat octets.length < 5 := by
    rw [UInt32.lt_iff_toNat_lt, UInt32.toNat_ofNat']
    exact Nat.lt_of_le_of_lt (Nat.mod_le _ _) hlength
  simp [content, Tag.length_encode_application tag hshort, Nat.add_comm]

theorem length_content_le (tag : AppTag) {octets : Octets} (hlength : octets.length ≤ 4) :
    (content tag octets).octets.length ≤ 5 := by
  rw [length_content tag (Nat.lt_succ_of_le hlength)]
  omega

theorem reads_decodeUnsigned (value : UInt32) :
    Reads App.decodeUnsigned (unsigned value).octets value :=
  reads_content (Nat.lt_of_le_of_lt (Value.length_unsignedContent_le value) (by decide))
    (Value.reads_decodeUnsigned value)

theorem reads_decodeSigned (value : Int32) : Reads App.decodeSigned (signed value).octets value :=
  reads_content (Nat.lt_of_le_of_lt (Value.length_signedContent_le value) (by decide))
    (Value.reads_decodeSigned value)

theorem reads_decodeDate (value : Date) : Reads App.decodeDate (date value).octets value :=
  reads_content (of_decide_eq_true rfl) (Value.reads_decodeDate value)

theorem reads_decodeTime (value : Time) : Reads App.decodeTime (time value).octets value :=
  reads_content (of_decide_eq_true rfl) (Value.reads_decodeTime value)

end App

/-! ## Behind context tags -/

namespace Ctx

variable {α : Type} {number : UInt8} {octets : Octets} {decode : Nat → Decoder α} {value : α}

theorem plain_content (number : UInt8) (octets : Octets) : (content number octets).Plain := by
  simp [content, Tag.plain_encode]

theorem octets_content (number : UInt8) (octets : Octets) :
    (content number octets).octets =
      (Tag.context number (UInt32.ofNat octets.length)).encode.octets ++ octets := by
  simp [content]

theorem ahead_content (number : UInt8) (octets rest : Octets) :
    Tag.Ahead (.context number (UInt32.ofNat octets.length))
      ((content number octets).octets ++ rest) := by
  rw [octets_content, List.append_assoc]
  exact Tag.ahead_encode _ _

theorem reads_content (hlength : octets.length < 4294967296)
    (hread : Reads (decode octets.length) octets value) :
    Reads (Tag.decodeContext number >>= decode) (content number octets).octets value := by
  have hback : (UInt32.ofNat octets.length).toNat = octets.length :=
    UInt32.toNat_ofNat_of_lt' hlength
  have hhead := Tag.reads_decodeContext number (UInt32.ofNat octets.length)
  rw [hback] at hhead
  rw [octets_content]
  exact hhead.bind hread

/-- A field of a low number and a short content has one octet more than its content. -/
theorem length_content {number : UInt8} {octets : Octets} (hnumber : number < 15)
    (hlength : octets.length < 5) : (content number octets).octets.length = 1 + octets.length := by
  have hshort : UInt32.ofNat octets.length < 5 := by
    rw [UInt32.lt_iff_toNat_lt, UInt32.toNat_ofNat']
    exact Nat.lt_of_le_of_lt (Nat.mod_le _ _) hlength
  rw [octets_content, List.length_append, Tag.length_encode_context hnumber hshort]

theorem length_content_le {number : UInt8} {octets : Octets} (hnumber : number < 15)
    (hlength : octets.length ≤ 4) : (content number octets).octets.length ≤ 5 := by
  rw [length_content hnumber (Nat.lt_succ_of_le hlength)]
  omega

theorem plain_unsigned (number : UInt8) (value : UInt32) : (unsigned number value).Plain :=
  plain_content number _

theorem length_unsigned {number : UInt8} (value : UInt32) (hnumber : number < 15) :
    (unsigned number value).octets.length = 1 + (Value.unsignedContent value).length :=
  length_content hnumber (Nat.lt_succ_of_le (Value.length_unsignedContent_le value))

theorem length_unsigned_le {number : UInt8} (value : UInt32) (hnumber : number < 15) :
    (unsigned number value).octets.length ≤ 5 :=
  length_content_le hnumber (Value.length_unsignedContent_le value)

theorem reads_decodeUnsigned (number : UInt8) (value : UInt32) :
    Reads (decodeUnsigned number) (unsigned number value).octets value :=
  reads_content (Nat.lt_of_le_of_lt (Value.length_unsignedContent_le value) (by decide))
    (Value.reads_decodeUnsigned value)

theorem reads_decodeObjectId (number : UInt8) (id : ObjectId) :
    Reads (decodeObjectId number) (objectId number id).octets id :=
  reads_content (of_decide_eq_true rfl) ((Value.reads_fourOctets id.raw).bind_pure rfl)

/-! A flag set has a content of two octets. -/

theorem flags_eq {kind : FlagKind} (number : UInt8) (value : FlagSet kind) :
    flags number value = (Tag.context number 2).encode ++
      [.run [value.toBitString.unused], .run [value.octet]] :=
  Value.bitString_eq _ value.unused_toBitString_le (of_decide_eq_true rfl)

theorem plain_flags {kind : FlagKind} (number : UInt8) (value : FlagSet kind) :
    (flags number value).Plain := by
  simp [flags_eq, Tag.plain_encode]

theorem length_flags {kind : FlagKind} {number : UInt8} (value : FlagSet kind)
    (hnumber : number < 15) : (flags number value).octets.length = 3 := by
  rw [flags_eq, octets_append, List.length_append,
    Tag.length_encode_context hnumber (by decide)]
  rfl

theorem ahead_flags {kind : FlagKind} (number : UInt8) (value : FlagSet kind)
    (more rest : Octets) :
    Tag.Ahead (.context number 2) (((flags number value).octets ++ more) ++ rest) := by
  simp only [flags_eq, octets_append, List.append_assoc]
  exact Tag.ahead_encode _ _

/-- Flags without a name make no difference. -/
theorem flags_defined {kind : FlagKind} (number : UInt8) (value : FlagSet kind) :
    flags number value.defined = flags number value := by
  rw [flags_eq, flags_eq, value.octet_defined]
  rfl

theorem reads_decodeFlags {kind : FlagKind} (number : UInt8) (value : FlagSet kind) :
    Reads (decodeFlags number : Decoder (FlagSet kind)) (flags number value).octets
      value.defined := by
  rw [flags_eq, octets_append]
  refine (Tag.reads_decodeContext number 2).bind ?_
  refine (Value.reads_decodeBitString value.unused_toBitString_le).bind_pure ?_
  rw [value.ofBitString_toBitString]

/-! ## Fields that may be left out -/

/-- In front of anything else nothing is taken. -/
theorem decodeUnsigned?_of_ahead {number : UInt8} {tag : Tag} {input : Octets}
    (hahead : Tag.Ahead tag input) (hne : ∀ length, tag ≠ .context number length) :
    decodeUnsigned? number input = .ok (none, input) := by
  -- The decoder first looks whether there is anything ahead, then at the tag.
  have hsome : input.isEmpty = false := List.isEmpty_eq_false_iff.mpr hahead.ne_nil
  rw [decodeUnsigned?, bind_of_ok (atEnd_apply input), hsome]
  simp only [Bool.false_eq_true, if_false]
  rw [bind_of_ok hahead.peek]
  cases tag with
  | context found length =>
      have hfound : found ≠ number := fun heq => hne length (by rw [heq])
      simp only [if_neg hfound]
      rfl
  | _ => rfl

theorem reads_decodeUnsigned? (number : UInt8) (value : UInt32) :
    Reads (decodeUnsigned? number) (unsigned number value).octets (some value) := by
  intro rest
  have hahead := ahead_content number (Value.unsignedContent value) rest
  have hsome := List.isEmpty_eq_false_iff.mpr hahead.ne_nil
  rw [decodeUnsigned?, bind_of_ok (atEnd_apply _), unsigned, hsome]
  simp only [Bool.false_eq_true, if_false]
  rw [bind_of_ok hahead.peek]
  simp only [if_true]
  exact bind_of_ok (reads_decodeUnsigned number value rest)

/-- A field that may be left out, at the end of the input. -/
theorem decodeUnsigned?_last (number : UInt8) (field : Option UInt32) :
    decodeUnsigned? number (unsigned? number field).octets = .ok (field, []) := by
  cases field with
  | none => rfl
  | some field => exact (reads_decodeUnsigned? number field).whole

/-- A field that may be left out, in front of something else. -/
theorem reads_decodeUnsigned?_bind {number : UInt8} {tag : Tag}
    {next : Option UInt32 → Decoder α} {more : Octets} (field : Option UInt32)
    (hahead : ∀ rest, Tag.Ahead tag (more ++ rest))
    (hne : ∀ length, tag ≠ .context number length)
    (hnext : Reads (next field) more value) :
    Reads (decodeUnsigned? number >>= next) ((unsigned? number field).octets ++ more) value := by
  cases field with
  | none =>
      intro rest
      rw [unsigned?, octets_nil, List.nil_append,
        bind_of_ok (decodeUnsigned?_of_ahead (hahead rest) hne)]
      exact hnext rest
  | some field => exact (reads_decodeUnsigned? number field).bind hnext

theorem plain_unsigned? (number : UInt8) (field : Option UInt32) :
    (unsigned? number field).Plain := by
  cases field with
  | none => exact plain_nil
  | some field => exact plain_unsigned number field

theorem length_unsigned?_le {number : UInt8} (field : Option UInt32) (hnumber : number < 15) :
    (unsigned? number field).octets.length ≤ 5 := by
  cases field with
  | none => exact Nat.zero_le 5
  | some field => exact length_unsigned_le field hnumber

end Ctx

/-! ## Enclosures -/

theorem plain_enclosed {number : UInt8} {inner : Encoding} (hplain : inner.Plain) :
    (enclosed number inner).Plain := by
  simp [enclosed, Tag.plain_encode, hplain]

theorem length_enclosed {number : UInt8} (hnumber : number < 15) (inner : Encoding) :
    (enclosed number inner).octets.length = 1 + inner.octets.length + 1 := by
  simp only [enclosed, octets_append, List.length_append, Tag.encode,
    Tag.length_encodeInitial _ hnumber]

end Historian
