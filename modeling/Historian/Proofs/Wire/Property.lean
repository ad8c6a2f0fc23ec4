import Historian.Message.ReadProperty
import Historian.Proofs.Wire.Field

/-!
# Property values read back as they were written

A value that can be written is read back (`PropertyValue.reads_decode`), and so is the
answer around it (`PropertyAck.reads_decode`).  Status flags come back as the bit
string that they travel as.  A text or bit string too long to count and a bit string
with too many unused bits cannot be written.
-/

namespace Historian

open Decoder Encoding

/-! ## Texts -/

namespace Value

theorem textOfOctets?_textOctets (text : String) : textOfOctets? (textOctets text) = some text := by
  have hback : (⟨(textOctets text).toArray⟩ : ByteArray) = text.toUTF8 := by
    simp [textOctets]
  have hvalid : text.toUTF8.IsValidUTF8 := text.isValidUTF8
  rw [textOfOctets?, hback, String.fromUTF8?, dif_pos hvalid]
  rfl

theorem reads_decodeText (text : String) :
    Reads (decodeText ((textOctets text).length + 1)) (utf8 :: textOctets text) text := by
  refine Reads.after_require (by simp) ?_
  refine (Reads.take (utf8 :: textOctets text)).bind_pure ?_
  simp only [decide_true, require, if_true, textOfOctets?_textOctets]
  rfl

/-- A counted content can be written if it is not too long. -/
theorem length_le_of_plain_counted {head : UInt32 → Tag} {lead : UInt8} {content : Octets}
    (hplain : (counted head lead content).Plain) : content.length + 1 ≤ lengthLimit := by
  unfold counted at hplain
  split at hplain
  · assumption
  · exact absurd hplain (not_plain_fault_cons _ _)

/-- A bit string can be written if it has no more than seven unused bits and is not too
long. -/
theorem bounds_of_plain_bitString {head : UInt32 → Tag} {value : BitString}
    (hplain : (bitString head value).Plain) :
    value.unused ≤ 7 ∧ value.data.length + 1 ≤ lengthLimit := by
  unfold bitString at hplain
  split at hplain
  · exact absurd hplain (not_plain_fault_cons _ _)
  · rename_i hunused
    exact ⟨UInt8.not_lt.mp hunused, length_le_of_plain_counted hplain⟩

end Value

/-! ## Values -/

namespace PropertyValue

/-- A value as it arrives. -/
def received : PropertyValue → PropertyValue
  | statusFlags value => bitString value.toBitString
  | value => value

/-- What is read behind an application tag. -/
def decodeContent (tag : AppTag) (length : Nat) : Decoder PropertyValue :=
  match tag with
  | .boolean => return boolean (length ≠ 0)
  | .unsignedInt => return unsigned (← Value.decodeUnsigned length)
  | .real => return real (← Value.decodeReal length)
  | .enumerated => return enumerated (← Value.decodeUnsigned length)
  | .characterString => return text (← Value.decodeText length)
  | .bitString => return bitString (← Value.decodeBitString length)
  | .objectId => do
      require (length = 4) .invalidTag
      return objectId ⟨← Decoder.word32⟩
  | _ => fail .invalidTag

theorem reads_behind {tag : AppTag} {length : Nat} {octets : Octets} {value : PropertyValue}
    (hlength : length ≤ Value.lengthLimit) (hread : Reads (decodeContent tag length) octets value) :
    Reads decode ((Tag.application tag (UInt32.ofNat length)).encode.octets ++ octets) value := by
  have hback : (UInt32.ofNat length).toNat = length :=
    UInt32.toNat_ofNat_of_lt' (Nat.lt_succ_of_le hlength)
  rw [← hback] at hread
  exact (Tag.reads_decode _).bind hread

theorem reads_content {tag : AppTag} {octets : Octets} {value : PropertyValue}
    (hlength : octets.length ≤ 4) (hread : Reads (decodeContent tag octets.length) octets value) :
    Reads decode (App.content tag octets).octets value := by
  have hlimit : octets.length ≤ Value.lengthLimit := Nat.le_trans hlength (by decide)
  simpa [App.content] using reads_behind hlimit hread

theorem reads_counted {tag : AppTag} {lead : UInt8} {content : Octets} {value : PropertyValue}
    (hlength : content.length + 1 ≤ Value.lengthLimit)
    (hread : Reads (decodeContent tag (content.length + 1)) (lead :: content) value) :
    Reads decode (Value.counted (Tag.application tag) lead content).octets value := by
  rw [Value.counted, if_pos hlength]
  simpa using reads_behind hlength hread

theorem reads_bitString {value : BitString} (hunused : value.unused ≤ 7)
    (hlength : value.data.length + 1 ≤ Value.lengthLimit) :
    Reads decode (App.bitString value).octets (bitString value) := by
  rw [App.bitString, Value.bitString, if_neg (UInt8.not_lt.mpr hunused)]
  exact reads_counted hlength ((Value.reads_decodeBitString hunused).bind_pure rfl)

/-- **A value that can be written is read back.** -/
theorem reads_decode {value : PropertyValue} (hplain : value.encode.Plain) :
    Reads decode value.encode.octets value.received := by
  cases value with
  | boolean value =>
      rw [encode, App.boolean]
      refine (Tag.reads_decode _).bind_pure ?_
      cases value <;> rfl
  | unsigned value =>
      exact reads_content (Value.length_unsignedContent_le value)
        ((Value.reads_decodeUnsigned value).bind_pure rfl)
  | real value => exact reads_content (by simp) ((Value.reads_decodeReal value).bind_pure rfl)
  | enumerated value =>
      exact reads_content (Value.length_unsignedContent_le value)
        ((Value.reads_decodeUnsigned value).bind_pure rfl)
  | text value =>
      exact reads_counted (Value.length_le_of_plain_counted hplain)
        ((Value.reads_decodeText value).bind_pure rfl)
  | bitString value =>
      obtain ⟨hunused, hlength⟩ := Value.bounds_of_plain_bitString hplain
      exact reads_bitString hunused hlength
  | statusFlags value =>
      exact reads_bitString value.unused_toBitString_le (of_decide_eq_true rfl)
  | objectId value =>
      exact reads_content (by simp)
        (Reads.after_require rfl ((Reads.word32 value.raw).bind_pure rfl))

end PropertyValue

/-! ## Answers -/

namespace PropertyAck

/-- An answer as it arrives. -/
def received (ack : PropertyAck) : PropertyAck :=
  { ack with
    property := PropertyId.ofCode ack.property.code
    value := ack.value.received }

/-- Only the value can stand in the way of writing an answer. -/
theorem plain_encode_iff (ack : PropertyAck) : ack.encode.Plain ↔ ack.value.encode.Plain := by
  simp [encode, enclosed, Ctx.objectId, Ctx.plain_content, Ctx.plain_unsigned,
    Ctx.plain_unsigned?, Tag.plain_encode]

/-- **An answer that can be written is read back.** -/
theorem reads_decode {ack : PropertyAck} (hplain : ack.encode.Plain) :
    Reads decode ack.encode.octets ack.received := by
  simp only [encode, enclosed, octets_append, List.append_assoc]
  refine (Ctx.reads_decodeObjectId 0 ack.object).bind ?_
  refine (Ctx.reads_decodeUnsigned 1 ack.property.code).bind ?_
  have hother : ∀ length, Tag.opening valueTag ≠ .context 2 length := by simp
  refine Ctx.reads_decodeUnsigned?_bind ack.index (fun rest => ?_) hother ?_
  · simpa only [List.append_assoc] using Tag.ahead_encode (.opening valueTag) _
  refine (Tag.reads_decodeOpening valueTag).bind ?_
  refine (PropertyValue.reads_decode (ack.plain_encode_iff.mp hplain)).bind ?_
  exact (Tag.reads_decodeClosing valueTag).bind_pure rfl

end PropertyAck

end Historian
