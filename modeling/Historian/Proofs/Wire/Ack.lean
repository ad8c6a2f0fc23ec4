import Historian.Message.ReadRange
import Historian.Proofs.Wire.Record

/-!
# Answers to range requests read back as they were written

`RangeAck.decode_encode`: the octets of an answer are read back to the answer and
used up.  What is not sent is lost on the way: flags without a name, and the
difference between a property and its number.  A first sequence of zero would be
left out and so is excluded.

The items end at their closing tag, not at a count, so their reader is followed
record by record (`RangeAck.decodeItems_encode`).
-/

namespace Historian

open Decoder Encoding

namespace PropertyId

theorem code_ofCode (code : UInt32) : (ofCode code).code = code := by
  unfold ofCode
  split <;> rfl

/-- A number that has a name does not stand for the property without it. -/
def Proper (property : PropertyId) : Prop := ∀ code, property = other code → ofCode code = property

theorem ofCode_code {property : PropertyId} (hproper : property.Proper) :
    ofCode property.code = property := by
  cases property with
  | other code => exact hproper code rfl
  | _ => rfl

theorem proper_ofCode (code : UInt32) : (ofCode code).Proper := by
  intro unnamed hunnamed
  have hcode := code_ofCode code
  rw [hunnamed] at hcode
  rw [← show unnamed = code from hcode]

end PropertyId

/-! ## The head -/

namespace RangeAckHead

/-- A head as it arrives. -/
def received (head : RangeAckHead) : RangeAckHead :=
  { head with property := PropertyId.ofCode head.property.code, flags := head.flags.defined }

theorem plain_encode (head : RangeAckHead) : head.encode.Plain := by
  simp [encode, Ctx.objectId, Ctx.plain_content, Ctx.plain_unsigned, Ctx.plain_unsigned?,
    Ctx.plain_flags]

/-- A head takes at most 23 octets. -/
theorem length_encode_le (head : RangeAckHead) : head.encode.octets.length ≤ 23 := by
  have hobject : (Ctx.objectId 0 head.object).octets.length = 5 := rfl
  have hproperty : (Ctx.unsigned 1 head.property.code).octets.length ≤ 5 :=
    Ctx.length_unsigned_le _ (by decide)
  have hindex : (Ctx.unsigned? 2 head.index).octets.length ≤ 5 :=
    Ctx.length_unsigned?_le _ (by decide)
  have hflags : (Ctx.flags 3 head.flags).octets.length = 3 := Ctx.length_flags _ (by decide)
  have hcount : (Ctx.unsigned 4 head.count).octets.length ≤ 5 :=
    Ctx.length_unsigned_le _ (by decide)
  simp only [encode, octets_append, List.length_append, hobject, hflags]
  omega

theorem reads_decode (head : RangeAckHead) : Reads decode head.encode.octets head.received := by
  simp only [encode, octets_append, List.append_assoc]
  refine (Ctx.reads_decodeObjectId 0 head.object).bind ?_
  refine (Ctx.reads_decodeUnsigned 1 head.property.code).bind ?_
  refine Ctx.reads_decodeUnsigned?_bind head.index (Ctx.ahead_flags 3 head.flags _)
    (by simp) ?_
  refine (Ctx.reads_decodeFlags 3 head.flags).bind ?_
  exact (Ctx.reads_decodeUnsigned 4 head.count).bind_pure rfl

end RangeAckHead

namespace RangeAck

/-! ## The items -/

/-- The octets of a list of records. -/
def itemOctets (items : List LogRecord) : Octets := octets (items.flatMap LogRecord.encode)

@[simp] theorem itemOctets_nil : itemOctets [] = [] := rfl

@[simp] theorem itemOctets_cons (record : LogRecord) (items : List LogRecord) :
    itemOctets (record :: items) = record.encode.octets ++ itemOctets items := by
  rw [itemOctets, List.flatMap_cons, octets_append, itemOctets]

/-- Records up to the closing tag.  Every record takes fuel, the tag the last. -/
theorem decodeItems_encode (items : List LogRecord) (rest : Octets) {fuel : Nat}
    (hfuel : items.length < fuel) :
    decodeItems fuel (itemOctets items ++ ((Tag.closing itemsTag).encode.octets ++ rest)) =
      .ok (items.map LogRecord.received, (Tag.closing itemsTag).encode.octets ++ rest) := by
  induction items generalizing fuel with
  | nil =>
      obtain ⟨fuel, rfl⟩ : ∃ less, fuel = less + 1 := ⟨fuel - 1, by simp at hfuel; omega⟩
      have hahead := Tag.ahead_encode (.closing itemsTag) rest
      rw [itemOctets_nil, List.nil_append, decodeItems, bind_of_ok hahead.peek]
      simp only [if_true]
      rfl
  | cons record items ih =>
      obtain ⟨fuel, rfl⟩ : ∃ less, fuel = less + 1 := ⟨fuel - 1, by simp at hfuel; omega⟩
      rw [itemOctets_cons, List.append_assoc, decodeItems,
        bind_of_ok (record.ahead_encode _).peek]
      have hopen : Tag.opening 0 ≠ Tag.closing itemsTag := by decide
      simp only [if_neg hopen]
      rw [bind_of_ok (record.reads_decode _), bind_of_ok (ih (Nat.lt_of_succ_lt_succ hfuel))]
      rfl

/-- A record takes at least one octet. -/
theorem length_items_le (items : List LogRecord) :
    items.length ≤ (itemOctets items).length := by
  induction items with
  | nil => simp
  | cons record items ih =>
      have hne := (record.ahead_encode []).ne_nil
      rw [List.append_nil, ← List.length_pos_iff] at hne
      simp only [itemOctets_cons, List.length_append, List.length_cons]
      omega

theorem reads_decodeAllItems (items : List LogRecord) (rest : Octets) :
    decodeAllItems (itemOctets items ++ ((Tag.closing itemsTag).encode.octets ++ rest)) =
      .ok (items.map LogRecord.received, (Tag.closing itemsTag).encode.octets ++ rest) := by
  refine decodeItems_encode items rest ?_
  -- The fuel is the number of octets ahead, the closing tag among them.
  have hle := length_items_le items
  have hclose : (Tag.closing itemsTag).encode.octets.length = 1 := rfl
  simp only [List.length_append, hclose]
  omega

/-! ## The whole answer -/

/-- An answer as it arrives. -/
def received (ack : RangeAck) : RangeAck :=
  { ack with
    property := PropertyId.ofCode ack.property.code
    flags := ack.flags.defined
    items := ack.items.map LogRecord.received }

theorem encode_received (ack : RangeAck) : ack.received.encode = ack.encode := by
  have hitems : (ack.items.map LogRecord.received).flatMap LogRecord.encode =
      ack.items.flatMap LogRecord.encode := by
    rw [List.flatMap_map]
    exact congrArg ack.items.flatMap (funext LogRecord.encode_received)
  simp only [encode, received, head, RangeAckHead.encode, PropertyId.code_ofCode,
    Ctx.flags_defined, hitems]

theorem plain_encodeFirstSequence (sequence : Option UInt32) :
    (encodeFirstSequence sequence).Plain := by
  unfold encodeFirstSequence
  split
  · exact plain_nil
  · split
    · exact plain_nil
    · exact Ctx.plain_unsigned 6 _

theorem plain_encode (ack : RangeAck) : ack.encode.Plain := by
  simp only [encode, enclosed, plain_append, RangeAckHead.plain_encode, Tag.plain_encode,
    plain_encodeFirstSequence, true_and, and_true]
  exact plain_flatMap _ fun record _ => record.plain_encode

theorem octets_encode (ack : RangeAck) :
    ack.encode.octets = ack.head.encode.octets ++ ((Tag.opening itemsTag).encode.octets ++
      (itemOctets ack.items ++ ((Tag.closing itemsTag).encode.octets ++
        (encodeFirstSequence ack.firstSequence).octets))) := by
  simp only [encode, enclosed, octets_append, List.append_assoc, itemOctets]

/-- The last field, at the end of the input. -/
theorem decode_firstSequence {sequence : Option UInt32} (hsequence : sequence ≠ some 0) :
    Ctx.decodeUnsigned? 6 (encodeFirstSequence sequence).octets = .ok (sequence, []) := by
  cases sequence with
  | none => rfl
  | some sequence =>
      have hne : sequence ≠ 0 := fun hzero => hsequence (congrArg some hzero)
      rw [encodeFirstSequence, if_neg hne]
      exact (Ctx.reads_decodeUnsigned? 6 sequence).whole

/-- **An answer is read back as it was written, and used up.** -/
theorem decode_encode (ack : RangeAck) (hsequence : ack.firstSequence ≠ some 0) :
    decode ack.encode.octets = .ok (ack.received, []) := by
  -- The records and the last field take what is ahead into account, so neither reads from
  -- its own octets alone, and the parts are followed one after another.
  rw [octets_encode, decode, bind_of_ok (ack.head.reads_decode _),
    bind_of_ok (Tag.reads_decodeOpening itemsTag _),
    bind_of_ok (reads_decodeAllItems ack.items _),
    bind_of_ok (Tag.reads_decodeClosing itemsTag _),
    bind_of_ok (decode_firstSequence hsequence)]
  rfl

end RangeAck

end Historian
