import Historian.Tag
import Historian.Proofs.Wire.Reader
import Historian.Proofs.Wire.Writer

/-!
# Tags read back as they were written

The first octet of a tag packs its number, its class and the start of its length.
`decode_initial` undoes the packing once for all classes, with or without an octet
of its own for the number; `reads_decodeLength` does the same for the five forms of
a length.  Together they give `reads_decode`: every tag is read back, whatever
follows it.
-/

namespace Historian.Tag

open Decoder Encoding

/-! ## The first octet -/

/-- What is read behind the number of a tag, whose class and length bits are `low`. -/
def decodeBody (number low : UInt8) : Decoder Tag :=
  if Octets.bit low 3 then
    if low % 8 = 6 then pure (opening number)
    else if low % 8 = 7 then pure (closing number)
    else do return context number (← decodeLength (low % 8))
  else
    match AppTag.ofNumber? number with
    | some tag => do return application tag (← decodeLength (low % 8))
    | none => fail .invalidTag

/-- The number is read before anything else is looked at. -/
theorem decode_eq :
    decode = octet >>= fun initial =>
      (if initial / 16 = 15 then octet else pure (initial / 16)) >>= fun number =>
        decodeBody number initial := by
  refine congrArg (octet >>= ·) (funext fun initial => ?_)
  by_cases hlong : initial / 16 = 15
  · simp only [if_pos hlong]
    rfl
  · simp only [if_neg hlong]
    rfl

private theorem unpack {number low : UInt8} (hnumber : number.toNat < 16)
    (hlow : low.toNat < 16) :
    (number * 16 + low) / 16 = number ∧ (number * 16 + low) % 8 = low % 8 ∧
      Octets.bit (number * 16 + low) 3 = Octets.bit low 3 := by
  have hpacked : (number * 16 + low).toNat = number.toNat * 16 + low.toNat := by
    simp only [UInt8.toNat_add, UInt8.toNat_mul, UInt8.reduceToNat]
    omega
  refine ⟨?_, ?_, ?_⟩
  · apply UInt8.toNat_inj.mp
    simp only [UInt8.toNat_div, hpacked, UInt8.reduceToNat]
    omega
  · apply UInt8.toNat_inj.mp
    simp only [UInt8.toNat_mod, hpacked, UInt8.reduceToNat]
    omega
  · simp only [Octets.bit, hpacked, Nat.testBit_eq_decide_div_mod_eq, decide_eq_decide]
    omega

/-- The number and the bits beside it are read back. -/
theorem decode_initial {number low : UInt8} (hlow : low.toNat < 16) (rest : Octets) :
    decode ((encodeInitial number low).octets ++ rest) = decodeBody number low rest := by
  by_cases hsmall : number < 15
  · have hnumber : number.toNat < 15 := UInt8.lt_iff_toNat_lt.mp hsmall
    obtain ⟨hdiv, hmod, hbit⟩ := unpack (show number.toNat < 16 by omega) hlow
    have hne : number ≠ 15 := by
      rintro rfl
      exact absurd hnumber (by decide)
    simp only [encodeInitial, if_pos hsmall, octets_run_cons, octets_nil, List.append_nil,
      List.cons_append, List.nil_append, decode, octet_bind_cons, hdiv, hmod, hbit, if_neg hne]
    rfl
  · have hpack : (240 + low : UInt8) = 15 * 16 + low := rfl
    obtain ⟨hdiv, hmod, hbit⟩ := unpack (show (15 : UInt8).toNat < 16 by decide) hlow
    simp only [encodeInitial, if_neg hsmall, octets_run_cons, octets_nil, List.append_nil,
      List.cons_append, List.nil_append, decode, octet_bind_cons, hpack, hdiv, hmod, hbit,
      if_true]
    rfl

/-! ## Lengths -/

/-- The low three bits that stand for a length. -/
def lengthBits (length : UInt32) : UInt8 := if length < 5 then length.toUInt8 else 5

/-- The octets behind the first ones that a length needs. -/
def lengthOctets (length : UInt32) : Octets :=
  if length < 5 then []
  else if length < 254 then [length.toUInt8]
  else if length < 65536 then 254 :: Octets.ofWord16 length.toUInt16
  else 255 :: Octets.ofWord32 length

theorem octets_encodeSized (number classBit : UInt8) (length : UInt32) :
    (encodeSized number classBit length).octets =
      (encodeInitial number (classBit + lengthBits length)).octets ++ lengthOctets length := by
  unfold encodeSized lengthBits lengthOctets
  split
  · simp
  · split
    · simp
    · split <;> simp

theorem lengthBits_le (length : UInt32) : (lengthBits length).toNat ≤ 5 := by
  unfold lengthBits
  split
  · rename_i hshort
    have hlt : length.toNat < 5 := UInt32.lt_iff_toNat_lt.mp hshort
    simp only [UInt32.toNat_toUInt8]
    omega
  · decide

private theorem toUInt8_back {length : UInt32} (hshort : length.toNat < 256) :
    length.toUInt8.toUInt32 = length := by
  apply UInt32.toNat_inj.mp
  simp only [UInt8.toNat_toUInt32, UInt32.toNat_toUInt8]
  omega

theorem reads_decodeLength (length : UInt32) :
    Reads (decodeLength (lengthBits length)) (lengthOctets length) length := by
  have htoNat : ∀ bound : UInt32, length < bound ↔ length.toNat < bound.toNat :=
    fun bound => UInt32.lt_iff_toNat_lt
  by_cases hbits : length < 5
  · -- the length stands in the first octet
    have hlt : length.toNat < 5 := (htoNat 5).mp hbits
    have hsmall : length.toUInt8 < 5 := by
      rw [UInt8.lt_iff_toNat_lt, UInt32.toNat_toUInt8]
      exact Nat.lt_of_le_of_lt (Nat.mod_le _ _) hlt
    simp only [lengthBits, lengthOctets, if_pos hbits, decodeLength, if_pos hsmall,
      toUInt8_back (show length.toNat < 256 by omega)]
    exact Reads.pure length
  · have hfive : ¬ (5 : UInt8) < 5 := by decide
    simp only [lengthBits, lengthOctets, if_neg hbits, decodeLength, if_neg hfive, if_true]
    by_cases hshort : length < 254
    · -- in one octet of its own
      have hlt : length.toNat < 254 := (htoNat 254).mp hshort
      have hback := toUInt8_back (show length.toNat < 256 by omega)
      have hplain : length.toUInt8 ≠ 254 ∧ length.toUInt8 ≠ 255 := by
        constructor <;> intro heq <;> rw [heq] at hback <;> subst hback <;>
          exact absurd hlt (by decide)
      rw [if_pos hshort]
      exact (Reads.octet _).bind_pure (by simp only [if_neg hplain.1, if_neg hplain.2, hback])
    · rw [if_neg hshort]
      by_cases hmedium : length < 65536
      · -- in two octets behind 254
        have hlt : length.toNat < 65536 := (htoNat 65536).mp hmedium
        have hback : length.toUInt16.toUInt32 = length := by
          apply UInt32.toNat_inj.mp
          simp only [UInt16.toNat_toUInt32, UInt32.toNat_toUInt16]
          omega
        rw [if_pos hmedium]
        refine (Reads.octet 254).bind ?_
        simp only [if_true]
        exact (Reads.word16 _).bind_pure (by rw [hback])
      · -- in four octets behind 255
        rw [if_neg hmedium]
        exact (Reads.octet 255).bind (Reads.word32 length)

/-! ## Whole tags -/

theorem plain_encode (tag : Tag) : tag.encode.Plain := by
  have hinitial : ∀ number low, (encodeInitial number low).Plain := by
    intro number low
    unfold encodeInitial
    split <;> simp
  have hsized : ∀ number classBit length, (encodeSized number classBit length).Plain := by
    intro number classBit length
    unfold encodeSized
    split
    · exact hinitial _ _
    · simp only [plain_append, hinitial, true_and]
      split
      · simp
      · split <;> simp
  cases tag with
  | application tag length => exact hsized _ _ _
  | context number length => exact hsized _ _ _
  | opening number => exact hinitial _ _
  | closing number => exact hinitial _ _

private theorem decodeBody_application (tag : AppTag) (length : UInt32) (rest : Octets) :
    decodeBody tag.number (0 + lengthBits length) (lengthOctets length ++ rest) =
      .ok (application tag length, rest) := by
  have hbits := lengthBits_le length
  have hclass : Octets.bit (lengthBits length) 3 = false := by
    simp only [Octets.bit, Nat.testBit_eq_decide_div_mod_eq, decide_eq_false_iff_not]
    omega
  have hmod : lengthBits length % 8 = lengthBits length := by
    apply UInt8.toNat_inj.mp
    simp only [UInt8.toNat_mod, UInt8.reduceToNat]
    omega
  simp only [decodeBody, UInt8.zero_add, hclass, Bool.false_eq_true, if_false,
    AppTag.ofNumber?_number, hmod]
  exact bind_of_ok (reads_decodeLength length rest)

private theorem decodeBody_context (number : UInt8) (length : UInt32) (rest : Octets) :
    decodeBody number (8 + lengthBits length) (lengthOctets length ++ rest) =
      .ok (context number length, rest) := by
  have hbits := lengthBits_le length
  have hsum : (8 + lengthBits length).toNat = 8 + (lengthBits length).toNat := by
    simp only [UInt8.toNat_add, UInt8.reduceToNat]
    omega
  have hclass : Octets.bit (8 + lengthBits length) 3 = true := by
    simp only [Octets.bit, hsum, Nat.testBit_eq_decide_div_mod_eq, decide_eq_true_eq]
    omega
  have hmod : (8 + lengthBits length) % 8 = lengthBits length := by
    apply UInt8.toNat_inj.mp
    simp only [UInt8.toNat_mod, hsum, UInt8.reduceToNat]
    omega
  have hne : lengthBits length ≠ 6 ∧ lengthBits length ≠ 7 := by
    constructor <;> intro heq <;> rw [heq] at hbits <;> exact absurd hbits (by decide)
  simp only [decodeBody, hclass, if_true, hmod, if_neg hne.1, if_neg hne.2]
  exact bind_of_ok (reads_decodeLength length rest)

/-- **Every tag is read back as it was written.** -/
theorem reads_decode (tag : Tag) : Reads decode tag.encode.octets tag := by
  intro rest
  -- The low half of the first octet stays below 16, so the number beside it can be told from it.
  cases tag with
  | application tag length =>
      have hlow : (0 + lengthBits length).toNat < 16 := by
        have := lengthBits_le length
        rw [UInt8.zero_add]
        omega
      rw [encode, octets_encodeSized, List.append_assoc, decode_initial hlow]
      exact decodeBody_application tag length rest
  | context number length =>
      have hlow : (8 + lengthBits length).toNat < 16 := by
        have := lengthBits_le length
        simp only [UInt8.toNat_add, UInt8.reduceToNat]
        omega
      rw [encode, octets_encodeSized, List.append_assoc, decode_initial hlow]
      exact decodeBody_context number length rest
  | opening number =>
      rw [encode, decode_initial (by decide)]
      rfl
  | closing number =>
      rw [encode, decode_initial (by decide)]
      rfl

/-! ## The length of a tag -/

theorem length_encodeInitial {number : UInt8} (low : UInt8) (hnumber : number < 15) :
    (encodeInitial number low).octets.length = 1 := by
  rw [encodeInitial, if_pos hnumber]
  rfl

/-- A tag of a low number and a short length is one octet. -/
theorem length_encode_context {number : UInt8} {length : UInt32} (hnumber : number < 15)
    (hlength : length < 5) : (context number length).encode.octets.length = 1 := by
  rw [encode, octets_encodeSized, List.length_append, length_encodeInitial _ hnumber,
    lengthOctets, if_pos hlength]
  rfl

theorem length_encode_application (tag : AppTag) {length : UInt32} (hlength : length < 5) :
    (application tag length).encode.octets.length = 1 := by
  have hnumber : tag.number < 15 := by cases tag <;> decide
  rw [encode, octets_encodeSized, List.length_append, length_encodeInitial _ hnumber,
    lengthOctets, if_pos hlength]
  rfl

/-! ## Tags that must be there -/

theorem reads_decodeApplication (tag : AppTag) (length : UInt32) :
    Reads (decodeApplication tag) (application tag length).encode.octets length.toNat :=
  (reads_decode _).bind_pure (by simp only [if_true])

theorem reads_decodeContext (number : UInt8) (length : UInt32) :
    Reads (decodeContext number) (context number length).encode.octets length.toNat :=
  (reads_decode _).bind_pure (by simp only [if_true])

theorem reads_decodeOpening (number : UInt8) :
    Reads (decodeOpening number) (opening number).encode.octets () :=
  (reads_decode _).bind_pure (by simp only [if_true])

theorem reads_decodeClosing (number : UInt8) :
    Reads (decodeClosing number) (closing number).encode.octets () :=
  (reads_decode _).bind_pure (by simp only [if_true])

/-! ## Tags ahead -/

/-- The input goes on with `tag`. -/
def Ahead (tag : Tag) (input : Octets) : Prop := ∃ rest, decode input = .ok (tag, rest)

theorem ahead_encode (tag : Tag) (rest : Octets) : Ahead tag (tag.encode.octets ++ rest) :=
  ⟨rest, reads_decode tag rest⟩

theorem Ahead.peek {tag : Tag} {input : Octets} (hahead : Ahead tag input) :
    Tag.peek input = .ok (tag, input) := by
  obtain ⟨rest, hdecode⟩ := hahead
  exact peek_of_ok hdecode

theorem Ahead.ne_nil {tag : Tag} {input : Octets} (hahead : Ahead tag input) : input ≠ [] := by
  rintro rfl
  obtain ⟨rest, hdecode⟩ := hahead
  cases hdecode

theorem octets_encode_ne_nil (tag : Tag) : tag.encode.octets ≠ [] := by
  simpa using (ahead_encode tag []).ne_nil

end Historian.Tag
