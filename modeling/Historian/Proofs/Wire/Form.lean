import Historian.Proofs.Wire.Firm

/-!
# The forms of a tag

A tag can be written in several ways.  A number that would fit into the first octet may stand in an
octet of its own, and a length may take more octets than it needs.  `Tag.Form` lists all of these
ways; nothing else is read as a tag (`Tag.exists_form_of_decode`).  Among them the writer chooses
the shortest, and there is no other of that length (`Tag.Form.eq_or_lt`).

How far the reader looks is a matter of its own, since it may also refuse what it has read.  A
decoder is bounded by a size if so many octets are enough for it to come to a result
(`Decoder.Bounded`); what follows them then makes no difference (`Decoder.Bounded.apply_take`).
-/

namespace Historian

open Decoder Encoding

/-! ## Bounded decoders -/

namespace Decoder

variable {α β : Type} {decoder : Decoder α}

/-- `size` octets are enough for the decoder to come to a result, and it takes no more than these
to make a value. -/
structure Bounded (decoder : Decoder α) (size : Nat) : Prop where
  enough : ∀ input, size ≤ input.length → decoder input ≠ .error .unexpectedEof
  takes : ∀ input value rest, decoder input = .ok (value, rest) →
    input.length ≤ rest.length + size

namespace Bounded

theorem weaken {size more : Nat} (hbounded : Bounded decoder size) (hmore : size ≤ more) :
    Bounded decoder more where
  enough input hinput := hbounded.enough input (Nat.le_trans hmore hinput)
  takes input value rest hread :=
    Nat.le_trans (hbounded.takes input value rest hread) (Nat.add_le_add_left hmore _)

theorem pure (value : α) : Bounded (Pure.pure value) 0 where
  enough _ _ := nofun
  takes input _ rest hread := by
    cases hread
    exact Nat.le_refl _

theorem fail {error : DecodeError} (hother : error ≠ .unexpectedEof) :
    Bounded (Decoder.fail error : Decoder α) 0 where
  enough _ _ hread := hother (Except.error.inj hread)
  takes _ _ _ := nofun

theorem octet : Bounded Decoder.octet 1 where
  enough
    | [], hinput => absurd hinput (by simp)
    | _ :: _, _ => nofun
  takes input value rest hread := by
    rw [of_octet_eq_ok hread]
    exact Nat.le_refl _

theorem word16 : Bounded Decoder.word16 2 where
  enough
    | [], hinput | [_], hinput => absurd hinput (by simp)
    | _ :: _ :: _, _ => nofun
  takes input value rest hread := by
    have hlength : input.length = 2 + rest.length := by
      rw [of_word16_eq_ok hread, List.length_append, Octets.length_ofWord16]
    omega

theorem word32 : Bounded Decoder.word32 4 where
  enough
    | [], hinput | [_], hinput | [_, _], hinput | [_, _, _], hinput => absurd hinput (by simp)
    | _ :: _ :: _ :: _ :: _, _ => nofun
  takes input value rest hread := by
    have hlength : input.length = 4 + rest.length := by
      rw [of_word32_eq_ok hread, List.length_append, Octets.length_ofWord32]
    omega

theorem bind {size more : Nat} {next : α → Decoder β} (hbounded : Bounded decoder size)
    (hnext : ∀ value, Bounded (next value) more) : Bounded (decoder >>= next) (size + more) where
  enough input hinput hread := by
    cases hfirst : decoder input with
    | error error =>
        rw [bind_of_error hfirst] at hread
        cases hread
        exact hbounded.enough input (by omega) hfirst
    | ok result =>
        -- What the first decoder leaves is enough for the second.
        obtain ⟨value, rest⟩ := result
        have htakes := hbounded.takes input value rest hfirst
        rw [bind_of_ok hfirst] at hread
        exact (hnext value).enough rest (by omega) hread
  takes input result rest hread := by
    obtain ⟨value, middle, hvalue, hresult⟩ := exists_of_bind_eq_ok hread
    have hfirst := hbounded.takes input value middle hvalue
    have hsecond := (hnext value).takes middle result rest hresult
    omega

/-- **What follows enough octets makes no difference.** -/
theorem apply_take {size : Nat} (hbounded : Bounded decoder size) (hfirm : Firm decoder)
    (input : Octets) :
    decoder input = (decoder (input.take size)).map fun result =>
      (result.1, result.2 ++ input.drop size) := by
  rcases hfirm (input.take size) (input.drop size) with hearly | hsame
  · -- The octets that are at hand are all that there are.
    have hall : input.length ≤ size := by
      by_contra hmore
      exact hbounded.enough _ (by rw [List.length_take]; omega) hearly
    rw [List.take_of_length_le hall] at hearly ⊢
    rw [hearly]
    rfl
  · rwa [List.take_append_drop] at hsame

end Bounded

end Decoder

theorem AppTag.eq_number_of_ofNumber? {number : UInt8} {tag : AppTag}
    (htag : AppTag.ofNumber? number = some tag) : number = tag.number := by
  unfold AppTag.ofNumber? at htag
  split at htag <;> cases htag <;> rfl

namespace Tag

/-! ## How far the reader looks -/

theorem bounded_decodeLength (low : UInt8) : Bounded (decodeLength low) 5 := by
  unfold decodeLength
  split
  · exact (Bounded.pure _).weaken (Nat.zero_le 5)
  split
  · change Bounded _ (1 + 4)
    refine Bounded.octet.bind fun short => ?_
    split
    · exact (Bounded.word16.bind fun _ => .pure _).weaken (by decide)
    split
    · exact .word32
    · exact (Bounded.pure _).weaken (Nat.zero_le 4)
  · exact (Bounded.fail (by decide)).weaken (Nat.zero_le 5)

theorem bounded_decodeBody (number low : UInt8) : Bounded (decodeBody number low) 5 := by
  unfold decodeBody
  split
  · split
    · exact (Bounded.pure _).weaken (Nat.zero_le 5)
    split
    · exact (Bounded.pure _).weaken (Nat.zero_le 5)
    · exact (bounded_decodeLength _).bind fun _ => .pure _
  · split
    · exact (bounded_decodeLength _).bind fun _ => .pure _
    · exact (Bounded.fail (by decide)).weaken (Nat.zero_le 5)

/-- The reader looks no further than seven octets. -/
theorem bounded_decode : Bounded decode 7 := by
  rw [decode_eq]
  change Bounded _ (1 + (1 + 5))
  refine Bounded.octet.bind fun initial => Bounded.bind ?_ fun number =>
    bounded_decodeBody number initial
  split
  · exact .octet
  · exact (Bounded.pure _).weaken (Nat.zero_le 1)

/-! ## The grammar of tags -/

/-- The ways to write a length: the low bits of the first octet, and the octets behind it. -/
inductive LengthForm : UInt32 → UInt8 → Octets → Prop where
  | packed {bits : UInt8} (small : bits < 5) : LengthForm bits.toUInt32 bits []
  | octet {length : UInt8} (plain : length < 254) : LengthForm length.toUInt32 5 [length]
  | word16 (length : UInt16) : LengthForm length.toUInt32 5 (254 :: Octets.ofWord16 length)
  | word32 (length : UInt32) : LengthForm length 5 (255 :: Octets.ofWord32 length)

/-- The ways to write a number beside the low half `low` of the first octet. -/
inductive InitialForm (number low : UInt8) : Octets → Prop where
  | packed (small : number < 15) : InitialForm number low [number * 16 + low]
  | apart : InitialForm number low [240 + low, number]

/-- The ways to write a tag. -/
inductive Form : Tag → Octets → Prop where
  | application {tag : AppTag} {length : UInt32} {bits : UInt8} {front back : Octets}
      (initial : InitialForm tag.number (0 + bits) front) (rest : LengthForm length bits back) :
      Form (application tag length) (front ++ back)
  | context {number : UInt8} {length : UInt32} {bits : UInt8} {front back : Octets}
      (initial : InitialForm number (8 + bits) front) (rest : LengthForm length bits back) :
      Form (context number length) (front ++ back)
  | opening {number : UInt8} {front : Octets} (initial : InitialForm number 14 front) :
      Form (opening number) front
  | closing {number : UInt8} {front : Octets} (initial : InitialForm number 15 front) :
      Form (closing number) front

/-! ### What is read has a form -/

theorem exists_lengthForm_of_decodeLength {low : UInt8} {input rest : Octets} {length : UInt32}
    (hread : decodeLength low input = .ok (length, rest)) :
    ∃ back, LengthForm length low back ∧ input = back ++ rest := by
  unfold decodeLength at hread
  split at hread
  · rename_i hsmall
    cases hread
    exact ⟨[], .packed hsmall, rfl⟩
  split at hread
  · rename_i _ hfive
    subst hfive
    obtain ⟨short, middle, hshort, hnext⟩ := exists_of_bind_eq_ok hread
    obtain rfl := of_octet_eq_ok hshort
    -- A second octet of 254 or 255 announces a wider length, and any other is the length.
    split at hnext
    · rename_i hmark
      subst hmark
      obtain ⟨word, after, hword, hvalue⟩ := exists_of_bind_eq_ok hnext
      obtain rfl := of_word16_eq_ok hword
      cases hvalue
      exact ⟨_, .word16 word, rfl⟩
    split at hnext
    · rename_i hmark
      subst hmark
      obtain rfl := of_word32_eq_ok hnext
      exact ⟨_, .word32 length, rfl⟩
    · rename_i hmedium hlong
      cases hnext
      have hbound := short.toNat_lt
      have hmedium : short.toNat ≠ 254 := fun hmark => hmedium (UInt8.toNat_inj.mp hmark)
      have hlong : short.toNat ≠ 255 := fun hmark => hlong (UInt8.toNat_inj.mp hmark)
      exact ⟨[short], .octet (UInt8.lt_iff_toNat_lt.mpr (show short.toNat < 254 by omega)), rfl⟩
  · cases hread

theorem eq_halves (octet : UInt8) : octet = octet / 16 * 16 + octet % 16 := by
  have hbound := octet.toNat_lt
  apply UInt8.toNat_inj.mp
  simp only [UInt8.toNat_add, UInt8.toNat_mul, UInt8.toNat_div, UInt8.toNat_mod,
    UInt8.reduceToNat]
  omega

theorem eq_class_add {low : UInt8} (hlow : low.toNat < 16) :
    low = (if Octets.bit low 3 then 8 else 0) + low % 8 := by
  apply UInt8.toNat_inj.mp
  simp only [Octets.bit, Nat.testBit_eq_decide_div_mod_eq, decide_eq_true_eq]
  split <;> simp only [UInt8.toNat_add, UInt8.toNat_mod, UInt8.reduceToNat] <;> omega

/-- Only the low half of the first octet matters behind the number. -/
theorem decodeBody_mod (number low : UInt8) :
    decodeBody number (low % 16) = decodeBody number low := by
  have hmod : (low % 16) % 8 = low % 8 := by
    apply UInt8.toNat_inj.mp
    simp only [UInt8.toNat_mod, UInt8.reduceToNat]
    omega
  have hbit : Octets.bit (low % 16) 3 = Octets.bit low 3 := by
    simp only [Octets.bit, UInt8.toNat_mod, UInt8.reduceToNat, Nat.testBit_eq_decide_div_mod_eq,
      decide_eq_decide]
    omega
  simp only [decodeBody, hmod, hbit]

theorem exists_initialForm_of_decode {input : Octets} {result : Tag × Octets}
    (hread : decode input = .ok result) :
    ∃ number low front back, low.toNat < 16 ∧ InitialForm number low front ∧
      input = front ++ back ∧ decodeBody number low back = .ok result := by
  rw [decode_eq] at hread
  obtain ⟨initial, middle, hinitial, hnumber⟩ := exists_of_bind_eq_ok hread
  obtain rfl := of_octet_eq_ok hinitial
  have hlow : (initial % 16).toNat < 16 := by
    rw [UInt8.toNat_mod]
    exact Nat.mod_lt _ (by decide)
  obtain ⟨number, back, hfound, hbody⟩ := exists_of_bind_eq_ok hnumber
  rw [← decodeBody_mod] at hbody
  -- The octet is put together again from its halves: the number, and what is left for class and
  -- length.
  have hhalves := eq_halves initial
  split at hfound
  · rename_i hlong
    obtain rfl := of_octet_eq_ok hfound
    rw [hlong] at hhalves
    refine ⟨number, initial % 16, [initial, number], back, hlow, ?_, rfl, hbody⟩
    have hform : InitialForm number (initial % 16) [15 * 16 + initial % 16, number] := .apart
    rwa [← hhalves] at hform
  · rename_i hshort
    cases hfound
    have hsmall : initial / 16 < 15 := by
      have hbound := initial.toNat_lt
      have hquotient : initial.toNat / 16 ≠ 15 := fun hlong => hshort (UInt8.toNat_inj.mp hlong)
      exact UInt8.lt_iff_toNat_lt.mpr (show initial.toNat / 16 < 15 by omega)
    refine ⟨initial / 16, initial % 16, [initial], _, hlow, ?_, rfl, hbody⟩
    have hform : InitialForm (initial / 16) (initial % 16) [initial / 16 * 16 + initial % 16] :=
      .packed hsmall
    rwa [← hhalves] at hform

theorem exists_form_of_decodeBody {number low : UInt8} {front back rest : Octets} {tag : Tag}
    (hlow : low.toNat < 16) (hinitial : InitialForm number low front)
    (hread : decodeBody number low back = .ok (tag, rest)) :
    ∃ more, Form tag (front ++ more) ∧ back = more ++ rest := by
  -- The low half holds the class bit and three bits of length, and the reader tells the forms apart
  -- in this order.
  rw [eq_class_add hlow] at hinitial
  unfold decodeBody at hread
  split at hread
  · rename_i hclass
    rw [if_pos hclass] at hinitial
    split at hread
    · rename_i hopen
      cases hread
      rw [hopen] at hinitial
      exact ⟨[], by simpa using Form.opening hinitial, rfl⟩
    split at hread
    · rename_i hclose
      cases hread
      rw [hclose] at hinitial
      exact ⟨[], by simpa using Form.closing hinitial, rfl⟩
    · obtain ⟨length, middle, hlength, hvalue⟩ := exists_of_bind_eq_ok hread
      cases hvalue
      obtain ⟨more, hmore, rfl⟩ := exists_lengthForm_of_decodeLength hlength
      exact ⟨more, .context hinitial hmore, rfl⟩
  · rename_i hclass
    rw [if_neg hclass] at hinitial
    cases happ : AppTag.ofNumber? number with
    | none =>
        rw [happ] at hread
        cases hread
    | some appTag =>
        rw [happ] at hread
        obtain rfl := AppTag.eq_number_of_ofNumber? happ
        obtain ⟨length, middle, hlength, hvalue⟩ := exists_of_bind_eq_ok hread
        cases hvalue
        obtain ⟨more, hmore, rfl⟩ := exists_lengthForm_of_decodeLength hlength
        exact ⟨more, .application hinitial hmore, rfl⟩

/-- **What is read as a tag is one of its forms.** -/
theorem exists_form_of_decode {input rest : Octets} {tag : Tag}
    (hread : decode input = .ok (tag, rest)) : ∃ taken, Form tag taken ∧ input = taken ++ rest := by
  obtain ⟨number, low, front, back, hlow, hinitial, rfl, hbody⟩ :=
    exists_initialForm_of_decode hread
  obtain ⟨more, hform, rfl⟩ := exists_form_of_decodeBody hlow hinitial hbody
  exact ⟨front ++ more, hform, (List.append_assoc _ _ _).symm⟩

/-! ### The shortest form -/

theorem InitialForm.eq_or_lt {number low : UInt8} {front : Octets}
    (hform : InitialForm number low front) :
    front = (encodeInitial number low).octets ∨
      (encodeInitial number low).octets.length < front.length := by
  cases hform with
  | packed hsmall =>
      left
      rw [encodeInitial, if_pos hsmall]
      rfl
  | apart =>
      by_cases hsmall : number < 15
      · right
        rw [length_encodeInitial _ hsmall]
        exact Nat.lt_succ_self 1
      · left
        rw [encodeInitial, if_neg hsmall]
        rfl

/-- The number takes no less room than the writer gives it, whatever stands beside it. -/
theorem InitialForm.length_le {number low : UInt8} {front : Octets}
    (hform : InitialForm number low front) (beside : UInt8) :
    (encodeInitial number beside).octets.length ≤ front.length := by
  have hsame : (encodeInitial number beside).octets.length =
      (encodeInitial number low).octets.length := by
    unfold encodeInitial
    split <;> rfl
  rw [hsame]
  rcases hform.eq_or_lt with rfl | hlonger
  · exact Nat.le_refl _
  · exact Nat.le_of_lt hlonger

/-- A length in more octets than the writer takes is longer. -/
theorem LengthForm.eq_or_lt {length : UInt32} {bits : UInt8} {back : Octets}
    (hform : LengthForm length bits back) :
    (bits = lengthBits length ∧ back = lengthOctets length) ∨
      (lengthOctets length).length < back.length := by
  unfold lengthBits lengthOctets
  -- For each form the writer is asked what it would do: at worst it agrees, otherwise it has found
  -- a shorter one.
  cases hform with
  | packed hsmall =>
      have hlength : bits.toUInt32 < 5 := UInt8.toUInt32_lt.mpr hsmall
      rw [if_pos hlength, if_pos hlength, UInt8.toUInt8_toUInt32]
      exact .inl ⟨rfl, rfl⟩
  | @octet short hplain =>
      have hlength : short.toUInt32 < 254 := UInt8.toUInt32_lt.mpr hplain
      rw [if_pos hlength, UInt8.toUInt8_toUInt32]
      split
      · exact .inr (show 0 < 1 by decide)
      · exact .inl ⟨rfl, rfl⟩
  | word16 word =>
      have hlength : word.toUInt32 < 65536 := by
        rw [UInt32.lt_iff_toNat_lt, UInt16.toNat_toUInt32]
        exact word.toNat_lt
      rw [if_pos hlength, UInt16.toUInt16_toUInt32]
      split
      · exact .inr (show 0 < 3 by decide)
      split
      · exact .inr (show 1 < 3 by decide)
      · exact .inl ⟨rfl, rfl⟩
  | word32 =>
      split
      · exact .inr (show 0 < 5 by decide)
      split
      · exact .inr (show 1 < 5 by decide)
      split
      · exact .inr (show 3 < 5 by decide)
      · exact .inl ⟨rfl, rfl⟩

/-- The number and the length of a tag with a class. -/
theorem eq_or_lt_encodeSized {number classBit bits : UInt8} {length : UInt32} {front back : Octets}
    (hinitial : InitialForm number (classBit + bits) front)
    (hlength : LengthForm length bits back) :
    front ++ back = (encodeSized number classBit length).octets ∨
      (encodeSized number classBit length).octets.length < (front ++ back).length := by
  rw [octets_encodeSized, List.length_append, List.length_append]
  rcases hlength.eq_or_lt with ⟨rfl, rfl⟩ | hlonger
  · rcases hinitial.eq_or_lt with rfl | hlonger
    · exact .inl rfl
    · exact .inr (Nat.add_lt_add_right hlonger _)
  · exact .inr (Nat.add_lt_add_of_le_of_lt (hinitial.length_le _) hlonger)

/-- **The writer's form is shorter than every other.** -/
theorem Form.eq_or_lt {tag : Tag} {taken : Octets} (hform : Form tag taken) :
    taken = tag.encode.octets ∨ tag.encode.octets.length < taken.length := by
  cases hform with
  | application hinitial hlength => exact eq_or_lt_encodeSized hinitial hlength
  | context hinitial hlength => exact eq_or_lt_encodeSized hinitial hlength
  | opening hinitial => exact hinitial.eq_or_lt
  | closing hinitial => exact hinitial.eq_or_lt

/-- **Tags have one shortest form, the one that is written.**  It is read back in front of whatever
follows; every other form of the tag is longer; cut short it ends early.  No more than seven octets
are looked at, be it that a tag is read or that it is refused. -/
theorem one_shortest_form :
    (∀ tag : Tag, tag.encode.Gives tag.encode.octets ∧
      (∀ tail, decode (tag.encode.octets ++ tail) = .ok (tag, tail)) ∧
      (∀ input rest, decode input = .ok (tag, rest) →
        ∃ taken, input = taken ++ rest ∧ taken.length ≤ 7 ∧
          (taken = tag.encode.octets ∨ tag.encode.octets.length < taken.length)) ∧
      ∀ front, front <+: tag.encode.octets → front ≠ tag.encode.octets →
        decode front = .error .unexpectedEof) ∧
    ∀ input, decode input = (decode (input.take 7)).map fun result =>
      (result.1, result.2 ++ input.drop 7) := by
  refine ⟨fun tag => ⟨tag.plain_encode.gives, reads_decode tag, ?_, ?_⟩,
    bounded_decode.apply_take firm_decode⟩
  · intro input rest hread
    have hbound := bounded_decode.takes input tag rest hread
    obtain ⟨taken, hform, rfl⟩ := exists_form_of_decode hread
    rw [List.length_append] at hbound
    exact ⟨taken, rfl, by omega, hform.eq_or_lt⟩
  · exact firm_decode.cuts (reads_decode tag)

/-- A tag with a number and a length in octets of their own, in its shortest and its longest
form. -/
theorem one_shortest_form_extended :
    let tag := Tag.context 30 300
    tag.encode.octets = [253, 30, 254, 1, 44] ∧
      decode [253, 30, 254, 1, 44, 9] = .ok (tag, [9]) ∧
      decode [253, 30, 255, 0, 0, 1, 44, 9] = .ok (tag, [9]) ∧
      decode [253, 30, 254, 1] = .error .unexpectedEof ∧
      ∃ taken : Octets, [253, 30, 255, 0, 0, 1, 44, 9] = taken ++ [9] ∧ taken.length ≤ 7 ∧
        5 < taken.length := by
  intro tag
  obtain ⟨-, hback, hforms, hcut⟩ := one_shortest_form.1 tag
  have hlong : decode [253, 30, 255, 0, 0, 1, 44, 9] = .ok (tag, [9]) := rfl
  obtain ⟨taken, htaken, hbound, hform⟩ := hforms _ _ hlong
  refine ⟨rfl, hback [9], hlong, hcut _ ⟨[44], rfl⟩ (by decide), taken, htaken, hbound, ?_⟩
  rcases hform with rfl | hlonger
  · exact absurd htaken (by decide)
  · exact hlonger

end Tag

end Historian
