import Historian.Proofs.Wire.Record

/-!
# Input that ends early

A decoder is firm if it does not change its mind (`Decoder.Firm`): what it makes of an input, be
it a value or an error, it makes of every longer input too, unless it found that the input ends
early.  Decoders that are put together of firm ones are firm, and all fields that must be there
are read so (`Datum.firm_decode` and its like).

Hence the octets of a value that a firm decoder reads cannot be cut short without notice
(`Firm.cuts`): to any other result the octets that were cut off would have made no difference.
What is put together of octets that cannot be cut short cannot be either (`Cuts.bind`).
-/

namespace Historian

open Decoder Encoding

namespace Decoder

variable {α β : Type} {decoder : Decoder α}

/-! ## Firm decoders -/

/-- What the decoder makes of the input it makes of it in front of anything, unless the input ends
early. -/
def FirmAt (decoder : Decoder α) (input : Octets) : Prop :=
  ∀ more, decoder input = .error .unexpectedEof ∨
    decoder (input ++ more) = (decoder input).map fun result => (result.1, result.2 ++ more)

/-- The decoder never changes its mind. -/
def Firm (decoder : Decoder α) : Prop := ∀ input, FirmAt decoder input

namespace Firm

theorem pure (value : α) : Firm (Pure.pure value) := fun _ _ => .inr rfl

theorem fail (error : DecodeError) : Firm (Decoder.fail error : Decoder α) := fun _ _ => .inr rfl

theorem octet : Firm Decoder.octet
  | [], _ => .inl rfl
  | _ :: _, _ => .inr rfl

theorem word16 : Firm Decoder.word16
  | [], _ | [_], _ => .inl rfl
  | _ :: _ :: _, _ => .inr rfl

theorem word32 : Firm Decoder.word32
  | [], _ | [_], _ | [_, _], _ | [_, _, _], _ => .inl rfl
  | _ :: _ :: _ :: _ :: _, _ => .inr rfl

theorem take (count : Nat) : Firm (Decoder.take count) := by
  intro input more
  unfold Decoder.take
  by_cases hcount : count ≤ input.length
  · have hmore : count ≤ (input ++ more).length := by
      rw [List.length_append]
      omega
    rw [if_pos hcount, if_pos hmore, List.take_append_of_le_length hcount,
      List.drop_append_of_le_length hcount]
    exact .inr rfl
  · exact .inl (if_neg hcount)

theorem require (condition : Bool) (error : DecodeError) :
    Firm (Decoder.require condition error) := by
  cases condition with
  | false => exact fail error
  | true => exact pure ()

theorem peek (hfirm : Firm decoder) : Firm (Decoder.peek decoder) := by
  intro input more
  unfold Decoder.peek
  rcases hfirm input more with hearly | hsame
  · exact .inl (by rw [hearly])
  · rw [hsame]
    cases decoder input with
    | error error => exact .inr rfl
    | ok result => exact .inr rfl

theorem bind {next : α → Decoder β} (hfirm : Firm decoder) (hnext : ∀ value, Firm (next value)) :
    Firm (decoder >>= next) := by
  intro input more
  rcases hfirm input more with hearly | hsame
  · exact .inl (bind_of_error hearly)
  cases hread : decoder input with
  | error error =>
      rw [hread] at hsame
      rw [bind_of_error hread, bind_of_error hsame]
      exact .inr rfl
  | ok result =>
      -- What is cut off from the input is cut off from the rest that the next step reads.
      obtain ⟨value, rest⟩ := result
      rw [hread] at hsame
      rw [bind_of_ok hread, bind_of_ok hsame]
      exact hnext value rest more

/-- A last step that only looks at the value. -/
theorem bind_pure {result : α → β} (hfirm : Firm decoder) :
    Firm (decoder >>= fun value => Pure.pure (result value)) :=
  hfirm.bind fun value => pure (result value)

end Firm

/-- Where something is left, a decoder that asks for it is as firm as what it goes on with. -/
theorem firmAt_atEnd_bind {next : Bool → Decoder α} {input : Octets} (hsome : input ≠ [])
    (hnext : Firm (next false)) : FirmAt (atEnd >>= next) input := by
  intro more
  have hinput : input.isEmpty = false := List.isEmpty_eq_false_iff.mpr hsome
  have hmore : (input ++ more).isEmpty = false :=
    List.isEmpty_eq_false_iff.mpr (List.append_ne_nil_of_left_ne_nil hsome more)
  rw [bind_of_ok (atEnd_apply input), bind_of_ok (atEnd_apply _), hinput, hmore]
  exact hnext input more

/-! ## Octets that cannot be cut short -/

/-- Cut short, the octets end early. -/
def Cuts (decoder : Decoder α) (octets : Octets) : Prop :=
  ∀ front, front <+: octets → front ≠ octets → decoder front = .error .unexpectedEof

/-- To anything else than an early end what was cut off would make no difference. -/
theorem FirmAt.early {front octets : Octets} {value : α} (hfirm : FirmAt decoder front)
    (hread : Reads decoder octets value) (hfront : front <+: octets) (hshort : front ≠ octets) :
    decoder front = .error .unexpectedEof := by
  obtain ⟨back, rfl⟩ := hfront
  rcases hfirm back with hearly | hsame
  · exact hearly
  rw [hread.whole] at hsame
  cases hfront : decoder front with
  | error error =>
      rw [hfront] at hsame
      cases hsame
  | ok result =>
      -- What was cut off would be left, but the octets are used up.
      rw [hfront] at hsame
      have hleft : [] = result.2 ++ back := congrArg Prod.snd (Except.ok.inj hsame)
      obtain ⟨-, rfl⟩ := List.append_eq_nil_iff.mp hleft.symm
      exact absurd (List.append_nil front).symm hshort

/-- **The octets of a value that a firm decoder reads cannot be cut short.** -/
theorem Firm.cuts {octets : Octets} {value : α} (hfirm : Firm decoder)
    (hread : Reads decoder octets value) : Cuts decoder octets :=
  fun front => (hfirm front).early hread

/-- Where two strings of octets are cut short. -/
theorem cut_append {front first second : Octets} (hfront : front <+: first ++ second)
    (hshort : front ≠ first ++ second) :
    (front <+: first ∧ front ≠ first) ∨
      ∃ part, front = first ++ part ∧ part <+: second ∧ part ≠ second := by
  obtain ⟨back, hback⟩ := hfront
  rcases List.append_eq_append_iff.mp hback with ⟨rest, rfl, rfl⟩ | ⟨part, rfl, rfl⟩
  · -- A cut right between the two counts as a cut in the second.
    cases rest with
    | nil =>
        refine .inr ⟨[], ?_, List.nil_prefix, ?_⟩
        · simp
        · rintro rfl
          simp at hshort
    | cons next others => exact .inl ⟨List.prefix_append _ _, by simp⟩
  · refine .inr ⟨part, rfl, List.prefix_append _ _, ?_⟩
    intro hpart
    exact hshort (by rw [← hpart])

namespace Cuts

variable {octets more : Octets} {value : α} {next : α → Decoder β}

theorem nil : Cuts decoder [] := fun _ hfront hshort => absurd (List.prefix_nil.mp hfront) hshort

theorem bind (hcuts : Cuts decoder octets) (hread : Reads decoder octets value)
    (hnext : Cuts (next value) more) : Cuts (decoder >>= next) (octets ++ more) := by
  intro front hfront hshort
  rcases cut_append hfront hshort with ⟨hfirst, hearly⟩ | ⟨part, rfl, hpart, hearly⟩
  · exact bind_of_error (hcuts front hfirst hearly)
  · rw [bind_of_ok (hread part)]
    exact hnext part hpart hearly

/-- What follows does not come to its turn. -/
theorem bind_left (hcuts : Cuts decoder octets) : Cuts (decoder >>= next) octets :=
  fun front hfront hshort => bind_of_error (hcuts front hfront hshort)

end Cuts

/-- A firm decoder in front of others. -/
theorem Firm.cuts_bind {octets more : Octets} {value : α} {next : α → Decoder β}
    (hfirm : Firm decoder) (hread : Reads decoder octets value) (hnext : Cuts (next value) more) :
    Cuts (decoder >>= next) (octets ++ more) :=
  (hfirm.cuts hread).bind hread hnext

/-- Cut short, the octets end early or are used up. -/
def Drains (decoder : Decoder α) (octets : Octets) : Prop :=
  ∀ front, front <+: octets → front ≠ octets →
    decoder front = .error .unexpectedEof ∨ ∃ value, decoder front = .ok (value, [])

theorem Firm.drains_bind {octets more : Octets} {value : α} {next : α → Decoder β}
    (hfirm : Firm decoder) (hread : Reads decoder octets value)
    (hnext : Drains (next value) more) : Drains (decoder >>= next) (octets ++ more) := by
  intro front hfront hshort
  rcases cut_append hfront hshort with ⟨hfirst, hearly⟩ | ⟨part, rfl, hpart, hearly⟩
  · exact .inl (bind_of_error (hfirm.cuts hread front hfirst hearly))
  · rw [bind_of_ok (hread part)]
    exact hnext part hpart hearly

end Decoder

/-! ## Tags -/

namespace Tag

theorem firm_decodeLength (low : UInt8) : Firm (decodeLength low) := by
  unfold decodeLength
  split
  · exact .pure _
  split
  · refine Firm.octet.bind fun short => ?_
    split
    · exact Firm.word16.bind_pure
    split
    · exact .word32
    · exact .pure _
  · exact .fail _

theorem firm_decodeBody (number low : UInt8) : Firm (decodeBody number low) := by
  unfold decodeBody
  split
  · split
    · exact .pure _
    split
    · exact .pure _
    · exact (firm_decodeLength _).bind_pure
  · split
    · exact (firm_decodeLength _).bind_pure
    · exact .fail _

theorem firm_decode : Firm decode := by
  rw [decode_eq]
  refine Firm.octet.bind fun initial => Firm.bind ?_ fun number => firm_decodeBody number initial
  split
  · exact .octet
  · exact .pure _

/-- A tag ahead is still ahead in what is left of the input, or is cut short itself. -/
theorem Ahead.of_prefix {tag : Tag} {front input : Octets} (hahead : Ahead tag input)
    (hfront : front <+: input) : decode front = .error .unexpectedEof ∨ Ahead tag front := by
  obtain ⟨back, rfl⟩ := hfront
  obtain ⟨rest, hread⟩ := hahead
  rcases firm_decode front back with hearly | hsame
  · exact .inl hearly
  · rw [hread] at hsame
    cases hfront : decode front with
    | error error =>
        rw [hfront] at hsame
        cases hsame
    | ok result =>
        rw [hfront] at hsame
        have htag : tag = result.1 := congrArg Prod.fst (Except.ok.inj hsame)
        exact .inr ⟨result.2, by rw [htag]; exact hfront⟩

theorem firm_decodeApplication (expected : AppTag) : Firm (decodeApplication expected) := by
  refine firm_decode.bind fun tag => ?_
  split
  · split
    · exact .pure _
    · exact .fail _
  · exact .fail _

theorem firm_decodeContext (expected : UInt8) : Firm (decodeContext expected) := by
  refine firm_decode.bind fun tag => ?_
  split
  · split
    · exact .pure _
    · exact .fail _
  · exact .fail _

theorem firm_decodeOpening (number : UInt8) : Firm (decodeOpening number) := by
  refine firm_decode.bind fun tag => ?_
  split
  · exact .pure _
  · exact .fail _

theorem firm_decodeClosing (number : UInt8) : Firm (decodeClosing number) := by
  refine firm_decode.bind fun tag => ?_
  split
  · exact .pure _
  · exact .fail _

end Tag

/-! ## Contents -/

namespace Value

variable (length : Nat)

theorem firm_integerContent : Firm (integerContent length) :=
  (Firm.require _ _).bind fun _ => .take length

theorem firm_decodeUnsigned : Firm (decodeUnsigned length) := (firm_integerContent length).bind_pure

theorem firm_decodeSigned : Firm (decodeSigned length) := (firm_integerContent length).bind_pure

theorem firm_fourOctets : Firm (fourOctets length) := (Firm.require _ _).bind fun _ => .word32

theorem firm_decodeReal : Firm (decodeReal length) := (firm_fourOctets length).bind_pure

theorem firm_decodeBitString : Firm (decodeBitString length) := by
  refine (Firm.require _ _).bind fun _ => (Firm.take length).bind fun octets => ?_
  split
  · exact (Firm.require _ _).bind_pure
  · exact .fail _

theorem firm_decodeBoolean : Firm (decodeBoolean length) :=
  (Firm.require _ _).bind fun _ => Firm.octet.bind_pure

theorem firm_decodeDate : Firm (decodeDate length) := by
  refine (Firm.require _ _).bind fun _ => (Firm.take 4).bind fun octets => ?_
  split
  · exact .pure _
  · exact .fail _

theorem firm_decodeTime : Firm (decodeTime length) := by
  refine (Firm.require _ _).bind fun _ => (Firm.take 4).bind fun octets => ?_
  split
  · exact .pure _
  · exact .fail _

end Value

/-! ## Fields -/

namespace App

theorem firm_decodeUnsigned : Firm App.decodeUnsigned :=
  (Tag.firm_decodeApplication _).bind Value.firm_decodeUnsigned

theorem firm_decodeSigned : Firm App.decodeSigned :=
  (Tag.firm_decodeApplication _).bind Value.firm_decodeSigned

theorem firm_decodeDate : Firm App.decodeDate :=
  (Tag.firm_decodeApplication _).bind Value.firm_decodeDate

theorem firm_decodeTime : Firm App.decodeTime :=
  (Tag.firm_decodeApplication _).bind Value.firm_decodeTime

end App

namespace Ctx

variable (number : UInt8)

theorem firm_decodeUnsigned : Firm (decodeUnsigned number) :=
  (Tag.firm_decodeContext number).bind Value.firm_decodeUnsigned

theorem firm_decodeObjectId : Firm (decodeObjectId number) :=
  (Tag.firm_decodeContext number).bind fun length => (Value.firm_fourOctets length).bind_pure

theorem firm_decodeFlags {kind : FlagKind} :
    Firm (decodeFlags number : Decoder (FlagSet kind)) :=
  (Tag.firm_decodeContext number).bind fun length => (Value.firm_decodeBitString length).bind_pure

end Ctx

namespace Datum

theorem firm_decodeChoice (number : UInt8) (length : Nat) :
    Firm (decodeChoice number length) := by
  unfold decodeChoice
  split
  · exact (Value.firm_decodeBitString length).bind_pure
  · exact (Value.firm_decodeBoolean length).bind_pure
  · exact (Value.firm_decodeReal length).bind_pure
  · exact (Value.firm_decodeUnsigned length).bind_pure
  · exact (Value.firm_decodeUnsigned length).bind_pure
  · exact (Value.firm_decodeSigned length).bind_pure
  · exact (Firm.require _ _).bind_pure
  · exact .fail _

theorem firm_decode : Firm decode := by
  refine Tag.firm_decode.bind fun tag => ?_
  split
  · exact firm_decodeChoice _ _
  · exact .fail _

end Datum

end Historian
