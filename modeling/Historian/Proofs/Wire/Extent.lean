import Historian.Proofs.Wire.Field

/-!
# How many octets a value takes

Decoders understand more than encoders write: integers with leading octets that say
nothing, and tags in longer forms than they need.  `Decoder.Spends decoder size` says that
whatever `decoder` makes a value of is at least `size` octets long.  With the length of the
encoding as the size this means that the encoding is a shortest form
(`Ctx.spends_decodeUnsigned` and its like).

The point is that the shortest content of an integer is no longer than any content it is
read from.  Four octets of the number are the content behind octets that only say its sign
(`Value.ofWord32_shiftIn`), and the writer drops all of those.
-/

namespace Historian

open Decoder Encoding

namespace Decoder

variable {α β : Type} {decoder : Decoder α}

/-- Whatever `decoder` makes a value of is at least `size` octets long. -/
def Spends (decoder : Decoder α) (size : α → Nat) : Prop :=
  ∀ input value rest, decoder input = .ok (value, rest) → rest.length + size value ≤ input.length

namespace Spends

theorem weaken {size less : α → Nat} (hspends : Spends decoder size)
    (hless : ∀ value, less value ≤ size value) : Spends decoder less := by
  intro input value rest hread
  have := hspends input value rest hread
  have := hless value
  omega

theorem pure {size : α → Nat} {value : α} (hsize : size value = 0) :
    Spends (Pure.pure value) size := by
  intro input _ rest hread
  cases hread
  rw [hsize]
  exact Nat.le_refl _

theorem fail (error : DecodeError) (size : α → Nat) : Spends (Decoder.fail error) size := nofun

theorem atEnd : Spends Decoder.atEnd fun _ => 0 := by
  intro input value rest hread
  cases hread
  exact Nat.le_refl _

theorem peek (decoder : Decoder α) : Spends (Decoder.peek decoder) fun _ => 0 := by
  intro input value rest hread
  rw [Decoder.peek] at hread
  split at hread
  · cases hread
    exact Nat.le_refl _
  · cases hread

theorem octet : Spends Decoder.octet fun _ => 1 := by
  rintro (_ | ⟨first, tail⟩) value rest hread
  · cases hread
  · cases hread
    exact Nat.le_refl _

theorem word16 : Spends Decoder.word16 fun _ => 2 := by
  rintro (_ | ⟨a, _ | ⟨b, tail⟩⟩) value rest hread
  · cases hread
  · cases hread
  · cases hread
    exact Nat.le_refl _

theorem word32 : Spends Decoder.word32 fun _ => 4 := by
  rintro (_ | ⟨a, _ | ⟨b, _ | ⟨c, _ | ⟨d, tail⟩⟩⟩⟩) value rest hread
  iterate 4 cases hread
  cases hread
  exact Nat.le_refl _

theorem take (count : Nat) : Spends (Decoder.take count) fun _ => count := by
  intro input value rest hread
  rw [Decoder.take] at hread
  split at hread
  · rename_i hcount
    cases hread
    have hlength : (input.drop count).length + count = input.length := by
      rw [List.length_drop, Nat.sub_add_cancel hcount]
    exact Nat.le_of_eq hlength
  · cases hread

theorem require (condition : Bool) (error : DecodeError) :
    Spends (Decoder.require condition error) fun _ => 0 := by
  cases condition with
  | false => exact fail error _
  | true => exact pure rfl

/-- Of two decoders, the second must take what the first one leaves of the size. -/
theorem bind {first : α → Nat} {size : β → Nat} {next : α → Decoder β}
    (hspends : Spends decoder first)
    (hnext : ∀ value, Spends (next value) fun result => size result - first value) :
    Spends (decoder >>= next) size := by
  intro input result rest hread
  obtain ⟨value, middle, hvalue, hresult⟩ := exists_of_bind_eq_ok hread
  have hfirst := hspends input value middle hvalue
  have hsecond : rest.length + (size result - first value) ≤ middle.length :=
    hnext value middle result rest hresult
  omega

/-- The first decoder takes enough. -/
theorem bind_left {size : Nat} {next : α → Decoder β} (hspends : Spends decoder fun _ => size)
    (hnext : ∀ value, Spends (next value) fun _ => 0) : Spends (decoder >>= next) fun _ => size :=
  bind hspends fun value => (hnext value).weaken fun _ => Nat.le_of_eq (Nat.sub_self size)

/-- The first decoder only looks. -/
theorem bind_right {size : β → Nat} {next : α → Decoder β} (hspends : Spends decoder fun _ => 0)
    (hnext : ∀ value, Spends (next value) size) : Spends (decoder >>= next) size :=
  bind hspends hnext

/-- A last step that makes the result of the value. -/
theorem bind_pure {first : α → Nat} {size : β → Nat} {next : α → Decoder β} {result : α → β}
    (hspends : Spends decoder first) (hnext : ∀ value, next value = Pure.pure (result value))
    (hsize : ∀ value, size (result value) ≤ first value) : Spends (decoder >>= next) size := by
  refine bind hspends fun value => ?_
  rw [hnext]
  exact pure (Nat.sub_eq_zero_of_le (hsize value))

end Spends

end Decoder

/-! ## Tags -/

namespace Tag

theorem spends_decodeLength (low : UInt8) : Spends (decodeLength low) fun _ => 0 := by
  unfold decodeLength
  split
  · exact .pure rfl
  split
  · refine .bind_left (Spends.octet.weaken fun _ => Nat.zero_le 1) fun short => ?_
    split
    · exact .bind_left (Spends.word16.weaken fun _ => Nat.zero_le 2) fun _ => .pure rfl
    split
    · exact Spends.word32.weaken fun _ => Nat.zero_le 4
    · exact .pure rfl
  · exact .fail _ _

theorem spends_decodeBody (number low : UInt8) : Spends (decodeBody number low) fun _ => 0 := by
  unfold decodeBody
  split
  · split
    · exact .pure rfl
    split
    · exact .pure rfl
    · exact .bind_left (spends_decodeLength _) fun _ => .pure rfl
  · split
    · exact .bind_left (spends_decodeLength _) fun _ => .pure rfl
    · exact .fail _ _

/-- Every tag takes an octet. -/
theorem spends_decode : Spends decode fun _ => 1 := by
  rw [decode_eq]
  refine .bind_left Spends.octet fun initial =>
    .bind_left ?_ fun number => spends_decodeBody number initial
  split
  · exact Spends.octet.weaken fun _ => Nat.zero_le 1
  · exact .pure rfl

theorem spends_decodeApplication (expected : AppTag) :
    Spends (decodeApplication expected) fun _ => 1 := by
  refine .bind_left spends_decode fun tag => ?_
  split
  · split
    · exact .pure rfl
    · exact .fail _ _
  · exact .fail _ _

theorem spends_decodeContext (expected : UInt8) : Spends (decodeContext expected) fun _ => 1 := by
  refine .bind_left spends_decode fun tag => ?_
  split
  · split
    · exact .pure rfl
    · exact .fail _ _
  · exact .fail _ _

theorem spends_decodeClosing (number : UInt8) : Spends (decodeClosing number) fun _ => 1 := by
  refine .bind_left spends_decode fun tag => ?_
  split
  · exact .pure rfl
  · exact .fail _ _

end Tag

/-! ## Integers -/

namespace Value

/-- Shifting in an octet moves the others up and the first one out. -/
theorem ofWord32_shift (value : UInt32) (octet : UInt8) :
    Octets.ofWord32 (value * 256 + octet.toUInt32) =
      (Octets.ofWord32 value).drop 1 ++ [octet] := by
  have hvalue := value.toNat_lt
  have hoctet := octet.toNat_lt
  have hshifted : (value * 256 + octet.toUInt32).toNat =
      (value.toNat * 256 + octet.toNat) % 4294967296 := by
    simp only [UInt32.toNat_add, UInt32.toNat_mul, UInt8.toNat_toUInt32, UInt32.reduceToNat]
    omega
  have hsame : ∀ a b : Nat, a % 256 = b % 256 → UInt8.ofNat a = UInt8.ofNat b := by
    intro a b hmod
    rw [← UInt8.toNat_inj, UInt8.toNat_ofNat', UInt8.toNat_ofNat']
    exact hmod
  have hlast : ∀ a : Nat, a % 256 = octet.toNat → UInt8.ofNat a = octet := by
    intro a hmod
    rw [← UInt8.toNat_inj, UInt8.toNat_ofNat']
    exact hmod
  simp only [Octets.ofWord32, hshifted, List.drop_succ_cons, List.drop_zero, List.cons_append,
    List.nil_append, List.cons.injEq, and_true]
  refine ⟨hsame _ _ ?_, hsame _ _ ?_, hsame _ _ ?_, hlast _ ?_⟩ <;> omega

/-- Four octets of the number are the content behind the end of what it was shifted into. -/
theorem ofWord32_shiftIn (start : UInt32) {content : Octets} (hlong : content.length ≤ 4) :
    Octets.ofWord32 (shiftIn start content) =
      (Octets.ofWord32 start).drop content.length ++ content := by
  induction content generalizing start with
  | nil => simp [shiftIn]
  | cons first rest ih =>
      have hrest : rest.length + 1 ≤ 4 := hlong
      have hroom : rest.length ≤ ((Octets.ofWord32 start).drop 1).length := by
        rw [List.length_drop, Octets.length_ofWord32]
        omega
      rw [shiftIn_cons, ih _ (Nat.le_of_succ_le hrest), ofWord32_shift,
        List.drop_append_of_le_length hroom, List.drop_drop, List.append_assoc, List.length_cons,
        Nat.add_comm 1]
      rfl

theorem dropZeros_fill (count : Nat) {content : Octets} (hsome : content ≠ []) :
    dropZeros (List.replicate count 0 ++ content) = dropZeros content := by
  induction count with
  | zero => rfl
  | succ count ih =>
      have hne : List.replicate count (0 : UInt8) ++ content ≠ [] :=
        List.append_ne_nil_of_right_ne_nil _ hsome
      rw [List.replicate_succ, List.cons_append]
      obtain ⟨second, rest, hcons⟩ := List.exists_cons_of_ne_nil hne
      rw [hcons, dropZeros_cons, if_pos rfl, ← hcons, ih]

theorem dropSigns_fill (count : Nat) {sign first : UInt8} (rest : Octets)
    (hsign : (sign = 0 ∧ first < 128) ∨ (sign = 255 ∧ 128 ≤ first)) :
    dropSigns (List.replicate count sign ++ first :: rest) = dropSigns (first :: rest) := by
  induction count with
  | zero => rfl
  | succ count ih =>
      rw [List.replicate_succ, List.cons_append]
      cases count with
      | zero => rw [List.replicate_zero, List.nil_append, dropSigns_cons, if_pos hsign]
      | succ count =>
          -- The octet behind is a sign octet too.
          have hself : (sign = 0 ∧ sign < 128) ∨ (sign = 255 ∧ 128 ≤ sign) := by
            rcases hsign with ⟨rfl, -⟩ | ⟨rfl, -⟩ <;> decide
          rw [List.replicate_succ, List.cons_append] at ih ⊢
          rw [dropSigns_cons, if_pos hself, ih]

theorem drop_ofWord32_zero (count : Nat) :
    (Octets.ofWord32 0).drop count = List.replicate (4 - count) 0 := by
  have hfour : Octets.ofWord32 0 = List.replicate 4 0 := by decide
  rw [hfour, List.drop_replicate]

theorem drop_ofWord32_ones (count : Nat) :
    (Octets.ofWord32 0xFFFFFFFF).drop count = List.replicate (4 - count) 255 := by
  have hfour : Octets.ofWord32 0xFFFFFFFF = List.replicate 4 255 := by decide
  rw [hfour, List.drop_replicate]

/-- **The shortest content of a number is no longer than any that it is read from.** -/
theorem length_unsignedContent_shiftIn_le {content : Octets} (hsome : content ≠ [])
    (hlong : content.length ≤ 4) :
    (unsignedContent (shiftIn 0 content)).length ≤ content.length := by
  rw [unsignedContent, ofWord32_shiftIn 0 hlong, drop_ofWord32_zero, dropZeros_fill _ hsome]
  exact length_dropZeros_le content

theorem length_signedContent_signExtend_le {content : Octets} (hsome : content ≠ [])
    (hlong : content.length ≤ 4) :
    (signedContent (signExtend content).toInt32).length ≤ content.length := by
  obtain ⟨first, rest, rfl⟩ := List.exists_cons_of_ne_nil hsome
  have hback : (signExtend (first :: rest)).toInt32.toUInt32 = signExtend (first :: rest) :=
    UInt32.toUInt32_toInt32 _
  rw [signedContent, hback]
  refine le_of_eq_of_le ?_ (length_dropSigns_le (first :: rest))
  by_cases hnegative : 128 ≤ first
  · have hextend : signExtend (first :: rest) = shiftIn 0xFFFFFFFF (first :: rest) := by
      simp [signExtend, hnegative]
    rw [hextend, ofWord32_shiftIn _ hlong, drop_ofWord32_ones,
      dropSigns_fill _ _ (.inr ⟨rfl, hnegative⟩)]
  · have hextend : signExtend (first :: rest) = shiftIn 0 (first :: rest) := by
      simp [signExtend, hnegative]
    rw [hextend, ofWord32_shiftIn _ hlong, drop_ofWord32_zero,
      dropSigns_fill _ _ (.inl ⟨rfl, UInt8.not_le.mp hnegative⟩)]

theorem of_integerContent_eq_ok {length : Nat} {input rest content : Octets}
    (hread : integerContent length input = .ok (content, rest)) :
    content ≠ [] ∧ content.length ≤ 4 ∧ rest.length + content.length ≤ input.length := by
  obtain ⟨_, middle, hrequire, htake⟩ := exists_of_bind_eq_ok hread
  have hbounds := of_decide_eq_true (of_require_eq_ok hrequire).1
  rw [require_of_true (decide_eq_true hbounds)] at hrequire
  cases hrequire
  have hspent := Spends.take length input content rest htake
  rw [Decoder.take] at htake
  split at htake
  · rename_i hcount
    cases htake
    rw [List.length_take_of_le hcount]
    exact ⟨List.ne_nil_of_length_pos (by rw [List.length_take_of_le hcount]; exact hbounds.1),
      hbounds.2, hspent⟩
  · cases htake

theorem spends_decodeUnsigned (length : Nat) :
    Spends (decodeUnsigned length) fun value => (unsignedContent value).length := by
  intro input value rest hread
  obtain ⟨content, middle, hcontent, hvalue⟩ := exists_of_bind_eq_ok hread
  obtain ⟨hsome, hlong, hspent⟩ := of_integerContent_eq_ok hcontent
  cases hvalue
  exact Nat.le_trans (Nat.add_le_add_left (length_unsignedContent_shiftIn_le hsome hlong) _) hspent

theorem spends_decodeSigned (length : Nat) :
    Spends (decodeSigned length) fun value => (signedContent value).length := by
  intro input value rest hread
  obtain ⟨content, middle, hcontent, hvalue⟩ := exists_of_bind_eq_ok hread
  obtain ⟨hsome, hlong, hspent⟩ := of_integerContent_eq_ok hcontent
  cases hvalue
  exact Nat.le_trans (Nat.add_le_add_left (length_signedContent_signExtend_le hsome hlong) _) hspent

/-! ## Contents of four octets -/

theorem spends_fourOctets (length : Nat) : Spends (fourOctets length) fun _ => 4 :=
  .bind_right (.require _ _) fun _ => Spends.word32

theorem spends_decodeDate (length : Nat) : Spends (decodeDate length) fun _ => 4 := by
  refine .bind_right (.require _ _) fun _ => .bind_left (.take 4) fun octets => ?_
  split
  · exact .pure rfl
  · exact .fail _ _

theorem spends_decodeTime (length : Nat) : Spends (decodeTime length) fun _ => 4 := by
  refine .bind_right (.require _ _) fun _ => .bind_left (.take 4) fun octets => ?_
  split
  · exact .pure rfl
  · exact .fail _ _

end Value

/-! ## Fields -/

namespace App

variable {α : Type} {decode : Nat → Decoder α} {contentOf : α → Octets}

/-- What is read behind an application tag takes what it is written in, if the content
does. -/
theorem spends_content (tag : AppTag) (hshort : ∀ value, (contentOf value).length < 5)
    (hspends : ∀ length, Spends (decode length) fun value => (contentOf value).length) :
    Spends (Tag.decodeApplication tag >>= decode)
      fun value => (content tag (contentOf value)).octets.length := by
  refine .bind (Tag.spends_decodeApplication tag) fun length =>
    (hspends length).weaken fun value => Nat.le_of_eq ?_
  rw [length_content tag (hshort value), Nat.add_sub_cancel_left]

theorem spends_decodeUnsigned :
    Spends App.decodeUnsigned fun value => (unsigned value).octets.length :=
  spends_content _ (fun value => Nat.lt_succ_of_le (Value.length_unsignedContent_le value))
    Value.spends_decodeUnsigned

theorem spends_decodeSigned :
    Spends App.decodeSigned fun value => (signed value).octets.length :=
  spends_content _ (fun value => Nat.lt_succ_of_le (Value.length_signedContent_le value))
    Value.spends_decodeSigned

theorem spends_decodeDate : Spends App.decodeDate fun value => (date value).octets.length :=
  spends_content _ (fun _ => Nat.lt_succ_self 4) Value.spends_decodeDate

theorem spends_decodeTime : Spends App.decodeTime fun value => (time value).octets.length :=
  spends_content _ (fun _ => Nat.lt_succ_self 4) Value.spends_decodeTime

end App

namespace Ctx

variable {α : Type} {number : UInt8} {decode : Nat → Decoder α} {contentOf : α → Octets}

theorem spends_content (hnumber : number < 15) (hshort : ∀ value, (contentOf value).length < 5)
    (hspends : ∀ length, Spends (decode length) fun value => (contentOf value).length) :
    Spends (Tag.decodeContext number >>= decode)
      fun value => (content number (contentOf value)).octets.length := by
  refine .bind (Tag.spends_decodeContext number) fun length =>
    (hspends length).weaken fun value => Nat.le_of_eq ?_
  rw [length_content hnumber (hshort value), Nat.add_sub_cancel_left]

theorem spends_decodeUnsigned (hnumber : number < 15) :
    Spends (decodeUnsigned number) fun value => (unsigned number value).octets.length :=
  spends_content hnumber
    (fun value => Nat.lt_succ_of_le (Value.length_unsignedContent_le value))
    Value.spends_decodeUnsigned

theorem spends_decodeObjectId (hnumber : number < 15) :
    Spends (decodeObjectId number) fun id => (objectId number id).octets.length :=
  spends_content hnumber (fun _ => Nat.lt_succ_self 4) fun length =>
    (Value.spends_fourOctets length).bind_pure (fun _ => rfl) fun _ => Nat.le_refl 4

theorem spends_decodeUnsigned? (hnumber : number < 15) :
    Spends (decodeUnsigned? number) fun field => (unsigned? number field).octets.length := by
  refine .bind_right .atEnd fun ended => ?_
  split
  · exact .pure rfl
  refine .bind_right (.peek _) fun tag => ?_
  split
  · split
    · exact (spends_decodeUnsigned hnumber).bind_pure (fun _ => rfl) fun _ => Nat.le_refl _
    · exact .pure rfl
  · exact .pure rfl

end Ctx

end Historian
