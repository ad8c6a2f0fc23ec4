import Historian.Value.Integer
import Historian.Proofs.Wire.Reader
import Mathlib.Tactic.SplitIfs

/-!
# Integers read back as they were written

The writers drop leading octets that say nothing: zeros of an unsigned number, and
octets of a signed number that only repeat its sign.  Dropping one such octet does
not change what is read (`shiftIn_dropZeros`, `signExtend_dropSigns`), so a shortened
content is read like the four octets it comes from.
-/

namespace Historian.Value

open Decoder

/-! ## Shortening -/

theorem shiftIn_cons (start : UInt32) (first : UInt8) (rest : Octets) :
    shiftIn start (first :: rest) = shiftIn (start * 256 + first.toUInt32) rest := rfl

theorem dropZeros_cons (first second : UInt8) (rest : Octets) :
    dropZeros (first :: second :: rest) =
      if first = 0 then dropZeros (second :: rest) else first :: second :: rest := rfl

theorem dropSigns_cons (first second : UInt8) (rest : Octets) :
    dropSigns (first :: second :: rest) =
      if (first = 0 ∧ second < 128) ∨ (first = 255 ∧ 128 ≤ second) then
        dropSigns (second :: rest)
      else first :: second :: rest := rfl

/-- What dropping one zero preserves holds of a content and what is left of it. -/
theorem dropZeros_induction {motive : Octets → Octets → Prop}
    (same : ∀ content, motive content content)
    (drop : ∀ second rest, motive (second :: rest) (dropZeros (second :: rest)) →
      motive (0 :: second :: rest) (dropZeros (second :: rest)))
    (content : Octets) : motive content (dropZeros content) := by
  induction content with
  | nil => exact same []
  | cons first rest ih =>
      cases rest with
      | nil => exact same [first]
      | cons second rest =>
          rw [dropZeros_cons]
          split
          · rename_i hzero
            subst hzero
            exact drop second rest ih
          · exact same _

/-- The same for octets that only repeat the sign. -/
theorem dropSigns_induction {motive : Octets → Octets → Prop}
    (same : ∀ content, motive content content)
    (drop : ∀ first second rest, (first = 0 ∧ second < 128) ∨ (first = 255 ∧ 128 ≤ second) →
      motive (second :: rest) (dropSigns (second :: rest)) →
      motive (first :: second :: rest) (dropSigns (second :: rest)))
    (content : Octets) : motive content (dropSigns content) := by
  induction content with
  | nil => exact same []
  | cons first rest ih =>
      cases rest with
      | nil => exact same [first]
      | cons second rest =>
          rw [dropSigns_cons]
          split
          · rename_i hsign
            exact drop first second rest hsign ih
          · exact same _

theorem shiftIn_dropZeros (content : Octets) :
    shiftIn 0 (dropZeros content) = shiftIn 0 content := by
  refine dropZeros_induction (motive := fun content short => shiftIn 0 short = shiftIn 0 content)
    (fun _ => rfl) (fun second rest ih => ?_) content
  rw [ih, shiftIn_cons 0 0]
  rfl

theorem signExtend_dropSigns (content : Octets) :
    signExtend (dropSigns content) = signExtend content := by
  refine dropSigns_induction (motive := fun content short => signExtend short = signExtend content)
    (fun _ => rfl) (fun first second rest hsign ih => ?_) content
  rw [ih]
  rcases hsign with ⟨rfl, hlow⟩ | ⟨rfl, hhigh⟩
  · -- the second octet is not negative either
    have hnot : ¬ (128 : UInt8) ≤ second := UInt8.not_le.mpr hlow
    simp only [signExtend, List.head?_cons, Option.any_some, decide_eq_true_eq, if_neg hnot]
    rfl
  · simp only [signExtend, List.head?_cons, Option.any_some, decide_eq_true_eq, if_pos hhigh]
    rfl

theorem dropZeros_ne_nil {content : Octets} : content ≠ [] → dropZeros content ≠ [] :=
  dropZeros_induction (motive := fun content short => content ≠ [] → short ≠ [])
    (fun _ hne => hne) (fun _ _ ih _ => ih (List.cons_ne_nil _ _)) content

theorem dropSigns_ne_nil {content : Octets} : content ≠ [] → dropSigns content ≠ [] :=
  dropSigns_induction (motive := fun content short => content ≠ [] → short ≠ [])
    (fun _ hne => hne) (fun _ _ _ _ ih _ => ih (List.cons_ne_nil _ _)) content

theorem length_dropZeros_le (content : Octets) : (dropZeros content).length ≤ content.length :=
  dropZeros_induction (motive := fun content short => short.length ≤ content.length)
    (fun _ => Nat.le_refl _) (fun _ _ ih => Nat.le_succ_of_le ih) content

theorem length_dropSigns_le (content : Octets) : (dropSigns content).length ≤ content.length :=
  dropSigns_induction (motive := fun content short => short.length ≤ content.length)
    (fun _ => Nat.le_refl _) (fun _ _ _ _ ih => Nat.le_succ_of_le ih) content

/-! ## Four octets -/

/-- Four octets leave nothing of what stands before them. -/
theorem shiftIn_ofWord32 (start value : UInt32) :
    shiftIn start (Octets.ofWord32 value) = value := by
  apply UInt32.toNat_inj.mp
  have hvalue := value.toNat_lt
  have hstart := start.toNat_lt
  simp only [Octets.ofWord32, shiftIn, List.foldl_cons, List.foldl_nil, UInt32.toNat_add,
    UInt32.toNat_mul, UInt8.toNat_toUInt32, UInt8.toNat_ofNat', UInt32.reduceToNat]
  omega

theorem signExtend_ofWord32 (value : UInt32) : signExtend (Octets.ofWord32 value) = value :=
  shiftIn_ofWord32 _ value

/-! ## Contents -/

theorem one_le_length_unsignedContent (value : UInt32) : 1 ≤ (unsignedContent value).length :=
  List.length_pos_iff.mpr (dropZeros_ne_nil (List.cons_ne_nil _ _))

theorem length_unsignedContent_le (value : UInt32) : (unsignedContent value).length ≤ 4 :=
  length_dropZeros_le _

theorem one_le_length_signedContent (value : Int32) : 1 ≤ (signedContent value).length :=
  List.length_pos_iff.mpr (dropSigns_ne_nil (List.cons_ne_nil _ _))

theorem length_signedContent_le (value : Int32) : (signedContent value).length ≤ 4 :=
  length_dropSigns_le _

theorem length_unsignedContent (value : UInt32) :
    (unsignedContent value).length =
      if value.toNat < 256 then 1 else if value.toNat < 65536 then 2
      else if value.toNat < 16777216 then 3 else 4 := by
  have hbound := value.toNat_lt
  have hzero : ∀ number : Nat, UInt8.ofNat number = 0 ↔ number % 256 = 0 := by
    intro number
    rw [← UInt8.toNat_inj, UInt8.toNat_ofNat']
    rfl
  simp only [unsignedContent, Octets.ofWord32, dropZeros, hzero, apply_ite List.length,
    List.length_cons, List.length_nil]
  split_ifs <;> omega

/-- A smaller number has no longer content. -/
theorem length_unsignedContent_mono {smaller larger : UInt32} (hle : smaller.toNat ≤ larger.toNat) :
    (unsignedContent smaller).length ≤ (unsignedContent larger).length := by
  rw [length_unsignedContent, length_unsignedContent]
  split_ifs <;> omega

theorem reads_integerContent {content : Octets} (hshort : 1 ≤ content.length)
    (hlong : content.length ≤ 4) : Reads (integerContent content.length) content content :=
  (Reads.take content).after_require (by simp [hshort, hlong])

theorem reads_decodeUnsigned (value : UInt32) :
    Reads (decodeUnsigned (unsignedContent value).length) (unsignedContent value) value :=
  (reads_integerContent (one_le_length_unsignedContent value)
    (length_unsignedContent_le value)).bind_pure
      (by rw [unsignedContent, shiftIn_dropZeros, shiftIn_ofWord32])

theorem reads_decodeSigned (value : Int32) :
    Reads (decodeSigned (signedContent value).length) (signedContent value) value :=
  (reads_integerContent (one_le_length_signedContent value)
    (length_signedContent_le value)).bind_pure
      (by rw [signedContent, signExtend_dropSigns, signExtend_ofWord32]; rfl)

end Historian.Value
