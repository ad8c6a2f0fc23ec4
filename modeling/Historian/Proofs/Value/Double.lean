import Mathlib

/-!
# Differences of doubles

Whether a value has moved is seen by subtracting and taking the distance from zero.  With finite
numbers the difference is a number (`Double.isNaN_sub`), though it may be infinite; and every
number is at least zero away from zero, while what is not a number compares with nothing
(`Double.abs_ge_iff`).

A double is read by unpacking its bits and written by packing them.  Rounding and overflow
change a number on the way, but its sign comes back (`Double.hasSign_unpack_pack`), and what
has a sign is a number.
-/

namespace Historian.Double

open Float.Model (Format UnpackedFloat)
open Float.Model.UnpackedFloat (Sign packComponents packedInfinity unpackSign_packComponents
  unpackExponent_packComponents unpackMantissa_packComponents)

/-! ## Signs -/

/-- A number, finite or not, with a sign. -/
def HasSign (sign : Sign) : UnpackedFloat → Prop
  | .infinity found | .zero found | .finite found _ _ _ => found = sign
  | .notANumber => False

theorem isNaN_eq_false_of_hasSign {sign : Sign} {value : UnpackedFloat}
    (hsign : HasSign sign value) : value.isNaN = false := by
  cases value with
  | notANumber => exact hsign.elim
  | infinity | zero | finite => rfl

theorem hasSign_abs {value : UnpackedFloat} (hnumber : value.isNaN = false) :
    HasSign .positive value.abs := by
  cases value with
  | notANumber => cases hnumber
  | infinity | zero | finite => rfl

/-! ### Packing -/

section

variable {spec : Format} {sign : Sign} {exponent : BitVec spec.exponentBits}
  {mantissa : BitVec spec.mantissaBitsWithoutImplicit}

/-- Only under the last exponent are there bits that are not a number. -/
theorem hasSign_unpack_packComponents (hnumber : exponent = -1#_ → mantissa = 0#_) :
    HasSign sign (UnpackedFloat.unpack spec (packComponents spec sign exponent mantissa)) := by
  simp only [UnpackedFloat.unpack, unpackExponent_packComponents, unpackMantissa_packComponents,
    unpackSign_packComponents, Sign.ofBitVec_toBitVec]
  split
  · rename_i hlast
    rw [if_pos (hnumber hlast)]
    rfl
  · split
    · split <;> rfl
    · rfl

theorem hasSign_unpack_packedInfinity :
    HasSign sign (UnpackedFloat.unpack spec (packedInfinity spec sign)) :=
  hasSign_unpack_packComponents fun _ => rfl

/-- **A number comes back from its bits with its sign.** -/
theorem hasSign_unpack_pack {value : UnpackedFloat} (hsign : HasSign sign value) :
    HasSign sign (UnpackedFloat.unpack spec (UnpackedFloat.pack spec value)) := by
  have hwidth : 1 < 2 ^ spec.exponentBits := Nat.one_lt_two_pow (Nat.ne_of_gt spec.he)
  fun_cases UnpackedFloat.pack spec value with
  | case1 => exact hsign.elim
  | case2 found =>
      cases hsign
      exact hasSign_unpack_packedInfinity
  | case3 found =>
      cases hsign
      exact hasSign_unpack_packComponents fun _ => rfl
  | case4 found mantissa exponent hpos biased hlarge =>
      cases hsign
      exact hasSign_unpack_packedInfinity
  | case5 found mantissa exponent hpos bits biased hfits hnormal =>
      -- Exponents that are too large were packed as infinity, so this is not the last one.
      cases hsign
      refine hasSign_unpack_packComponents fun hlast => ?_
      have hfield := congrArg BitVec.toNat hlast
      rw [BitVec.neg_one_eq_allOnes, BitVec.toNat_allOnes, BitVec.toNat_ofNat,
        Nat.mod_eq_of_lt (by omega)] at hfield
      omega
  | case6 found mantissa exponent hpos bits biased hfits hsubnormal =>
      cases hsign
      refine hasSign_unpack_packComponents fun hlast => ?_
      have hfield := congrArg BitVec.toNat hlast
      rw [BitVec.neg_one_eq_allOnes, BitVec.toNat_allOnes, BitVec.toNat_ofNat,
        Nat.zero_mod] at hfield
      omega

end

/-! ## Differences -/

section

variable (spec : Format)

theorem hasSign_roundWithAccuracy (sign : Sign) (mantissa : Nat) (exponent : Int)
    (accuracy : UnpackedFloat.Accuracy) :
    HasSign sign (UnpackedFloat.roundWithAccuracy spec sign mantissa exponent accuracy) := by
  unfold UnpackedFloat.roundWithAccuracy
  dsimp only
  split <;> rfl

theorem exists_hasSign_normalize (mantissa exponent : Int) (zeroSign : Sign) :
    ∃ sign, HasSign sign (UnpackedFloat.normalize spec mantissa exponent zeroSign) := by
  unfold UnpackedFloat.normalize
  split
  · exact ⟨.negative, hasSign_roundWithAccuracy ..⟩
  · exact ⟨zeroSign, rfl⟩
  · exact ⟨.positive, hasSign_roundWithAccuracy ..⟩

theorem exists_hasSign_sub {value other : UnpackedFloat} (hvalue : value.isFinite = true)
    (hother : other.isFinite = true) :
    ∃ sign, HasSign sign (UnpackedFloat.sub spec value other) := by
  cases value with
  | infinity | notANumber => cases hvalue
  | zero sign =>
      cases other with
      | infinity | notANumber => cases hother
      | zero found =>
          simp only [UnpackedFloat.sub]
          split
          · exact ⟨_, rfl⟩
          · exact ⟨_, rfl⟩
      | finite found mantissa exponent hpos => exact ⟨_, rfl⟩
  | finite sign mantissa exponent hpos =>
      cases other with
      | infinity | notANumber => cases hother
      | zero found => exact ⟨_, rfl⟩
      | finite found otherMantissa otherExponent hotherPos => exact exists_hasSign_normalize ..

end

/-- **The difference of finite numbers is a number.** -/
theorem isNaN_sub {value other : Float} (hvalue : value.isFinite = true)
    (hother : other.isFinite = true) : (value - other).isNaN = false := by
  obtain ⟨sign, hsign⟩ := exists_hasSign_sub .binary64 hvalue hother
  exact isNaN_eq_false_of_hasSign (hasSign_unpack_pack hsign)

/-! ## Distances from zero -/

theorem unpack_of_beq_zero {zero : Float} (hzero : (zero == 0) = true) :
    ∃ sign, zero.toModel.unpack = .zero sign := by
  have hcompare : zero.toModel.unpack.beq (.zero .positive) = true := hzero
  cases hvalue : zero.toModel.unpack with
  | zero sign => exact ⟨sign, rfl⟩
  | notANumber =>
      rw [hvalue] at hcompare
      cases hcompare
  | infinity sign | finite sign mantissa exponent hpos =>
      rw [hvalue] at hcompare
      cases sign <;> cases hcompare

theorem unpack_of_isNaN {value : Float} (hnan : value.isNaN = true) :
    value.toModel.unpack = .notANumber := by
  have hunpacked : value.toModel.unpack.isNaN = true := hnan
  cases hvalue : value.toModel.unpack with
  | notANumber => rfl
  | infinity | zero | finite =>
      rw [hvalue] at hunpacked
      cases hunpacked

theorem unpack_pack_notANumber :
    UnpackedFloat.unpack .binary64 (UnpackedFloat.pack .binary64 .notANumber) = .notANumber := rfl

theorem zero_le_of_hasSign {sign : Sign} {value : UnpackedFloat}
    (hsign : HasSign .positive value) : UnpackedFloat.le (.zero sign) value = true := by
  cases value with
  | notANumber => exact hsign.elim
  | infinity | finite =>
      cases hsign
      rfl
  | zero found => rfl

/-- **Every number is at least zero away from zero**, and what is not a number is not. -/
theorem abs_ge_iff {value zero : Float} (hzero : (zero == 0) = true) :
    value.abs ≥ zero ↔ value.isNaN = false := by
  obtain ⟨sign, hunpack⟩ := unpack_of_beq_zero hzero
  have hle : value.abs ≥ zero ↔ UnpackedFloat.le zero.toModel.unpack
      (UnpackedFloat.unpack .binary64 (UnpackedFloat.pack .binary64 value.toModel.unpack.abs)) :=
    decide_eq_true_iff
  rw [hle, hunpack]
  cases hnan : value.isNaN with
  | false => simp [zero_le_of_hasSign (hasSign_unpack_pack (hasSign_abs hnan))]
  | true =>
      rw [unpack_of_isNaN hnan, UnpackedFloat.abs, unpack_pack_notANumber]
      simp [UnpackedFloat.le, UnpackedFloat.compare]

end Historian.Double
