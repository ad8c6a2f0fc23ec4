import Historian.Value.BitString
import Mathlib.Algebra.Group.Nat.Defs
import Mathlib.Data.List.Basic

/-!
# Flag sets read back as they were written

The flags of a set travel in the first bits of an octet, in reverse.  The flags with
a name come back (`ofOctet_octet`); the other bits of a set are not sent, and an octet
does not depend on them (`octet_defined`).
-/

namespace Historian.FlagSet

variable {kind : FlagKind}

theorem has_defined (flags : FlagSet kind) {index : Nat} (hindex : index < kind.width) :
    flags.defined.has index = flags.has index := by
  have hwidth : kind.width ≤ 8 := by cases kind <;> decide
  have hsmall : index < 8 := by omega
  simp only [has, defined, Octets.bit, UInt8.toNat_ofNat', Nat.one_shiftLeft,
    Nat.testBit_mod_two_pow, hsmall, hindex, decide_true, Bool.true_and]

/-- Every flag of the set has a name. -/
def Named (flags : FlagSet kind) : Prop := flags.bits.toNat < 1 <<< kind.width

instance (flags : FlagSet kind) : Decidable flags.Named :=
  inferInstanceAs (Decidable (_ < _))

theorem defined_of_named {flags : FlagSet kind} (hnamed : flags.Named) :
    flags.defined = flags := by
  rw [defined, Nat.mod_eq_of_lt hnamed, UInt8.ofNat_toNat]

/-- The octet of a set tells nothing of flags without a name. -/
theorem octet_defined (flags : FlagSet kind) : flags.defined.octet = flags.octet := by
  unfold octet
  congr 1
  refine List.foldl_ext _ _ _ fun value index hindex => ?_
  rw [flags.has_defined (List.mem_range.mp hindex)]

/-- The sum of the lowest bits of a number. -/
private theorem foldl_bits (number width : Nat) :
    (List.range width).foldl
      (fun value index => value + if number.testBit index then 1 <<< index else 0) 0 =
      number % 2 ^ width := by
  induction width with
  | zero => simp [Nat.mod_one]
  | succ width ih =>
      rw [List.range_succ, List.foldl_append, ih, List.foldl_cons, List.foldl_nil,
        Nat.mod_pow_succ, Nat.one_shiftLeft, Nat.testBit_eq_decide_div_mod_eq]
      rcases Nat.mod_two_eq_zero_or_one (number / 2 ^ width) with hbit | hbit <;> simp [hbit]

/-- Flag `index` travels in the octet bit that mirrors it. -/
theorem bit_octet (flags : FlagSet kind) {index : Nat} (hindex : index < kind.width) :
    Octets.bit flags.octet (7 - index) = flags.has index := by
  have hfour : ∀ a b c d : Bool,
      let sum := UInt8.ofNat ((((0 + if a then 1 <<< (7 - 0) else 0) +
        if b then 1 <<< (7 - 1) else 0) + if c then 1 <<< (7 - 2) else 0) +
        if d then 1 <<< (7 - 3) else 0)
      Octets.bit sum 7 = a ∧ Octets.bit sum 6 = b ∧ Octets.bit sum 5 = c ∧
        Octets.bit sum 4 = d := by decide
  cases kind with
  | status =>
      obtain ⟨h0, h1, h2, h3⟩ := hfour (flags.has 0) (flags.has 1) (flags.has 2) (flags.has 3)
      match index, hindex with
      | 0, _ => exact h0
      | 1, _ => exact h1
      | 2, _ => exact h2
      | 3, _ => exact h3
  | result | log =>
      obtain ⟨h0, h1, h2, _⟩ := hfour (flags.has 0) (flags.has 1) (flags.has 2) false
      match index, hindex with
      | 0, _ => exact h0
      | 1, _ => exact h1
      | 2, _ => exact h2

/-- **The named flags of a set are read back.** -/
theorem ofOctet_octet (flags : FlagSet kind) : ofOctet flags.octet = flags.defined := by
  unfold ofOctet defined
  rw [Nat.one_shiftLeft, ← foldl_bits flags.bits.toNat kind.width]
  congr 2
  refine List.foldl_ext _ _ _ fun value index hindex => ?_
  rw [flags.bit_octet (List.mem_range.mp hindex)]
  rfl

end Historian.FlagSet

/-- What an answer says about itself is told apart. -/
theorem Historian.ResultFlags.has_of (first last more : Bool) :
    (of first last more).has 0 = first ∧ (of first last more).has 1 = last ∧
      (of first last more).has 2 = more := by
  revert first last more
  decide
