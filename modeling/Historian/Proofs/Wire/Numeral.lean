import Historian.Proofs.Wire.Extent
import Mathlib.Tactic.Ring

/-!
# The numbers that integer contents stand for

The content of an integer is a number to base 256, most significant digit first.  An unsigned
integer is that number (`Value.bigEndian`), a signed one is read in two's complement
(`Value.twosComplement`).  The readers give these numbers for any content of one to four octets,
leading octets included that say nothing (`Value.toNat_shiftIn`, `Value.toInt_signExtend`), and the
writers find the shortest content of a number (`Value.shortest_contents`).
-/

namespace Historian.Value

open Decoder Encoding

/-! ## Digits -/

/-- The number with the digits `content` to base 256. -/
def bigEndian : Octets → Nat
  | [] => 0
  | first :: rest => first.toNat * 256 ^ rest.length + bigEndian rest

/-- The first bit of `content` is set. -/
def isNegative (content : Octets) : Bool := content.head?.any fun first => 128 ≤ first

/-- The number that `content` stands for in two's complement. -/
def twosComplement (content : Octets) : Int :=
  bigEndian content - if isNegative content then 256 ^ content.length else 0

theorem bigEndian_lt (content : Octets) : bigEndian content < 256 ^ content.length := by
  induction content with
  | nil => exact Nat.one_pos
  | cons first rest ih =>
      have hdigit : (first.toNat + 1) * 256 ^ rest.length ≤ 256 * 256 ^ rest.length :=
        Nat.mul_le_mul_right _ first.toNat_lt
      rw [bigEndian, List.length_cons, Nat.pow_succ']
      rw [Nat.succ_mul] at hdigit
      omega

/-- The first bit tells whether the number lies in the upper half of those of its length. -/
theorem isNegative_iff (content : Octets) :
    isNegative content = true ↔ 256 ^ content.length ≤ 2 * bigEndian content := by
  cases content with
  | nil => simp [isNegative, bigEndian]
  | cons first rest =>
      have hrest := bigEndian_lt rest
      simp only [isNegative, List.head?_cons, Option.any_some, decide_eq_true_eq,
        UInt8.le_iff_toNat_le, UInt8.reduceToNat, bigEndian, List.length_cons, Nat.pow_succ']
      constructor
      · intro hfirst
        have hdigit := Nat.mul_le_mul_right (256 ^ rest.length) hfirst
        omega
      · intro hhalf
        by_contra hfirst
        have hdigit : (first.toNat + 1) * 256 ^ rest.length ≤ 128 * 256 ^ rest.length :=
          Nat.mul_le_mul_right _ (Nat.lt_of_not_le hfirst)
        rw [Nat.succ_mul] at hdigit
        omega

/-! ## Reading -/

/-- Shifting in digits reckons to base 256, up to what 32 bits can hold. -/
theorem toNat_shiftIn_mod (start : UInt32) (content : Octets) :
    (shiftIn start content).toNat =
      (start.toNat * 256 ^ content.length + bigEndian content) % 4294967296 := by
  induction content generalizing start with
  | nil =>
      rw [List.length_nil, bigEndian, Nat.pow_zero, Nat.mul_one, Nat.add_zero,
        Nat.mod_eq_of_lt start.toNat_lt]
      rfl
  | cons first rest ih =>
      have hshifted : (start * 256 + first.toUInt32).toNat =
          (start.toNat * 256 + first.toNat) % 4294967296 := by
        simp only [UInt32.toNat_add, UInt32.toNat_mul, UInt8.toNat_toUInt32, UInt32.reduceToNat]
        omega
      have hdigits : start.toNat * 256 ^ (rest.length + 1) +
          (first.toNat * 256 ^ rest.length + bigEndian rest) =
            (start.toNat * 256 + first.toNat) * 256 ^ rest.length + bigEndian rest := by
        ring
      rw [shiftIn_cons, ih, hshifted, List.length_cons, bigEndian, hdigits, Nat.add_mod,
        Nat.mod_mul_mod, ← Nat.add_mod]

section

variable {content : Octets} (hlong : content.length ≤ 4)

include hlong

theorem pow_length_le : 256 ^ content.length ≤ 4294967296 :=
  Nat.pow_le_pow_right (show 0 < 256 by decide) hlong

theorem toNat_shiftIn : (shiftIn 0 content).toNat = bigEndian content := by
  have hbound := Nat.lt_of_lt_of_le (bigEndian_lt content) (pow_length_le hlong)
  rw [toNat_shiftIn_mod, UInt32.toNat_zero, Nat.zero_mul, Nat.zero_add, Nat.mod_eq_of_lt hbound]

/-- Behind ones the digits stand for what is missing to the power that they reach. -/
theorem toNat_shiftIn_ones :
    (shiftIn 0xFFFFFFFF content).toNat + 256 ^ content.length =
      4294967296 + bigEndian content := by
  have hbound := bigEndian_lt content
  have hpow := pow_length_le hlong
  rw [toNat_shiftIn_mod, show (0xFFFFFFFF : UInt32).toNat = 4294967295 from rfl]
  omega

theorem toInt_signExtend : (signExtend content).toInt32.toInt = twosComplement content := by
  have hword : ∀ value : UInt32, value.toInt32.toInt =
      if 2 * value.toNat < 4294967296 then (value.toNat : Int) else value.toNat - 4294967296 :=
    fun value => BitVec.toInt_eq_toNat_cond value.toBitVec
  have hextend : signExtend content =
      shiftIn (if isNegative content then 0xFFFFFFFF else 0) content := rfl
  have hpow := pow_length_le hlong
  have hhalf := isNegative_iff content
  rw [hword, hextend, twosComplement]
  by_cases hnegative : isNegative content = true
  · -- The digits reach the upper half of their power, and so do the 32 bits.
    have hones := toNat_shiftIn_ones hlong
    have hupper := hhalf.mp hnegative
    have hinteger : ((shiftIn 0xFFFFFFFF content).toNat : Int) + 256 ^ content.length =
        4294967296 + bigEndian content := by exact_mod_cast hones
    rw [if_pos hnegative, if_pos hnegative, if_neg (by omega)]
    omega
  · have hlower := mt hhalf.mpr hnegative
    rw [if_neg hnegative, if_neg hnegative, toNat_shiftIn hlong, if_pos (by omega), Int.sub_zero]

end

/-! ## Shortest contents -/

/-- `content` is written for `value` behind an application tag and behind context tags; it is read
back, and so is nothing shorter. -/
structure Shortest {α : Type} (decode : Nat → Decoder α) (tag : AppTag) (app : Encoding)
    (ctx : UInt8 → Encoding) (content : Octets) (value : α) : Prop where
  app : app.Gives
    ((Tag.application tag (UInt32.ofNat content.length)).encode.octets ++ content)
  ctx (number : UInt8) : (ctx number).Gives
    ((Tag.context number (UInt32.ofNat content.length)).encode.octets ++ content)
  back (rest : Octets) : decode content.length (content ++ rest) = .ok (value, rest)
  least (other : Octets) (hother : decode other.length other = .ok (value, [])) :
    content.length ≤ other.length

theorem shortest_of_spends {α : Type} {decode : Nat → Decoder α} {contentOf : α → Octets}
    (tag : AppTag) {value : α}
    (hread : Reads (decode (contentOf value).length) (contentOf value) value)
    (hspends : ∀ length, Spends (decode length) fun value => (contentOf value).length) :
    Shortest decode tag (App.content tag (contentOf value))
      (fun number => Ctx.content number (contentOf value)) (contentOf value) value where
  app := by
    have hgives := (App.plain_content tag (contentOf value)).gives
    simpa [App.content] using hgives
  ctx number := by
    have hgives := (Ctx.plain_content number (contentOf value)).gives
    rwa [Ctx.octets_content] at hgives
  back := hread
  least other hother := by
    have hspent := hspends other.length other value [] hother
    rwa [List.length_nil, Nat.zero_add] at hspent

theorem decode_content {content : Octets} (hsome : 1 ≤ content.length)
    (hlong : content.length ≤ 4) (rest : Octets) :
    decodeUnsigned content.length (content ++ rest) = .ok (shiftIn 0 content, rest) ∧
      decodeSigned content.length (content ++ rest) = .ok ((signExtend content).toInt32, rest) :=
  have hread := reads_integerContent hsome hlong
  ⟨(hread.bind_pure rfl : Reads (decodeUnsigned _) _ _) rest,
    (hread.bind_pure rfl : Reads (decodeSigned _) _ _) rest⟩

/-- **Integers have shortest contents, and keep their sign.**  The content that is written for an
integer is read back, and any other content that is read as it is at least as long.  A content of
one to four octets, with however many leading octets that say nothing, is read as the number that
its octets stand for. -/
theorem shortest_contents :
    (∀ value : UInt32, Shortest decodeUnsigned .unsignedInt (App.unsigned value)
        (fun number => Ctx.unsigned number value) (unsignedContent value) value) ∧
      (∀ value : Int32, Shortest decodeSigned .signedInt (App.signed value)
        (fun number => Ctx.signed number value) (signedContent value) value) ∧
      ∀ content : Octets, 1 ≤ content.length → content.length ≤ 4 → ∀ rest,
        (∃ value, decodeUnsigned content.length (content ++ rest) = .ok (value, rest) ∧
          value.toNat = bigEndian content) ∧
        ∃ value, decodeSigned content.length (content ++ rest) = .ok (value, rest) ∧
          value.toInt = twosComplement content := by
  refine ⟨fun value => shortest_of_spends _ (reads_decodeUnsigned value) spends_decodeUnsigned,
    fun value => shortest_of_spends _ (reads_decodeSigned value) spends_decodeSigned, ?_⟩
  intro content hsome hlong rest
  obtain ⟨hunsigned, hsigned⟩ := decode_content hsome hlong rest
  exact ⟨⟨_, hunsigned, toNat_shiftIn hlong⟩, _, hsigned, toInt_signExtend hlong⟩

/-- The least number of one octet, with two octets in front that repeat its sign. -/
theorem shortest_contents_redundant :
    let content : Octets := [255, 255, 128]
    (1 ≤ content.length ∧ content.length ≤ 4) ∧
      bigEndian content = 16777088 ∧ twosComplement content = -128 ∧
      decodeSigned 3 content = .ok (-128, []) ∧
      signedContent (-128) = [128] ∧ (signedContent (-128)).length ≤ content.length := by
  intro content
  have hbounds : 1 ≤ content.length ∧ content.length ≤ 4 := by decide
  have hminus : twosComplement content = -128 := by decide
  obtain ⟨-, hsigned, hcontents⟩ := shortest_contents
  obtain ⟨-, value, hread, hvalue⟩ := hcontents content hbounds.1 hbounds.2 []
  obtain rfl : value = -128 := Int32.toInt_inj.mp (hvalue.trans hminus)
  exact ⟨hbounds, by decide, hminus, hread, by decide, (hsigned (-128)).least content hread⟩

end Historian.Value
