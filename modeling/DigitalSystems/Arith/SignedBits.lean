import Mathlib.Data.Int.ModEq

/-!
# Signed words

The value of a signed word is built up from its sign bit by doubling and adding one bit
at a time: `x.toInt >>> k` is the value of the bits from `k` on.  A field of `width` bits
carries an integer up to a multiple of `2 ^ width`.
-/

namespace DigitalSystems.Arith

variable {w : Nat}

theorem toInt_emod_two (x : BitVec w) (pos : 0 < w) :
    x.toInt % 2 = (x.getLsbD 0).toNat := by
  obtain ⟨v, rfl⟩ := Nat.exists_eq_add_one_of_ne_zero (Nat.ne_of_gt pos)
  have parity : x.toNat % 2 = (x.getLsbD 0).toNat := by
    rw [BitVec.getLsbD, Nat.testBit_zero]
    rcases Nat.mod_two_eq_zero_or_one x.toNat with even | odd
    · rw [even]
      rfl
    · rw [odd]
      rfl
  rw [BitVec.toInt_eq_toNat_cond, ← parity, Nat.pow_succ]
  split <;> omega

/-- Shifting in the next bit doubles the value and adds the bit. -/
theorem toInt_shiftRight (x : BitVec w) {k : Nat} (inside : k < w) :
    x.toInt >>> k = 2 * (x.toInt >>> (k + 1)) + (x.getLsbD k).toNat := by
  have bit : (x.sshiftRight k).getLsbD 0 = x.getLsbD k := by
    rw [BitVec.getLsbD_sshiftRight, Nat.add_zero, if_pos inside]
    simp
    omega
  have last := toInt_emod_two (x.sshiftRight k) (Nat.lt_of_le_of_lt (Nat.zero_le k) inside)
  rw [BitVec.toInt_sshiftRight, bit] at last
  rw [Int.shiftRight_add, ← last]
  change x.toInt >>> k = 2 * (x.toInt >>> k >>> (1 : Nat)) + x.toInt >>> k % 2
  rw [Int.shiftRight_eq_div_pow _ 1]
  omega

/-- The sign bit has negative weight. -/
theorem toInt_shiftRight_sign (x : BitVec (w + 1)) :
    x.toInt >>> w = -(x.getLsbD w).toNat := by
  have low := BitVec.le_toInt x
  have high : x.toInt < 2 ^ w := BitVec.toInt_lt
  have sign : x.getLsbD w = decide (x.toInt < 0) := by
    rw [← BitVec.msb_eq_toInt, BitVec.msb_eq_getLsbD_last, Nat.add_sub_cancel]
  rw [Nat.add_sub_cancel] at low
  rw [Int.shiftRight_eq_div_pow, sign, Int.natCast_pow]
  by_cases negative : x.toInt < 0
  · rw [decide_eq_true negative]
    exact Int.ediv_eq_neg_one_of_neg_of_le negative (Int.neg_le_of_neg_le low)
  · rw [decide_eq_false negative]
    exact Int.ediv_eq_zero_of_lt (Int.not_lt.mp negative) high

/-- What is left of `value` in a signed field of `width` bits. -/
structure Carries (width : Nat) (value field : Int) : Prop where
  congruent : field ≡ value [ZMOD 2 ^ width]
  exact : -2 ^ (width - 1) ≤ value → value < 2 ^ (width - 1) → field = value

theorem carries_bmod {width : Nat} (pos : 0 < width) (value : Int) :
    Carries width value (value.bmod (2 ^ width)) := by
  obtain ⟨bits, rfl⟩ := Nat.exists_eq_add_one_of_ne_zero (Nat.ne_of_gt pos)
  constructor
  case congruent =>
    have same : value.bmod (2 ^ (bits + 1)) % (2 ^ (bits + 1) : Nat) =
        value % (2 ^ (bits + 1) : Nat) := Int.bmod_emod
    rw [Int.natCast_pow] at same
    exact same
  case exact =>
    intro low high
    rw [Nat.add_sub_cancel] at low high
    have modulus : ((2 ^ (bits + 1) : Nat) : Int) = 2 ^ bits * 2 := by
      rw [Int.natCast_pow, Int.pow_succ]
      rfl
    apply Int.bmod_eq_of_le_mul_two
    · omega
    · omega

/-- Sign extension does not change what a field carries. -/
theorem carries_signExtend {width size : Nat} (pos : 0 < width) (fits : width ≤ size)
    (value : Int) :
    Carries width value ((BitVec.ofInt width value).signExtend size).toInt := by
  rw [BitVec.toInt_signExtend_of_le fits, BitVec.toInt_ofInt]
  exact carries_bmod pos value

end DigitalSystems.Arith
