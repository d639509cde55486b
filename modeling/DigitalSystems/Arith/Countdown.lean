import Mathlib.Order.Basic

/-!
# Counting down

A counter that is decremented until it is zero ends from every start value; one that
starts at zero wraps around first.
-/

namespace DigitalSystems.Arith

variable {w : Nat}

theorem toNat_sub_one {x : BitVec w} (nonzero : x ≠ 0#w) : (x - 1#w).toNat < x.toNat := by
  have pos : 0 < x.toNat := Nat.pos_of_ne_zero fun zero => nonzero (BitVec.eq_of_toNat_eq zero)
  have one : (1#w).toNat = 1 := Nat.mod_eq_of_lt (Nat.lt_of_le_of_lt pos x.isLt)
  have below : 1#w ≤ x := by
    rw [BitVec.le_def, one]
    exact pos
  rw [BitVec.toNat_sub_of_le below, one]
  exact Nat.sub_lt pos Nat.one_pos

/-- What a round establishes from the next one, which only comes if the decremented
counter is not zero, holds whatever the counter is. -/
theorem countdown {Motive : BitVec w → Prop}
    (round : ∀ counter,
      (counter - 1#w ≠ 0#w → Motive (counter - 1#w)) → Motive counter)
    (counter : BitVec w) : Motive counter := by
  apply round
  generalize counter - 1#w = left
  induction size : left.toNat using Nat.strongRecOn generalizing left with
  | ind size' inductionHypothesis =>
      intro nonzero
      apply round
      subst size
      exact inductionHypothesis _ (toNat_sub_one nonzero) _ rfl

end DigitalSystems.Arith
