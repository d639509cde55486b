import Mathlib.Data.Nat.Init

/-!
# Byte lanes

A word seen as lanes of `width` bits, lane 0 lowest, and writes that only reach the
enabled lanes.
-/

namespace DigitalSystems.Clocked

variable {lanes size : Nat} (width : Nat)

def lane (word : BitVec size) (k : Nat) : BitVec width :=
  word.extractLsb' (width * k) width

/-- The enabled lanes of `data`, the others of `old`. -/
def merge (enable : BitVec lanes) (data old : BitVec size) : BitVec size :=
  let bit (i : Fin size) (_ : Unit) : Unit × Bool :=
    ((), if enable.getLsbD (i / width) then data.getLsbD i else old.getLsbD i)
  (BitVec.iunfoldr bit ()).snd

theorem getLsbD_merge (enable : BitVec lanes) (data old : BitVec size) (i : Nat) :
    (merge width enable data old).getLsbD i =
      if enable.getLsbD (i / width) then data.getLsbD i else old.getLsbD i := by
  by_cases bound : i < size
  · exact BitVec.iunfoldr_getLsbD (fun _ => ()) ⟨i, bound⟩ fun _ => rfl
  · have above : size ≤ i := Nat.le_of_not_lt bound
    simp [BitVec.getLsbD_of_ge _ _ above]

/-- A write reaches exactly the enabled lanes. -/
@[simp]
theorem lane_merge (enable : BitVec lanes) (data old : BitVec size) (k : Nat) :
    lane width (merge width enable data old) k =
      if enable.getLsbD k then lane width data k else lane width old k := by
  apply BitVec.eq_of_getLsbD_eq
  intro i bound
  have index : (width * k + i) / width = k := by
    rw [Nat.mul_add_div (Nat.lt_of_le_of_lt (Nat.zero_le i) bound), Nat.div_eq_of_lt bound,
      Nat.add_zero]
  cases enabled : enable.getLsbD k <;>
    simp [lane, getLsbD_merge, index, enabled]

theorem eq_of_lanes (lanes : Nat) {word other : BitVec size} (positive : 0 < width)
    (covered : size ≤ width * lanes)
    (equal : ∀ k, k < lanes → lane width word k = lane width other k) : word = other := by
  apply BitVec.eq_of_getLsbD_eq
  intro i bound
  have inside : i / width < lanes :=
    Nat.div_lt_of_lt_mul (Nat.lt_of_lt_of_le bound covered)
  have bits := congrArg (fun word => word.getLsbD (i % width)) (equal (i / width) inside)
  simpa [lane, Nat.mod_lt i positive, Nat.div_add_mod] using bits

end DigitalSystems.Clocked
