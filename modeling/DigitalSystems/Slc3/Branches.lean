import DigitalSystems.Clocked.Latest
import DigitalSystems.Slc3.Assembler
import DigitalSystems.Slc3.TestTop
import DigitalSystems.Slc3.Isa
import Mathlib.Data.Nat.Init

/-!
# Branch decisions

Runs of `slc3` on arbitrary read data, so with any memory behind it.  A branch
tests the flags, and the flags hold the sign class of the last word a load of
`LD_CC` found on the bus: a result, or the undriven bus of an earlier branch.
-/

namespace DigitalSystems.Slc3

namespace Isdu

/-- The states in which an `ADD`, `AND`, `NOT` or `LDR` writes its result. -/
def Result (state : Isdu) : Prop := state = s1 ∨ state = s5 ∨ state = s9 ∨ state = s27

instance : DecidablePred Result := fun state =>
  inferInstanceAs (Decidable (state = s1 ∨ state = s5 ∨ state = s9 ∨ state = s27))

end Isdu

namespace Cpu

section Step

variable (input : Input) (cpu : Cpu)

theorem flags_transfer_of_result (writes : cpu.state.Result) :
    (cpu.transfer input).ben.flags =
      Flags.ofWord ((cpu.transfer input).register cpu.ir11to9) := by
  obtain ⟨state, pc, mar, mdr, ir, registers, ben, hexData⟩ := cpu
  rcases writes with phase | phase | phase | phase <;> cases phase <;>
    simp [transfer, writeResult, ir11to9]

theorem flags_transfer_of_branch (branches : cpu.state = .s0) :
    (cpu.transfer input).ben.flags = Flags.ofWord input.x := by
  simp only [transfer, branches]

theorem flags_transfer_of_other (silent : ¬ cpu.state.Result)
    (noBranch : cpu.state ≠ .s0) :
    (cpu.transfer input).ben.flags = cpu.ben.flags := by
  obtain ⟨state, pc, mar, mdr, ir, registers, ben, hexData⟩ := cpu
  cases state <;> simp_all [transfer, Isdu.Result]

/-- `S_0` is only entered from decode, which has just computed `BEN`. -/
theorem enable_transfer (branches : (cpu.transfer input).state = .s0) :
    (cpu.transfer input).ben.dout = (cpu.transfer input).taken := by
  obtain ⟨state, pc, mar, mdr, ir, registers, ⟨dout, flags⟩, hexData⟩ := cpu
  cases state
  case s32 => rfl
  case halted => cases pressed : input.run <;> simp [transfer, pressed] at branches
  case pauseIR1 => cases pressed : input.continue_ <;> simp [transfer, pressed] at branches
  case pauseIR2 => cases pressed : input.continue_ <;> simp [transfer, pressed] at branches
  case s0 => cases dout <;> exact absurd branches nofun
  all_goals exact absurd branches nofun

end Step

variable {inputs : Nat → Input} {start : Cpu}

theorem run_succ_transfer (running : ∀ t, (inputs t).reset = false) (t : Nat) :
    Clocked.run step inputs start (t + 1) =
      (Clocked.run step inputs start t).transfer (inputs t) := by
  rw [Clocked.run_succ, step_eq_transfer _ _ (running t)]

def ResultAt (inputs : Nat → Input) (start : Cpu) (t : Nat) : Prop :=
  (Clocked.run step inputs start t).state.Result

instance (inputs : Nat → Input) (start : Cpu) : DecidablePred (ResultAt inputs start) :=
  fun t => inferInstanceAs (Decidable (Clocked.run step inputs start t).state.Result)

def BranchAt (inputs : Nat → Input) (start : Cpu) (t : Nat) : Prop :=
  (Clocked.run step inputs start t).state = .s0

instance (inputs : Nat → Input) (start : Cpu) : DecidablePred (BranchAt inputs start) :=
  fun t => inferInstanceAs (Decidable ((Clocked.run step inputs start t).state = .s0))

/-- The word the instruction completing in cycle `t` writes to its register. -/
def resultOf (inputs : Nat → Input) (start : Cpu) (t : Nat) : Word :=
  (Clocked.run step inputs start (t + 1)).register
    (Clocked.run step inputs start t).ir11to9

def SelectsAt (inputs : Nat → Input) (start : Cpu) (t : Nat) (word : Word) : Prop :=
  Isa.Selects (Clocked.run step inputs start t).ir11to9 (Isa.signClass word)

instance (inputs : Nat → Input) (start : Cpu) (t : Nat) (word : Word) :
    Decidable (SelectsAt inputs start t word) :=
  inferInstanceAs (Decidable (Isa.Selects _ _))

def TakenAt (inputs : Nat → Input) (start : Cpu) (t : Nat) : Prop :=
  (Clocked.run step inputs start (t + 1)).state = .s22

instance (inputs : Nat → Input) (start : Cpu) (t : Nat) :
    Decidable (TakenAt inputs start t) :=
  inferInstanceAs (Decidable (_ = _))

theorem flags_hold (running : ∀ t, (inputs t).reset = false) {first last : Nat}
    (order : first ≤ last)
    (quiet : ∀ t, first ≤ t → t < last →
      ¬ ResultAt inputs start t ∧ ¬ BranchAt inputs start t) :
    (Clocked.run step inputs start last).ben.flags =
      (Clocked.run step inputs start first).ben.flags := by
  induction last, order using Nat.le_induction with
  | base => rfl
  | succ last order inductionHypothesis =>
      have silent := quiet last order (Nat.lt_succ_self last)
      rw [run_succ_transfer running, flags_transfer_of_other _ _ silent.1 silent.2]
      exact inductionHypothesis fun t begun bound =>
        quiet t begun (Nat.lt_succ_of_lt bound)

theorem flags_after_result (running : ∀ t, (inputs t).reset = false) {t : Nat}
    (result : ResultAt inputs start t) :
    (Clocked.run step inputs start (t + 1)).ben.flags =
      Isa.signClass (resultOf inputs start t) := by
  rw [← Isa.ofWord_eq_signClass, resultOf, run_succ_transfer running]
  exact flags_transfer_of_result _ _ result

theorem flags_after_branch (running : ∀ t, (inputs t).reset = false) {t : Nat}
    (branch : BranchAt inputs start t) :
    (Clocked.run step inputs start (t + 1)).ben.flags =
      Isa.signClass (inputs t).x := by
  rw [← Isa.ofWord_eq_signClass, run_succ_transfer running]
  exact flags_transfer_of_branch _ _ branch

theorem takenAt_iff (running : ∀ t, (inputs t).reset = false) {t : Nat}
    (begun : 0 < t) (branch : BranchAt inputs start t) :
    TakenAt inputs start t ↔
      Isa.Selects (Clocked.run step inputs start t).ir11to9
        (Clocked.run step inputs start t).ben.flags := by
  obtain ⟨t, rfl⟩ := Nat.exists_eq_succ_of_ne_zero (Nat.ne_of_gt begun)
  have enable : (Clocked.run step inputs start (t + 1)).ben.dout =
      (Clocked.run step inputs start (t + 1)).taken := by
    have entered := branch
    rw [BranchAt, run_succ_transfer running] at entered
    rw [run_succ_transfer running]
    exact enable_transfer _ _ entered
  rw [← Isa.selected_eq_true_iff, ← taken, ← enable, TakenAt, run_succ_transfer running]
  unfold BranchAt at branch
  cases dout : (Clocked.run step inputs start (t + 1)).ben.dout <;>
    simp [transfer, branch, dout]

/-- The branch in cycle `t` decides on the last result, written in cycle `r`, if
and only if no branch ran in between, or the word that the last one of them found
on the undriven bus is, for this branch, of the same sign class as the result. -/
theorem branch_follows_result_iff (running : ∀ t, (inputs t).reset = false) {r t : Nat}
    (latest : Clocked.IsLatest (ResultAt inputs start) t r)
    (branch : BranchAt inputs start t) :
    (TakenAt inputs start t ↔ SelectsAt inputs start t (resultOf inputs start r)) ↔
      ∀ b, r < b → Clocked.IsLatest (BranchAt inputs start) t b →
        (SelectsAt inputs start t (inputs b).x ↔
          SelectsAt inputs start t (resultOf inputs start r)) := by
  obtain ⟨before, result, noResult⟩ := latest
  have tested := takenAt_iff running (by omega) branch
  rcases Clocked.isLatest_or_quiet (BranchAt inputs start) (r + 1) t with
    ⟨b, after, last⟩ | noBranch
  · have held : (Clocked.run step inputs start t).ben.flags =
        (Clocked.run step inputs start (b + 1)).ben.flags := by
      apply flags_hold running last.1
      intro k begun bound
      exact ⟨noResult k (by omega) bound, last.2.2 k begun bound⟩
    rw [held, flags_after_branch running last.2.1] at tested
    constructor
    · intro follows b' _ last'
      obtain rfl := last.unique last'
      exact tested.symm.trans follows
    · intro undisturbed
      exact tested.trans (undisturbed b after last)
  · have held : (Clocked.run step inputs start t).ben.flags =
        (Clocked.run step inputs start (r + 1)).ben.flags := by
      apply flags_hold running before
      intro k begun bound
      exact ⟨noResult k begun bound, noBranch k begun bound⟩
    rw [held, flags_after_result running result] at tested
    constructor
    · intro _ b after last
      exact absurd last.2.1 (noBranch b after last.1)
    · intro _
      exact tested

def twoBranches : BitVec 8 → Word
  | 0#8 => Assembler.opADDi Assembler.r0 Assembler.r0 0
  | 1#8 => Assembler.opBR Assembler.n 0
  | _ => Assembler.opBR Assembler.z 1

def twoBranchesInputs (t : Nat) : Input :=
  TestTop.cpuInput { TestTop.Input.quiet with busX := 1#16 }
    (Clocked.run (TestTop.step twoBranches)
      (fun _ => { TestTop.Input.quiet with busX := 1#16 }) (.loaded twoBranches) t)

/-- The branch on zero in cycle 23 is not taken, although the last result, written
in cycle 7, is zero. -/
theorem twoBranches_second_not_taken :
    Clocked.IsLatest (ResultAt twoBranchesInputs (.blank .s18)) 23 7 ∧
      BranchAt twoBranchesInputs (.blank .s18) 23 ∧
      ¬ (TakenAt twoBranchesInputs (.blank .s18) 23 ↔
        SelectsAt twoBranchesInputs (.blank .s18) 23
          (resultOf twoBranchesInputs (.blank .s18) 7)) := by
  refine ⟨?_, ?_, ?_⟩ <;> decide +kernel

theorem branch_follows_result_iff_twoBranches :
    (TakenAt twoBranchesInputs (.blank .s18) 23 ↔
        SelectsAt twoBranchesInputs (.blank .s18) 23
          (resultOf twoBranchesInputs (.blank .s18) 7)) ↔
      ∀ b, 7 < b → Clocked.IsLatest (BranchAt twoBranchesInputs (.blank .s18)) 23 b →
        (SelectsAt twoBranchesInputs (.blank .s18) 23 (twoBranchesInputs b).x ↔
          SelectsAt twoBranchesInputs (.blank .s18) 23
            (resultOf twoBranchesInputs (.blank .s18) 7)) :=
  branch_follows_result_iff (fun _ => rfl) (by decide +kernel) (by decide +kernel)

end Cpu

end DigitalSystems.Slc3
