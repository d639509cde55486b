import DigitalSystems.Slc3.Assembler
import DigitalSystems.Slc3.TestTop
import Mathlib.Data.Nat.Count

/-!
# Pauses

`PSE` waits in `PauseIR1` for `Continue` to be pressed and in `PauseIR2` for it to be
released.  The controller is in `PauseIR2` only if the last sample of `Continue` was
high, so every pause it leaves has cost a falling edge of its own.
-/

namespace DigitalSystems.Slc3

def Isdu.Paused (state : Isdu) : Prop := state = .pauseIR1 ∨ state = .pauseIR2

namespace Cpu

section Step

variable (input : Input) (cpu : Cpu)

/-- The only ways into `PauseIR2`. -/
theorem step_pauseIR2 (entered : (cpu.step input).state = .pauseIR2) :
    cpu.state.Paused ∧ input.continue_ = true ∧ input.reset = false := by
  cases reset : input.reset with
  | true =>
      rw [step_reset _ _ reset] at entered
      exact absurd entered nofun
  | false =>
      rw [step_eq_transfer _ _ reset] at entered
      obtain ⟨state, pc, mar, mdr, ir, registers, ⟨dout, flags⟩, hexData⟩ := cpu
      cases state
      case pauseIR1 =>
        cases pressed : input.continue_ with
        | false => simp [transfer, pressed] at entered
        | true => exact ⟨Or.inl rfl, rfl, rfl⟩
      case pauseIR2 =>
        cases pressed : input.continue_ with
        | false => simp [transfer, pressed] at entered
        | true => exact ⟨Or.inr rfl, rfl, rfl⟩
      case halted => cases pressed : input.run <;> simp [transfer, pressed] at entered
      case s32 =>
        revert entered
        simp only [transfer, Isdu.decode]
        split <;> exact nofun
      case s0 => cases dout <;> exact absurd entered nofun
      all_goals exact absurd entered nofun

/-- A pause is left for `S_18` by releasing `Continue`. -/
theorem step_of_pauseIR2 (paused : cpu.state = .pauseIR2)
    (left : (cpu.step input).state = .s18) : input.continue_ = false := by
  cases reset : input.reset with
  | true =>
      rw [step_reset _ _ reset] at left
      exact absurd left nofun
  | false =>
      rw [step_eq_transfer _ _ reset] at left
      rw [← Bool.not_eq_true]
      intro pressed
      simp [transfer, paused, pressed] at left

theorem transfer_of_paused (paused : cpu.state.Paused) :
    cpu.transfer input = { cpu with state := (cpu.transfer input).state } := by
  obtain ⟨state, pc, mar, mdr, ir, registers, ben, hexData⟩ := cpu
  rcases paused with phase | phase <;> cases phase <;> rfl

theorem led_of_paused (paused : cpu.state.Paused) :
    cpu.led = cpu.ir.extractLsb' 0 10 ∧ cpu.we = false := by
  unfold led we control
  rcases paused with phase | phase <;> rw [phase] <;> exact ⟨rfl, rfl⟩

end Step

section Run

variable (inputs : Nat → Input) (start : Cpu)

/-- A `PSE` completes in cycle `t`. -/
def PassesAt (t : Nat) : Prop :=
  (Clocked.run step inputs start t).state = .pauseIR2 ∧
    (Clocked.run step inputs start (t + 1)).state = .s18

instance : DecidablePred (PassesAt inputs start) := fun _ =>
  inferInstanceAs (Decidable (_ ∧ _))

/-- `Continue` is sampled low in cycle `t`, after a high sample. -/
def FallsAt (t : Nat) : Prop :=
  0 < t ∧ (inputs (t - 1)).continue_ = true ∧ (inputs t).continue_ = false

instance : DecidablePred (FallsAt inputs) := fun _ =>
  inferInstanceAs (Decidable (_ ∧ _ ∧ _))

/-- The machine is paused in the `m + 1` cycles from `t` on, and reset is low. -/
structure PausedFor (t m : Nat) : Prop where
  paused : ∀ u, u ≤ m → (Clocked.run step inputs start (t + u)).state.Paused
  running : ∀ u, u < m → (inputs (t + u)).reset = false

/-- What a pause leaves alone. -/
structure Unchanged (cpu later : Cpu) : Prop where
  pc : later.pc = cpu.pc
  ir : later.ir = cpu.ir
  register : later.register = cpu.register
  flags : later.ben.flags = cpu.ben.flags
  hexData : later.hexData = cpu.hexData

variable {inputs start}

theorem continue_of_pauseIR2 (halted : start.state = .halted) {t : Nat}
    (paused : (Clocked.run step inputs start t).state = .pauseIR2) :
    0 < t ∧ (inputs (t - 1)).continue_ = true := by
  cases t with
  | zero => exact absurd (halted.symm.trans paused) nofun
  | succ t => exact ⟨Nat.succ_pos t, (step_pauseIR2 _ _ paused).2.1⟩

theorem fallsAt_of_passesAt (halted : start.state = .halted) {t : Nat}
    (passes : PassesAt inputs start t) : FallsAt inputs t := by
  obtain ⟨begun, pressed⟩ := continue_of_pauseIR2 halted passes.1
  exact ⟨begun, pressed, step_of_pauseIR2 _ _ passes.1 passes.2⟩

theorem unchanged_of_pausedFor {t m : Nat} (pausedFor : PausedFor inputs start t m) :
    Unchanged (Clocked.run step inputs start t) (Clocked.run step inputs start (t + m)) := by
  obtain ⟨paused, running⟩ := pausedFor
  induction m with
  | zero => exact ⟨rfl, rfl, rfl, rfl, rfl⟩
  | succ m inductionHypothesis =>
      have before := inductionHypothesis (fun u bound => paused u (by omega))
        fun u bound => running u (by omega)
      rw [← Nat.add_assoc, Clocked.run_succ, step_eq_transfer _ _ (running m (by omega)),
        transfer_of_paused _ _ (paused m (by omega))]
      exact ⟨before.pc, before.ir, before.register, before.flags, before.hexData⟩

theorem memory_of_pausedFor {Content : Type} {memory : Nat → Content}
    (holds : ∀ t, (inputs t).reset = false →
      (Clocked.run step inputs start t).we = false → memory (t + 1) = memory t)
    {t m : Nat} (pausedFor : PausedFor inputs start t m) : memory (t + m) = memory t := by
  obtain ⟨paused, running⟩ := pausedFor
  induction m with
  | zero => rfl
  | succ m inductionHypothesis =>
      have silent := (led_of_paused _ (paused m (by omega))).2
      rw [← Nat.add_assoc, holds (t + m) (running m (by omega)) silent]
      exact inductionHypothesis (fun u bound => paused u (by omega))
        fun u bound => running u (by omega)

/-- One press of `Continue` passes at most one checkpoint, in every run from `Halted`,
whatever memory answers the reads; and a pause changes nothing.  `memory` is the content
of any memory that only changes by a write or a reset. -/
theorem one_press_one_checkpoint {Content : Type} (halted : start.state = .halted)
    (memory : Nat → Content)
    (holds : ∀ t, (inputs t).reset = false →
      (Clocked.run step inputs start t).we = false → memory (t + 1) = memory t) :
    (∀ t, PassesAt inputs start t → FallsAt inputs t) ∧
      (∀ n, Nat.count (PassesAt inputs start) n ≤ Nat.count (FallsAt inputs) n) ∧
      ∀ t m, PausedFor inputs start t m →
        (Clocked.run step inputs start (t + m)).led =
            (Clocked.run step inputs start t).ir.extractLsb' 0 10 ∧
          Unchanged (Clocked.run step inputs start t)
            (Clocked.run step inputs start (t + m)) ∧
          memory (t + m) = memory t := by
  refine ⟨fun t => fallsAt_of_passesAt halted, ?_, ?_⟩
  · intro n
    exact Nat.count_mono_left fun t _ => fallsAt_of_passesAt halted
  · intro t m pausedFor
    have unchanged := unchanged_of_pausedFor pausedFor
    refine ⟨?_, unchanged, memory_of_pausedFor holds pausedFor⟩
    rw [(led_of_paused _ (pausedFor.paused m le_rfl)).1, unchanged.ir]

end Run

end Cpu

namespace TestTop

/-- The content of `test_memory` only changes by a write or a reset. -/
theorem memArray_run_of_silent (image : BitVec 8 → Word) {inputs : Nat → Input}
    {start : State} {t : Nat} (running : (inputs t).reset = false)
    (silent : (Clocked.run (step image) inputs start t).cpu.we = false) :
    (Clocked.run (step image) inputs start (t + 1)).mem.memArray =
      (Clocked.run (step image) inputs start t).mem.memArray := by
  rw [Clocked.run_succ, step_eq_transfer image _ _ running]
  exact memArray_memTransfer _ silent

end TestTop

namespace Cpu

def checkpoints : BitVec 8 → Word := fun _ => Assembler.opPSE 0x801#12

def blinking (t : Nat) : TestTop.Input :=
  { TestTop.Input.quiet with run := t == 0, continue_ := t % 2 == 1 }

def haltedTop : TestTop.State where
  cpu := Cpu.blank .halted
  mem := { memArray := checkpoints, memOut := 0#16 }

def blinkingTop (t : Nat) : TestTop.State :=
  Clocked.run (TestTop.step checkpoints) blinking haltedTop t

def blinkingInputs (t : Nat) : Input := TestTop.cpuInput (blinking t) (blinkingTop t)

theorem one_press_one_checkpoint_blinking :
    (∀ t, PassesAt blinkingInputs haltedTop.cpu t → FallsAt blinkingInputs t) ∧
      (∀ n, Nat.count (PassesAt blinkingInputs haltedTop.cpu) n ≤
        Nat.count (FallsAt blinkingInputs) n) ∧
      ∀ t m, PausedFor blinkingInputs haltedTop.cpu t m →
        (Clocked.run step blinkingInputs haltedTop.cpu (t + m)).led =
            (Clocked.run step blinkingInputs haltedTop.cpu t).ir.extractLsb' 0 10 ∧
          Unchanged (Clocked.run step blinkingInputs haltedTop.cpu t)
            (Clocked.run step blinkingInputs haltedTop.cpu (t + m)) ∧
          (blinkingTop (t + m)).mem.memArray = (blinkingTop t).mem.memArray :=
  one_press_one_checkpoint rfl (fun t => (blinkingTop t).mem.memArray)
    fun t running silent =>
      TestTop.memArray_run_of_silent checkpoints running
        (by rw [TestTop.run_cpu]; exact silent)

end Cpu

end DigitalSystems.Slc3
