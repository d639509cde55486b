import DigitalSystems.Slc3.Assembler
import DigitalSystems.Slc3.Execute

/-!
# The machine refines the instruction set

Seven cycles of fetch and decode followed by the states of the fetched
instruction have exactly the effect of one reference step.
-/

namespace DigitalSystems.Slc3.TestTop

/-- What the environment shows during the instruction that starts in cycle 0. -/
def env (inputs : Nat → Input) : Isa.Env where
  fetchSwitches := (inputs 4).sw
  loadSwitches := (inputs 11).sw
  undriven := (inputs 7).busX

/-- The fields of a decoded instruction are the slices the datapath selects. -/
def Slices (word : Word) : Isa.Instr → Prop
  | .add dr sr1 operand2 =>
      dr = word.extractLsb' 9 3 ∧ sr1 = word.extractLsb' 6 3 ∧
        operand2 = Isa.decodeOperand word
  | .and dr sr1 operand2 =>
      dr = word.extractLsb' 9 3 ∧ sr1 = word.extractLsb' 6 3 ∧
        operand2 = Isa.decodeOperand word
  | .not dr sr => dr = word.extractLsb' 9 3 ∧ sr = word.extractLsb' 6 3
  | .ldr dr baseR offset6 =>
      dr = word.extractLsb' 9 3 ∧ baseR = word.extractLsb' 6 3 ∧
        offset6 = word.extractLsb' 0 6
  | .str sr baseR offset6 =>
      sr = word.extractLsb' 9 3 ∧ baseR = word.extractLsb' 6 3 ∧
        offset6 = word.extractLsb' 0 6
  | .jsr pcOffset11 => pcOffset11 = word.extractLsb' 0 11
  | .jmp baseR => baseR = word.extractLsb' 6 3
  | .br nzp pcOffset9 => nzp = word.extractLsb' 9 3 ∧ pcOffset9 = word.extractLsb' 0 9
  | .pse _ => True
  | .unassigned => True

theorem slices_decode (word : Word) : Slices word (Isa.decode word) := by
  unfold Isa.decode
  split <;> simp [Slices]

theorem completes_decoded (inputs : Nat → Input) (start : State) (word : Word)
    {cycles : Nat}
    (lasts : Isa.ExecLasts start.arch.flags (fun t => (inputs (7 + t)).continue_) cycles
      (Isa.decode word)) :
    Completes (fun t => inputs (7 + t)) (decoded inputs start word) cycles
      ({ start.arch with pc := start.arch.pc + 1#16 }.exec (env inputs)
        (Isa.decode word)) := by
  have entered : (decoded inputs start word).cpu.state = execState (Isa.decode word) :=
    decode_eq_execState word
  have fields := slices_decode word
  cases instr : Isa.decode word with
  | add dr sr1 operand2 =>
      rw [instr] at entered fields lasts
      obtain ⟨rfl, rfl, rfl⟩ := fields
      subst lasts
      rw [Isa.Arch.exec, operand_decodeOperand]
      exact completes_add _ _ entered
  | and dr sr1 operand2 =>
      rw [instr] at entered fields lasts
      obtain ⟨rfl, rfl, rfl⟩ := fields
      subst lasts
      rw [Isa.Arch.exec, operand_decodeOperand]
      exact completes_and _ _ entered
  | not dr sr =>
      rw [instr] at entered fields lasts
      obtain ⟨rfl, rfl⟩ := fields
      subst lasts
      exact completes_not _ _ entered
  | ldr dr baseR offset6 =>
      rw [instr] at entered fields lasts
      obtain ⟨rfl, rfl, rfl⟩ := fields
      subst lasts
      exact completes_ldr _ _ entered
  | str sr baseR offset6 =>
      rw [instr] at entered fields lasts
      obtain ⟨rfl, rfl, rfl⟩ := fields
      subst lasts
      exact completes_str _ _ entered
  | jsr pcOffset11 =>
      rw [instr] at entered fields lasts
      subst fields
      subst lasts
      exact completes_jsr _ _ entered
  | jmp baseR =>
      rw [instr] at entered fields lasts
      subst fields
      subst lasts
      exact completes_jmp _ _ entered
  | br nzp pcOffset9 =>
      rw [instr] at entered fields lasts
      obtain ⟨rfl, rfl⟩ := fields
      subst lasts
      have branch := completes_br (fun t => inputs (7 + t)) _ entered
      have enable : (decoded inputs start word).cpu.ben.dout = true ↔
          Isa.Selects (word.extractLsb' 9 3) start.arch.flags :=
        Isa.selected_eq_true_iff _ _
      simp only [enable, Isa.ofWord_eq_signClass] at branch
      exact branch
  | pse ledVect12 =>
      rw [instr] at entered lasts
      exact completes_pse entered lasts
  | unassigned =>
      rw [instr] at entered lasts
      subst lasts
      exact completes_unassigned _ _ entered

theorem busy_fetch (inputs : Nat → Input) (start : State)
    (fetching : start.cpu.state = .s18) (t : Nat) (begun : 0 < t) (bound : t < 7) :
    (Clocked.run transfer inputs start t).cpu.state ≠ .s18 := by
  obtain ⟨⟨phase, pc, mar, mdr, ir, registers, ben, hexData⟩, mem⟩ := start
  subst fetching
  interval_cases t <;> exact nofun

/-- One instruction, from fetch to fetch. -/
theorem completes_instruction (inputs : Nat → Input) (start : State)
    (fetching : start.cpu.state = .s18) {cycles : Nat}
    (lasts : Isa.ExecLasts start.arch.flags (fun t => (inputs (7 + t)).continue_) cycles
      (Isa.decode (start.arch.fetched (env inputs)))) :
    (Clocked.run transfer inputs start (7 + cycles)).cpu.state = .s18 ∧
      (Clocked.run transfer inputs start (7 + cycles)).arch = start.arch.step (env inputs) ∧
      ∀ t, 0 < t → t < 7 + cycles →
        (Clocked.run transfer inputs start t).cpu.state ≠ .s18 := by
  have execution := completes_decoded inputs start _ lasts
  have fetch : Clocked.run transfer inputs start 7 =
      decoded inputs start (start.arch.fetched (env inputs)) :=
    run_fetch inputs start fetching
  refine ⟨?_, ?_, ?_⟩
  · rw [Clocked.run_add, fetch]
    exact execution.fetching
  · rw [Clocked.run_add, fetch]
    exact execution.effect
  · intro t begun bound
    rcases Nat.lt_or_ge t 7 with early | late
    · exact busy_fetch inputs start fetching t begun early
    · obtain ⟨rest, rfl⟩ := Nat.exists_eq_add_of_le late
      rw [Clocked.run_add, fetch]
      exact execution.busy rest (by omega)

/-- Instruction-set refinement.  From `S_18`, for every memory, register content,
switches, buttons and undriven-bus values, the machine is back in `S_18` after
seven cycles plus those of the fetched instruction, no earlier, and the
programmer's view has made one reference step. -/
theorem slc3_refines_isa (image : BitVec 8 → Word) (inputs : Nat → Input)
    (running : ∀ t, (inputs t).reset = false) (start : State)
    (fetching : start.cpu.state = .s18) (cycles : Nat)
    (lasts : Isa.ExecLasts start.arch.flags (fun t => (inputs (7 + t)).continue_) cycles
      (Isa.decode (start.arch.fetched (env inputs)))) :
    (Clocked.run (step image) inputs start (7 + cycles)).cpu.state = .s18 ∧
      (Clocked.run (step image) inputs start (7 + cycles)).arch =
        start.arch.step (env inputs) ∧
      ∀ t, 0 < t → t < 7 + cycles →
        (Clocked.run (step image) inputs start t).cpu.state ≠ .s18 := by
  simp only [run_eq_transfer image inputs running]
  exact completes_instruction inputs start fetching lasts

def decrement : BitVec 8 → Word := fun _ => Assembler.opDEC Assembler.r1

theorem slc3_refines_isa_decrement :
    let last := Clocked.run (step decrement) (fun _ => .quiet) (.loaded decrement) 8
    last.cpu.state = .s18 ∧
      last.arch = (State.loaded decrement).arch.step (env fun _ => .quiet) ∧
      ∀ t, 0 < t → t < 8 →
        (Clocked.run (step decrement) (fun _ => .quiet) (.loaded decrement) t).cpu.state ≠
          .s18 :=
  slc3_refines_isa decrement (fun _ => .quiet) (fun _ => rfl) (.loaded decrement) rfl 1 rfl

end DigitalSystems.Slc3.TestTop
