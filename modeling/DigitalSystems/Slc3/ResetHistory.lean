import DigitalSystems.Slc3.Assembler
import DigitalSystems.Slc3.Branches
import DigitalSystems.Slc3.ReadWindow

/-!
# What reset forgets

Reset clears every register of `slc3` but the condition codes.  Two machines that
have been reset differ in them until the first instruction that loads them, and the
difference shows only when that instruction is a branch.
-/

namespace DigitalSystems.Slc3

theorem Cpu.control_ben (cpu : Cpu) (ben : Ben) :
    ({ cpu with ben := ben } : Cpu).control = cpu.control := rfl

/-- `BEN` reaches the other registers in `S_0` only. -/
theorem Cpu.transfer_ben {input other : Input} (cpu : Cpu) (ben : Ben)
    (enable : cpu.state = .s0 → ben.dout = cpu.ben.dout)
    (run : input.run = other.run) (continue_ : input.continue_ = other.continue_)
    (data : cpu.state.requests = 3 → cpu.readData other = cpu.readData input) :
    ({ cpu with ben := ben } : Cpu).transfer other =
      { cpu.transfer input with
        ben := (({ cpu with ben := ben } : Cpu).transfer other).ben } := by
  obtain ⟨state, pc, mar, mdr, ir, registers, ben', hexData⟩ := cpu
  cases state
  case halted => simp only [transfer, run]
  case pauseIR1 | pauseIR2 => simp only [transfer, continue_]
  case s33_4 | s25_4 =>
    have word := data rfl
    simp only [readData] at word
    simp only [transfer, readData, word]
  case s0 =>
    have same := enable rfl
    dsimp only at same
    simp only [transfer, same]
  all_goals rfl

namespace TestTop

/-- The same pins in one cycle of two runs; the undefined read data may differ. -/
def SamePins (input other : Input) : Prop := other = { input with memX := other.memX }

structure Agree (s t : State) : Prop where
  state : t.cpu.state = s.cpu.state
  pc : t.cpu.pc = s.cpu.pc
  ir : t.cpu.ir = s.cpu.ir
  mar : t.cpu.mar = s.cpu.mar
  mdr : t.cpu.mdr = s.cpu.mdr
  register : t.cpu.register = s.cpu.register
  hexData : t.cpu.hexData = s.cpu.hexData
  led : t.cpu.led = s.cpu.led
  oe : t.cpu.oe = s.cpu.oe
  we : t.cpu.we = s.cpu.we
  memory : t.mem.memArray = s.mem.memArray

/-- Two machines that differ in `BEN` and in unused read data. -/
structure Twin (s t : State) : Prop where
  cpu : t.cpu = { s.cpu with ben := t.cpu.ben }
  memory : t.mem.memArray = s.mem.memArray
  latched : Latched s
  latched' : Latched t

namespace Twin

variable {s t : State}

theorem state (twin : Twin s t) : t.cpu.state = s.cpu.state := by
  rw [twin.cpu]

theorem ir (twin : Twin s t) : t.cpu.ir = s.cpu.ir := by
  rw [twin.cpu]

theorem control (twin : Twin s t) : t.cpu.control = s.cpu.control := by
  rw [twin.cpu, Cpu.control_ben]

theorem bus (twin : Twin s t) (x : Word) : t.cpu.bus x = s.cpu.bus x := by
  rw [twin.cpu]
  rfl

theorem agree (twin : Twin s t) : Agree s t := by
  constructor
  case memory => exact twin.memory
  all_goals
    rw [twin.cpu]
    try rfl

theorem cell (twin : Twin s t) : t.cell = s.cell := by
  rw [State.cell, State.cell, twin.memory, twin.cpu]

/-- The read data differ only while no read is finished. -/
theorem readData (twin : Twin s t) {input other : Input} (pins : SamePins input other)
    (window : s.cpu.state.requests = 3) :
    s.cpu.readData (cpuInput other t) = s.cpu.readData (cpuInput input s) := by
  have first : s.mem.memOut = s.cell := twin.latched (by omega)
  have second : t.mem.memOut = t.cell := twin.latched' (by rw [twin.state]; omega)
  have switches : other.sw = input.sw := by rw [pins]
  simp only [Cpu.readData, cpuInput, switches, first, second, twin.cell]

theorem memArray_transfer (twin : Twin s t) (input other : Input) :
    (memTransfer other t).memArray = (memTransfer input s).memArray := by
  have reads : t.cpu.oe = s.cpu.oe := by rw [Cpu.oe, twin.control, Cpu.oe]
  have writes : t.cpu.we = s.cpu.we := by rw [Cpu.we, twin.control, Cpu.we]
  have address : t.cpu.mar = s.cpu.mar := by rw [twin.cpu]
  have data : t.cpu.mdr = s.cpu.mdr := by rw [twin.cpu]
  simp only [memTransfer, reads, writes, address, data, twin.memory]
  cases s.cpu.oe <;> cases s.cpu.we <;> rfl

end Twin

/-- A branch that executes has `BEN` computed from the flags it finds. -/
def Enabled (state : State) : Prop :=
  state.cpu.state = .s0 → state.cpu.ben.dout = state.cpu.taken

theorem enabled_step (image : BitVec 8 → Word) (input : Input) (state : State) :
    Enabled (step image input state) := by
  intro branch
  change (state.cpu.step _).state = .s0 at branch
  change (state.cpu.step _).ben.dout = (state.cpu.step _).taken
  cases reset : input.reset with
  | true =>
      rw [Cpu.step_reset _ _ reset] at branch
      exact absurd branch nofun
  | false =>
      rw [Cpu.step_eq_transfer _ _ reset] at branch ⊢
      exact Cpu.enable_transfer _ _ branch

theorem twin_reset (image : BitVec 8 → Word) {input other : Input}
    (reset : input.reset = true) (reset' : other.reset = true) (s t : State) :
    Twin (step image input s) (step image other t) := by
  have cleared := Cpu.step_reset (cpuInput input s) s.cpu reset
  have cleared' := Cpu.step_reset (cpuInput other t) t.cpu reset'
  have halted : (step image input s).cpu.state = .halted := congrArg Cpu.state cleared
  have halted' : (step image other t).cpu.state = .halted := congrArg Cpu.state cleared'
  constructor
  case cpu =>
    change t.cpu.step (cpuInput other t) =
      { s.cpu.step (cpuInput input s) with ben := (t.cpu.step (cpuInput other t)).ben }
    rw [cleared, cleared']
    rfl
  case memory => simp [step, TestMemory.step, memPorts, reset, reset']
  case latched => exact latched_of_between (Or.inl halted)
  case latched' => exact latched_of_between (Or.inl halted')

/-- Twins with the same pins stay twins, except through a branch that one of them
takes and the other does not. -/
theorem twin_step (image : BitVec 8 → Word) {input other : Input}
    (pins : SamePins input other) {s t : State} (twin : Twin s t)
    (decide : input.reset = false → s.cpu.state = .s0 →
      t.cpu.ben.dout = s.cpu.ben.dout) :
    Twin (step image input s) (step image other t) := by
  have resetEq : other.reset = input.reset := by rw [pins]
  cases reset : input.reset with
  | true => exact twin_reset image reset (resetEq.trans reset) s t
  | false =>
      have reset' : other.reset = false := resetEq.trans reset
      rw [step_eq_transfer image _ _ reset, step_eq_transfer image _ _ reset']
      constructor
      case cpu =>
        change t.cpu.transfer (cpuInput other t) =
          { s.cpu.transfer (cpuInput input s) with
            ben := (t.cpu.transfer (cpuInput other t)).ben }
        rw [twin.cpu]
        apply Cpu.transfer_ben s.cpu t.cpu.ben (decide reset)
        · rw [pins]
          rfl
        · rw [pins]
          rfl
        · exact twin.readData pins
      case memory => exact twin.memArray_transfer input other
      case latched => exact latched_transfer input s
      case latched' => exact latched_transfer other t

theorem flags_step (image : BitVec 8 → Word) (input : Input) (state : State) :
    (step image input state).cpu.ben.flags =
      if state.cpu.control.ldCC then Flags.ofWord (state.cpu.bus input.busX)
      else state.cpu.ben.flags := rfl

section TwoRuns

variable {image : BitVec 8 → Word} {inputs inputs' : Nat → Input} {s t : State}

def FirstLoad (image : BitVec 8 → Word) (inputs : Nat → Input) (s : State) (k : Nat) :
    Prop :=
  (Clocked.run (step image) inputs s k).cpu.control.ldCC = true ∧
    ∀ j, j < k → (Clocked.run (step image) inputs s j).cpu.control.ldCC = false

/-- If the first instruction to load the flags is a branch in cycle `k`, then the
condition codes of `s` and `t` decide it alike. -/
def StaleFlagsAgree (image : BitVec 8 → Word) (inputs : Nat → Input) (s t : State)
    (k : Nat) : Prop :=
  FirstLoad image inputs s k → (inputs k).reset = false →
    (Clocked.run (step image) inputs s k).cpu.state = .s0 →
      (Isa.Selects (Clocked.run (step image) inputs s k).cpu.ir11to9 t.cpu.ben.flags ↔
        Isa.Selects (Clocked.run (step image) inputs s k).cpu.ir11to9 s.cpu.ben.flags)

theorem flags_before_load (k : Nat)
    (quiet : ∀ j, j < k → (Clocked.run (step image) inputs s j).cpu.control.ldCC = false) :
    (Clocked.run (step image) inputs s k).cpu.ben.flags = s.cpu.ben.flags := by
  induction k with
  | zero => rfl
  | succ k inductionHypothesis =>
      rw [Clocked.run_succ, flags_step, quiet k (Nat.lt_succ_self k)]
      exact inductionHypothesis fun j before => quiet j (Nat.lt_succ_of_lt before)

theorem run_enabled (enabled : Enabled s) (k : Nat) :
    Enabled (Clocked.run (step image) inputs s k) := by
  cases k with
  | zero => exact enabled
  | succ k => exact enabled_step image _ _

theorem branch_target {input : Input} {state : State} (reset : input.reset = false)
    (branch : state.cpu.state = .s0) :
    (step image input state).cpu.state = if state.cpu.ben.dout then .s22 else .s18 := by
  rw [step_eq_transfer image _ _ reset]
  simp [transfer, Cpu.transfer, branch]

theorem dout_eq_iff {s t : State} (twin : Twin s t) (enabled : Enabled s)
    (enabled' : Enabled t) (branch : s.cpu.state = .s0) :
    t.cpu.ben.dout = s.cpu.ben.dout ↔
      (Isa.Selects s.cpu.ir11to9 t.cpu.ben.flags ↔
        Isa.Selects s.cpu.ir11to9 s.cpu.ben.flags) := by
  have field : t.cpu.ir11to9 = s.cpu.ir11to9 := by
    rw [Cpu.ir11to9, twin.ir, Cpu.ir11to9]
  rw [enabled branch, enabled' (twin.state.trans branch), Cpu.taken, Cpu.taken, field,
    Bool.eq_iff_iff, Isa.selected_eq_true_iff, Isa.selected_eq_true_iff]

theorem twin_run (pins : ∀ k, SamePins (inputs k) (inputs' k)) (twin : Twin s t)
    (enabled : Enabled s) (enabled' : Enabled t)
    (n : Nat) (stale : ∀ k, k < n → StaleFlagsAgree image inputs s t k) :
    Twin (Clocked.run (step image) inputs s n) (Clocked.run (step image) inputs' t n) ∧
      ((Clocked.run (step image) inputs' t n).cpu.ben.flags =
          (Clocked.run (step image) inputs s n).cpu.ben.flags ∨
        ∀ j, j < n →
          (Clocked.run (step image) inputs s j).cpu.control.ldCC = false ∧
            (Clocked.run (step image) inputs' t j).cpu.control.ldCC = false) := by
  induction n with
  | zero => exact ⟨twin, Or.inr fun j before => absurd before (Nat.not_lt_zero j)⟩
  | succ n inductionHypothesis =>
      rcases inductionHypothesis fun k before => stale k (Nat.lt_succ_of_lt before) with
        ⟨twins, flags⟩
      rw [Clocked.run_succ, Clocked.run_succ]
      constructor
      · apply twin_step image (pins n) twins
        intro reset branch
        rw [dout_eq_iff twins (run_enabled enabled n) (run_enabled enabled' n) branch]
        rcases flags with same | quiet
        · rw [same]
        · rw [flags_before_load n fun j before => (quiet j before).1,
            flags_before_load n fun j before => (quiet j before).2]
          apply stale n (Nat.lt_succ_self n) ⟨?_, fun j before => (quiet j before).1⟩ reset
            branch
          rw [Cpu.control, branch]
          rfl
      · rw [flags_step, flags_step, twins.control]
        cases loads : (Clocked.run (step image) inputs s n).cpu.control.ldCC with
        | true =>
            have undriven : (inputs' n).busX = (inputs n).busX := by rw [pins n]
            rw [twins.bus, undriven]
            exact Or.inl rfl
        | false =>
            rcases flags with same | quiet
            · exact Or.inl same
            · refine Or.inr fun j bound => ?_
              rcases Nat.lt_succ_iff_lt_or_eq.mp bound with inside | rfl
              · exact quiet j inside
              · exact ⟨loads, by rw [twins.control, loads]⟩

end TwoRuns

/-- After reset, two machines of any history agree in every later cycle if and only
if their old condition codes decide alike a branch that comes before any other
instruction that loads the flags. -/
theorem reset_erases_iff_staleFlagsAgree (image : BitVec 8 → Word) {first first' : Input}
    (reset : first.reset = true) (reset' : first'.reset = true)
    (inputs inputs' : Nat → Input) (pins : ∀ k, SamePins (inputs k) (inputs' k))
    (s t : State) :
    (∀ n, Agree (Clocked.run (step image) inputs (step image first s) n)
        (Clocked.run (step image) inputs' (step image first' t) n)) ↔
      ∀ k, StaleFlagsAgree image inputs (step image first s) (step image first' t) k := by
  have twin := twin_reset image reset reset' s t
  have enabled := enabled_step image first s
  have enabled' := enabled_step image first' t
  generalize step image first s = s at *
  generalize step image first' t = t at *
  constructor
  · intro agree k load low branch
    have before : ∀ j, j < k → StaleFlagsAgree image inputs s t j := by
      intro j earlier first
      have quiet := load.2 j earlier
      rw [first.1] at quiet
      exact absurd quiet nofun
    have twins := (twin_run pins twin enabled enabled' k before).1
    have quiet' : ∀ j, j < k →
        (Clocked.run (step image) inputs' t j).cpu.control.ldCC = false := by
      intro j earlier
      rw [(twin_run pins twin enabled enabled' j fun i inside =>
        before i (Nat.lt_trans inside earlier)).1.control]
      exact load.2 j earlier
    have targets := (agree (k + 1)).state
    have low' : (inputs' k).reset = false := by
      rw [pins k]
      exact low
    rw [Clocked.run_succ, Clocked.run_succ, branch_target low branch,
      branch_target low' (twins.state.trans branch)] at targets
    rw [← flags_before_load k load.2, ← flags_before_load k quiet',
      ← dout_eq_iff twins (run_enabled enabled k) (run_enabled enabled' k) branch]
    generalize (Clocked.run (step image) inputs s k).cpu.ben.dout = enable at targets ⊢
    generalize (Clocked.run (step image) inputs' t k).cpu.ben.dout = enable' at targets ⊢
    cases enable <;> cases enable' <;> first | rfl | exact absurd targets nofun
  · intro stale n
    exact (twin_run pins twin enabled enabled' n fun k _ => stale k).1.agree

def branchFirst : BitVec 8 → Word := fun _ => Assembler.opBR Assembler.n 1

def haltedWith (flags : Flags) : State where
  cpu := { Cpu.blank .halted with ben := { dout := false, flags := flags } }
  mem := { memArray := branchFirst, memOut := 0#16 }

def negative : State := haltedWith { n := true, z := false, p := false }

def positive : State := haltedWith { n := false, z := false, p := true }

def bothPressed : Input :=
  { sw := 0#10, runS := false, continueS := false, busX := 0#16, memX := 0#16 : Pins }.input

def runPressed : Input :=
  { sw := 0#10, runS := false, continueS := true, busX := 0#16, memX := 0#16 : Pins }.input

/-- After a reset the branch is taken in one machine and not in the other. -/
theorem branchFirst_remembers :
    bothPressed.reset = true ∧ runPressed.reset = false ∧
      ¬ ∀ n, Agree
        (Clocked.run (step branchFirst) (fun _ => runPressed)
          (step branchFirst bothPressed negative) n)
        (Clocked.run (step branchFirst) (fun _ => runPressed)
          (step branchFirst bothPressed positive) n) := by
  refine ⟨rfl, rfl, fun agree => ?_⟩
  have targets := (agree 9).state
  exact absurd targets (by decide +kernel)

theorem reset_erases_iff_staleFlagsAgree_branchFirst :
    (∀ n, Agree
        (Clocked.run (step branchFirst) (fun _ => runPressed)
          (step branchFirst bothPressed negative) n)
        (Clocked.run (step branchFirst) (fun _ => runPressed)
          (step branchFirst bothPressed positive) n)) ↔
      ∀ k, StaleFlagsAgree branchFirst (fun _ => runPressed)
        (step branchFirst bothPressed negative) (step branchFirst bothPressed positive) k :=
  reset_erases_iff_staleFlagsAgree branchFirst rfl rfl (fun _ => runPressed)
    (fun _ => runPressed) (fun _ => rfl) negative positive

end TestTop

end DigitalSystems.Slc3
