import DigitalSystems.Slc3.TestTop
import DigitalSystems.Slc3.Isa
import Mathlib.Tactic.IntervalCases

/-!
# Symbolic execution of one instruction

Runs without reset of the processor with `test_memory`, from `S_18` back to
`S_18`: seven cycles of fetch and decode, then the states of the instruction.
-/

namespace DigitalSystems.Slc3.TestTop

def State.arch (state : State) : Isa.Arch where
  pc := state.cpu.pc
  register := state.cpu.register
  flags := state.cpu.ben.flags
  memory := state.mem.memArray
  hexData := state.cpu.hexData

/-- The machine in its eighth cycle, the fetched word decoded. -/
def decoded (inputs : Nat → Input) (start : State) (word : Word) : State where
  cpu :=
    { start.cpu with
      state := Isdu.decode (word.extractLsb' 12 4)
      pc := start.cpu.pc + 1#16
      mar := start.cpu.pc
      mdr := word
      ir := word
      ben :=
        { start.cpu.ben with dout := start.cpu.ben.flags.selected (word.extractLsb' 9 3) } }
  mem := { start.mem with memOut := (inputs 6).memX }

theorem run_fetch (inputs : Nat → Input) (start : State)
    (fetching : start.cpu.state = .s18) :
    Clocked.run transfer inputs start 7 =
      decoded inputs start (start.arch.read (inputs 4).sw start.cpu.pc) := by
  obtain ⟨⟨state, pc, mar, mdr, ir, registers, ben, hexData⟩, mem⟩ := start
  subst fetching
  rfl

def execState : Isa.Instr → Isdu
  | .add .. => .s1
  | .and .. => .s5
  | .not .. => .s9
  | .ldr .. => .s6
  | .str .. => .s7
  | .jsr .. => .s4
  | .jmp .. => .s12
  | .br .. => .s0
  | .pse .. => .pauseIR1
  | .unassigned => .s18

theorem decode_eq_execState (word : Word) :
    Isdu.decode (word.extractLsb' 12 4) = execState (Isa.decode word) := by
  unfold Isa.decode
  generalize word.extractLsb' 12 4 = opcode
  split
  case h_10 =>
    unfold Isdu.decode
    split <;> first | rfl | simp_all
  all_goals rfl

theorem operand_decodeOperand (arch : Isa.Arch) (word : Word) :
    arch.operand (Isa.decodeOperand word) =
      sr2Mux (word.getLsbD 5) (arch.register (word.extractLsb' 0 3))
        ((word.extractLsb' 0 5).signExtend 16) := by
  unfold Isa.decodeOperand
  cases word.getLsbD 5 <;> rfl

/-- From `state` the machine is busy for exactly `cycles` cycles and then stands in
`S_18` with the programmer's view `arch`. -/
structure Completes (inputs : Nat → Input) (state : State) (cycles : Nat)
    (arch : Isa.Arch) : Prop where
  fetching : (Clocked.run transfer inputs state cycles).cpu.state = .s18
  effect : (Clocked.run transfer inputs state cycles).arch = arch
  busy : ∀ t, t < cycles → (Clocked.run transfer inputs state t).cpu.state ≠ .s18

section Instructions

variable (inputs : Nat → Input) (state : State)

theorem completes_unassigned (entered : state.cpu.state = .s18) :
    Completes inputs state 0 state.arch :=
  ⟨entered, rfl, fun t bound => absurd bound (Nat.not_lt_zero t)⟩

/-- An instruction that only writes a result is over after one cycle. -/
theorem completes_result {value : Word} (entered : state.cpu.state ≠ .s18)
    (silent : state.cpu.we = false)
    (edge : state.cpu.transfer (cpuInput (inputs 0) state) =
      { state.cpu.writeResult value with state := .s18 }) :
    Completes inputs state 1 (state.arch.result state.cpu.ir11to9 value) := by
  have last : (Clocked.run transfer inputs state 1).cpu =
      { state.cpu.writeResult value with state := .s18 } := edge
  have memory : (Clocked.run transfer inputs state 1).mem.memArray = state.mem.memArray :=
    memArray_memTransfer (inputs 0) silent
  refine ⟨?_, ?_, ?_⟩
  · rw [last]
  · rw [Isa.Arch.result, ← Isa.ofWord_eq_signClass]
    simp only [State.arch, last, memory]
    rfl
  · intro t bound
    obtain rfl : t = 0 := Nat.lt_one_iff.mp bound
    exact entered

theorem completes_add (entered : state.cpu.state = .s1) :
    Completes inputs state 1
      (state.arch.result state.cpu.ir11to9 (state.cpu.base + state.cpu.operand2)) := by
  apply completes_result
  · simp [entered]
  · simp [Cpu.we, Cpu.control, entered, Isdu.control]
  · simp [Cpu.transfer, entered]

theorem completes_and (entered : state.cpu.state = .s5) :
    Completes inputs state 1
      (state.arch.result state.cpu.ir11to9 (state.cpu.base &&& state.cpu.operand2)) := by
  apply completes_result
  · simp [entered]
  · simp [Cpu.we, Cpu.control, entered, Isdu.control]
  · simp [Cpu.transfer, entered]

theorem completes_not (entered : state.cpu.state = .s9) :
    Completes inputs state 1
      (state.arch.result state.cpu.ir11to9 (~~~state.cpu.base)) := by
  apply completes_result
  · simp [entered]
  · simp [Cpu.we, Cpu.control, entered, Isdu.control]
  · simp [Cpu.transfer, entered]

/-- The word loaded is the one `test_memory` returns for the third read request,
or the switches of the fifth cycle. -/
theorem completes_ldr (entered : state.cpu.state = .s6) :
    Completes inputs state 6
      (state.arch.result state.cpu.ir11to9
        (state.arch.read (inputs 4).sw (state.cpu.base + state.cpu.irSext6))) := by
  obtain ⟨⟨phase, pc, mar, mdr, ir, registers, ben, hexData⟩, mem⟩ := state
  subst entered
  refine ⟨rfl, ?_, ?_⟩
  · rw [Isa.Arch.result, ← Isa.ofWord_eq_signClass]
    rfl
  · intro t bound
    interval_cases t <;> exact nofun

/-- The write enable is on for four cycles, which store the same word. -/
theorem completes_str (entered : state.cpu.state = .s7) :
    Completes inputs state 6
      (state.arch.write (state.cpu.base + state.cpu.irSext6) state.cpu.dest) := by
  obtain ⟨⟨phase, pc, mar, mdr, ir, registers, ben, hexData⟩, mem⟩ := state
  subst entered
  refine ⟨rfl, ?_, ?_⟩
  · let address := registers (ir.extractLsb' 6 3) + (ir.extractLsb' 0 6).signExtend 16
    let value := registers (ir.extractLsb' 9 3)
    apply Isa.Arch.ext
    case memory =>
      let store := fun memory : BitVec 8 → Word =>
        Function.update memory (address.setWidth 8) value
      change store (store (store (store mem.memArray))) = store mem.memArray
      simp only [store, Function.update_idem]
    case hexData =>
      let display := fun hex : Word => if address = 0xFFFF#16 then value else hex
      change display (display (display (display hexData))) = display hexData
      by_cases port : address = 0xFFFF#16 <;> simp only [display, port, if_true, if_false]
    all_goals rfl
  · intro t bound
    interval_cases t <;> exact nofun

theorem completes_jsr (entered : state.cpu.state = .s4) :
    Completes inputs state 2
      { state.arch.writeRegister 0b111#3 state.cpu.pc with
        pc := state.cpu.pc + state.cpu.irSext11 } := by
  obtain ⟨⟨phase, pc, mar, mdr, ir, registers, ben, hexData⟩, mem⟩ := state
  subst entered
  refine ⟨rfl, rfl, ?_⟩
  intro t bound
  interval_cases t <;> exact nofun

theorem completes_jmp (entered : state.cpu.state = .s12) :
    Completes inputs state 1 { state.arch with pc := state.cpu.base } := by
  obtain ⟨⟨phase, pc, mar, mdr, ir, registers, ben, hexData⟩, mem⟩ := state
  subst entered
  refine ⟨rfl, rfl, ?_⟩
  intro t bound
  interval_cases t
  exact nofun

/-- `BEN` was computed in `S_32`; `S_0` reloads the flags from the undriven bus. -/
theorem completes_br (entered : state.cpu.state = .s0) :
    Completes inputs state (if state.cpu.ben.dout then 2 else 1)
      { state.arch with
        pc := if state.cpu.ben.dout then state.cpu.pc + state.cpu.irSext9 else state.cpu.pc
        flags := Flags.ofWord (inputs 0).busX } := by
  obtain ⟨⟨phase, pc, mar, mdr, ir, registers, ⟨dout, flags⟩, hexData⟩, mem⟩ := state
  subst entered
  cases dout with
  | false =>
      refine ⟨rfl, rfl, ?_⟩
      intro t bound
      have first : t = 0 := Nat.lt_one_iff.mp bound
      subst first
      exact nofun
  | true =>
      refine ⟨rfl, rfl, ?_⟩
      intro t bound
      change t < 2 at bound
      interval_cases t <;> exact nofun

end Instructions

section Pause

variable {inputs : Nat → Input} {state : State}

theorem transfer_pause (input : Input) (state : State)
    (paused : state.cpu.state = .pauseIR1 ∨ state.cpu.state = .pauseIR2) :
    (transfer input state).arch = state.arch ∧
      (transfer input state).cpu.state =
        if input.continue_ then .pauseIR2
        else if state.cpu.state = .pauseIR1 then .pauseIR1 else .s18 := by
  obtain ⟨⟨phase, pc, mar, mdr, ir, registers, ben, hexData⟩, mem⟩ := state
  rcases paused with paused | paused <;> cases paused <;> exact ⟨rfl, rfl⟩

theorem run_pauseIR1 {up : Nat} (entered : state.cpu.state = .pauseIR1)
    (low : ∀ t, t < up → (inputs t).continue_ = false) (t : Nat) (bound : t ≤ up) :
    (Clocked.run transfer inputs state t).cpu.state = .pauseIR1 ∧
      (Clocked.run transfer inputs state t).arch = state.arch := by
  induction t with
  | zero => exact ⟨entered, rfl⟩
  | succ t inductionHypothesis =>
      obtain ⟨waiting, unchanged⟩ := inductionHypothesis (Nat.le_of_succ_le bound)
      have edge := transfer_pause (inputs t) _ (Or.inl waiting)
      rw [Clocked.run_succ]
      refine ⟨?_, edge.1.trans unchanged⟩
      rw [edge.2, low t bound, waiting]
      rfl

theorem run_pauseIR2 {down : Nat} (entered : state.cpu.state = .pauseIR2)
    (high : ∀ t, t < down → (inputs t).continue_ = true) (t : Nat) (bound : t ≤ down) :
    (Clocked.run transfer inputs state t).cpu.state = .pauseIR2 ∧
      (Clocked.run transfer inputs state t).arch = state.arch := by
  induction t with
  | zero => exact ⟨entered, rfl⟩
  | succ t inductionHypothesis =>
      obtain ⟨waiting, unchanged⟩ := inductionHypothesis (Nat.le_of_succ_le bound)
      have edge := transfer_pause (inputs t) _ (Or.inr waiting)
      rw [Clocked.run_succ]
      refine ⟨?_, edge.1.trans unchanged⟩
      rw [edge.2, high t bound]
      rfl

theorem completes_pse {cycles : Nat} (entered : state.cpu.state = .pauseIR1)
    (lasts : Isa.PauseLasts (fun t => (inputs t).continue_) cycles) :
    Completes inputs state cycles state.arch := by
  obtain ⟨up, down, rfl, low, high, released⟩ := lasts
  dsimp only at low high released
  have pressed := run_pauseIR1 entered low
  have edge := transfer_pause (inputs up) _ (Or.inl (pressed up le_rfl).1)
  have held : ∀ t, t ≤ down →
      (Clocked.run transfer inputs state (up + 1 + t)).cpu.state = .pauseIR2 ∧
        (Clocked.run transfer inputs state (up + 1 + t)).arch = state.arch := by
    intro t bound
    rw [Clocked.run_add]
    have second : (Clocked.run transfer inputs state (up + 1)).cpu.state = .pauseIR2 := by
      rw [Clocked.run_succ, edge.2, high up le_rfl (Nat.le_add_right up down)]
      rfl
    have later : ∀ t, t < down → (inputs (up + 1 + t)).continue_ = true :=
      fun t before => high (up + 1 + t) (by omega) (by omega)
    have waiting := run_pauseIR2 second later t bound
    refine ⟨waiting.1, waiting.2.trans ?_⟩
    rw [Clocked.run_succ, edge.1, (pressed up le_rfl).2]
  have last := transfer_pause (inputs (up + 1 + down)) _ (Or.inr (held down le_rfl).1)
  have length : up + down + 2 = up + 1 + down + 1 := by omega
  have sample : up + down + 1 = up + 1 + down := by omega
  rw [sample] at released
  rw [length]
  refine ⟨?_, ?_, ?_⟩
  · rw [Clocked.run_succ, last.2, released, (held down le_rfl).1]
    rfl
  · rw [Clocked.run_succ, last.1, (held down le_rfl).2]
  · intro t bound
    rcases Nat.lt_or_ge up t with after | before
    · obtain ⟨rest, rfl⟩ := Nat.exists_eq_add_of_le (show up + 1 ≤ t from after)
      rw [(held rest (by omega)).1]
      exact nofun
    · rw [(pressed t before).1]
      exact nofun

end Pause

end DigitalSystems.Slc3.TestTop
