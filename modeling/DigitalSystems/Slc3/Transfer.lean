import DigitalSystems.Slc3.Cpu

/-!
# Register transfers

What one clock edge does in each controller state, once the control signals have
been propagated through the bus and the multiplexers.  `step_eq_transfer` is the
only place where the wiring of `Cpu.step` is unfolded; everything later reads
the table.
-/

namespace DigitalSystems.Slc3.Cpu

def base (cpu : Cpu) : Word := cpu.register cpu.ir8to6

def dest (cpu : Cpu) : Word := cpu.register cpu.ir11to9

def operand2 (cpu : Cpu) : Word := sr2Mux cpu.ir5 cpu.sr2 cpu.irSext5

def taken (cpu : Cpu) : Bool := cpu.ben.flags.selected cpu.ir11to9

def readData (cpu : Cpu) (input : Input) : Word :=
  if cpu.mar = 0xFFFF#16 then input.sw.setWidth 16 else input.dataFromSRAM

def displayed (cpu : Cpu) : Word :=
  if cpu.mar = 0xFFFF#16 then cpu.mdr else cpu.hexData

def writeResult (cpu : Cpu) (value : Word) : Cpu :=
  { cpu with
    register := Function.update cpu.register cpu.ir11to9 value
    ben := { cpu.ben with flags := Flags.ofWord value } }

def transfer (input : Input) (cpu : Cpu) : Cpu :=
  match cpu.state with
  | .halted => { cpu with state := if input.run then .s18 else .halted }
  | .s18 => { cpu with state := .s33_1, mar := cpu.pc, pc := cpu.pc + 1#16 }
  | .s33_1 => { cpu with state := .s33_2 }
  | .s33_2 => { cpu with state := .s33_3 }
  | .s33_3 => { cpu with state := .s33_4 }
  | .s33_4 => { cpu with state := .s35, mdr := cpu.readData input }
  | .s35 => { cpu with state := .s32, ir := cpu.mdr }
  | .pauseIR1 => { cpu with state := if input.continue_ then .pauseIR2 else .pauseIR1 }
  | .pauseIR2 => { cpu with state := if input.continue_ then .pauseIR2 else .s18 }
  | .s32 =>
      { cpu with
        state := Isdu.decode cpu.opcode
        ben := { cpu.ben with dout := cpu.taken } }
  | .s1 => { cpu.writeResult (cpu.base + cpu.operand2) with state := .s18 }
  | .s5 => { cpu.writeResult (cpu.base &&& cpu.operand2) with state := .s18 }
  | .s9 => { cpu.writeResult (~~~cpu.base) with state := .s18 }
  | .s6 => { cpu with state := .s25_1, mar := cpu.base + cpu.irSext6 }
  | .s25_1 => { cpu with state := .s25_2 }
  | .s25_2 => { cpu with state := .s25_3 }
  | .s25_3 => { cpu with state := .s25_4 }
  | .s25_4 => { cpu with state := .s27, mdr := cpu.readData input }
  | .s27 => { cpu.writeResult cpu.mdr with state := .s18 }
  | .s7 => { cpu with state := .s23, mar := cpu.base + cpu.irSext6 }
  | .s23 => { cpu with state := .s16_1, mdr := cpu.dest }
  | .s16_1 => { cpu with state := .s16_2, hexData := cpu.displayed }
  | .s16_2 => { cpu with state := .s16_3, hexData := cpu.displayed }
  | .s16_3 => { cpu with state := .s16_4, hexData := cpu.displayed }
  | .s16_4 => { cpu with state := .s18, hexData := cpu.displayed }
  | .s4 =>
      { cpu with
        state := .s21
        register := Function.update cpu.register 0b111#3 cpu.pc }
  | .s21 => { cpu with state := .s18, pc := cpu.pc + cpu.irSext11 }
  | .s12 => { cpu with state := .s18, pc := cpu.base }
  | .s0 =>
      { cpu with
        state := if cpu.ben.dout then .s22 else .s18
        ben := { dout := cpu.taken, flags := Flags.ofWord input.x } }
  | .s22 => { cpu with state := .s18, pc := cpu.pc + cpu.irSext9 }

/-- The register content after a clock edge with reset.  The flags are not among
the registers that reset clears. -/
def cleared (input : Input) (cpu : Cpu) : Cpu where
  state := .halted
  pc := 0#16
  mar := 0#16
  mdr := 0#16
  ir := 0#16
  register := fun _ => 0#16
  ben :=
    { dout := false
      flags := if cpu.control.ldCC then Flags.ofWord (cpu.bus input.x) else cpu.ben.flags }
  hexData := 0#16

theorem step_reset (input : Input) (cpu : Cpu) (reset : input.reset = true) :
    cpu.step input = cpu.cleared input := by
  simp only [step, cleared, Isdu.step, Slc3.register, registerFile, Ben.step,
    Mem2Io.hexData, reset, if_true]

theorem hexData_store (addr data hex : Word) :
    Mem2Io.hexData false true addr data hex = if addr = 0xFFFF#16 then data else hex := by
  simp [Mem2Io.hexData]

/-- The wiring of `slc3` realises the transfer table. -/
theorem step_eq_transfer (input : Input) (cpu : Cpu) (running : input.reset = false) :
    cpu.step input = cpu.transfer input := by
  obtain ⟨state, pc, mar, mdr, ir, registers, ben, hexData⟩ := cpu
  obtain ⟨sw, reset, run, continue_, dataFromSRAM, x⟩ := input
  cases running
  cases state
  case pauseIR1 => cases continue_ <;> rfl
  -- the address adder passes a register on by adding the zero input of `ADDR2MUX`
  case s23 => exact Cpu.ext rfl rfl rfl (BitVec.add_zero _) rfl rfl rfl rfl
  case s12 => exact Cpu.ext rfl (BitVec.add_zero _) rfl rfl rfl rfl rfl rfl
  case s16_1 | s16_2 | s16_3 | s16_4 =>
    exact Cpu.ext rfl rfl rfl rfl rfl rfl rfl (hexData_store mar mdr hexData)
  all_goals rfl

end DigitalSystems.Slc3.Cpu
