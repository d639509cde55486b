import DigitalSystems.Slc3.TestTop

/-!
# The read window

A read holds its request for four cycles and takes the data at the end of the
fourth.  The number of requests the memory has already seen is a function of the
controller state.
-/

namespace DigitalSystems.Slc3

/-- Read requests the memory has seen for the address in `MAR`. -/
def Isdu.requests : Isdu → Nat
  | .s33_2 | .s25_2 => 1
  | .s33_3 | .s25_3 => 2
  | .s33_4 | .s25_4 => 3
  | _ => 0

theorem Isdu.requests_decode (opcode : BitVec 4) : (Isdu.decode opcode).requests = 0 := by
  unfold Isdu.decode
  split <;> rfl

namespace Cpu

variable (input : Input) (cpu : Cpu)

theorem requests_transfer (window : 1 ≤ (cpu.transfer input).state.requests) :
    cpu.oe = true ∧ cpu.we = false ∧ (cpu.transfer input).mar = cpu.mar ∧
      (cpu.transfer input).state.requests = cpu.state.requests + 1 := by
  obtain ⟨state, pc, mar, mdr, ir, registers, ⟨dout, flags⟩, hexData⟩ := cpu
  cases state
  case halted =>
    cases pressed : input.run <;> simp [transfer, pressed, Isdu.requests] at window
  case pauseIR1 | pauseIR2 =>
    cases pressed : input.continue_ <;> simp [transfer, pressed, Isdu.requests] at window
  case s32 => simp [transfer, Isdu.requests_decode] at window
  case s0 => cases dout <;> exact absurd window nofun
  all_goals first | exact ⟨rfl, rfl, rfl, rfl⟩ | exact absurd window nofun

/-- Read data only reaches a register at the end of a read window. -/
theorem transfer_congr {input other : Input} (cpu : Cpu)
    (run : input.run = other.run)
    (continue_ : input.continue_ = other.continue_) (x : input.x = other.x)
    (data : cpu.state.requests = 3 → cpu.readData input = cpu.readData other) :
    cpu.transfer input = cpu.transfer other := by
  obtain ⟨state, pc, mar, mdr, ir, registers, ben, hexData⟩ := cpu
  cases state <;> simp_all [transfer, Isdu.requests]

end Cpu

namespace TestTop

def State.cell (state : State) : Word := state.mem.memArray (state.cpu.mar.setWidth 8)

/-- After the first request of a window the read register holds the cell. -/
def Latched (state : State) : Prop :=
  1 ≤ state.cpu.state.requests → state.mem.memOut = state.cell

theorem latched_transfer (input : Input) (state : State) :
    Latched (transfer input state) := by
  intro window
  obtain ⟨reads, -, sameMar, -⟩ := Cpu.requests_transfer _ _ window
  simp only [State.cell, transfer, memTransfer, reads, if_true, sameMar]

theorem latched_of_between {state : State}
    (between : state.cpu.state = .halted ∨ state.cpu.state = .s18) : Latched state := by
  rcases between with phase | phase <;> simp [Latched, phase, Isdu.requests]

end TestTop

end DigitalSystems.Slc3
