import DigitalSystems.Clocked.Run
import DigitalSystems.Slc3.Instantiateram
import DigitalSystems.Slc3.Transfer

/-!
# `slc3` with the physical memory

The on-chip `ram` is a vendor block, so it is a parameter here: a state, a clocked
port and the output `q`.  `Ram.Lawful` is what its generated parameters promise.
`SramTop` is the wiring of `slc3_sramtop`, boot loader included.
-/

namespace DigitalSystems.Slc3

namespace Ram

structure Ports where
  address : BitVec 10
  data : Word
  rden : Bool
  wren : Bool

end Ram

/-- A single-port memory of 1024 words.  `word` and `latch` are its content and
the read data in front of the output register. -/
structure Ram where
  State : Type
  step : Ram.Ports → State → State
  word : State → BitVec 10 → Word
  latch : State → Word
  q : State → Word

namespace Ram

/-- Inputs and output are registered on the same clock: the word requested in one
cycle is at `q` two edges later, and stays while `rden` is low. -/
structure Lawful (ram : Ram) : Prop where
  word_write : ∀ ports state, ports.wren = true →
    ram.word (ram.step ports state) =
      Function.update (ram.word state) ports.address ports.data
  word_hold : ∀ ports state, ports.wren = false →
    ram.word (ram.step ports state) = ram.word state
  latch_read : ∀ ports state, ports.rden = true → ports.wren = false →
    ram.latch (ram.step ports state) = ram.word state ports.address
  latch_hold : ∀ ports state, ports.rden = false →
    ram.latch (ram.step ports state) = ram.latch state
  q_register : ∀ ports state, ram.q (ram.step ports state) = ram.latch state

/-- A memory that behaves as promised; a read during a write returns the old word. -/
def reference : Ram where
  State := (BitVec 10 → Word) × Word × Word
  step ports state :=
    ( if ports.wren then Function.update state.1 ports.address ports.data else state.1,
      if ports.rden then state.1 ports.address else state.2.1,
      state.2.1 )
  word state := state.1
  latch state := state.2.1
  q state := state.2.2

theorem reference_lawful : reference.Lawful where
  word_write ports state writes := by simp [reference, writes]
  word_hold ports state idle := by simp [reference, idle]
  latch_read ports state reads _ := by simp [reference, reads]
  latch_hold ports state idle := by simp [reference, idle]
  q_register _ _ := rfl

end Ram

namespace SramTop

/-- The inputs of one cycle, buttons active high.  `x` is the undriven bus. -/
structure Input where
  sw : BitVec 10
  runAh : Bool
  continueAh : Bool
  x : Word

def Input.resetAh (input : Input) : Bool := input.runAh && input.continueAh

structure State (ram : Ram) where
  cpu : Cpu
  loader : Instantiateram
  ram : ram.State

variable {ram : Ram}

def weSelect (input : Input) (state : State ram) : Bool :=
  (state.loader.present input.resetAh).wren

/-- The ports of `ram0`: the boot loader's while it writes, else the processor's. -/
def ramPorts (input : Input) (state : State ram) : Ram.Ports where
  address :=
    (if weSelect input state then (state.loader.present input.resetAh).address
      else state.cpu.addr).extractLsb' 0 10
  data :=
    if weSelect input state then
      Instantiateram.data (state.loader.present input.resetAh).address
    else state.cpu.dataToSRAM
  rden := state.cpu.oe
  wren := if weSelect input state then weSelect input state else state.cpu.we

def cpuInput (input : Input) (state : State ram) : Slc3.Input where
  sw := input.sw
  reset := input.resetAh
  run := input.runAh
  continue_ := input.continueAh
  dataFromSRAM := ram.q state.ram
  x := input.x

def step (input : Input) (state : State ram) : State ram where
  cpu := state.cpu.step (cpuInput input state)
  loader := state.loader.step input.resetAh
  ram := ram.step (ramPorts input state) state.ram

def cpuPorts (state : State ram) : Ram.Ports where
  address := state.cpu.addr.extractLsb' 0 10
  data := state.cpu.dataToSRAM
  rden := state.cpu.oe
  wren := state.cpu.we

theorem ramPorts_of_not_weSelect {input : Input} {state : State ram}
    (quiet : weSelect input state = false) : ramPorts input state = cpuPorts state := by
  simp [ramPorts, cpuPorts, quiet]

theorem weSelect_of_released {input : Input} (state : State ram)
    (released : input.resetAh = false) : weSelect input state = state.loader.wren := by
  simp [weSelect, Instantiateram.present, released]

end SramTop

end DigitalSystems.Slc3
