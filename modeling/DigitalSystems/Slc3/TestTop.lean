import DigitalSystems.Clocked.Run
import DigitalSystems.Slc3.Transfer

/-!
# `slc3` with `test_memory`

The simulation memory and its wiring to the processor in `slc3_testtop`.  The
buttons reach the processor active high; `Pins` is the level the synchronisers
hand over, where they are still active low and reset is both of them at once.
-/

namespace DigitalSystems.Slc3

structure TestMemory where
  memArray : BitVec 8 → Word
  memOut : Word

namespace TestMemory

/-- The ports of `test_memory`; `x` is the undefined value of its read register. -/
structure Ports where
  reset : Bool
  data : Word
  address : BitVec 10
  rden : Bool
  wren : Bool
  x : Word

/-- A clock edge.  `image` is the file a reset reads back; the reset is also
asynchronous, which the registers of the processor never observe. -/
def step (image : BitVec 8 → Word) (ports : Ports) (memory : TestMemory) :
    TestMemory :=
  if ports.reset then { memArray := image, memOut := ports.x }
  else if ports.rden && !ports.wren then
    { memory with memOut := memory.memArray (ports.address.extractLsb' 0 8) }
  else if !ports.rden && ports.wren then
    { memArray :=
        Function.update memory.memArray (ports.address.extractLsb' 0 8) ports.data
      memOut := ports.x }
  else { memory with memOut := ports.x }

end TestMemory

namespace TestTop

/-- The inputs of one cycle, buttons active high.  `busX` is the undriven bus and
`memX` the undefined read data of the memory. -/
structure Input where
  sw : BitVec 10
  reset : Bool
  run : Bool
  continue_ : Bool
  busX : Word
  memX : Word

def Input.quiet : Input where
  sw := 0#10
  reset := false
  run := false
  continue_ := false
  busX := 0#16
  memX := 0#16

/-- The synchronised pins of `slc3_testtop`, buttons active low. -/
structure Pins where
  sw : BitVec 10
  runS : Bool
  continueS : Bool
  busX : Word
  memX : Word

def Pins.input (pins : Pins) : Input where
  sw := pins.sw
  reset := !pins.runS && !pins.continueS
  run := !pins.runS
  continue_ := !pins.continueS
  busX := pins.busX
  memX := pins.memX

structure State where
  cpu : Cpu
  mem : TestMemory

def State.loaded (image : BitVec 8 → Word) : State where
  cpu := Cpu.blank .s18
  mem := { memArray := image, memOut := 0#16 }

def cpuInput (input : Input) (state : State) : Slc3.Input where
  sw := input.sw
  reset := input.reset
  run := input.run
  continue_ := input.continue_
  dataFromSRAM := state.mem.memOut
  x := input.busX

def memPorts (input : Input) (state : State) : TestMemory.Ports where
  reset := input.reset
  data := state.cpu.dataToSRAM
  address := state.cpu.addr.extractLsb' 0 10
  rden := state.cpu.oe
  wren := state.cpu.we
  x := input.memX

def step (image : BitVec 8 → Word) (input : Input) (state : State) : State where
  cpu := state.cpu.step (cpuInput input state)
  mem := state.mem.step image (memPorts input state)

/-- The processor's registers in every cycle are a run of `slc3` on the data the
memory returns. -/
theorem run_cpu (image : BitVec 8 → Word) (inputs : Nat → Input) (start : State)
    (n : Nat) :
    (Clocked.run (step image) inputs start n).cpu =
      Clocked.run Cpu.step
        (fun t => cpuInput (inputs t) (Clocked.run (step image) inputs start t))
        start.cpu n := by
  induction n with
  | zero => rfl
  | succ n inductionHypothesis =>
      rw [Clocked.run_succ, Clocked.run_succ, ← inductionHypothesis]
      rfl

def memTransfer (input : Input) (state : State) : TestMemory :=
  if state.cpu.oe then
    { state.mem with memOut := state.mem.memArray (state.cpu.mar.setWidth 8) }
  else if state.cpu.we then
    { memArray := Function.update state.mem.memArray (state.cpu.mar.setWidth 8) state.cpu.mdr
      memOut := input.memX }
  else { state.mem with memOut := input.memX }

def transfer (input : Input) (state : State) : State where
  cpu := state.cpu.transfer (cpuInput input state)
  mem := memTransfer input state

theorem oe_we_exclusive (cpu : Cpu) : (cpu.oe && cpu.we) = false := by
  unfold Cpu.oe Cpu.we Cpu.control
  cases cpu.state <;> rfl

theorem extract_extract (address : Word) :
    (address.extractLsb' 0 10).extractLsb' 0 8 = address.setWidth 8 := by
  ext i bound
  simp

theorem step_eq_transfer (image : BitVec 8 → Word) (input : Input) (state : State)
    (running : input.reset = false) : step image input state = transfer input state := by
  have exclusive := oe_we_exclusive state.cpu
  unfold step transfer
  rw [Cpu.step_eq_transfer _ _ running]
  congr 1
  simp only [TestMemory.step, memPorts, memTransfer, running, Cpu.addr, Cpu.dataToSRAM,
    extract_extract]
  cases reads : state.cpu.oe <;> cases writes : state.cpu.we <;>
    simp_all

theorem memArray_memTransfer (input : Input) {state : State}
    (idle : state.cpu.we = false) :
    (memTransfer input state).memArray = state.mem.memArray := by
  cases reads : state.cpu.oe <;> simp [memTransfer, reads, idle]

theorem run_eq_transfer (image : BitVec 8 → Word) (inputs : Nat → Input)
    (running : ∀ t, (inputs t).reset = false) (start : State) (n : Nat) :
    Clocked.run (step image) inputs start n = Clocked.run transfer inputs start n := by
  induction n with
  | zero => rfl
  | succ n inductionHypothesis =>
      rw [Clocked.run_succ, Clocked.run_succ, inductionHypothesis,
        step_eq_transfer image _ _ (running n)]

theorem runs_eq_transfer (image : BitVec 8 → Word) (inputs : Nat → Input)
    (running : ∀ t, (inputs t).reset = false) (start : State) :
    Clocked.run (step image) inputs start = Clocked.run transfer inputs start :=
  funext fun t => run_eq_transfer image inputs running start t

end TestTop

end DigitalSystems.Slc3
