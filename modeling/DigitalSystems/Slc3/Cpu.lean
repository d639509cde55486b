import DigitalSystems.Slc3.Controller

/-!
# The processor `slc3`

`Cpu` holds every register of `slc3`.  Its step is the wiring of the source: the
controller's signals for the current state, the shared bus, the multiplexers and
the register inputs.
-/

namespace DigitalSystems.Slc3

/-- The ports of `slc3` during one clock cycle.  `x` is the value taken by a net
that the source drives to `16'hxxxx`, above all the bus while no gate is on. -/
structure Input where
  sw : BitVec 10
  reset : Bool
  run : Bool
  continue_ : Bool
  dataFromSRAM : Word
  x : Word

@[ext]
structure Cpu where
  state : Isdu
  pc : Word
  mar : Word
  mdr : Word
  ir : Word
  register : RegisterFile
  ben : Ben
  hexData : Word

namespace Cpu

def blank (state : Isdu) : Cpu where
  state := state
  pc := 0#16
  mar := 0#16
  mdr := 0#16
  ir := 0#16
  register := fun _ => 0#16
  ben := { dout := false, flags := { n := false, z := false, p := false } }
  hexData := 0#16

def opcode (cpu : Cpu) : BitVec 4 := cpu.ir.extractLsb' 12 4

def ir11to9 (cpu : Cpu) : BitVec 3 := cpu.ir.extractLsb' 9 3

def ir8to6 (cpu : Cpu) : BitVec 3 := cpu.ir.extractLsb' 6 3

def ir2to0 (cpu : Cpu) : BitVec 3 := cpu.ir.extractLsb' 0 3

def ir5 (cpu : Cpu) : Bool := cpu.ir.getLsbD 5

def irSext5 (cpu : Cpu) : Word := (cpu.ir.extractLsb' 0 5).signExtend 16

def irSext6 (cpu : Cpu) : Word := (cpu.ir.extractLsb' 0 6).signExtend 16

def irSext9 (cpu : Cpu) : Word := (cpu.ir.extractLsb' 0 9).signExtend 16

def irSext11 (cpu : Cpu) : Word := (cpu.ir.extractLsb' 0 11).signExtend 16

def control (cpu : Cpu) : Isdu.Control := cpu.state.control cpu.ir5

def oe (cpu : Cpu) : Bool := cpu.control.memOE

def we (cpu : Cpu) : Bool := cpu.control.memWE

def addr (cpu : Cpu) : Word := cpu.mar

def dataToSRAM (cpu : Cpu) : Word := cpu.mdr

def led (cpu : Cpu) : BitVec 10 :=
  match cpu.control.ldLED with
  | false => 0#10
  | true => cpu.ir.extractLsb' 0 10

def sr1 (cpu : Cpu) : Word :=
  cpu.register (sr1Mux cpu.control.sr1mux cpu.ir11to9 cpu.ir8to6)

def sr2 (cpu : Cpu) : Word := cpu.register cpu.ir2to0

def address1 (cpu : Cpu) : Word := addr1Mux cpu.control.addr1mux cpu.pc cpu.sr1

def address2 (cpu : Cpu) : Word :=
  addr2Mux cpu.control.addr2mux cpu.irSext6 cpu.irSext9 cpu.irSext11

/-- `SR2MUX` is selected by `IR[5]` itself, not by the controller's signal. -/
def aluResult (cpu : Cpu) : Word :=
  alu cpu.control.aluk cpu.sr1 (sr2Mux cpu.ir5 cpu.sr2 cpu.irSext5)

/-- The shared bus: the first gate that is on drives it. -/
def bus (cpu : Cpu) (x : Word) : Word :=
  if cpu.control.gatePC then cpu.pc
  else if cpu.control.gateMARMUX then cpu.address1 + cpu.address2
  else if cpu.control.gateMDR then cpu.mdr
  else if cpu.control.gateALU then cpu.aluResult
  else x

def mdrIn (cpu : Cpu) (input : Input) : Word :=
  Mem2Io.dataToCPU cpu.oe cpu.we cpu.addr input.sw input.dataFromSRAM

def step (input : Input) (cpu : Cpu) : Cpu where
  state :=
    cpu.state.step input.reset input.run input.continue_ cpu.opcode cpu.ben.dout
  pc :=
    Slc3.register input.reset cpu.control.ldPC
      (pcMux cpu.control.pcmux (cpu.pc + 1#16) (cpu.bus input.x)
        (cpu.address1 + cpu.address2) input.x)
      cpu.pc
  mar := Slc3.register input.reset cpu.control.ldMAR (cpu.bus input.x) cpu.mar
  mdr :=
    Slc3.register input.reset cpu.control.ldMDR
      (mioMux cpu.oe (cpu.bus input.x) (cpu.mdrIn input)) cpu.mdr
  ir := Slc3.register input.reset cpu.control.ldIR (cpu.bus input.x) cpu.ir
  register :=
    registerFile input.reset cpu.control.ldREG
      (drMux cpu.control.drmux cpu.ir11to9) (cpu.bus input.x) cpu.register
  ben :=
    cpu.ben.step input.reset cpu.control.ldCC cpu.control.ldBEN cpu.ir11to9
      (cpu.bus input.x)
  hexData :=
    Mem2Io.hexData input.reset cpu.we cpu.addr cpu.dataToSRAM cpu.hexData

end Cpu

end DigitalSystems.Slc3
