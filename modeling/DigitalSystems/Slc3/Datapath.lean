import Mathlib.Logic.Function.Basic

/-!
# Datapath modules of the SLC-3

The combinational modules (`ALU`, the multiplexers, `Mem2IO`'s read path) are
functions of their ports.  The clocked ones (`REGISTER`, `REGISTER_FILE`, `BEN`,
`Mem2IO`'s display register) map the ports of one cycle and the old content to
the content after the edge.  A net that the source drives to `x` takes a value
supplied by the caller.
-/

namespace DigitalSystems.Slc3

abbrev Word := BitVec 16

def alu (aluControlPins : BitVec 2) (a b : Word) : Word :=
  match aluControlPins with
  | 0b00#2 => a + b
  | 0b01#2 => a &&& b
  | 0b10#2 => ~~~a
  | _ => a

def pcMux (selectBits : BitVec 2) (incrementedPC busInput addedAddrInput x : Word) :
    Word :=
  if selectBits = 0b00#2 then incrementedPC
  else if selectBits = 0b01#2 then busInput
  else if selectBits = 0b10#2 then addedAddrInput
  else x

def addr1Mux (select : Bool) (inputPC inputSR1 : Word) : Word :=
  match select with
  | false => inputPC
  | true => inputSR1

def addr2Mux (select : BitVec 2) (inputIRSext6 inputIRSext9 inputIRSext11 : Word) :
    Word :=
  match select with
  | 0b00#2 => 0#16
  | 0b01#2 => inputIRSext6
  | 0b10#2 => inputIRSext9
  | _ => inputIRSext11

def mioMux (mioEn : Bool) (busInput dataCPUIn : Word) : Word :=
  match mioEn with
  | false => busInput
  | true => dataCPUIn

def drMux (select : Bool) (inputIR11to9 : BitVec 3) : BitVec 3 :=
  match select with
  | false => inputIR11to9
  | true => 0b111#3

def sr1Mux (select : Bool) (inputIR11to9 inputIR8to6 : BitVec 3) : BitVec 3 :=
  match select with
  | false => inputIR11to9
  | true => inputIR8to6

def sr2Mux (select : Bool) (inputSR2 inputIRSext5 : Word) : Word :=
  match select with
  | false => inputSR2
  | true => inputIRSext5

def register (reset load : Bool) (d dataOut : Word) : Word :=
  if reset then 0#16 else if load then d else dataOut

abbrev RegisterFile := BitVec 3 → Word

/-- `REGISTER_FILE`: the write port.  Its two read ports are plain application. -/
def registerFile (reset load : Bool) (drInfo : BitVec 3) (inputFromBus : Word)
    (registers : RegisterFile) : RegisterFile :=
  if reset then fun _ => 0#16
  else if load then Function.update registers drInfo inputFromBus
  else registers

@[ext]
structure Flags where
  n : Bool
  z : Bool
  p : Bool
  deriving DecidableEq, Repr

/-- `BEN`'s combinational block: the sign class of the word on the bus. -/
def Flags.ofWord (busIn : Word) : Flags :=
  if busIn = 0#16 then { n := false, z := true, p := false }
  else if busIn.msb then { n := true, z := false, p := false }
  else { n := false, z := false, p := true }

def Flags.selected (flags : Flags) (ir : BitVec 3) : Bool :=
  ir.getLsbD 2 && flags.n || ir.getLsbD 1 && flags.z || ir.getLsbD 0 && flags.p

@[ext]
structure Ben where
  dout : Bool
  flags : Flags
  deriving DecidableEq, Repr

/-- `BEN`: reset only reaches `Dout`, and the flags load with or without it. -/
def Ben.step (reset ldCC ldBEN : Bool) (ir : BitVec 3) (busIn : Word) (ben : Ben) :
    Ben where
  dout :=
    if reset then false
    else if ldBEN then ben.flags.selected ir
    else ben.dout
  flags := if ldCC then Flags.ofWord busIn else ben.flags

namespace Mem2Io

def dataToCPU (oe we : Bool) (addr : Word) (switches : BitVec 10)
    (dataFromSRAM : Word) : Word :=
  if !we && oe then
    if addr = 0xFFFF#16 then switches.setWidth 16 else dataFromSRAM
  else 0#16

def hexData (reset we : Bool) (addr dataFromCPU hex : Word) : Word :=
  if reset then 0#16
  else if we && addr == 0xFFFF#16 then dataFromCPU
  else hex

end Mem2Io

end DigitalSystems.Slc3
