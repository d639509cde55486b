import DigitalSystems.Slc3.Assembler

/-!
# The boot loader `Instantiateram`

After a reset it walks the addresses `0 .. 255` with its write enable on and
presents the words of its table, then stops.
-/

namespace DigitalSystems.Slc3

namespace Instantiateram

open Assembler in
/-- The branches of the source's `case(address)`, in order from address 0. -/
def table : List Word :=
  [
    -- 0: jump to the program selected on the switches
    opCLR r0, opLDR r1 r0 inSW, opJMP r1,
    -- 3: basic I/O test 1
    opLDR r1 r0 inSW, opSTR r1 r0 outHEX, opBR nzp (-3),
    -- 6: basic I/O test 2
    opPSE 0x801#12, opLDR r1 r0 inSW, opSTR r1 r0 outHEX, opPSE 0xC02#12, opBR nzp (-4),
    -- 11: basic I/O test 3, self-modifying
    opPSE 0x801#12, opJSR 0, opLDR r2 r7 3, opLDR r1 r0 inSW, opSTR r1 r0 outHEX,
    opPSE 0xC02#12, opINC r2, opSTR r2 r7 3, opBR nzp (-6),
    -- 20: XOR test
    opCLR r0, opPSE 0x801#12, opLDR r1 r0 inSW, opPSE 0x802#12, opLDR r2 r0 inSW,
    opNOT r3 r1, opAND r3 r3 r2, opNOT r3 r3, opNOT r4 r2, opAND r4 r4 r1, opNOT r4 r4,
    opAND r3 r3 r4, opNOT r3 r3, opSTR r3 r0 outHEX, opPSE 0x405#12, opBR nzp (-15), noOp,
    noOp, noOp, noOp, noOp, noOp,
    -- 42: run once test
    opCLR r0, opCLR r1, opJSR 0, opSTR r1 r0 outHEX, opPSE 0x401#12, opINC r1, opRET,
    -- 49: multiplier
    opCLR r0, opJSR 0, opLDR r3 r7 22, opCLR r4, opCLR r5, opPSE 0x801#12,
    opLDR r1 r0 inSW, opPSE 0x802#12, opLDR r2 r0 inSW, opADD r5 r5 r5, opAND r7 r3 r1,
    opBR z 1, opADD r5 r5 r2, opADDi r4 r4 0, opBR p 2, opNOT r5 r5, opINC r5, opINC r4,
    opADD r1 r1 r1, opADDi r7 r4 (-8), opBR n (-12), opSTR r5 r0 outHEX, opPSE 0x403#12,
    opBR nzp (-21), 0x0080#16,
    -- 74: data for the bubble sort
    0x00ef#16, 0x001b#16, 0x0001#16, 0x008c#16, 0x00db#16, 0x00fa#16, 0x0047#16,
    0x0046#16, 0x001f#16, 0x000d#16, 0x00b8#16, 0x0003#16, 0x006b#16, 0x004e#16,
    0x00f8#16, 0x0007#16,
    -- 90: bubble sort menu
    opCLR r0, opJSR 0, opADDi r6 r7 (-16), opADDi r6 r6 (-2), opPSE 0x3FF#12,
    opLDR r1 r0 inSW, opBR z (-3), opDEC r1, opBR np 2, opJSR 9, opBR nzp (-7), opDEC r1,
    opBR np 2, opJSR 15, opBR nzp (-11), opDEC r1, opBR np (-13), opJSR 29,
    opBR nzp (-15),
    -- 109: entry function
    opCLR r1, opSTR r1 r0 outHEX, opPSE 0xC01#12, opLDR r2 r0 inSW, opADD r5 r6 r1,
    opSTR r2 r5 0, opINC r1, opADDi r3 r1 (-16), opBR n (-8), opRET,
    -- 119: sort function
    opADDi r1 r0 (-16), opADDi r2 r0 1, opADD r3 r6 r2, opLDR r4 r3 (-1), opLDR r5 r3 0,
    opNOT r5 r5, opADDi r5 r5 1, opADD r5 r4 r5, opBR nz 3, opLDR r5 r3 0,
    opSTR r5 r3 (-1), opSTR r4 r3 0, opINC r2, opADD r3 r1 r2, opBR n (-13), opINC r1,
    opBR n (-16), opRET,
    -- 137: display function
    opCLR r1, opADD r4 r7 r0, opJSR 0, opADD r5 r7 r0, opADD r7 r4 r0, opLDR r3 r5 15,
    opADDi r2 r0 8, opADD r2 r2 r2, opADD r4 r6 r1, opLDR r4 r4 0, opSTR r4 r0 outHEX,
    opPSE 0x802#12, opADD r3 r3 r2, opSTR r3 r5 8, opINC r1, opADDi r4 r1 (-16),
    opBR n (-9), opRET, opPSE 0x802#12,
    -- 156: auto counter
    opCLR r0, opCLR r1, opCLR r2, opCLR r3, opJSR 0, opLDR r1 r7 12, opLDR r2 r7 13,
    opDEC r1, opBR z 1, opBR nzp (-3), opDEC r2, opBR z 2, opLDR r1 r7 12, opBR nzp (-7),
    opSTR r3 r0 outHEX, opINC r3, opBR nzp (-12),
    -- 173: its delay constants
    0xFFFF#16, 5#16 ]

/-- Addresses without a branch of their own read zero. -/
def data (address : Word) : Word := table.getD address.toNat 0x0000#16

inductive Phase where
  | idle | memWrite | done
  deriving DecidableEq, Repr

end Instantiateram

@[ext]
structure Instantiateram where
  state : Instantiateram.Phase
  address : Word

namespace Instantiateram

def nextState (loader : Instantiateram) : Phase :=
  match loader.state with
  | .idle => .idle
  | .memWrite => if loader.address = 0xff#16 then .done else .memWrite
  | .done => .idle

def wren (loader : Instantiateram) : Bool :=
  match loader.state with
  | .idle => false
  | .memWrite => true
  | .done => false

def accumulate (loader : Instantiateram) : Bool :=
  match loader.state with
  | .idle => false
  | .memWrite => true
  | .done => false

/-- Reset is asynchronous: while it is high the registers show the reset values. -/
def present (reset : Bool) (loader : Instantiateram) : Instantiateram :=
  if reset then { state := .memWrite, address := 0x0#16 } else loader

def step (reset : Bool) (loader : Instantiateram) : Instantiateram :=
  if reset then { state := .memWrite, address := 0x0#16 }
  else
    { state := loader.nextState
      address := if loader.accumulate then loader.address + 1#16 else loader.address }

end Instantiateram

end DigitalSystems.Slc3
