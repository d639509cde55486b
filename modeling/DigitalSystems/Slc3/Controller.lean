import DigitalSystems.Slc3.Datapath

/-!
# The controller `ISDU`

The state register, the next-state block and the control signals of each state.
The enumeration has the thirty named states; the two spare codes of the five-bit
register are not values of the type.
-/

namespace DigitalSystems.Slc3

inductive Isdu where
  | halted | pauseIR1 | pauseIR2
  | s18 | s33_1 | s33_2 | s33_3 | s33_4 | s35 | s32
  | s1 | s5 | s9
  | s6 | s25_1 | s25_2 | s25_3 | s25_4 | s27
  | s7 | s23 | s16_1 | s16_2 | s16_3 | s16_4
  | s4 | s21
  | s12
  | s0 | s22
  deriving DecidableEq, Repr

namespace Isdu

/-- The control signals.  Fields not set by a state keep the source's default 0. -/
structure Control where
  ldMAR : Bool := false
  ldMDR : Bool := false
  ldIR : Bool := false
  ldBEN : Bool := false
  ldCC : Bool := false
  ldREG : Bool := false
  ldPC : Bool := false
  ldLED : Bool := false
  gatePC : Bool := false
  gateMDR : Bool := false
  gateALU : Bool := false
  gateMARMUX : Bool := false
  pcmux : BitVec 2 := 0b00#2
  drmux : Bool := false
  sr1mux : Bool := false
  sr2mux : Bool := false
  addr1mux : Bool := false
  addr2mux : BitVec 2 := 0b00#2
  aluk : BitVec 2 := 0b00#2
  memOE : Bool := false
  memWE : Bool := false

def decode (opcode : BitVec 4) : Isdu :=
  match opcode with
  | 0b0001#4 => s1
  | 0b0101#4 => s5
  | 0b1001#4 => s9
  | 0b0110#4 => s6
  | 0b0111#4 => s7
  | 0b0100#4 => s4
  | 0b1100#4 => s12
  | 0b0000#4 => s0
  | 0b1101#4 => pauseIR1
  | _ => s18

def nextState (run continue_ : Bool) (opcode : BitVec 4) (ben : Bool) : Isdu → Isdu
  | halted => if run then s18 else halted
  | s18 => s33_1
  | s33_1 => s33_2
  | s33_2 => s33_3
  | s33_3 => s33_4
  | s33_4 => s35
  | s35 => s32
  | pauseIR1 => if !continue_ then pauseIR1 else pauseIR2
  | pauseIR2 => if continue_ then pauseIR2 else s18
  | s32 => decode opcode
  | s1 => s18
  | s5 => s18
  | s9 => s18
  | s6 => s25_1
  | s25_1 => s25_2
  | s25_2 => s25_3
  | s25_3 => s25_4
  | s25_4 => s27
  | s27 => s18
  | s7 => s23
  | s23 => s16_1
  | s16_1 => s16_2
  | s16_2 => s16_3
  | s16_3 => s16_4
  | s16_4 => s18
  | s4 => s21
  | s21 => s18
  | s12 => s18
  | s0 => if ben then s22 else s18
  | s22 => s18

def control (ir5 : Bool) : Isdu → Control
  | halted => { ldLED := true }
  | s18 => { gatePC := true, ldMAR := true, pcmux := 0b00#2, ldPC := true }
  | s33_1 => { memOE := true }
  | s33_2 => { memOE := true }
  | s33_3 => { memOE := true }
  | s33_4 => { memOE := true, ldMDR := true }
  | s35 => { gateMDR := true, ldIR := true }
  | pauseIR1 => { ldLED := true }
  | pauseIR2 => { ldLED := true }
  | s32 => { ldBEN := true }
  | s1 =>
      { sr2mux := ir5, sr1mux := true, aluk := 0b00#2, gateALU := true,
        ldREG := true, drmux := false, ldCC := true }
  | s5 =>
      { sr2mux := ir5, sr1mux := true, aluk := 0b01#2, gateALU := true,
        ldREG := true, drmux := false, ldCC := true }
  | s9 =>
      { sr2mux := ir5, sr1mux := true, aluk := 0b10#2, gateALU := true,
        ldREG := true, drmux := false, ldCC := true }
  | s6 =>
      { gateMARMUX := true, addr1mux := true, addr2mux := 0b01#2, sr1mux := true,
        ldREG := false, ldMAR := true }
  | s25_1 => { memOE := true }
  | s25_2 => { memOE := true }
  | s25_3 => { memOE := true }
  | s25_4 => { ldMDR := true, memOE := true }
  | s27 =>
      { ldMDR := false, gateMDR := true, ldCC := true, ldREG := true,
        drmux := false }
  | s7 =>
      { gateMARMUX := true, addr1mux := true, addr2mux := 0b01#2, sr1mux := true,
        ldMAR := true }
  | s23 =>
      { sr1mux := false, addr1mux := true, addr2mux := 0b00#2, gateMARMUX := true,
        ldMDR := true }
  | s16_1 => { memWE := true }
  | s16_2 => { memWE := true }
  | s16_3 => { memWE := true }
  | s16_4 => { memWE := true }
  | s4 => { gatePC := true, drmux := true, ldREG := true }
  | s21 => { addr1mux := false, addr2mux := 0b11#2, pcmux := 0b10#2, ldPC := true }
  | s12 =>
      { sr1mux := true, addr1mux := true, addr2mux := 0b00#2, pcmux := 0b10#2,
        ldPC := true }
  | s0 => { ldCC := true, ldBEN := true }
  | s22 => { addr1mux := false, addr2mux := 0b10#2, pcmux := 0b10#2, ldPC := true }

def step (reset run continue_ : Bool) (opcode : BitVec 4) (ben : Bool)
    (state : Isdu) : Isdu :=
  if reset then halted else nextState run continue_ opcode ben state

end Isdu

end DigitalSystems.Slc3
