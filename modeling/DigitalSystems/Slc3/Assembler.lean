import DigitalSystems.Slc3.Datapath

/-!
# The assembler package `SLC3_2`

One function for each mnemonic, filling the fields of the instruction word.  An
`integer` argument is 32 bits wide and is cut to its field.
-/

namespace DigitalSystems.Slc3.Assembler

def op_ADD : BitVec 4 := 0b0001#4
def op_AND : BitVec 4 := 0b0101#4
def op_NOT : BitVec 4 := 0b1001#4
def op_BR : BitVec 4 := 0b0000#4
def op_JMP : BitVec 4 := 0b1100#4
def op_JSR : BitVec 4 := 0b0100#4
def op_LDR : BitVec 4 := 0b0110#4
def op_STR : BitVec 4 := 0b0111#4
def op_PSE : BitVec 4 := 0b1101#4

/-- "Branch never"; the source writes 15 bits, extended by a zero. -/
def noOp : Word := (0#15).setWidth 16

def r0 : BitVec 3 := 0b000#3
def r1 : BitVec 3 := 0b001#3
def r2 : BitVec 3 := 0b010#3
def r3 : BitVec 3 := 0b011#3
def r4 : BitVec 3 := 0b100#3
def r5 : BitVec 3 := 0b101#3
def r6 : BitVec 3 := 0b110#3
def r7 : BitVec 3 := 0b111#3

def p : BitVec 3 := 0b001#3
def z : BitVec 3 := 0b010#3
def zp : BitVec 3 := 0b011#3
def n : BitVec 3 := 0b100#3
def np : BitVec 3 := 0b101#3
def nz : BitVec 3 := 0b110#3
def nzp : BitVec 3 := 0b111#3

def outHEX : Int := -1
def inSW : Int := -1

def slice (value : Int) (width : Nat) : BitVec width :=
  (BitVec.ofInt 32 value).extractLsb' 0 width

def opCLR (dr : BitVec 3) : Word := op_AND ++ dr ++ dr ++ 1#1 ++ 0#5

def opAND (dr sr1 sr2 : BitVec 3) : Word := op_AND ++ dr ++ sr1 ++ 0#3 ++ sr2

def opANDi (dr sr : BitVec 3) (imm5 : Int) : Word :=
  op_AND ++ dr ++ sr ++ 1#1 ++ slice imm5 5

def opADD (dr sr1 sr2 : BitVec 3) : Word := op_ADD ++ dr ++ sr1 ++ 0#3 ++ sr2

def opADDi (dr sr : BitVec 3) (imm5 : Int) : Word :=
  op_ADD ++ dr ++ sr ++ 1#1 ++ slice imm5 5

def opINC (dr : BitVec 3) : Word := op_ADD ++ dr ++ dr ++ 1#1 ++ slice 1 5

def opDEC (dr : BitVec 3) : Word := op_ADD ++ dr ++ dr ++ 1#1 ++ slice (-1) 5

/-- The six low bits receive the five-bit literal `5'b1`. -/
def opNOT (dr sr : BitVec 3) : Word := op_NOT ++ dr ++ sr ++ (0b1#5).setWidth 6

def opBR (condition : BitVec 3) (pcOffset9 : Int) : Word :=
  op_BR ++ condition ++ slice pcOffset9 9

def opJMP (baseR : BitVec 3) : Word := op_JMP ++ 0#3 ++ baseR ++ 0#6

def opRET : Word := op_JMP ++ 0#3 ++ r7 ++ 0#6

def opJSR (pcOffset11 : Int) : Word := op_JSR ++ 1#1 ++ slice pcOffset11 11

def opLDR (dr baseR : BitVec 3) (offset6 : Int) : Word :=
  op_LDR ++ dr ++ baseR ++ slice offset6 6

def opSTR (sr baseR : BitVec 3) (offset6 : Int) : Word :=
  op_STR ++ sr ++ baseR ++ slice offset6 6

def opPSE (ledVect12 : BitVec 12) : Word := op_PSE ++ ledVect12

end DigitalSystems.Slc3.Assembler
