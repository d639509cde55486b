import DigitalSystems.Arith.SignedBits
import DigitalSystems.Slc3.Assembler
import DigitalSystems.Slc3.Cpu

/-!
# The assembler and the decoder

The controller and the datapath take the word that a function of `SLC3_2` builds apart
again: the operation in `S_32`, the register fields, the mode bit of `SR2MUX` and the
sign-extended immediates.
-/

namespace DigitalSystems.Slc3

namespace Assembler

inductive Source where
  | register (sr2 : BitVec 3)
  | immediate (imm5 : Int)

/-- An instruction in the terms of the package's comments: immediates are integers. -/
inductive Meaning where
  | add (dr sr1 : BitVec 3) (source : Source)
  | and (dr sr1 : BitVec 3) (source : Source)
  | not (dr sr : BitVec 3)
  | ldr (dr baseR : BitVec 3) (offset6 : Int)
  | str (sr baseR : BitVec 3) (offset6 : Int)
  | jsr (pcOffset11 : Int)
  | jmp (baseR : BitVec 3)
  | br (nzp : BitVec 3) (pcOffset9 : Int)
  | pse (ledVect12 : BitVec 12)

/-- A call of one of the functions. -/
inductive Call where
  | opCLR (dr : BitVec 3)
  | opAND (dr sr1 sr2 : BitVec 3)
  | opANDi (dr sr : BitVec 3) (imm5 : Int)
  | opADD (dr sr1 sr2 : BitVec 3)
  | opADDi (dr sr : BitVec 3) (imm5 : Int)
  | opINC (dr : BitVec 3)
  | opDEC (dr : BitVec 3)
  | opNOT (dr sr : BitVec 3)
  | opBR (condition : BitVec 3) (pcOffset9 : Int)
  | opJMP (baseR : BitVec 3)
  | opRET
  | opJSR (pcOffset11 : Int)
  | opLDR (dr baseR : BitVec 3) (offset6 : Int)
  | opSTR (sr baseR : BitVec 3) (offset6 : Int)
  | opPSE (ledVect12 : BitVec 12)

namespace Call

def word : Call → Word
  | opCLR dr => Assembler.opCLR dr
  | opAND dr sr1 sr2 => Assembler.opAND dr sr1 sr2
  | opANDi dr sr imm5 => Assembler.opANDi dr sr imm5
  | opADD dr sr1 sr2 => Assembler.opADD dr sr1 sr2
  | opADDi dr sr imm5 => Assembler.opADDi dr sr imm5
  | opINC dr => Assembler.opINC dr
  | opDEC dr => Assembler.opDEC dr
  | opNOT dr sr => Assembler.opNOT dr sr
  | opBR condition pcOffset9 => Assembler.opBR condition pcOffset9
  | opJMP baseR => Assembler.opJMP baseR
  | opRET => Assembler.opRET
  | opJSR pcOffset11 => Assembler.opJSR pcOffset11
  | opLDR dr baseR offset6 => Assembler.opLDR dr baseR offset6
  | opSTR sr baseR offset6 => Assembler.opSTR sr baseR offset6
  | opPSE ledVect12 => Assembler.opPSE ledVect12

/-- What the comment above the function says. -/
def comment : Call → Meaning
  | opCLR dr => .and dr dr (.register dr)
  | opAND dr sr1 sr2 => .and dr sr1 (.register sr2)
  | opANDi dr sr imm5 => .and dr sr (.immediate imm5)
  | opADD dr sr1 sr2 => .add dr sr1 (.register sr2)
  | opADDi dr sr imm5 => .add dr sr (.immediate imm5)
  | opINC dr => .add dr dr (.immediate 1)
  | opDEC dr => .add dr dr (.immediate (-1))
  | opNOT dr sr => .not dr sr
  | opBR condition pcOffset9 => .br condition pcOffset9
  | opJMP baseR => .jmp baseR
  | opRET => .jmp r7
  | opJSR pcOffset11 => .jsr pcOffset11
  | opLDR dr baseR offset6 => .ldr dr baseR offset6
  | opSTR sr baseR offset6 => .str sr baseR offset6
  | opPSE ledVect12 => .pse ledVect12

/-- The comments hold but for that of `opCLR`, which clears by an immediate zero. -/
def meaning : Call → Meaning
  | opCLR dr => .and dr dr (.immediate 0)
  | call => call.comment

end Call

end Assembler

namespace Cpu

open Assembler
open Arith (Carries)

/-- `SR2MUX` is on the second source. -/
def Selects (cpu : Cpu) : Source → Prop
  | .register sr2 => cpu.ir5 = false ∧ cpu.ir2to0 = sr2
  | .immediate imm5 => cpu.ir5 = true ∧ Carries 5 imm5 cpu.irSext5.toInt

/-- The word in `IR` decodes as `meaning`: the state that `S_32` branches to and the
fields that the datapath reads there. -/
def Decodes (cpu : Cpu) : Meaning → Prop
  | .add dr sr1 source =>
      Isdu.decode cpu.opcode = .s1 ∧ cpu.ir11to9 = dr ∧ cpu.ir8to6 = sr1 ∧
        cpu.Selects source
  | .and dr sr1 source =>
      Isdu.decode cpu.opcode = .s5 ∧ cpu.ir11to9 = dr ∧ cpu.ir8to6 = sr1 ∧
        cpu.Selects source
  | .not dr sr => Isdu.decode cpu.opcode = .s9 ∧ cpu.ir11to9 = dr ∧ cpu.ir8to6 = sr
  | .ldr dr baseR offset6 =>
      Isdu.decode cpu.opcode = .s6 ∧ cpu.ir11to9 = dr ∧ cpu.ir8to6 = baseR ∧
        Carries 6 offset6 cpu.irSext6.toInt
  | .str sr baseR offset6 =>
      Isdu.decode cpu.opcode = .s7 ∧ cpu.ir11to9 = sr ∧ cpu.ir8to6 = baseR ∧
        Carries 6 offset6 cpu.irSext6.toInt
  | .jsr pcOffset11 =>
      Isdu.decode cpu.opcode = .s4 ∧ Carries 11 pcOffset11 cpu.irSext11.toInt
  | .jmp baseR => Isdu.decode cpu.opcode = .s12 ∧ cpu.ir8to6 = baseR
  | .br nzp pcOffset9 =>
      Isdu.decode cpu.opcode = .s0 ∧ cpu.ir11to9 = nzp ∧
        Carries 9 pcOffset9 cpu.irSext9.toInt
  | .pse ledVect12 =>
      Isdu.decode cpu.opcode = .pauseIR1 ∧
        ({ cpu with state := .pauseIR1 } : Cpu).led = ledVect12.extractLsb' 0 10

section Layout

variable (op : BitVec 4) (dr sr sr2 : BitVec 3)

theorem fields_register :
    let word : Word := op ++ dr ++ sr ++ 0#3 ++ sr2
    word.extractLsb' 12 4 = op ∧ word.extractLsb' 9 3 = dr ∧ word.extractLsb' 6 3 = sr ∧
      word.getLsbD 5 = false ∧ word.extractLsb' 0 3 = sr2 := by
  intro word
  have mode : word.getLsbD 5 = false := by
    rw [BitVec.getLsbD_append, BitVec.getLsbD_append]
    rfl
  rw [mode]
  simp [word, -Nat.reduceAdd, BitVec.extractLsb'_append_eq_of_le,
    BitVec.extractLsb'_append_eq_of_add_le]

theorem fields_immediate (imm5 : BitVec 5) :
    let word : Word := op ++ dr ++ sr ++ 1#1 ++ imm5
    word.extractLsb' 12 4 = op ∧ word.extractLsb' 9 3 = dr ∧ word.extractLsb' 6 3 = sr ∧
      word.getLsbD 5 = true ∧ word.extractLsb' 0 5 = imm5 := by
  intro word
  have mode : word.getLsbD 5 = true := by
    rw [BitVec.getLsbD_append, BitVec.getLsbD_append]
    rfl
  rw [mode]
  simp [word, -Nat.reduceAdd, BitVec.extractLsb'_append_eq_of_le,
    BitVec.extractLsb'_append_eq_of_add_le]

theorem fields_offset6 (offset6 : BitVec 6) :
    let word : Word := op ++ dr ++ sr ++ offset6
    word.extractLsb' 12 4 = op ∧ word.extractLsb' 9 3 = dr ∧ word.extractLsb' 6 3 = sr ∧
      word.extractLsb' 0 6 = offset6 := by
  simp [-Nat.reduceAdd, BitVec.extractLsb'_append_eq_of_le,
    BitVec.extractLsb'_append_eq_of_add_le]

theorem fields_offset9 (pcOffset9 : BitVec 9) :
    let word : Word := op ++ dr ++ pcOffset9
    word.extractLsb' 12 4 = op ∧ word.extractLsb' 9 3 = dr ∧
      word.extractLsb' 0 9 = pcOffset9 := by
  simp [-Nat.reduceAdd, BitVec.extractLsb'_append_eq_of_le,
    BitVec.extractLsb'_append_eq_of_add_le]

theorem fields_offset11 (pcOffset11 : BitVec 11) :
    let word : Word := op ++ 1#1 ++ pcOffset11
    word.extractLsb' 12 4 = op ∧ word.extractLsb' 0 11 = pcOffset11 := by
  simp [-Nat.reduceAdd, BitVec.extractLsb'_append_eq_of_le,
    BitVec.extractLsb'_append_eq_of_add_le]

theorem fields_vector12 (ledVect12 : BitVec 12) :
    let word : Word := op ++ ledVect12
    word.extractLsb' 12 4 = op ∧ word.extractLsb' 0 10 = ledVect12.extractLsb' 0 10 := by
  simp [-Nat.reduceAdd, BitVec.extractLsb'_append_eq_of_le,
    BitVec.extractLsb'_append_eq_of_add_le]

end Layout

/-- An `integer` argument is wider than every field it is cut to. -/
theorem slice_eq_ofInt {width : Nat} (fits : width ≤ 32) (value : Int) :
    slice value width = BitVec.ofInt width value := by
  have divides : ((2 ^ width : Nat) : Int) ∣ (2 ^ 32 : Nat) :=
    Int.natCast_dvd_natCast.mpr (Nat.pow_dvd_pow 2 fits)
  apply BitVec.eq_of_toInt_eq
  rw [slice, ← BitVec.setWidth_eq_extractLsb' fits, BitVec.toInt_setWidth, BitVec.toInt_ofInt,
    BitVec.toNat_ofInt, Int.toNat_of_nonneg (Int.emod_nonneg _ (by decide)),
    ← Int.emod_bmod (value % _), Int.emod_emod_of_dvd value divides, Int.emod_bmod]

theorem carries_slice {width : Nat} (pos : 0 < width) (fits : width ≤ 16) {field : BitVec width}
    {value : Int} (filled : field = slice value width) :
    Carries width value (field.signExtend 16).toInt := by
  rw [filled, slice_eq_ofInt (Nat.le_trans fits (by decide))]
  exact Arith.carries_signExtend pos fits value

/-- The immediate form that `ADD` and `AND` share. -/
theorem decodes_immediate (cpu : Cpu) (op : BitVec 4) (dr sr : BitVec 3) (imm5 : Int) :
    let loaded : Cpu := { cpu with ir := op ++ dr ++ sr ++ 1#1 ++ slice imm5 5 }
    Isdu.decode loaded.opcode = Isdu.decode op ∧ loaded.ir11to9 = dr ∧ loaded.ir8to6 = sr ∧
      loaded.Selects (.immediate imm5) := by
  obtain ⟨opcode, dest, base, mode, low⟩ := fields_immediate op dr sr (slice imm5 5)
  exact ⟨congrArg Isdu.decode opcode, dest, base, mode,
    carries_slice (by decide) (by decide) low⟩

theorem decodes_register (cpu : Cpu) (op : BitVec 4) (dr sr1 sr2 : BitVec 3) :
    let loaded : Cpu := { cpu with ir := op ++ dr ++ sr1 ++ 0#3 ++ sr2 }
    Isdu.decode loaded.opcode = Isdu.decode op ∧ loaded.ir11to9 = dr ∧
      loaded.ir8to6 = sr1 ∧ loaded.Selects (.register sr2) := by
  obtain ⟨opcode, fields⟩ := fields_register op dr sr1 sr2
  exact ⟨congrArg Isdu.decode opcode, fields⟩

/-- The form that the loads and stores share. -/
theorem decodes_offset6 (cpu : Cpu) (op : BitVec 4) (dr baseR : BitVec 3) (offset6 : Int) :
    let loaded : Cpu := { cpu with ir := op ++ dr ++ baseR ++ slice offset6 6 }
    Isdu.decode loaded.opcode = Isdu.decode op ∧ loaded.ir11to9 = dr ∧
      loaded.ir8to6 = baseR ∧ Carries 6 offset6 loaded.irSext6.toInt := by
  obtain ⟨opcode, dest, base, low⟩ := fields_offset6 op dr baseR (slice offset6 6)
  exact ⟨congrArg Isdu.decode opcode, dest, base, carries_slice (by decide) (by decide) low⟩

/-- Every function of `SLC3_2` builds a word that the hardware decodes as its comment
says, `opCLR` as its name says. -/
theorem decodes_word (cpu : Cpu) (call : Call) :
    ({ cpu with ir := call.word } : Cpu).Decodes call.meaning := by
  cases call with
  | opCLR dr => exact decodes_immediate cpu op_AND dr dr 0
  | opAND dr sr1 sr2 => exact decodes_register cpu op_AND dr sr1 sr2
  | opANDi dr sr imm5 => exact decodes_immediate cpu op_AND dr sr imm5
  | opADD dr sr1 sr2 => exact decodes_register cpu op_ADD dr sr1 sr2
  | opADDi dr sr imm5 => exact decodes_immediate cpu op_ADD dr sr imm5
  | opINC dr => exact decodes_immediate cpu op_ADD dr dr 1
  | opDEC dr => exact decodes_immediate cpu op_ADD dr dr (-1)
  | opNOT dr sr =>
      obtain ⟨opcode, dest, base, _⟩ := fields_offset6 op_NOT dr sr ((0b1#5).setWidth 6)
      exact ⟨congrArg Isdu.decode opcode, dest, base⟩
  | opBR condition pcOffset9 =>
      obtain ⟨opcode, mask, low⟩ := fields_offset9 op_BR condition (slice pcOffset9 9)
      exact ⟨congrArg Isdu.decode opcode, mask, carries_slice (by decide) (by decide) low⟩
  | opJMP baseR =>
      obtain ⟨opcode, _, base, _⟩ := fields_offset6 op_JMP 0#3 baseR 0#6
      exact ⟨congrArg Isdu.decode opcode, base⟩
  | opRET =>
      obtain ⟨opcode, _, base, _⟩ := fields_offset6 op_JMP 0#3 r7 0#6
      exact ⟨congrArg Isdu.decode opcode, base⟩
  | opJSR pcOffset11 =>
      obtain ⟨opcode, low⟩ := fields_offset11 op_JSR (slice pcOffset11 11)
      exact ⟨congrArg Isdu.decode opcode, carries_slice (by decide) (by decide) low⟩
  | opLDR dr baseR offset6 => exact decodes_offset6 cpu op_LDR dr baseR offset6
  | opSTR sr baseR offset6 => exact decodes_offset6 cpu op_STR sr baseR offset6
  | opPSE ledVect12 =>
      obtain ⟨opcode, shown⟩ := fields_vector12 op_PSE ledVect12
      exact ⟨congrArg Isdu.decode opcode, shown⟩

/-- The comment of `opCLR` has the register form; the word is in the immediate form. -/
theorem opCLR_not_as_commented :
    ¬ ({ Cpu.blank .s32 with ir := (Call.opCLR r1).word } : Cpu).Decodes
      (Call.opCLR r1).comment := by
  rintro ⟨-, -, -, mode, -⟩
  exact absurd mode (by decide)

end Cpu

end DigitalSystems.Slc3
