import DigitalSystems.Slc3.Instantiateram
import Mathlib.Data.List.GetD

/-!
# The image `memory_contents`

The words that `test_memory` writes to `memory_contents.mif` and reads back.
-/

namespace DigitalSystems.Slc3

open Assembler in
/-- The assignments to `mem_array`, in order from address 0. -/
def memArray : List Word :=
  [
    -- 0: jump to the program selected on the switches
    opCLR r0, opLDR r1 r0 inSW, opJMP r1,
    -- 3: basic I/O test 1
    opLDR r1 r0 inSW, opSTR r1 r0 outHEX, opBR nzp (-3),
    -- 6: basic I/O test 2
    opPSE 0x801#12, opLDR r1 r0 inSW, opSTR r1 r0 outHEX, opPSE 0xC02#12, opBR nzp (-4),
    -- 11: basic I/O test 3, self-modifying
    opPSE 0x801#12, opJSR 0, opLDR r2 r7 3, opLDR r1 r0 inSW, opSTR r1 r0 outHEX,
    opPSE 0xC02#12, opINC r2, opSTR r2 r7 3, opBR nzp (-6),
    -- 20: XOR test
    opCLR r0, opPSE 0x801#12, opLDR r1 r0 inSW, opPSE 0x802#12, opLDR r2 r0 inSW,
    opNOT r3 r1, opAND r3 r3 r2, opNOT r3 r3, opNOT r4 r2, opAND r4 r4 r1, opNOT r4 r4,
    opAND r3 r3 r4, opNOT r3 r3, opSTR r3 r0 outHEX, opPSE 0x405#12, opBR nzp (-15), noOp,
    noOp, noOp, noOp, noOp, noOp,
    -- 42: run once test
    opCLR r0, opCLR r1, opJSR 0, opSTR r1 r0 outHEX, opPSE 0x401#12, opINC r1, opRET,
    -- 49: multiplier
    opCLR r0, opJSR 0, opLDR r3 r7 22, opCLR r4, opCLR r5, opPSE 0x801#12,
    opLDR r1 r0 inSW, opPSE 0x802#12, opLDR r2 r0 inSW, opADD r5 r5 r5, opAND r7 r3 r1,
    opBR z 1, opADD r5 r5 r2, opADDi r4 r4 0, opBR p 2, opNOT r5 r5, opINC r5, opINC r4,
    opADD r1 r1 r1, opADDi r7 r4 (-8), opBR n (-12), opSTR r5 r0 outHEX, opPSE 0x403#12,
    opBR nzp (-21), 0x0080#16,
    -- 74: data for the bubble sort
    0x00ef#16, 0x001b#16, 0x0001#16, 0x008c#16, 0x00db#16, 0x00fa#16, 0x0047#16,
    0x0046#16, 0x001f#16, 0x000d#16, 0x00b8#16, 0x0003#16, 0x006b#16, 0x004e#16,
    0x00f8#16, 0x0007#16,
    -- 90: bubble sort menu
    opCLR r0, opJSR 0, opADDi r6 r7 (-16), opADDi r6 r6 (-2), opPSE 0x3FF#12,
    opLDR r1 r0 inSW, opBR z (-3), opDEC r1, opBR np 2, opJSR 9, opBR nzp (-7), opDEC r1,
    opBR np 2, opJSR 15, opBR nzp (-11), opDEC r1, opBR np (-13), opJSR 29,
    opBR nzp (-15),
    -- 109: entry function
    opCLR r1, opSTR r1 r0 outHEX, opPSE 0xC01#12, opLDR r2 r0 inSW, opADD r5 r6 r1,
    opSTR r2 r5 0, opINC r1, opADDi r3 r1 (-16), opBR n (-8), opRET,
    -- 119: sort function
    opADDi r1 r0 (-16), opADDi r2 r0 1, opADD r3 r6 r2, opLDR r4 r3 (-1), opLDR r5 r3 0,
    opNOT r5 r5, opADDi r5 r5 1, opADD r5 r4 r5, opBR nz 3, opLDR r5 r3 0,
    opSTR r5 r3 (-1), opSTR r4 r3 0, opINC r2, opADD r3 r1 r2, opBR n (-13), opINC r1,
    opBR n (-16), opRET,
    -- 137: display function
    opCLR r1, opADD r4 r7 r0, opJSR 0, opADD r5 r7 r0, opADD r7 r4 r0, opLDR r3 r5 15,
    opADDi r2 r0 8, opADD r2 r2 r2, opADD r4 r6 r1, opLDR r4 r4 0, opSTR r4 r0 outHEX,
    opPSE 0x802#12, opADD r3 r3 r2, opSTR r3 r5 8, opINC r1, opADDi r4 r1 (-16),
    opBR n (-9), opRET, opPSE 0x802#12,
    -- 156: auto counter
    opCLR r0, opCLR r1, opCLR r2, opCLR r3, opJSR 0, opLDR r1 r7 12, opLDR r2 r7 13,
    opDEC r1, opBR z 1, opBR nzp (-3), opDEC r2, opBR z 2, opLDR r1 r7 12, opBR nzp (-7),
    opSTR r3 r0 outHEX, opINC r3, opBR nzp (-12),
    -- 173: its delay constants
    3#16, 3#16 ]

/-- The rest of the memory is assigned zero. -/
def memoryContents (address : BitVec 8) : Word := memArray.getD address.toNat 0x0#16

theorem memArray_eq_table : memArray = Instantiateram.table.take 173 ++ [3#16, 3#16] := by
  decide +kernel

/-- The board's boot loader and the simulation memory hold the same words, the delay
constants of the auto counter apart. -/
theorem memoryContents_eq_data (address : BitVec 8)
    (program : address ≠ 173#8 ∧ address ≠ 174#8) :
    memoryContents address = Instantiateram.data (address.setWidth 16) := by
  have same : (address.setWidth 16).toNat = address.toNat :=
    BitVec.toNat_setWidth_of_le (by decide)
  have first : address.toNat ≠ 173 := fun equal => program.1 (BitVec.eq_of_toNat_eq equal)
  have second : address.toNat ≠ 174 := fun equal => program.2 (BitVec.eq_of_toNat_eq equal)
  rw [memoryContents, Instantiateram.data, same, memArray_eq_table]
  rcases Nat.lt_or_ge address.toNat 173 with inside | behind
  · rw [List.getD_append _ _ _ _ inside]
    simp only [List.getD_eq_getElem?_getD, List.getElem?_take_of_lt inside]
  · have late : 175 ≤ address.toNat := by omega
    rw [List.getD_eq_default _ _ late, List.getD_eq_default _ _ late]

/-- The words from `first` to `last` are the shipped ones. -/
def Shipped (first last : BitVec 8) (memory : BitVec 8 → Word) : Prop :=
  ∀ address, first ≤ address → address ≤ last → memory address = memoryContents address

theorem Shipped.within {first last first' last' : BitVec 8} {memory : BitVec 8 → Word}
    (shipped : Shipped first last memory) (inside : first ≤ first' ∧ last' ≤ last) :
    Shipped first' last' memory := fun address above below =>
  shipped address (BitVec.le_trans inside.1 above) (BitVec.le_trans below inside.2)

theorem Shipped.update {first last address : BitVec 8} {memory : BitVec 8 → Word}
    (shipped : Shipped first last memory) (outside : address < first ∨ last < address)
    (value : Word) : Shipped first last (Function.update memory address value) := by
  intro other above below
  have apart : other ≠ address := by
    rintro rfl
    rcases outside with before | after
    · exact absurd above (BitVec.not_le.mpr before)
    · exact absurd below (BitVec.not_le.mpr after)
  rw [Function.update_of_ne apart]
  exact shipped other above below

end DigitalSystems.Slc3
