import DigitalSystems.Slc3.Fetches
import DigitalSystems.Slc3.MemoryContents
import DigitalSystems.Slc3.MemoryEquivalence

/-!
# Stepping through the shipped programs

A program is executed symbolically on states whose eight registers are spelled out,
one instruction of the shipped image at a time.
-/

namespace DigitalSystems.Slc3.Isa

universe u

/-- A register file by its eight registers. -/
def file (r0 r1 r2 r3 r4 r5 r6 r7 : Word) : RegisterFile
  | 0#3 => r0
  | 1#3 => r1
  | 2#3 => r2
  | 3#3 => r3
  | 4#3 => r4
  | 5#3 => r5
  | 6#3 => r6
  | _ => r7

theorem eq_file (register : RegisterFile) :
    register = file (register 0#3) (register 1#3) (register 2#3) (register 3#3)
      (register 4#3) (register 5#3) (register 6#3) (register 7#3) := by
  funext ⟨⟨number, bound⟩⟩
  interval_cases number <;> rfl

section File

variable (r0 r1 r2 r3 r4 r5 r6 r7 value : Word)

@[simp] theorem file_r0 : file r0 r1 r2 r3 r4 r5 r6 r7 0#3 = r0 := rfl
@[simp] theorem file_r1 : file r0 r1 r2 r3 r4 r5 r6 r7 1#3 = r1 := rfl
@[simp] theorem file_r2 : file r0 r1 r2 r3 r4 r5 r6 r7 2#3 = r2 := rfl
@[simp] theorem file_r3 : file r0 r1 r2 r3 r4 r5 r6 r7 3#3 = r3 := rfl
@[simp] theorem file_r4 : file r0 r1 r2 r3 r4 r5 r6 r7 4#3 = r4 := rfl
@[simp] theorem file_r5 : file r0 r1 r2 r3 r4 r5 r6 r7 5#3 = r5 := rfl
@[simp] theorem file_r6 : file r0 r1 r2 r3 r4 r5 r6 r7 6#3 = r6 := rfl
@[simp] theorem file_r7 : file r0 r1 r2 r3 r4 r5 r6 r7 7#3 = r7 := rfl

@[simp] theorem update_file_r0 : Function.update (file r0 r1 r2 r3 r4 r5 r6 r7) 0#3 value =
    file value r1 r2 r3 r4 r5 r6 r7 := eq_file _
@[simp] theorem update_file_r1 : Function.update (file r0 r1 r2 r3 r4 r5 r6 r7) 1#3 value =
    file r0 value r2 r3 r4 r5 r6 r7 := eq_file _
@[simp] theorem update_file_r2 : Function.update (file r0 r1 r2 r3 r4 r5 r6 r7) 2#3 value =
    file r0 r1 value r3 r4 r5 r6 r7 := eq_file _
@[simp] theorem update_file_r3 : Function.update (file r0 r1 r2 r3 r4 r5 r6 r7) 3#3 value =
    file r0 r1 r2 value r4 r5 r6 r7 := eq_file _
@[simp] theorem update_file_r4 : Function.update (file r0 r1 r2 r3 r4 r5 r6 r7) 4#3 value =
    file r0 r1 r2 r3 value r5 r6 r7 := eq_file _
@[simp] theorem update_file_r5 : Function.update (file r0 r1 r2 r3 r4 r5 r6 r7) 5#3 value =
    file r0 r1 r2 r3 r4 value r6 r7 := eq_file _
@[simp] theorem update_file_r6 : Function.update (file r0 r1 r2 r3 r4 r5 r6 r7) 6#3 value =
    file r0 r1 r2 r3 r4 r5 value r7 := eq_file _
@[simp] theorem update_file_r7 : Function.update (file r0 r1 r2 r3 r4 r5 r6 r7) 7#3 value =
    file r0 r1 r2 r3 r4 r5 r6 value := eq_file _

end File

section Flags

variable {value : Word}

theorem signClass_n : (signClass value).n = true ↔ value.toInt < 0 := decide_eq_true_iff

theorem signClass_z : (signClass value).z = true ↔ value.toInt = 0 :=
  decide_eq_true_iff.trans BitVec.toInt_inj.symm

theorem signClass_p : (signClass value).p = true ↔ 0 < value.toInt := decide_eq_true_iff

theorem selects_n : Selects 0b100#3 (signClass value) ↔ value.toInt < 0 := by
  simp [Selects, signClass_n]

theorem selects_z : Selects 0b010#3 (signClass value) ↔ value.toInt = 0 := by
  simp [Selects, signClass_z]

theorem selects_p : Selects 0b001#3 (signClass value) ↔ 0 < value.toInt := by
  simp [Selects, signClass_p]

theorem selects_nz : Selects 0b110#3 (signClass value) ↔ value.toInt ≤ 0 := by
  simp [Selects, signClass_n, signClass_z]
  omega

theorem selects_np : Selects 0b101#3 (signClass value) ↔ value.toInt ≠ 0 := by
  simp [Selects, signClass_n, signClass_p]

/-- Exactly one flag is set, so that an unconditional branch is always taken. -/
theorem selects_nzp : Selects 0b111#3 (signClass value) := by
  simp [Selects, signClass_n, signClass_z, signClass_p]
  omega

end Flags

section Exec

variable (pc : Word) (register : RegisterFile) (flags : Flags) (memory : BitVec 8 → Word)
  (hexData : Word) (env : Env)

namespace Arch

theorem exec_add (dr sr1 sr2 : BitVec 3) :
    exec ⟨pc, register, flags, memory, hexData⟩ env (.add dr sr1 (.register sr2)) =
      ⟨pc, Function.update register dr (register sr1 + register sr2),
        signClass (register sr1 + register sr2), memory, hexData⟩ := rfl

theorem exec_addi (dr sr : BitVec 3) (imm5 : BitVec 5) :
    exec ⟨pc, register, flags, memory, hexData⟩ env (.add dr sr (.immediate imm5)) =
      ⟨pc, Function.update register dr (register sr + imm5.signExtend 16),
        signClass (register sr + imm5.signExtend 16), memory, hexData⟩ := rfl

theorem exec_and (dr sr1 sr2 : BitVec 3) :
    exec ⟨pc, register, flags, memory, hexData⟩ env (.and dr sr1 (.register sr2)) =
      ⟨pc, Function.update register dr (register sr1 &&& register sr2),
        signClass (register sr1 &&& register sr2), memory, hexData⟩ := rfl

theorem exec_andi (dr sr : BitVec 3) (imm5 : BitVec 5) :
    exec ⟨pc, register, flags, memory, hexData⟩ env (.and dr sr (.immediate imm5)) =
      ⟨pc, Function.update register dr (register sr &&& imm5.signExtend 16),
        signClass (register sr &&& imm5.signExtend 16), memory, hexData⟩ := rfl

theorem exec_not (dr sr : BitVec 3) :
    exec ⟨pc, register, flags, memory, hexData⟩ env (.not dr sr) =
      ⟨pc, Function.update register dr (~~~register sr), signClass (~~~register sr), memory,
        hexData⟩ := rfl

theorem exec_ldr (dr baseR : BitVec 3) (offset6 : BitVec 6) :
    exec ⟨pc, register, flags, memory, hexData⟩ env (.ldr dr baseR offset6) =
      let value := read ⟨pc, register, flags, memory, hexData⟩ env.loadSwitches
        (register baseR + offset6.signExtend 16)
      ⟨pc, Function.update register dr value, signClass value, memory, hexData⟩ := rfl

theorem exec_str (sr baseR : BitVec 3) (offset6 : BitVec 6) :
    exec ⟨pc, register, flags, memory, hexData⟩ env (.str sr baseR offset6) =
      write ⟨pc, register, flags, memory, hexData⟩ (register baseR + offset6.signExtend 16)
        (register sr) := rfl

theorem exec_jsr (pcOffset11 : BitVec 11) :
    exec ⟨pc, register, flags, memory, hexData⟩ env (.jsr pcOffset11) =
      ⟨pc + pcOffset11.signExtend 16, Function.update register 7#3 pc, flags, memory,
        hexData⟩ := rfl

theorem exec_jmp (baseR : BitVec 3) :
    exec ⟨pc, register, flags, memory, hexData⟩ env (.jmp baseR) =
      ⟨register baseR, register, flags, memory, hexData⟩ := rfl

theorem exec_br (nzp : BitVec 3) (pcOffset9 : BitVec 9) :
    exec ⟨pc, register, flags, memory, hexData⟩ env (.br nzp pcOffset9) =
      ⟨if Selects nzp flags then pc + pcOffset9.signExtend 16 else pc, register,
        signClass env.undriven, memory, hexData⟩ := rfl

theorem exec_pse (ledVect12 : BitVec 12) :
    exec ⟨pc, register, flags, memory, hexData⟩ env (.pse ledVect12) =
      ⟨pc, register, flags, memory, hexData⟩ := rfl

end Arch

end Exec

/-- The flags are those of some word, whatever is executed. -/
theorem signed_execute (env : Env) {arch : Arch}
    (signed : ∃ value, arch.flags = signClass value) :
    ∃ value, (execute env arch).flags = signClass value := by
  rw [execute, Arch.step]
  cases decode (arch.fetched env) with
  | str sr baseR offset6 => exact signed
  | jsr pcOffset11 => exact signed
  | jmp baseR => exact signed
  | pse ledVect12 => exact signed
  | unassigned => exact signed
  | _ => exact ⟨_, rfl⟩

namespace Arch

variable {pc : Word} {register : RegisterFile} {flags : Flags} {memory : BitVec 8 → Word}
  {hexData : Word}

theorem read_port (switches : BitVec 10) :
    read ⟨pc, register, flags, memory, hexData⟩ switches 0xFFFF#16 = switches.setWidth 16 :=
  if_pos rfl

theorem read_memory (switches : BitVec 10) {address : Word} (other : address ≠ 0xFFFF#16) :
    read ⟨pc, register, flags, memory, hexData⟩ switches address =
      memory (address.setWidth 8) := if_neg other

theorem write_memory (value : Word) {address : Word} (other : address ≠ 0xFFFF#16) :
    write ⟨pc, register, flags, memory, hexData⟩ address value =
      ⟨pc, register, flags, Function.update memory (address.setWidth 8) value, hexData⟩ := by
  rw [write, if_neg other]

/-- The display shows what is stored at the port; the memory cell is written as well. -/
theorem write_port (value : Word) :
    write ⟨pc, register, flags, memory, hexData⟩ 0xFFFF#16 value =
      ⟨pc, register, flags, Function.update memory 0xFF#8 value, value⟩ := rfl

end Arch

/-- A load or a store is at an address that both memories resolve alike. -/
def Instr.Accesses (register : RegisterFile) : Instr → Prop
  | .ldr _ baseR offset6 =>
      MemoryEquivalence.Common (register baseR + offset6.signExtend 16)
  | .str _ baseR offset6 =>
      MemoryEquivalence.Common (register baseR + offset6.signExtend 16)
  | _ => True

/-- The switches and the display, from the base register. -/
theorem common_port : MemoryEquivalence.Common (0#16 + (-1#6).signExtend 16) := by decide

/-- Both memories hold what the next instruction touches. -/
structure Arch.Contained (arch : Arch) : Prop where
  pc : MemoryEquivalence.Common arch.pc
  accesses : ∀ env, (decode (arch.fetched env)).Accesses arch.register

/-- At the addresses of one program, and not about to pause. -/
structure Arch.Within (first last : BitVec 8) (arch : Arch) : Prop where
  plain : arch.Plain
  accesses : ∀ env, (decode (arch.fetched env)).Accesses arch.register
  above : first.setWidth 16 ≤ arch.pc
  below : arch.pc ≤ last.setWidth 16

theorem Arch.Within.contained {first last : BitVec 8} {arch : Arch}
    (within : arch.Within first last) (inside : last ≤ 254#8) : arch.Contained := by
  refine ⟨Or.inl ?_, within.accesses⟩
  have below := BitVec.le_def.mp within.below
  rw [BitVec.toNat_setWidth_of_le (by decide)] at below
  exact Nat.le_trans below (BitVec.le_def.mp inside)

/-- The address `pc` holds `instr` in the shipped image, between `first` and `last`. -/
def ShippedAt (first last : BitVec 8) (pc : Word) (instr : Instr) : Prop :=
  pc ≠ 0xFFFF#16 ∧ first ≤ pc.setWidth 8 ∧ pc.setWidth 8 ≤ last ∧
    decode (memoryContents (pc.setWidth 8)) = instr

instance (first last : BitVec 8) (pc : Word) (instr : Instr) :
    Decidable (ShippedAt first last pc instr) :=
  inferInstanceAs (Decidable (_ ∧ _ ∧ _ ∧ _))

section Step

variable {first last : BitVec 8} {pc : Word} {register : RegisterFile} {flags : Flags}
  {memory : BitVec 8 → Word} {hexData : Word}

theorem decode_fetched (shipped : Shipped first last memory) {instr : Instr}
    (held : ShippedAt first last pc instr) (env : Env) :
    decode (Arch.fetched ⟨pc, register, flags, memory, hexData⟩ env) = instr := by
  obtain ⟨port, above, below, word⟩ := held
  rw [← word, ← shipped _ above below]
  exact congrArg decode (if_neg port)

theorem execute_shipped (shipped : Shipped first last memory) (instr : Instr)
    (held : ShippedAt first last pc instr) (env : Env) :
    execute env ⟨pc, register, flags, memory, hexData⟩ =
      Arch.exec ⟨pc + 1#16, register, flags, memory, hexData⟩ env instr := by
  rw [execute, Arch.step, decode_fetched shipped held]

theorem inevitable_shipped {Goal : Arch → Prop} (shipped : Shipped first last memory)
    (instr : Instr) (held : ShippedAt first last pc instr)
    (inside : first.setWidth 16 ≤ pc ∧ pc ≤ last.setWidth 16) (plain : ¬ instr.Pauses)
    (accesses : instr.Accesses register)
    (rest : ∀ env, Clocked.Inevitable execute (Arch.Within first last) Goal
      (Arch.exec ⟨pc + 1#16, register, flags, memory, hexData⟩ env instr)) :
    Clocked.Inevitable execute (Arch.Within first last) Goal
      ⟨pc, register, flags, memory, hexData⟩ := by
  refine .next ⟨?_, ?_, inside.1, inside.2⟩ fun env => ?_
  · intro env
    rwa [decode_fetched shipped held]
  · intro env
    rwa [decode_fetched shipped held]
  · rw [execute_shipped shipped instr held]
    exact rest env

theorem traced_shipped {Trace : Type u} (record : Env → Arch → Trace → Trace)
    (shipped : Shipped first last memory) (instr : Instr)
    (held : ShippedAt first last pc instr) (trace : Trace) (env : Env) :
    Clocked.traced execute record env (⟨pc, register, flags, memory, hexData⟩, trace) =
      (Arch.exec ⟨pc + 1#16, register, flags, memory, hexData⟩ env instr,
        record env ⟨pc, register, flags, memory, hexData⟩ trace) := by
  rw [Clocked.traced, execute_shipped shipped instr held]

end Step

end DigitalSystems.Slc3.Isa
