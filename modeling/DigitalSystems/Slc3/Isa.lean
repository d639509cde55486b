import DigitalSystems.Slc3.Datapath

/-!
# The SLC-3 instruction set

The programmer's view: decoded instructions and their effect on the program
counter, the registers, the condition codes, a 256-word memory and the display.
The effects are those of the instruction comments of the assembler package, but for
two that the datapath adds: `BR` reloads the condition codes from the undriven bus, and
`STR` to `xFFFF` also writes word 255.  Word addresses are taken modulo the memory size
and address `xFFFF` is the switches for a load and the display for a store.
-/

namespace DigitalSystems.Slc3.Isa

inductive Operand where
  | register (sr2 : BitVec 3)
  | immediate (imm5 : BitVec 5)
  deriving DecidableEq, Repr

inductive Instr where
  | add (dr sr1 : BitVec 3) (operand2 : Operand)
  | and (dr sr1 : BitVec 3) (operand2 : Operand)
  | not (dr sr : BitVec 3)
  | ldr (dr baseR : BitVec 3) (offset6 : BitVec 6)
  | str (sr baseR : BitVec 3) (offset6 : BitVec 6)
  | jsr (pcOffset11 : BitVec 11)
  | jmp (baseR : BitVec 3)
  | br (nzp : BitVec 3) (pcOffset9 : BitVec 9)
  | pse (ledVect12 : BitVec 12)
  | unassigned
  deriving DecidableEq, Repr

def decodeOperand (word : Word) : Operand :=
  if word.getLsbD 5 then .immediate (word.extractLsb' 0 5)
  else .register (word.extractLsb' 0 3)

def decode (word : Word) : Instr :=
  match word.extractLsb' 12 4 with
  | 0b0001#4 => .add (word.extractLsb' 9 3) (word.extractLsb' 6 3) (decodeOperand word)
  | 0b0101#4 => .and (word.extractLsb' 9 3) (word.extractLsb' 6 3) (decodeOperand word)
  | 0b1001#4 => .not (word.extractLsb' 9 3) (word.extractLsb' 6 3)
  | 0b0110#4 => .ldr (word.extractLsb' 9 3) (word.extractLsb' 6 3) (word.extractLsb' 0 6)
  | 0b0111#4 => .str (word.extractLsb' 9 3) (word.extractLsb' 6 3) (word.extractLsb' 0 6)
  | 0b0100#4 => .jsr (word.extractLsb' 0 11)
  | 0b1100#4 => .jmp (word.extractLsb' 6 3)
  | 0b0000#4 => .br (word.extractLsb' 9 3) (word.extractLsb' 0 9)
  | 0b1101#4 => .pse (word.extractLsb' 0 12)
  | _ => .unassigned

def signClass (value : Word) : Flags where
  n := decide (value.toInt < 0)
  z := decide (value = 0)
  p := decide (0 < value.toInt)

def Selects (nzp : BitVec 3) (flags : Flags) : Prop :=
  (nzp.getLsbD 2 = true ∧ flags.n = true) ∨ (nzp.getLsbD 1 = true ∧ flags.z = true) ∨
    (nzp.getLsbD 0 = true ∧ flags.p = true)

instance (nzp : BitVec 3) (flags : Flags) : Decidable (Selects nzp flags) :=
  inferInstanceAs (Decidable (_ ∨ _ ∨ _))

/-- The state a program can observe. -/
@[ext]
structure Arch where
  pc : Word
  register : RegisterFile
  flags : Flags
  memory : BitVec 8 → Word
  hexData : Word

/-- What the outside world shows the processor during one instruction: the
switches at the end of the fetch and of a load, and the word on the bus in the
cycle in which a branch leaves it undriven. -/
structure Env where
  fetchSwitches : BitVec 10
  loadSwitches : BitVec 10
  undriven : Word

namespace Arch

def operand (arch : Arch) : Operand → Word
  | .register sr2 => arch.register sr2
  | .immediate imm5 => imm5.signExtend 16

def read (arch : Arch) (switches : BitVec 10) (address : Word) : Word :=
  if address = 0xFFFF#16 then switches.setWidth 16
  else arch.memory (address.setWidth 8)

/-- The memory cell is written at every address, the display only at `xFFFF`. -/
def write (arch : Arch) (address value : Word) : Arch :=
  { arch with
    memory := Function.update arch.memory (address.setWidth 8) value
    hexData := if address = 0xFFFF#16 then value else arch.hexData }

def writeRegister (arch : Arch) (dr : BitVec 3) (value : Word) : Arch :=
  { arch with register := Function.update arch.register dr value }

def result (arch : Arch) (dr : BitVec 3) (value : Word) : Arch :=
  { arch.writeRegister dr value with flags := signClass value }

/-- The effect of an instruction whose fetch has already advanced `pc`.  A branch
does not preserve the flags: it loads them from the undriven bus. -/
def exec (arch : Arch) (env : Env) : Instr → Arch
  | .add dr sr1 operand2 => arch.result dr (arch.register sr1 + arch.operand operand2)
  | .and dr sr1 operand2 => arch.result dr (arch.register sr1 &&& arch.operand operand2)
  | .not dr sr => arch.result dr (~~~arch.register sr)
  | .ldr dr baseR offset6 =>
      arch.result dr
        (arch.read env.loadSwitches (arch.register baseR + offset6.signExtend 16))
  | .str sr baseR offset6 =>
      arch.write (arch.register baseR + offset6.signExtend 16) (arch.register sr)
  | .jsr pcOffset11 =>
      { arch.writeRegister 0b111#3 arch.pc with
        pc := arch.pc + pcOffset11.signExtend 16 }
  | .jmp baseR => { arch with pc := arch.register baseR }
  | .br nzp pcOffset9 =>
      { arch with
        pc := if Selects nzp arch.flags then arch.pc + pcOffset9.signExtend 16 else arch.pc
        flags := signClass env.undriven }
  | .pse _ => arch
  | .unassigned => arch

def fetched (arch : Arch) (env : Env) : Word := arch.read env.fetchSwitches arch.pc

def step (arch : Arch) (env : Env) : Arch :=
  { arch with pc := arch.pc + 1#16 }.exec env (decode (arch.fetched env))

end Arch

/-- A pause of `cycles` cycles: `Continue` is sampled low for a while, then high,
stays high for a while, and the last sample is low again. -/
def PauseLasts (continue_ : Nat → Bool) (cycles : Nat) : Prop :=
  ∃ up down, cycles = up + down + 2 ∧ (∀ t, t < up → continue_ t = false) ∧
    (∀ t, up ≤ t → t ≤ up + down → continue_ t = true) ∧
    continue_ (up + down + 1) = false

/-- Cycles an instruction takes after its seven fetch and decode cycles.
`continue_ t` is the `Continue` sample of the `t`-th of these cycles. -/
def ExecLasts (flags : Flags) (continue_ : Nat → Bool) (cycles : Nat) : Instr → Prop
  | .add .. => cycles = 1
  | .and .. => cycles = 1
  | .not .. => cycles = 1
  | .ldr .. => cycles = 6
  | .str .. => cycles = 6
  | .jsr .. => cycles = 2
  | .jmp .. => cycles = 1
  | .br nzp _ => cycles = if Selects nzp flags then 2 else 1
  | .pse _ => PauseLasts continue_ cycles
  | .unassigned => cycles = 0

theorem ofWord_eq_signClass (word : Word) : Flags.ofWord word = signClass word := by
  have negative : word.msb = true ↔ word.toInt < 0 := BitVec.msb_eq_toInt ▸ decide_eq_true_iff
  by_cases zero : word = 0#16
  · subst zero
    rfl
  · have nonzero : word.toInt ≠ 0 := fun equal => zero (BitVec.eq_of_toInt_eq equal)
    by_cases sign : word.toInt < 0
    · simp [Flags.ofWord, signClass, zero, negative.mpr sign, sign, Int.le_of_lt sign]
    · have positive : 0 < word.toInt := by omega
      have cleared : word.msb = false := by
        rw [← Bool.not_eq_true, negative]
        exact sign
      simp [Flags.ofWord, signClass, zero, cleared, positive, Int.le_of_lt positive]

theorem selected_eq_true_iff (flags : Flags) (nzp : BitVec 3) :
    flags.selected nzp = true ↔ Selects nzp flags := by
  simp [Flags.selected, Selects, or_assoc]

end DigitalSystems.Slc3.Isa
