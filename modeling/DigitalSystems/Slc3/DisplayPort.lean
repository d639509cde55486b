import DigitalSystems.Clocked.Latest
import DigitalSystems.Slc3.Assembler
import DigitalSystems.Slc3.Execute
import DigitalSystems.Slc3.ReadWindow

/-!
# The display port

A store to `xFFFF` reaches the display register.  `Mem2IO` does not gate the write
enable, so the store also reaches the memory, at the cell the truncated address
names.  The memory content is followed through a run by `settled`, the memory once
the store in progress is over.
-/

namespace DigitalSystems.Slc3.TestTop

/-- Effective address and value of the store that starts in this cycle. -/
def State.store? (state : State) : Option (Word × Word) :=
  if state.cpu.state = .s7 then
    some (state.cpu.base + state.cpu.irSext6, state.cpu.dest)
  else none

/-- The value stored at `cell` by a store to an address other than `xFFFF`. -/
def State.ordinaryStore? (cell : BitVec 8) (state : State) : Option Word :=
  match state.store? with
  | some (address, value) =>
      if address ≠ 0xFFFF#16 ∧ address.setWidth 8 = cell then some value else none
  | none => none

def State.Reads (state : State) : Prop :=
  state.cpu.state = .s33_4 ∨ state.cpu.state = .s25_4

/-- The memory once the store in progress is over. -/
def settled (state : State) : BitVec 8 → Word :=
  match state.cpu.state with
  | .s23 =>
      Function.update state.mem.memArray (state.cpu.mar.setWidth 8) state.cpu.dest
  | .s16_1 | .s16_2 | .s16_3 | .s16_4 =>
      Function.update state.mem.memArray (state.cpu.mar.setWidth 8) state.cpu.mdr
  | _ => state.mem.memArray

theorem settled_of_between {state : State}
    (between : state.cpu.state = .halted ∨ state.cpu.state = .s18) :
    settled state = state.mem.memArray := by
  rcases between with phase | phase <;> simp [settled, phase]

theorem settled_of_reads {state : State} (reads : state.Reads) :
    settled state = state.mem.memArray := by
  rcases reads with phase | phase <;> simp [settled, phase]

theorem settled_of_store {state : State} {address value : Word}
    (stores : state.store? = some (address, value)) :
    settled state = state.mem.memArray := by
  by_cases phase : state.cpu.state = .s7
  · simp [settled, phase]
  · simp [State.store?, phase] at stores

theorem settled_decode (opcode : BitVec 4) (state : State)
    (phase : state.cpu.state = Isdu.decode opcode) :
    settled state = state.mem.memArray := by
  unfold Isdu.decode at phase
  split at phase <;> simp [settled, phase]

theorem settled_transfer (input : Input) (state : State) :
    settled (transfer input state) =
      match state.store? with
      | some (address, value) =>
          Function.update (settled state) (address.setWidth 8) value
      | none => settled state := by
  obtain ⟨⟨phase, pc, mar, mdr, ir, registers, ⟨dout, flags⟩, hexData⟩, mem⟩ := state
  cases phase
  case halted =>
    cases pressed : input.run <;>
      simp [settled, transfer, memTransfer, cpuInput, Cpu.transfer, Cpu.oe, Cpu.we,
        Cpu.control, Isdu.control, State.store?, pressed]
  case pauseIR1 | pauseIR2 =>
    cases pressed : input.continue_ <;>
      simp [settled, transfer, memTransfer, cpuInput, Cpu.transfer, Cpu.oe, Cpu.we,
        Cpu.control, Isdu.control, State.store?, pressed]
  case s32 => exact settled_decode _ _ rfl
  case s0 => cases dout <;> rfl
  case s16_1 | s16_2 | s16_3 | s16_4 =>
    simp [settled, transfer, memTransfer, Cpu.transfer, Cpu.oe, Cpu.we, Cpu.control,
      Isdu.control, State.store?]
  all_goals rfl

theorem settled_transfer_of_repeats (input : Input) (state : State) (cell : BitVec 8)
    (repeats : ∀ value, state.store? = some (0xFFFF#16, value) →
      state.mem.memArray 255#8 = value) :
    settled (transfer input state) cell =
      (state.ordinaryStore? cell).getD (settled state cell) := by
  rw [settled_transfer, State.ordinaryStore?]
  cases stores : state.store? with
  | none => rfl
  | some store =>
      obtain ⟨address, value⟩ := store
      simp only
      by_cases hit : address.setWidth 8 = cell
      · subst hit
        by_cases port : address = 0xFFFF#16
        · subst port
          simp [settled_of_store stores, repeats value stores]
        · simp [port]
      · simp [hit, Function.update_of_ne (Ne.symm hit)]

section Run

variable {image : BitVec 8 → Word} {inputs : Nat → Input} {start : State}

/-- The word at `cell` as the stores to addresses other than `xFFFF` before cycle `t`
leave it. -/
def ordinaryWord (image : BitVec 8 → Word) (inputs : Nat → Input) (start : State)
    (cell : BitVec 8) (t : Nat) : Word :=
  (Clocked.latestBefore?
      (fun s => (Clocked.run (step image) inputs start s).ordinaryStore? cell) t).getD
    (start.mem.memArray cell)

/-- Up to cycle `n`, a store to `xFFFF` only reaches the display, and every word
fetched or loaded from another address is the one ordinary stores left there. -/
structure DisplaySeparate (image : BitVec 8 → Word) (inputs : Nat → Input)
    (start : State) (n : Nat) : Prop where
  store : ∀ t, t < n → ∀ value,
    (Clocked.run (step image) inputs start t).store? = some (0xFFFF#16, value) →
      (Clocked.run (step image) inputs start (t + 6)).cpu.hexData = value ∧
        (Clocked.run (step image) inputs start (t + 6)).mem.memArray =
          (Clocked.run (step image) inputs start t).mem.memArray
  read : ∀ t, t < n → (Clocked.run (step image) inputs start t).Reads →
    (Clocked.run (step image) inputs start t).cpu.mar ≠ 0xFFFF#16 →
      (Clocked.run (step image) inputs start (t + 1)).cpu.mdr =
        ordinaryWord image inputs start
          ((Clocked.run (step image) inputs start t).cpu.mar.setWidth 8) t

/-- Up to cycle `n`, every store to `xFFFF` repeats the word of cell 255. -/
def RepeatsCell (image : BitVec 8 → Word) (inputs : Nat → Input) (start : State)
    (n : Nat) : Prop :=
  ∀ t, t < n → ∀ value,
    (Clocked.run (step image) inputs start t).store? = some (0xFFFF#16, value) →
      (Clocked.run (step image) inputs start t).mem.memArray 255#8 = value

theorem run_store (running : ∀ t, (inputs t).reset = false) {t : Nat} {value : Word}
    (stores : (Clocked.run (step image) inputs start t).store? =
      some (0xFFFF#16, value)) :
    (Clocked.run (step image) inputs start (t + 6)).cpu.hexData = value ∧
      (Clocked.run (step image) inputs start (t + 6)).mem.memArray =
        Function.update (Clocked.run (step image) inputs start t).mem.memArray 255#8
          value := by
  rw [Clocked.run_add, run_eq_transfer image _ fun s => running (t + s)]
  generalize Clocked.run (step image) inputs start t = state at stores ⊢
  by_cases phase : state.cpu.state = .s7
  · simp only [State.store?, phase, if_true, Option.some.injEq, Prod.mk.injEq] at stores
    obtain ⟨port, stored⟩ := stores
    have effect := (completes_str (fun s => inputs (t + s)) state phase).effect
    rw [port, stored] at effect
    exact ⟨congrArg Isa.Arch.hexData effect, congrArg Isa.Arch.memory effect⟩
  · simp [State.store?, phase] at stores

theorem settled_run (running : ∀ t, (inputs t).reset = false)
    (between : start.cpu.state = .halted ∨ start.cpu.state = .s18) (cell : BitVec 8)
    (t : Nat) (repeats : RepeatsCell image inputs start t) :
    settled (Clocked.run (step image) inputs start t) cell =
      ordinaryWord image inputs start cell t := by
  rw [ordinaryWord, ← settled_of_between between]
  apply Clocked.observe_run_eq_latest (step image) inputs fun state => settled state cell
  intro s before
  rw [Clocked.run_succ, step_eq_transfer image _ _ (running s)]
  exact settled_transfer_of_repeats _ _ _ (repeats s before)

theorem mdr_of_reads (running : ∀ t, (inputs t).reset = false)
    (between : start.cpu.state = .halted ∨ start.cpu.state = .s18) {t : Nat}
    (reads : (Clocked.run (step image) inputs start t).Reads)
    (memory : (Clocked.run (step image) inputs start t).cpu.mar ≠ 0xFFFF#16) :
    (Clocked.run (step image) inputs start (t + 1)).cpu.mdr =
      (Clocked.run (step image) inputs start t).cell := by
  have latched : Latched (Clocked.run (step image) inputs start t) := by
    apply Clocked.run_invariant Latched (latched_of_between between)
    intro s state _
    rw [step_eq_transfer image _ _ (running s)]
    exact latched_transfer _ _
  rw [Clocked.run_succ, step_eq_transfer image _ _ (running t)]
  generalize Clocked.run (step image) inputs start t = state at reads memory latched ⊢
  have window : 1 ≤ state.cpu.state.requests := by
    rcases reads with phase | phase <;> simp [phase, Isdu.requests]
  rw [← latched window]
  rcases reads with phase | phase <;>
    simp [transfer, Cpu.transfer, phase, Cpu.readData, memory, cpuInput]

/-- The display port is separate from the memory, up to any cycle, if and only if
every store to it repeats the word that cell 255 holds. -/
theorem displaySeparate_iff_repeatsCell (image : BitVec 8 → Word) (inputs : Nat → Input)
    (running : ∀ t, (inputs t).reset = false) (start : State)
    (between : start.cpu.state = .halted ∨ start.cpu.state = .s18) (n : Nat) :
    DisplaySeparate image inputs start n ↔ RepeatsCell image inputs start n := by
  constructor
  · intro separate t bound value stores
    have kept := (separate.store t bound value stores).2
    rw [(run_store running stores).2] at kept
    rw [← kept, Function.update_self]
  · intro repeats
    constructor
    · intro t bound value stores
      have effect := run_store running stores
      refine ⟨effect.1, effect.2.trans ?_⟩
      rw [← repeats t bound value stores, Function.update_eq_self]
    · intro t bound reads memory
      rw [mdr_of_reads running between reads memory, State.cell, ← settled_of_reads reads]
      apply settled_run running between
      intro s before
      exact repeats s (Nat.lt_trans before bound)

end Run

def showZero : BitVec 8 → Word
  | 0#8 => Assembler.opSTR Assembler.r0 Assembler.r1 Assembler.outHEX
  | _ => 1#16

/-- The store clears cell 255 along with the display. -/
theorem showZero_not_separate :
    ¬ DisplaySeparate showZero (fun _ => .quiet) (.loaded showZero) 8 := by
  intro separate
  have kept := (separate.store 7 (by decide) 0#16 rfl).2
  exact absurd (congrFun kept 255#8) (by decide +kernel)

theorem displaySeparate_iff_repeatsCell_showZero :
    DisplaySeparate showZero (fun _ => .quiet) (.loaded showZero) 8 ↔
      RepeatsCell showZero (fun _ => .quiet) (.loaded showZero) 8 :=
  displaySeparate_iff_repeatsCell showZero (fun _ => .quiet) (fun _ => rfl)
    (.loaded showZero) (Or.inr rfl) 8

end DigitalSystems.Slc3.TestTop
