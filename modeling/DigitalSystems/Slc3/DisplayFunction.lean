import DigitalSystems.Slc3.Encoders
import DigitalSystems.Slc3.Operations
import DigitalSystems.Slc3.Programs

/-!
# The shipped display function

The routine at the addresses 137 to 154 shows sixteen words, with a pause after each.
It counts its pauses in the pause instruction itself: the word at 148 is rewritten after
every pause, and is left behind as the last round wrote it.
-/

namespace DigitalSystems.Slc3.DisplayFunction

open Isa Assembler
open Clocked (Inevitable)

/-- How many pauses have been fetched. -/
def record (env : Env) (arch : Arch) (pauses : Nat) : Nat :=
  if (decode (arch.fetched env)).Pauses then pauses + 1 else pauses

/-- The vector that the routine writes for word `i`. -/
def vector (i : Nat) : BitVec 12 := 0x802#12 + BitVec.ofNat 12 (16 * i)

/-- The vector of pause `i`; the first pause is the instruction found at the entry. -/
def checkpoint (first : BitVec 12) (i : Nat) : BitVec 12 := if i = 0 then first else vector i

/-- The routine with `pause` in its pause instruction, and its data. -/
structure Holds (data : Nat → Word) (pause : BitVec 12) (memory : BitVec 8 → Word) : Prop where
  before : Shipped 137#8 147#8 memory
  after : Shipped 149#8 155#8 memory
  pause : memory 148#8 = opPSE pause
  data : ∀ i, i < 16 → memory (BitVec.ofNat 8 (74 + i)) = data i

/-- About to execute the return. -/
structure AtReturn (back : Word) (state : Arch × Nat) : Prop where
  address : state.1.pc = 154#16
  back : state.1.register 7#3 = back
  pauses : state.2 = 16
  before : Shipped 137#8 147#8 state.1.memory
  after : Shipped 149#8 155#8 state.1.memory
  pause : state.1.memory 148#8 = opPSE (vector 16)

/-- On the way to the return: the only pause is at 148, where the data is shown. -/
structure Underway (first : BitVec 12) (data : Nat → Word) (state : Arch × Nat) : Prop where
  inside : state.1.pc ≠ 154#16
  plain : state.1.pc ≠ 148#16 → state.1.Plain
  shows : state.1.pc = 148#16 →
    state.2 < 16 ∧ state.1.hexData = data state.2 ∧
      state.1.memory 148#8 = opPSE (checkpoint first state.2)

abbrev Displays (first : BitVec 12) (data : Nat → Word) (back : Word) : Arch × Nat → Prop :=
  Inevitable (Clocked.traced execute record) (Underway first data) (AtReturn back)

section Words

theorem decode_opPSE (ledVect12 : BitVec 12) : decode (opPSE ledVect12) = .pse ledVect12 := by
  have opcode : (opPSE ledVect12).extractLsb' 12 4 = 0b1101#4 := BitVec.extractLsb'_append_eq_left
  have low : (opPSE ledVect12).extractLsb' 0 12 = ledVect12 := BitVec.extractLsb'_append_eq_right
  rw [decode, opcode]
  exact congrArg Instr.pse low

/-- Adding 16 to the instruction moves its vector on. -/
theorem opPSE_vector_succ {i : Nat} (inside : i < 16) :
    opPSE (vector i) + 16#16 = opPSE (vector (i + 1)) := by
  interval_cases i <;> rfl

theorem counter_toInt_neg {i : Nat} (inside : i < 16) :
    (BitVec.ofNat 16 (i + 1) + 0xFFF0#16).toInt < 0 ↔ i + 1 < 16 := by
  interval_cases i <;> decide

end Words

section Memory

variable {data : Nat → Word} {pause : BitVec 12} {memory : BitVec 8 → Word} {i : Nat}

theorem toNat_address (inside : i < 16) : (BitVec.ofNat 8 (74 + i)).toNat = 74 + i := by
  rw [BitVec.toNat_ofNat]
  exact Nat.mod_eq_of_lt (by omega)

theorem Holds.read (held : Holds data pause memory) (inside : i < 16) {pc : Word}
    {register : RegisterFile} {flags : Flags} {hexData : Word} (switches : BitVec 10) :
    Arch.read ⟨pc, register, flags, memory, hexData⟩ switches (74#16 + BitVec.ofNat 16 i) =
      data i := by
  have address : 74#16 + BitVec.ofNat 16 i = BitVec.ofNat 16 (74 + i) := BitVec.ofNat_add_ofNat _ _
  have cell : (BitVec.ofNat 16 (74 + i)).setWidth 8 = BitVec.ofNat 8 (74 + i) :=
    BitVec.setWidth_ofNat_of_le (by decide) _
  have other : BitVec.ofNat 16 (74 + i) ≠ 0xFFFF#16 := by
    intro port
    rw [port] at cell
    have value := congrArg BitVec.toNat cell
    rw [toNat_address inside] at value
    change 255 = 74 + i at value
    omega
  rw [address, Arch.read_memory switches other, cell]
  exact held.data i inside

theorem common_address (inside : i < 16) :
    MemoryEquivalence.Common (74#16 + BitVec.ofNat 16 i + 0#16) := by
  refine Or.inl ?_
  rw [BitVec.add_zero, BitVec.ofNat_add_ofNat, BitVec.toNat_ofNat]
  omega

/-- A store behind the routine. -/
theorem Holds.update (held : Holds data pause memory) {address : BitVec 8}
    (behind : 155#8 < address) (value : Word) :
    Holds data pause (Function.update memory address value) := by
  refine ⟨held.before.update (Or.inr (BitVec.lt_trans (by decide) behind)) value,
    held.after.update (Or.inr behind) value, ?_, ?_⟩
  · rw [Function.update_of_ne (BitVec.ne_of_lt (BitVec.lt_trans (by decide) behind))]
    exact held.pause
  · intro i inside
    have apart : BitVec.ofNat 8 (74 + i) ≠ address := by
      rintro rfl
      rw [BitVec.lt_def, toNat_address inside] at behind
      change 155 < 74 + i at behind
      omega
    rw [Function.update_of_ne apart]
    exact held.data i inside

/-- The store of the routine to itself. -/
theorem Holds.rewrite (held : Holds data pause memory) (next : BitVec 12) :
    Holds data next (Function.update memory 148#8 (opPSE next)) := by
  refine ⟨held.before.update (Or.inr (by decide)) _, held.after.update (Or.inl (by decide)) _,
    Function.update_self _ _ _, ?_⟩
  intro i inside
  have apart : BitVec.ofNat 8 (74 + i) ≠ 148#8 := by
    intro equal
    have value := congrArg BitVec.toNat equal
    rw [toNat_address inside] at value
    change 74 + i = 148 at value
    omega
  rw [Function.update_of_ne apart]
  exact held.data i inside

end Memory

/-- An observer of the routine: what it records of a call is `trace i` after `i` pauses,
and what it wants to keep of the memory does not hang on the cells that the routine writes. -/
structure Observes {Trace : Type} (record : Env → Arch → Trace → Trace)
    (Through : Arch × Trace → Prop) (trace : Nat → Trace) (Kept : (BitVec 8 → Word) → Prop)
    (first : BitVec 12) (data : Nat → Word) : Prop where
  rest : ∀ arch i, arch.Within 137#8 153#8 → arch.pc ≠ 148#16 →
    Through (arch, trace i) ∧ ∀ env, record env arch (trace i) = trace i
  pause : ∀ arch i, i < 16 → arch.pc = 148#16 → arch.hexData = data i →
    arch.memory 148#8 = opPSE (checkpoint first i) → Kept arch.memory →
    Through (arch, trace i) ∧ ∀ env, record env arch (trace i) = trace (i + 1)
  kept : ∀ memory address value, address = 148#8 ∨ address = 255#8 → Kept memory →
    Kept (Function.update memory address value)

section Step

variable {Trace : Type} {record : Env → Arch → Trace → Trace} {Through Goal : Arch × Trace → Prop}
  {trace : Nat → Trace} {Kept : (BitVec 8 → Word) → Prop} {first : BitVec 12}
  {data : Nat → Word} {pc : Word} {register : RegisterFile} {flags : Flags}
  {memory : BitVec 8 → Word} {hexData : Word} {i : Nat}
  (observes : Observes record Through trace Kept first data)

include observes

theorem call_of_rest {low high : BitVec 8} (shipped : Shipped low high memory) (instr : Instr)
    (held : ShippedAt low high pc instr)
    (other : 137#16 ≤ pc ∧ pc ≤ 153#16 ∧ pc ≠ 148#16 ∧ ¬ instr.Pauses)
    (accesses : instr.Accesses register)
    (rest : ∀ env, Inevitable (Clocked.traced execute record) Through Goal
      (Arch.exec ⟨pc + 1#16, register, flags, memory, hexData⟩ env instr, trace i)) :
    Inevitable (Clocked.traced execute record) Through Goal
      (⟨pc, register, flags, memory, hexData⟩, trace i) := by
  obtain ⟨above, below, elsewhere, plain⟩ := other
  have within : Arch.Within 137#8 153#8 ⟨pc, register, flags, memory, hexData⟩ := by
    refine ⟨fun env => ?_, fun env => ?_, above, below⟩
    · rwa [decode_fetched shipped held]
    · rwa [decode_fetched shipped held]
  obtain ⟨through, same⟩ := observes.rest ⟨pc, register, flags, memory, hexData⟩ i within
    elsewhere
  refine .next through fun env => ?_
  rw [traced_shipped record shipped instr held, same env]
  exact rest env

theorem call_of_pause (held : Holds data (checkpoint first i) memory) (kept : Kept memory)
    (inside : i < 16) (shown : hexData = data i)
    (rest : Inevitable (Clocked.traced execute record) Through Goal
      (⟨149#16, register, flags, memory, hexData⟩, trace (i + 1))) :
    Inevitable (Clocked.traced execute record) Through Goal
      (⟨148#16, register, flags, memory, hexData⟩, trace i) := by
  have paused : ∀ env, decode (Arch.fetched ⟨148#16, register, flags, memory, hexData⟩ env) =
      .pse (checkpoint first i) := by
    intro env
    rw [← decode_opPSE, ← held.pause]
    rfl
  obtain ⟨through, next⟩ := observes.pause ⟨148#16, register, flags, memory, hexData⟩ i inside
    rfl shown held.pause kept
  refine .next through fun env => ?_
  rw [Clocked.traced, next env, execute, Arch.step, paused env]
  exact rest

end Step

section Call

variable {Trace : Type} {record : Env → Arch → Trace → Trace} {Through Goal : Arch × Trace → Prop}
  {trace : Nat → Trace} {Kept : (BitVec 8 → Word) → Prop} {first : BitVec 12}
  {data : Nat → Word} {back r4 : Word} {flags : Flags} {memory : BitVec 8 → Word}
  {hexData : Word} {i : Nat}

/-- In the loop, with `R1` words shown. -/
def showing (back : Word) (memory : BitVec 8 → Word) (hexData : Word) (i : Nat)
    (pc r4 : Word) (flags : Flags) : Arch :=
  ⟨pc, file 0#16 (BitVec.ofNat 16 i) 16#16 (opPSE (vector i)) r4 140#16 74#16 back, flags,
    memory, hexData⟩

variable (observes : Observes record Through trace Kept first data)

include observes

/-- One word, from 145 to the branch back. -/
theorem call_of_round (held : Holds data (checkpoint first i) memory) (kept : Kept memory)
    (inside : i < 16)
    (rest : ∀ (env : Env) memory hexData r4,
      Holds data (vector (i + 1)) memory → Kept memory →
      Inevitable (Clocked.traced execute record) Through Goal
        (showing back memory hexData (i + 1) (if i + 1 < 16 then 145#16 else 154#16) r4
          (signClass env.undriven), trace (i + 1))) :
    Inevitable (Clocked.traced execute record) Through Goal
      (showing back memory hexData i 145#16 r4 flags, trace i) := by
  have next : BitVec.ofNat 16 i + 1#16 = BitVec.ofNat 16 (i + 1) := BitVec.ofNat_add_ofNat _ _
  refine call_of_rest observes held.before (.add 4#3 6#3 (.register 1#3)) (by decide)
    (by decide) trivial fun _ => ?_
  simp only [Arch.exec_add, BitVec.reduceAdd, file_r1, file_r6, update_file_r4]
  refine call_of_rest observes held.before (.ldr 4#3 4#3 0) (by decide) (by decide)
    (common_address inside) fun _ => ?_
  simp only [Arch.exec_ldr, BitVec.reduceAdd, file_r4, BitVec.reduceSignExtend,
    BitVec.add_zero, held.read inside, update_file_r4]
  refine call_of_rest observes held.before (.str 4#3 0#3 (-1)) (by decide) (by decide)
    (show MemoryEquivalence.Common (0#16 + (-1#6).signExtend 16) by decide) fun _ => ?_
  simp only [Arch.exec_str, BitVec.reduceAdd, file_r0, file_r4, BitVec.reduceNeg,
    BitVec.reduceSignExtend, BitVec.zero_add, Arch.write_port]
  have shown := held.update (show 155#8 < 0xFF#8 by decide) (data i)
  have keptOn := observes.kept memory 0xFF#8 (data i) (Or.inr rfl) kept
  apply call_of_pause observes shown keptOn inside rfl
  refine call_of_rest observes shown.after (.add 3#3 3#3 (.register 2#3)) (by decide)
    (by decide) trivial fun _ => ?_
  simp only [Arch.exec_add, BitVec.reduceAdd, file_r2, file_r3, opPSE_vector_succ inside,
    update_file_r3]
  refine call_of_rest observes shown.after (.str 3#3 5#3 8) (by decide) (by decide)
    (show MemoryEquivalence.Common (140#16 + (8#6).signExtend 16) by decide) fun _ => ?_
  simp only [Arch.exec_str, BitVec.reduceAdd, file_r3, file_r5, BitVec.reduceSignExtend,
    Arch.write_memory _ (show 148#16 ≠ 0xFFFF#16 by decide), BitVec.reduceSetWidth]
  have rewritten := shown.rewrite (vector (i + 1))
  refine call_of_rest observes rewritten.after (.add 1#3 1#3 (.immediate 1)) (by decide)
    (by decide) trivial fun _ => ?_
  simp only [Arch.exec_addi, BitVec.reduceAdd, file_r1, BitVec.reduceSignExtend, next,
    update_file_r1]
  refine call_of_rest observes rewritten.after (.add 4#3 1#3 (.immediate (-16))) (by decide)
    (by decide) trivial fun _ => ?_
  simp only [Arch.exec_addi, BitVec.reduceAdd, file_r1, BitVec.reduceNeg,
    BitVec.reduceSignExtend, update_file_r4]
  refine call_of_rest observes rewritten.after (.br 0b100#3 (-9)) (by decide) (by decide) trivial
    fun env => ?_
  simp only [Arch.exec_br, BitVec.reduceAdd, selects_n, counter_toInt_neg inside,
    BitVec.reduceNeg, BitVec.reduceSignExtend]
  exact rest env _ _ _ rewritten (observes.kept _ 148#8 _ (Or.inl rfl) keptOn)

/-- The loop from word `i` on. -/
theorem call_of_loop
    (rest : ∀ (env : Env) memory hexData r4, Holds data (vector 16) memory → Kept memory →
      Inevitable (Clocked.traced execute record) Through Goal
        (showing back memory hexData 16 154#16 r4 (signClass env.undriven), trace 16)) :
    ∀ (rounds i : Nat) (memory : BitVec 8 → Word) (hexData r4 : Word) (flags : Flags),
      i + rounds + 1 = 16 → Holds data (checkpoint first i) memory → Kept memory →
      Inevitable (Clocked.traced execute record) Through Goal
        (showing back memory hexData i 145#16 r4 flags, trace i) := by
  intro rounds
  induction rounds with
  | zero =>
      intro i memory hexData r4 flags total held kept
      obtain rfl : i = 15 := by omega
      exact call_of_round observes held kept (by decide) rest
  | succ rounds inductionHypothesis =>
      intro i memory hexData r4 flags total held kept
      refine call_of_round observes held kept (by omega) fun env memory hexData r4 next kept => ?_
      rw [if_pos (by omega)]
      exact inductionHypothesis (i + 1) memory hexData r4 _ (by omega) next kept

/-- The whole call: the prologue saves `R7`, takes the address of the routine and loads the
vector to start from. -/
theorem call_of_entry {r1 r2 r3 r4 r5 : Word} (held : Holds data first memory)
    (kept : Kept memory)
    (rest : ∀ (env : Env) memory hexData r4, Holds data (vector 16) memory → Kept memory →
      Inevitable (Clocked.traced execute record) Through Goal
        (showing back memory hexData 16 154#16 r4 (signClass env.undriven), trace 16)) :
    Inevitable (Clocked.traced execute record) Through Goal
      (⟨137#16, file 0#16 r1 r2 r3 r4 r5 74#16 back, flags, memory, hexData⟩, trace 0) := by
  have start : memory 155#8 = opPSE (vector 0) := held.after 155#8 (by decide) (by decide)
  refine call_of_rest observes held.before (.and 1#3 1#3 (.immediate 0)) (by decide)
    (by decide) trivial fun _ => ?_
  simp only [Arch.exec_andi, BitVec.reduceAdd, file_r1, BitVec.reduceSignExtend,
    BitVec.and_zero, update_file_r1]
  refine call_of_rest observes held.before (.add 4#3 7#3 (.register 0#3)) (by decide)
    (by decide) trivial fun _ => ?_
  simp only [Arch.exec_add, BitVec.reduceAdd, file_r0, file_r7, BitVec.add_zero, update_file_r4]
  refine call_of_rest observes held.before (.jsr 0) (by decide) (by decide) trivial fun _ => ?_
  simp only [Arch.exec_jsr, BitVec.reduceAdd, BitVec.reduceSignExtend, BitVec.add_zero,
    update_file_r7]
  refine call_of_rest observes held.before (.add 5#3 7#3 (.register 0#3)) (by decide)
    (by decide) trivial fun _ => ?_
  simp only [Arch.exec_add, BitVec.reduceAdd, file_r0, file_r7, update_file_r5]
  refine call_of_rest observes held.before (.add 7#3 4#3 (.register 0#3)) (by decide)
    (by decide) trivial fun _ => ?_
  simp only [Arch.exec_add, BitVec.reduceAdd, file_r0, file_r4, BitVec.add_zero, update_file_r7]
  refine call_of_rest observes held.before (.ldr 3#3 5#3 15) (by decide) (by decide)
    (show MemoryEquivalence.Common (140#16 + (15#6).signExtend 16) by decide) fun _ => ?_
  simp only [Arch.exec_ldr, BitVec.reduceAdd, file_r5, BitVec.reduceSignExtend,
    Arch.read_memory _ (show 155#16 ≠ 0xFFFF#16 by decide), BitVec.reduceSetWidth, start,
    update_file_r3]
  refine call_of_rest observes held.before (.add 2#3 0#3 (.immediate 8)) (by decide)
    (by decide) trivial fun _ => ?_
  simp only [Arch.exec_addi, BitVec.reduceAdd, file_r0, BitVec.reduceSignExtend, update_file_r2]
  refine call_of_rest observes held.before (.add 2#3 2#3 (.register 2#3)) (by decide)
    (by decide) trivial fun _ => ?_
  simp only [Arch.exec_add, BitVec.reduceAdd, file_r2, update_file_r2]
  exact call_of_loop observes rest 15 0 memory hexData back _ rfl held kept

omit observes in
theorem observes_displays :
    Observes DisplayFunction.record (Underway first data) id (fun _ => True) first data where
  rest := by
    rintro arch pauses ⟨plain, -, above, below⟩ elsewhere
    refine ⟨⟨?_, fun _ => plain, fun here => absurd here elsewhere⟩, fun env => if_neg (plain env)⟩
    intro here
    rw [here] at below
    exact absurd below (by decide)
  pause := by
    intro arch pauses inside here shown word _
    refine ⟨⟨?_, fun other => absurd here other, fun _ => ⟨inside, shown, word⟩⟩, fun env => ?_⟩
    · rw [here]
      decide
    · obtain ⟨pc, register, flags, memory, hexData⟩ := arch
      subst here
      have fetched : Arch.fetched ⟨148#16, register, flags, memory, hexData⟩ env =
          opPSE (checkpoint first pauses) := word
      rw [DisplayFunction.record, fetched, decode_opPSE]
      exact if_pos trivial
  kept := fun _ _ _ _ _ => trivial

omit observes in
theorem displays_of_entry {r1 r2 r3 r4 r5 : Word} (held : Holds data first memory) :
    Displays first data back
      (⟨137#16, file 0#16 r1 r2 r3 r4 r5 74#16 back, flags, memory, hexData⟩, 0) := by
  refine call_of_entry observes_displays held trivial fun env memory hexData r4 last _ => ?_
  exact .reached ⟨rfl, rfl, rfl, last.before, last.after, last.pause⟩

end Call

section Run

open TestTop (FetchesAt FetchesFrom NextFetch PauseBegins Pressed archAt envAt)

/-- The call that cycle 0 enters has not yet executed its return. -/
def InCall (states : Nat → TestTop.State) (t : Nat) : Prop :=
  ∀ u, u < t → ¬ FetchesFrom 154#16 states u

/-- The call that cycle 0 enters pauses sixteen times and returns.  While it pauses for
the `i`-th time, word `i` is on the display and `leds i` on the LEDs. -/
structure Shows (leds : Nat → BitVec 10) (inputs : Nat → TestTop.Input)
    (states : Nat → TestTop.State) : Prop where
  pauses : ∀ t, InCall states t → (states t).cpu.state.Paused →
    ∃ i, i < 16 ∧ Nat.count (PauseBegins states) t = i + 1 ∧
      (states t).cpu.hexData = (states 0).mem.memArray (BitVec.ofNat 8 (74 + i)) ∧
      (states t).cpu.led = leds i
  returns : ∀ t, InCall states t → FetchesFrom 154#16 states t →
    (states (t + 8)).cpu.state = .s18 ∧
      (states (t + 8)).cpu.pc = (states 0).cpu.register 7#3 ∧
      Nat.count (PauseBegins states) (t + 8) = 16
  /-- It only ever waits in a pause. -/
  goesOn : ∀ t, ∃ u, t ≤ u ∧ ((states u).cpu.state.Paused ∨ ¬ InCall states u)
  finishes : Pressed inputs → ∃ t, InCall states t ∧ FetchesFrom 154#16 states t

variable {inputs : Nat → TestTop.Input} {start : TestTop.State} {first : BitVec 12}
  {data : Nat → Word} {back : Word} {t : Nat}

def pausesAt (inputs : Nat → TestTop.Input) (start : TestTop.State) (t : Nat) : Nat :=
  Nat.count (PauseBegins (Clocked.run TestTop.transfer inputs start)) t

theorem pausesAt_next {later : Nat} (fetches : FetchesAt inputs start t)
    (next : NextFetch inputs start t later) :
    pausesAt inputs start later =
      record (envAt inputs t) (archAt inputs start t) (pausesAt inputs start t) := by
  rw [pausesAt, TestTop.count_pauses fetches (Nat.le_of_lt next.order) next.between, record]
  simp only [next.late fetches, true_and]
  split <;> rfl

theorem displays_at_fetch (fetching : FetchesAt inputs start 0)
    (initially : Displays first data back (start.arch, 0)) (fetches : FetchesAt inputs start t)
    (inCall : InCall (Clocked.run TestTop.transfer inputs start) t) :
    Displays first data back (archAt inputs start t, pausesAt inputs start t) := by
  revert inCall
  refine TestTop.fetch_invariant (fun t =>
    InCall (Clocked.run TestTop.transfer inputs start) t →
      Displays first data back (archAt inputs start t, pausesAt inputs start t))
    (fun _ => initially) fetching ?_ fetches
  intro t later fetches next displays inCall
  have underway := displays fun u before => inCall u (Nat.lt_trans before next.order)
  cases underway with
  | reached returns => exact absurd ⟨fetches, returns.address⟩ (inCall t next.order)
  | next _ rest =>
      have step := rest (envAt inputs t)
      rw [Clocked.traced, execute, ← TestTop.archAt_next fetches next,
        ← pausesAt_next fetches next] at step
      exact step

theorem AtReturn.jumps {state : Arch × Nat} (returns : AtReturn back state) (env : Env) :
    decode (state.1.fetched env) = .jmp 7#3 := by
  obtain ⟨⟨pc, register, flags, memory, hexData⟩, pauses⟩ := state
  obtain ⟨rfl, -, -, -, after, -⟩ := returns
  exact decode_fetched after (by decide) env

theorem Underway.pauses {state : Arch × Nat} (underway : Underway first data state)
    (here : state.1.pc = 148#16) (env : Env) :
    state.1.fetched env = opPSE (checkpoint first state.2) := by
  obtain ⟨⟨pc, register, flags, memory, hexData⟩, pauses⟩ := state
  subst here
  exact (underway.shows rfl).2.2

theorem return_of_fetches
    (displays : Displays first data back (archAt inputs start t, pausesAt inputs start t))
    (returning : FetchesFrom 154#16 (Clocked.run TestTop.transfer inputs start) t) :
    AtReturn back (archAt inputs start t, pausesAt inputs start t) := by
  cases displays with
  | reached returns => exact returns
  | next underway _ => exact absurd returning.2 underway.inside

/-- The return takes eight cycles and leaves the rewritten pause behind. -/
theorem returns_of_fetches (fetches : FetchesAt inputs start t)
    (returns : AtReturn back (archAt inputs start t, pausesAt inputs start t)) :
    FetchesAt inputs start (t + 8) ∧
      archAt inputs start (t + 8) = { archAt inputs start t with pc := back } ∧
      pausesAt inputs start (t + 8) = 16 := by
  have jump := returns.jumps (envAt inputs t)
  obtain ⟨next, effect⟩ := TestTop.nextFetch_of_instr fetches jump 1 rfl
  refine ⟨next.fetches, ?_, ?_⟩
  · rw [← returns.back]
    apply effect.trans
    rw [Arch.step, jump]
    rfl
  · rw [pausesAt_next fetches next, record, jump]
    exact returns.pauses

theorem pause_of_paused (fetching : FetchesAt inputs start 0)
    (initially : Displays first data back (start.arch, 0))
    (inCall : InCall (Clocked.run TestTop.transfer inputs start) t)
    (paused : (Clocked.run TestTop.transfer inputs start t).cpu.state.Paused) :
    ∃ i, i < 16 ∧ pausesAt inputs start t = i + 1 ∧
      (Clocked.run TestTop.transfer inputs start t).cpu.hexData = data i ∧
      (Clocked.run TestTop.transfer inputs start t).cpu.led =
        (checkpoint first i).extractLsb' 0 10 := by
  obtain ⟨last, begun, fetches, waiting⟩ := TestTop.exists_lastFetch fetching t
  obtain ⟨late, pauses⟩ := TestTop.pauses_of_paused fetches begun waiting paused
  have waiting' : ∀ v, last < v → v < t → ¬ FetchesAt inputs start v :=
    fun v after before => waiting v after (Nat.le_of_lt before)
  have displays := displays_at_fetch fetching initially fetches
    fun u before => inCall u (Nat.lt_of_lt_of_le before begun)
  cases displays with
  | reached returns => exact absurd ⟨fetches, returns.address⟩ (inCall last (by omega))
  | next underway _ =>
      have here : (archAt inputs start last).pc = 148#16 := by
        by_contra other
        exact underway.plain other (envAt inputs last) pauses
      obtain ⟨more, shown, -⟩ := underway.shows here
      have word := underway.pauses here (envAt inputs last)
      have silent : ¬ (decode ((archAt inputs start last).fetched (envAt inputs last))).Stores := by
        obtain ⟨ledVect12, instr⟩ := pauses.eq_pse
        rw [instr]
        exact id
      refine ⟨pausesAt inputs start last, more, ?_, ?_, ?_⟩
      · rw [pausesAt, TestTop.count_pauses fetches begun waiting', if_pos ⟨late, pauses⟩]
        rfl
      · rw [TestTop.hexData_while_silent fetches silent begun waiting']
        exact shown
      · rw [(Cpu.led_of_paused _ paused).1, TestTop.ir_of_fetches fetches late waiting', word]
        exact (Cpu.fields_vector12 op_PSE _).2

/-- On the way to the return or to the next pause nothing waits. -/
theorem exists_stop (fetches : FetchesAt inputs start t)
    (displays : Displays first data back (archAt inputs start t, pausesAt inputs start t)) :
    ∃ later, t ≤ later ∧ FetchesAt inputs start later ∧
      ((archAt inputs start later).pc = 154#16 ∨
        (archAt inputs start later).pc = 148#16 ∧
          ∀ env, (decode ((archAt inputs start later).fetched env)).Pauses) ∧
      ∀ u, t ≤ u → u < later → FetchesAt inputs start u →
        (archAt inputs start u).Plain ∧ (archAt inputs start u).pc ≠ 154#16 := by
  have inevitable : Inevitable execute (fun arch => arch.Plain ∧ arch.pc ≠ 154#16)
      (fun arch => arch.pc = 154#16 ∨
        arch.pc = 148#16 ∧ ∀ env, (decode (arch.fetched env)).Pauses)
      (archAt inputs start t) := by
    refine (displays.stopping fun state => state.1.pc ≠ 148#16).untraced ?_ ?_
    · rintro arch pauses ⟨underway, elsewhere⟩
      exact ⟨underway.plain elsewhere, underway.inside⟩
    · rintro arch pauses (returns | ⟨underway, stays⟩)
      · exact Or.inl returns.address
      · have here : arch.pc = 148#16 := Decidable.not_not.mp stays
        refine Or.inr ⟨here, fun env => ?_⟩
        rw [underway.pauses here, decode_opPSE]
        trivial
  exact TestTop.exists_fetch_of_inevitable
    (fun fetches through => TestTop.nextFetch_of_plain fetches through.1) inevitable fetches rfl

theorem exists_wait (fetching : FetchesAt inputs start 0)
    (initially : Displays first data back (start.arch, 0)) (t : Nat) :
    ∃ u, t ≤ u ∧ ((Clocked.run TestTop.transfer inputs start u).cpu.state.Paused ∨
      ¬ InCall (Clocked.run TestTop.transfer inputs start) u) := by
  by_cases inCall : InCall (Clocked.run TestTop.transfer inputs start) t
  case neg => exact ⟨t, Nat.le_refl t, Or.inr inCall⟩
  case pos =>
    obtain ⟨last, begun, fetches, waiting⟩ := TestTop.exists_lastFetch fetching t
    have displays := displays_at_fetch fetching initially fetches
      fun u before => inCall u (Nat.lt_of_lt_of_le before begun)
    obtain ⟨later, order, arrives, returns | ⟨-, pauses⟩, -⟩ := exists_stop fetches displays
    · refine ⟨max t (later + 1), Nat.le_max_left _ _, Or.inr fun inside => ?_⟩
      exact inside later (Nat.le_max_right _ _) ⟨arrives, returns⟩
    · rcases Nat.lt_or_ge (later + 7) t with early | late
      · -- The pause has begun before cycle `t` and still lasts.
        have same : later = last := by
          by_contra other
          exact waiting later (by omega) (by omega) arrives
        subst same
        obtain ⟨ledVect12, instr⟩ := (pauses (envAt inputs later)).eq_pse
        refine ⟨t, Nat.le_refl t, Or.inl (Isdu.paused_iff.mpr ?_)⟩
        rw [TestTop.operation_of_fetches arrives begun waiting, if_neg (by omega), instr]
        rfl
      · have entered := (TestTop.pauses_of_fetches arrives (pauses _)).1
        exact ⟨later + 7, late, Or.inl (Or.inl entered)⟩

theorem exists_return (pressed : Pressed inputs) (fetching : FetchesAt inputs start 0)
    (initially : Displays first data back (start.arch, 0)) :
    ∃ t, InCall (Clocked.run TestTop.transfer inputs start) t ∧
      FetchesFrom 154#16 (Clocked.run TestTop.transfer inputs start) t := by
  have inevitable : Inevitable execute (fun arch => arch.pc ≠ 154#16)
      (fun arch => arch.pc = 154#16) start.arch :=
    initially.untraced (fun _ _ underway => underway.inside) fun _ _ returns => returns.address
  obtain ⟨later, _, arrives, here, onTheWay⟩ := TestTop.exists_fetch_of_inevitable
    (fun fetches _ => TestTop.nextFetch_of_pressed pressed fetches) inevitable fetching rfl
  exact ⟨later, fun u before returning => onTheWay u (Nat.zero_le u) before returning.1
    returning.2, arrives, here⟩

theorem shows_of_displays (fetching : FetchesAt inputs start 0)
    (initially : Displays first (fun i => start.mem.memArray (BitVec.ofNat 8 (74 + i)))
      (start.cpu.register 7#3) (start.arch, 0)) :
    Shows (fun i => (checkpoint first i).extractLsb' 0 10) inputs
      (Clocked.run TestTop.transfer inputs start) where
  pauses := fun _ inCall paused => pause_of_paused fetching initially inCall paused
  returns := by
    intro t inCall returning
    have displays := displays_at_fetch fetching initially returning.1 inCall
    obtain ⟨arrives, view, pauses⟩ :=
      returns_of_fetches returning.1 (return_of_fetches displays returning)
    exact ⟨arrives, congrArg Arch.pc view, pauses⟩
  goesOn := exists_wait fetching initially
  finishes := fun pressed => exists_return pressed fetching initially

variable (inputs) in
/-- Whatever the buttons do, the first pause begins. -/
theorem exists_firstPause (fetching : FetchesAt inputs start 0)
    (initially : Displays first data back (start.arch, 0)) :
    ∃ t, InCall (Clocked.run TestTop.transfer inputs start) t ∧
      (Clocked.run TestTop.transfer inputs start t).cpu.state.Paused ∧
      Nat.count (PauseBegins (Clocked.run TestTop.transfer inputs start)) t = 1 := by
  obtain ⟨later, _, arrives, stops, onTheWay⟩ := exists_stop fetching initially
  have inCall : InCall (Clocked.run TestTop.transfer inputs start) later :=
    fun u before returning => (onTheWay u (Nat.zero_le u) before returning.1).2 returning.2
  have none : pausesAt inputs start later = 0 :=
    TestTop.count_pauses_of_plain fetching fun v before fetches =>
      (onTheWay v (Nat.zero_le v) before fetches).1
  have displays := displays_at_fetch fetching initially arrives inCall
  rcases stops with returns | ⟨here, pauses⟩
  · have sixteen := (return_of_fetches displays ⟨arrives, returns⟩).pauses
    rw [none] at sixteen
    cases sixteen
  · have elsewhere : (archAt inputs start later).pc ≠ 154#16 := by
      rw [here]
      decide
    have quiet : ∀ u, later < u → u < later + 7 → ¬ FetchesAt inputs start u :=
      fun u after before => TestTop.quiet_of_fetches arrives after before
    refine ⟨later + 7, ?_, Or.inl (TestTop.pauses_of_fetches arrives (pauses _)).1, ?_⟩
    · intro u before returning
      rcases Nat.lt_trichotomy u later with early | rfl | late
      · exact inCall u early returning
      · exact elsewhere returning.2
      · exact quiet u late before returning.1
    · rw [TestTop.count_pauses arrives (Nat.le_add_right later 7) quiet,
        if_pos ⟨Nat.le_refl _, pauses _⟩]
      exact congrArg (· + 1) none

end Run

section Calls

open TestTop (FetchesFrom PauseBegins Pressed archAt)

/-- About to be executed, with `R0 = 0` and `R6` at the data. -/
structure AtEntry (state : TestTop.State) : Prop where
  fetching : state.cpu.state = .s18
  address : state.cpu.pc = 137#16
  zero : state.cpu.register 0#3 = 0#16
  pointer : state.cpu.register 6#3 = 74#16

/-- The function is entered after a number of complete calls, the first of them with the
shipped words at 137 to 155, the others with what the call before left there. -/
inductive Entered (image : BitVec 8 → Word) : Nat → TestTop.State → Prop where
  | first {start : TestTop.State} (atEntry : AtEntry start)
      (shipped : Shipped 137#8 155#8 start.mem.memArray) : Entered image 0 start
  | again {earlier t : Nat} {start next : TestTop.State} {inputs : Nat → TestTop.Input}
      (entered : Entered image earlier start) (running : ∀ t, (inputs t).reset = false)
      (inCall : InCall (Clocked.run (TestTop.step image) inputs start) t)
      (returning : FetchesFrom 154#16 (Clocked.run (TestTop.step image) inputs start) t)
      (atEntry : AtEntry next)
      (untouched : ∀ address, 137#8 ≤ address → address ≤ 155#8 → next.mem.memArray address =
        (Clocked.run (TestTop.step image) inputs start (t + 8)).mem.memArray address) :
      Entered image (earlier + 1) next

/-- The checkpoints: the low ten bits of 0x802, 0x812, and so on. -/
def checkpointLed (i : Nat) : BitVec 10 := BitVec.ofNat 10 (0x802 + 16 * i)

/-- The vector in the pause instruction after a number of calls. -/
def leftBehind (earlier : Nat) : BitVec 12 := if earlier = 0 then vector 0 else vector 16

variable {image : BitVec 8 → Word} {earlier : Nat} {start : TestTop.State}
  {inputs : Nat → TestTop.Input} {first : BitVec 12}

theorem vector_led (i : Nat) : (vector i).extractLsb' 0 10 = checkpointLed i := by
  have sum : vector i = BitVec.ofNat 12 (0x802 + 16 * i) := BitVec.ofNat_add_ofNat _ _
  rw [sum, ← BitVec.setWidth_eq_extractLsb' (by decide)]
  exact BitVec.setWidth_ofNat_of_le (by decide) _

/-- The routine with the words around it. -/
abbrev HoldsAt (first : BitVec 12) (start : TestTop.State) : Prop :=
  Holds (fun i => start.mem.memArray (BitVec.ofNat 8 (74 + i))) first start.mem.memArray

theorem displays_of_atEntry (entry : AtEntry start) (held : HoldsAt first start) :
    Displays first (fun i => start.mem.memArray (BitVec.ofNat 8 (74 + i)))
      (start.cpu.register 7#3) (start.arch, 0) := by
  have view : start.arch =
      ⟨137#16, file 0#16 (start.cpu.register 1#3) (start.cpu.register 2#3)
        (start.cpu.register 3#3) (start.cpu.register 4#3) (start.cpu.register 5#3) 74#16
        (start.cpu.register 7#3), start.cpu.ben.flags, start.mem.memArray,
        start.cpu.hexData⟩ := by
    rw [← entry.address, ← entry.zero, ← entry.pointer, ← eq_file]
    rfl
  rw [view]
  exact displays_of_entry held

theorem Entered.atEntry (entered : Entered image earlier start) : AtEntry start := by
  cases entered with
  | first atEntry _ => exact atEntry
  | again _ _ _ _ atEntry _ => exact atEntry

theorem HoldsAt.agree {next : TestTop.State} (held : HoldsAt first start)
    (held' : HoldsAt first next) {address : BitVec 8} (above : 137#8 ≤ address)
    (below : address ≤ 155#8) : start.mem.memArray address = next.mem.memArray address := by
  rcases BitVec.lt_trichotomy address 148#8 with before | rfl | after
  · have inside : address ≤ 147#8 := by bv_omega
    rw [held.before address above inside, held'.before address above inside]
  · rw [held.pause, held'.pause]
  · have inside : 149#8 ≤ address := by bv_omega
    rw [held.after address inside below, held'.after address inside below]

theorem HoldsAt.untouched {next : TestTop.State} (held : HoldsAt first start)
    (untouched : ∀ address, 137#8 ≤ address → address ≤ 155#8 →
      next.mem.memArray address = start.mem.memArray address) : HoldsAt first next := by
  refine ⟨fun address above below => ?_, fun address above below => ?_, ?_, fun _ _ => rfl⟩
  · rw [untouched address above (BitVec.le_trans below (by decide))]
    exact held.before address above below
  · rw [untouched address (BitVec.le_trans (by decide) above) below]
    exact held.after address above below
  · exact (untouched 148#8 (by decide) (by decide)).trans held.pause

/-- A complete call leaves its last rewrite behind. -/
theorem HoldsAt.returns {t : Nat} (held : HoldsAt first start) (entry : AtEntry start)
    (inCall : InCall (Clocked.run TestTop.transfer inputs start) t)
    (returning : FetchesFrom 154#16 (Clocked.run TestTop.transfer inputs start) t) :
    HoldsAt (vector 16) (Clocked.run TestTop.transfer inputs start (t + 8)) := by
  have displays := displays_at_fetch entry.fetching (displays_of_atEntry entry held)
    returning.1 inCall
  have returns := return_of_fetches displays returning
  obtain ⟨-, view, -⟩ := returns_of_fetches returning.1 returns
  have memory : (Clocked.run TestTop.transfer inputs start (t + 8)).mem.memArray =
      (archAt inputs start t).memory := congrArg Arch.memory view
  refine ⟨?_, ?_, ?_, fun _ _ => rfl⟩
  · exact memory ▸ returns.before
  · exact memory ▸ returns.after
  · exact memory ▸ returns.pause

/-- Every call is entered with its pause as the call before left it. -/
theorem Entered.holds (entered : Entered image earlier start) :
    HoldsAt (leftBehind earlier) start := by
  induction entered with
  | first _ shipped =>
      refine ⟨fun address above below => shipped address above (BitVec.le_trans below (by decide)),
        fun address above below => shipped address (BitVec.le_trans (by decide) above) below,
        shipped 148#8 (by decide) (by decide), fun _ _ => rfl⟩
  | again entered running inCall returning _ untouched inductionHypothesis =>
      rw [TestTop.runs_eq_transfer image _ running] at inCall returning untouched
      exact (inductionHypothesis.returns entered.atEntry inCall returning).untouched untouched

/-- Every call shows its data, and the checkpoints from the second pause on. -/
theorem Entered.shows (entered : Entered image earlier start) :
    Shows (fun i => (checkpoint (leftBehind earlier) i).extractLsb' 0 10) inputs
      (Clocked.run TestTop.transfer inputs start) :=
  shows_of_displays entered.atEntry.fetching (displays_of_atEntry entered.atEntry entered.holds)

/-- The vector left behind is the one that the next call shows first. -/
theorem Entered.not_shows (entered : Entered image (earlier + 1) start) :
    ¬ Shows checkpointLed inputs (Clocked.run TestTop.transfer inputs start) := by
  intro intended
  obtain ⟨t, inCall, paused, once⟩ := exists_firstPause inputs
    entered.atEntry.fetching (displays_of_atEntry entered.atEntry entered.holds)
  obtain ⟨i, -, count, -, led⟩ := intended.pauses t inCall paused
  obtain ⟨j, -, count', -, led'⟩ := entered.shows.pauses t inCall paused
  obtain rfl : i = 0 := by omega
  obtain rfl : j = 0 := by omega
  have differs : (vector 16).extractLsb' 0 10 ≠ checkpointLed 0 := by decide
  exact differs (led'.symm.trans led)

/-- The display function shows the checkpoints it is written for exactly if it has not
been called before. -/
theorem shows_checkpoints_iff (image : BitVec 8 → Word) {earlier : Nat} {start : TestTop.State}
    (entered : Entered image earlier start) (inputs : Nat → TestTop.Input)
    (running : ∀ t, (inputs t).reset = false) :
    Shows checkpointLed inputs (Clocked.run (TestTop.step image) inputs start) ↔
      earlier = 0 := by
  rw [TestTop.runs_eq_transfer image inputs running]
  constructor
  · intro intended
    cases earlier with
    | zero => rfl
    | succ earlier => exact absurd intended entered.not_shows
  · rintro rfl
    have same : (fun i => (checkpoint (leftBehind 0) i).extractLsb' 0 10) = checkpointLed := by
      funext i
      rw [checkpoint, leftBehind, if_pos rfl]
      split
      case isTrue zero => rw [zero, vector_led]
      case isFalse => exact vector_led i
    rw [← same]
    exact entered.shows

/-- `Continue` goes down in every other cycle. -/
def blinking (t : Nat) : TestTop.Input := { TestTop.Input.quiet with continue_ := t % 2 == 1 }

/-- The menu's call: `R6` points to the shipped data at 74, the return is to 104. -/
def firstCall : TestTop.State where
  cpu :=
    { Cpu.blank .s18 with
      pc := 137#16
      register := file 0#16 0#16 0#16 0#16 0#16 0#16 74#16 104#16 }
  mem := { memArray := memoryContents, memOut := 0#16 }

theorem shows_checkpoints_iff_firstCall :
    Shows checkpointLed blinking (Clocked.run (TestTop.step memoryContents) blinking firstCall) ↔
      0 = 0 :=
  shows_checkpoints_iff memoryContents (.first ⟨rfl, rfl, rfl, rfl⟩ fun _ _ _ => rfl) blinking
    fun _ => rfl

/-- The same call again: one complete call before it has rewritten the word at 148. -/
def secondCall : TestTop.State :=
  { firstCall with
    mem :=
      { memArray := Function.update memoryContents 148#8 (opPSE (vector 16))
        memOut := 0#16 } }

theorem blinking_pressed : Pressed blinking where
  down := fun t => ⟨2 * t + 1, by omega, by simp [blinking]⟩
  up := fun t => ⟨2 * t, by omega, by simp [blinking]⟩

theorem secondCall_entered : Entered memoryContents 1 secondCall := by
  have entered : Entered memoryContents 0 firstCall := .first ⟨rfl, rfl, rfl, rfl⟩ fun _ _ _ => rfl
  have held : HoldsAt (vector 16) secondCall :=
    ⟨Shipped.update (fun _ _ _ => rfl) (Or.inr (by decide)) _,
      Shipped.update (fun _ _ _ => rfl) (Or.inl (by decide)) _, rfl, fun _ _ => rfl⟩
  have running : ∀ t, (blinking t).reset = false := fun _ => rfl
  have runs := TestTop.runs_eq_transfer memoryContents blinking running firstCall
  obtain ⟨t, inCall, returning⟩ := entered.shows.finishes blinking_pressed
  refine .again entered running (runs ▸ inCall) (runs ▸ returning) ⟨rfl, rfl, rfl, rfl⟩ ?_
  intro address above below
  rw [runs]
  exact held.agree (entered.holds.returns entered.atEntry inCall returning) above below

theorem secondCall_not_shows :
    Entered memoryContents 1 secondCall ∧
      ¬ Shows checkpointLed blinking
        (Clocked.run (TestTop.step memoryContents) blinking secondCall) := by
  refine ⟨secondCall_entered, ?_⟩
  rw [TestTop.runs_eq_transfer memoryContents blinking fun _ => rfl]
  exact secondCall_entered.not_shows

end Calls

end DigitalSystems.Slc3.DisplayFunction
