import DigitalSystems.Arith.Countdown
import DigitalSystems.Slc3.Operations
import DigitalSystems.Slc3.Programs

/-!
# The shipped auto counter

The program at the addresses 156 to 172 shows a counter, waits in two nested loops and
shows the next number.  The delays are whatever the words 173 and 174 hold.
-/

namespace DigitalSystems.Slc3.AutoCounter

open Isa
open Clocked (Inevitable)

/-- How often the store at 170 has been executed. -/
def record (_ : Env) (arch : Arch) (count : Nat) : Nat :=
  if arch.pc = 170#16 then count + 1 else count

/-- Inside the loops, with the base address of the delays in `R7`. -/
def counting (memory : BitVec 8 → Word) (hexData r4 r5 r6 : Word) (count : Nat)
    (pc r1 r2 : Word) (flags : Flags) : Arch :=
  ⟨pc, file 0#16 r1 r2 (BitVec.ofNat 16 count) r4 r5 r6 161#16, flags, memory, hexData⟩

/-- The next number is about to be shown. -/
def AtDisplay (state : Arch × Nat) : Prop :=
  ∃ memory hexData r4 r5 r6 count r1 r2 flags, Shipped 156#8 172#8 memory ∧
    state = (counting memory hexData r4 r5 r6 count 170#16 r1 r2 flags, count)

/-- The program never pauses, and shows nothing but the counter. -/
structure Counting (state : Arch × Nat) : Prop where
  plain : state.1.Plain
  silent : state.1.pc ≠ 170#16 → ∀ env, ¬ (decode (state.1.fetched env)).Stores
  display : state.1.pc = 170#16 → AtDisplay state

abbrev Counts : Arch × Nat → Prop := Inevitable (Clocked.traced execute record) Counting AtDisplay

section Step

variable {pc : Word} {register : RegisterFile} {flags : Flags} {memory : BitVec 8 → Word}
  {hexData : Word} {count : Nat}

theorem counts_of_rest (shipped : Shipped 156#8 172#8 memory) (instr : Instr)
    (held : ShippedAt 156#8 172#8 pc instr)
    (other : pc ≠ 170#16 ∧ ¬ instr.Pauses ∧ ¬ instr.Stores)
    (rest : ∀ env, Counts
      (Arch.exec ⟨pc + 1#16, register, flags, memory, hexData⟩ env instr, count)) :
    Counts (⟨pc, register, flags, memory, hexData⟩, count) := by
  obtain ⟨elsewhere, plain, silent⟩ := other
  refine .next ⟨?_, ?_, fun here => absurd here elsewhere⟩ fun env => ?_
  · intro env
    rw [decode_fetched shipped held]
    exact plain
  · intro _ env
    rw [decode_fetched shipped held]
    exact silent
  · rw [traced_shipped record shipped instr held, record, if_neg elsewhere]
    exact rest env

end Step

section Delay

variable {memory : BitVec 8 → Word} {hexData r4 r5 r6 : Word} {count : Nat}

theorem add_ones (value : Word) : value + 0xFFFF#16 = value - 1#16 :=
  (BitVec.sub_eq_add_neg value 1#16).symm

theorem toInt_eq_zero {value : Word} : value.toInt = 0 ↔ value = 0#16 :=
  BitVec.toInt_inj (y := 0#16)

variable (shipped : Shipped 156#8 172#8 memory)

include shipped

/-- The first loop, which ends whatever `R1` it starts with. -/
theorem counts_of_firstLoop {r2 : Word}
    (rest : ∀ (env : Env) r1, Counts (counting memory hexData r4 r5 r6 count 166#16 r1 r2
      (signClass env.undriven), count)) (r1 : Word) (flags : Flags) :
    Counts (counting memory hexData r4 r5 r6 count 163#16 r1 r2 flags, count) := by
  induction r1 using Arith.countdown generalizing flags with
  | round r1 again =>
      refine counts_of_rest shipped (.add 1#3 1#3 (.immediate (-1))) (by decide) (by decide)
        fun _ => ?_
      simp only [Arch.exec_addi, BitVec.reduceAdd, file_r1, BitVec.reduceNeg,
        BitVec.reduceSignExtend, add_ones, update_file_r1]
      refine counts_of_rest shipped (.br 0b010#3 1) (by decide) (by decide) fun env => ?_
      simp only [Arch.exec_br, BitVec.reduceAdd, selects_z, toInt_eq_zero]
      by_cases zero : r1 - 1#16 = 0#16
      · rw [if_pos zero]
        exact rest env _
      · rw [if_neg zero]
        refine counts_of_rest shipped (.br 0b111#3 (-3)) (by decide) (by decide)
          fun env => ?_
        rw [Arch.exec_br, if_pos selects_nzp]
        exact again zero _

/-- The second loop runs the first one in each of its rounds. -/
theorem counts_of_delay (r1 r2 : Word) (flags : Flags) :
    Counts (counting memory hexData r4 r5 r6 count 163#16 r1 r2 flags, count) := by
  induction r2 using Arith.countdown generalizing r1 flags with
  | round r2 again =>
      refine counts_of_firstLoop shipped (fun env r1 => ?_) r1 flags
      refine counts_of_rest shipped (.add 2#3 2#3 (.immediate (-1))) (by decide) (by decide)
        fun _ => ?_
      simp only [Arch.exec_addi, BitVec.reduceAdd, file_r2, BitVec.reduceNeg,
        BitVec.reduceSignExtend, add_ones, update_file_r2]
      refine counts_of_rest shipped (.br 0b010#3 2) (by decide) (by decide) fun env => ?_
      simp only [Arch.exec_br, BitVec.reduceAdd, selects_z, toInt_eq_zero]
      by_cases zero : r2 - 1#16 = 0#16
      · rw [if_pos zero]
        exact .reached ⟨_, _, _, _, _, _, _, _, _, shipped, rfl⟩
      · rw [if_neg zero]
        refine counts_of_rest shipped (.ldr 1#3 7#3 12) (by decide) (by decide) fun env => ?_
        simp only [Arch.exec_ldr, BitVec.reduceAdd, update_file_r1]
        refine counts_of_rest shipped (.br 0b111#3 (-7)) (by decide) (by decide)
          fun env => ?_
        rw [Arch.exec_br, if_pos selects_nzp]
        exact again zero _ _

/-- Addresses 161 and 162: the delays are loaded. -/
theorem counts_of_init (r1 r2 : Word) (flags : Flags) :
    Counts (counting memory hexData r4 r5 r6 count 161#16 r1 r2 flags, count) := by
  refine counts_of_rest shipped (.ldr 1#3 7#3 12) (by decide) (by decide) fun _ => ?_
  simp only [Arch.exec_ldr, BitVec.reduceAdd, update_file_r1]
  refine counts_of_rest shipped (.ldr 2#3 7#3 13) (by decide) (by decide) fun _ => ?_
  simp only [Arch.exec_ldr, BitVec.reduceAdd, update_file_r2]
  exact counts_of_delay shipped _ _ _

end Delay

section Lap

/-- From one number to the next. -/
theorem lap (state : Arch × Nat) (showing : AtDisplay state) :
    Counting state ∧ ∀ env, Counts (Clocked.traced execute record env state) := by
  obtain ⟨memory, hexData, r4, r5, r6, count, r1, r2, flags, shipped, rfl⟩ := id showing
  have store : ∀ env, decode ((counting memory hexData r4 r5 r6 count 170#16 r1 r2
      flags).fetched env) = .str 3#3 0#3 (-1) := decode_fetched shipped (by decide)
  have next : BitVec.ofNat 16 count + 1#16 = BitVec.ofNat 16 (count + 1) :=
    BitVec.ofNat_add_ofNat _ _
  refine ⟨⟨?_, fun other => absurd rfl other, fun _ => showing⟩, fun env => ?_⟩
  · intro env
    rw [store]
    exact id
  · rw [counting, traced_shipped record shipped (.str 3#3 0#3 (-1)) (by decide), record,
      if_pos rfl]
    simp only [Arch.exec_str, BitVec.reduceAdd, file_r0, file_r3, BitVec.reduceNeg,
      BitVec.reduceSignExtend, BitVec.zero_add, Arch.write_port]
    have intact := shipped.update (Or.inr (show 172#8 < 0xFF#8 by decide)) (BitVec.ofNat 16 count)
    refine counts_of_rest intact (.add 3#3 3#3 (.immediate 1)) (by decide) (by decide)
      fun _ => ?_
    simp only [Arch.exec_addi, BitVec.reduceAdd, file_r3, BitVec.reduceSignExtend, next,
      update_file_r3]
    refine counts_of_rest intact (.br 0b111#3 (-12)) (by decide) (by decide) fun _ => ?_
    rw [Arch.exec_br, if_pos selects_nzp]
    exact counts_of_init intact _ _ _

/-- Addresses 156 to 160: the registers are cleared and the base address is taken. -/
theorem counts_of_start {register : RegisterFile} {memory : BitVec 8 → Word} {hexData : Word}
    {flags : Flags} (shipped : Shipped 156#8 172#8 memory) :
    Counts (⟨156#16, register, flags, memory, hexData⟩, 0) := by
  rw [eq_file register]
  refine counts_of_rest shipped (.and 0#3 0#3 (.immediate 0)) (by decide) (by decide)
    fun _ => ?_
  simp only [Arch.exec_andi, BitVec.reduceAdd, file_r0, BitVec.reduceSignExtend,
    BitVec.and_zero, update_file_r0]
  refine counts_of_rest shipped (.and 1#3 1#3 (.immediate 0)) (by decide) (by decide)
    fun _ => ?_
  simp only [Arch.exec_andi, BitVec.reduceAdd, file_r1, BitVec.reduceSignExtend,
    BitVec.and_zero, update_file_r1]
  refine counts_of_rest shipped (.and 2#3 2#3 (.immediate 0)) (by decide) (by decide)
    fun _ => ?_
  simp only [Arch.exec_andi, BitVec.reduceAdd, file_r2, BitVec.reduceSignExtend,
    BitVec.and_zero, update_file_r2]
  refine counts_of_rest shipped (.and 3#3 3#3 (.immediate 0)) (by decide) (by decide)
    fun _ => ?_
  simp only [Arch.exec_andi, BitVec.reduceAdd, file_r3, BitVec.reduceSignExtend,
    BitVec.and_zero, update_file_r3]
  refine counts_of_rest shipped (.jsr 0) (by decide) (by decide) fun _ => ?_
  simp only [Arch.exec_jsr, BitVec.reduceAdd, BitVec.reduceSignExtend, BitVec.add_zero,
    update_file_r7]
  exact counts_of_init shipped _ _ _

end Lap

section Run

open TestTop (FetchesAt FetchesFrom NextFetch archAt envAt)

variable {inputs : Nat → TestTop.Input} {start : TestTop.State}

/-- How often the store at 170 has been fetched before cycle `t`. -/
def countAt (inputs : Nat → TestTop.Input) (start : TestTop.State) (t : Nat) : Nat :=
  Nat.count (FetchesFrom 170#16 (Clocked.run TestTop.transfer inputs start)) t

theorem countAt_next {t later : Nat} (fetches : FetchesAt inputs start t)
    (next : NextFetch inputs start t later) :
    countAt inputs start later =
      record (envAt inputs t) (archAt inputs start t) (countAt inputs start t) := by
  rw [countAt, TestTop.count_fetches 170#16 fetches next.order next.between, record]
  split <;> rfl

theorem counts_at_fetch (fetching : FetchesAt inputs start 0)
    (entry : start.arch.pc = 156#16) (program : Shipped 156#8 172#8 start.arch.memory) {t : Nat}
    (fetches : FetchesAt inputs start t) :
    Counts (archAt inputs start t, countAt inputs start t) := by
  have initially : Counts (start.arch, countAt inputs start 0) := by
    rw [show start.arch = ⟨156#16, start.arch.register, start.arch.flags, start.arch.memory,
      start.arch.hexData⟩ by rw [← entry]]
    exact counts_of_start program
  exact TestTop.traced_at_fetch lap countAt_next fetching initially fetches

/-- After every fetch the next number is shown within finitely many cycles. -/
theorem exists_display {t : Nat} (fetches : FetchesAt inputs start t)
    (counts : Counts (archAt inputs start t, countAt inputs start t)) :
    ∃ later, t < later ∧
      FetchesFrom 170#16 (Clocked.run TestTop.transfer inputs start) later := by
  obtain ⟨counting, rest⟩ := Inevitable.step_of_lap lap counts
  obtain ⟨next, following⟩ := TestTop.nextFetch_of_plain fetches counting.plain
  have inevitable : Inevitable execute Arch.Plain (fun arch => arch.pc = 170#16)
      (execute (envAt inputs t) (archAt inputs start t)) := by
    refine Inevitable.untraced (fun _ _ counting => counting.plain) ?_ (rest (envAt inputs t))
    rintro arch count ⟨_, _, _, _, _, _, _, _, _, _, showing⟩
    obtain ⟨rfl, -⟩ := Prod.mk.inj showing
    rfl
  obtain ⟨later, order, shows_, here, _⟩ := TestTop.exists_fetch_of_inevitable
    TestTop.nextFetch_of_plain inevitable following.fetches
    (TestTop.archAt_next fetches following)
  exact ⟨later, Nat.lt_of_lt_of_le following.order order, shows_, here⟩

/-- The store takes thirteen cycles and shows the number of those before it. -/
theorem store_of_fetches {t : Nat}
    (shows_ : FetchesFrom 170#16 (Clocked.run TestTop.transfer inputs start) t)
    (counts : Counts (archAt inputs start t, countAt inputs start t)) :
    NextFetch inputs start t (t + 13) ∧
      (archAt inputs start (t + 13)).hexData = BitVec.ofNat 16 (countAt inputs start t) := by
  obtain ⟨memory, hexData, r4, r5, r6, count, r1, r2, flags, shipped, showing⟩ :=
    (Inevitable.step_of_lap lap counts).1.display shows_.2
  obtain ⟨view, same⟩ := Prod.mk.inj showing
  have store : decode ((archAt inputs start t).fetched (envAt inputs t)) =
      .str 3#3 0#3 (-1) := by
    rw [view]
    exact decode_fetched shipped (by decide) _
  obtain ⟨next, effect⟩ := TestTop.nextFetch_of_instr shows_.1 store 6 rfl
  refine ⟨next, ?_⟩
  have shown : (execute (envAt inputs t) (archAt inputs start t)).hexData =
      BitVec.ofNat 16 count := by
    rw [view, counting, execute_shipped shipped (.str 3#3 0#3 (-1)) (by decide)]
    simp only [Arch.exec_str, BitVec.reduceAdd, file_r0, file_r3, BitVec.reduceNeg,
      BitVec.reduceSignExtend, BitVec.zero_add, Arch.write_port]
  rw [same, ← shown]
  exact congrArg Arch.hexData effect

/-- The counter counts without gaps, whatever the delays are: the `n`-th execution of the
store at 170 shows `n - 1`, nothing else changes the display, and there is always a next
one. -/
theorem counts_without_gaps (image : BitVec 8 → Word) (inputs : Nat → TestTop.Input)
    (running : ∀ t, (inputs t).reset = false) (start : TestTop.State)
    (fetching : start.cpu.state = .s18) (entry : start.cpu.pc = 156#16)
    (program : Shipped 156#8 172#8 start.mem.memArray) :
    let states := Clocked.run (TestTop.step image) inputs start
    (∀ t, FetchesFrom 170#16 states t →
        (states (t + 13)).cpu.state = .s18 ∧
          (states (t + 13)).cpu.hexData =
            BitVec.ofNat 16 (Nat.count (FetchesFrom 170#16 states) t)) ∧
      (∀ t, (states (t + 1)).cpu.hexData ≠ (states t).cpu.hexData →
        ∃ store, store ≤ t ∧ t < store + 13 ∧ FetchesFrom 170#16 states store) ∧
      ∀ t, ∃ later, t < later ∧ FetchesFrom 170#16 states later := by
  have counts : ∀ {t}, FetchesAt inputs start t →
      Counts (archAt inputs start t, countAt inputs start t) :=
    fun fetches => counts_at_fetch fetching entry program fetches
  rw [TestTop.runs_eq_transfer image inputs running]
  refine ⟨?_, ?_, ?_⟩
  · intro t shows_
    obtain ⟨next, shown⟩ := store_of_fetches shows_ (counts shows_.1)
    exact ⟨next.fetches, shown⟩
  · intro t changes
    obtain ⟨store, begun, fetches, waiting⟩ := TestTop.exists_lastFetch fetching t
    have here : (archAt inputs start store).pc = 170#16 := by
      by_contra other
      have silent := (Inevitable.step_of_lap lap (counts fetches)).1.silent other
        (envAt inputs store)
      apply changes
      rw [TestTop.hexData_while_silent fetches silent (Nat.le_succ_of_le begun)
          fun v after before => waiting v after (Nat.le_of_lt_succ before),
        TestTop.hexData_while_silent fetches silent begun
          fun v after before => waiting v after (Nat.le_of_lt before)]
    have next := (store_of_fetches ⟨fetches, here⟩ (counts fetches)).1
    refine ⟨store, begun, ?_, fetches, here⟩
    by_contra late
    exact waiting (store + 13) next.order (Nat.le_of_not_lt late) next.fetches
  · intro t
    obtain ⟨last, begun, fetches, waiting⟩ := TestTop.exists_lastFetch fetching t
    obtain ⟨later, after, shows_⟩ := exists_display fetches (counts fetches)
    refine ⟨later, ?_, shows_⟩
    by_contra early
    exact waiting later after (Nat.le_of_not_lt early) shows_.1

/-- Both delays are zero, so that both counters wrap. -/
def autoCounter : TestTop.State where
  cpu := { Cpu.blank .s18 with pc := 156#16 }
  mem :=
    { memArray := Function.update (Function.update memoryContents 173#8 0#16) 174#8 0#16
      memOut := 0#16 }

theorem counts_without_gaps_autoCounter :
    let states := Clocked.run (TestTop.step memoryContents) (fun _ => .quiet) autoCounter
    (∀ t, FetchesFrom 170#16 states t →
        (states (t + 13)).cpu.state = .s18 ∧
          (states (t + 13)).cpu.hexData =
            BitVec.ofNat 16 (Nat.count (FetchesFrom 170#16 states) t)) ∧
      (∀ t, (states (t + 1)).cpu.hexData ≠ (states t).cpu.hexData →
        ∃ store, store ≤ t ∧ t < store + 13 ∧ FetchesFrom 170#16 states store) ∧
      ∀ t, ∃ later, t < later ∧ FetchesFrom 170#16 states later :=
  counts_without_gaps memoryContents (fun _ => .quiet) (fun _ => rfl) autoCounter rfl rfl
    (Shipped.update (Shipped.update (fun _ _ _ => rfl) (Or.inr (by decide)) _)
      (Or.inr (by decide)) _)

end Run

end DigitalSystems.Slc3.AutoCounter
