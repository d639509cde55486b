import DigitalSystems.Slc3.Dialogue
import DigitalSystems.Slc3.DisplayFunction

/-!
# The self-modifying test

The program at 11 counts its rounds in the vector of its own pause instruction.  The vector
has twelve bits: after 1022 rounds the count runs over into the opcode.
-/

namespace DigitalSystems.Slc3.SelfModifying

open Isa Assembler
open Clocked (Inevitable)
open Dialogue (laps_of_rest laps_of_load laps_of_pause)

structure Talk where
  rounds : Nat
  reading : Option (BitVec 10)

/-- A round ends with the pause at 16; the load at 13 is that of the instruction. -/
def dialogue : Dialogue Talk where
  read address sw talk := if address = 14#16 then { talk with reading := some sw } else talk
  press address talk := if address = 16#16 then { talk with rounds := talk.rounds + 1 } else talk
  Shows talk hexData led _ :=
    match talk.reading with
    | none => led = 0x001#10
    | some sw => hexData = sw.setWidth 16 ∧ led = BitVec.ofNat 10 (2 + talk.rounds)
  home := 16#16
  AtHome talk := talk.reading.isSome

/-- The word at 16 after a number of rounds. -/
def counted (rounds : Nat) : Word := BitVec.ofNat 16 (0xDC02 + rounds)

structure Holds (rounds : Nat) (memory : BitVec 8 → Word) : Prop where
  before : Shipped 11#8 15#8 memory
  after : Shipped 17#8 19#8 memory
  pause : memory 16#8 = counted rounds

/-- At the word that counts, with the last reading on the display. -/
structure AtCount (state : Arch × Talk) : Prop where
  address : state.1.pc = 16#16
  zero : state.1.register 0#3 = 0#16
  copy : state.1.register 2#3 = counted state.2.rounds
  link : state.1.register 7#3 = 13#16
  held : Holds state.2.rounds state.1.memory
  shown : ∃ sw : BitVec 10, state.2.reading = some sw ∧ state.1.hexData = sw.setWidth 16

/-- The count has run over. -/
def Overflown (state : Arch × Talk) : Prop := AtCount state ∧ state.2.rounds = 1022

section Words

variable {rounds : Nat}

theorem counted_eq (below : rounds < 1022) :
    counted rounds = opPSE (BitVec.ofNat 12 (0xC02 + rounds)) := by
  apply BitVec.eq_of_toNat_eq
  rw [counted, opPSE, BitVec.toNat_append, ← Nat.shiftLeft_add_eq_or_of_lt (BitVec.isLt _),
    BitVec.toNat_ofNat, BitVec.toNat_ofNat, Nat.shiftLeft_eq]
  change _ = 13 * 2 ^ 12 + _
  omega

theorem led_counted : (BitVec.ofNat 12 (0xC02 + rounds)).extractLsb' 0 10 =
    BitVec.ofNat 10 (2 + rounds) := by
  apply BitVec.eq_of_toNat_eq
  rw [BitVec.extractLsb'_toNat, BitVec.toNat_ofNat, BitVec.toNat_ofNat, Nat.shiftRight_zero]
  omega

theorem counted_succ : counted rounds + 1#16 = counted (rounds + 1) :=
  BitVec.ofNat_add_ofNat _ _

end Words

section Lap

variable {register : RegisterFile} {flags : Flags} {memory : BitVec 8 → Word}
  {hexData r1 r2 r3 r4 r5 r6 : Word} {talk : Talk}

theorem Holds.update {rounds : Nat} (held : Holds rounds memory) {address : BitVec 8}
    (behind : 19#8 < address) (value : Word) :
    Holds rounds (Function.update memory address value) := by
  refine ⟨held.before.update (Or.inr (BitVec.lt_trans (by decide) behind)) value,
    held.after.update (Or.inr behind) value, ?_⟩
  rw [Function.update_of_ne (BitVec.ne_of_lt (BitVec.lt_trans (by decide) behind))]
  exact held.pause

theorem Holds.count {rounds : Nat} (held : Holds rounds memory) (rounds' : Nat) :
    Holds rounds' (Function.update memory 16#8 (counted rounds')) :=
  ⟨held.before.update (Or.inr (by decide)) _, held.after.update (Or.inl (by decide)) _,
    Function.update_self _ _ _⟩

/-- Addresses 14 and 15. -/
theorem laps_of_input {Cut : Arch × Talk → Prop} (talk : Talk) (held : Holds talk.rounds memory)
    (rest : ∀ flags memory (sw : BitVec 10), Holds talk.rounds memory →
      dialogue.Laps Cut (⟨16#16, file 0#16 (sw.setWidth 16) (counted talk.rounds) r3 r4 r5 r6 13#16,
        flags, memory, sw.setWidth 16⟩, { talk with reading := some sw })) :
    dialogue.Laps Cut (⟨14#16, file 0#16 r1 (counted talk.rounds) r3 r4 r5 r6 13#16, flags,
      memory, hexData⟩, talk) := by
  refine laps_of_load held.before 1#3 0#3 (-1) (by decide) (by decide) common_port
    fun env => ?_
  simp only [Arch.exec_ldr, BitVec.reduceAdd, file_r0, BitVec.reduceNeg, BitVec.reduceSignExtend,
    BitVec.zero_add, Arch.read_port, update_file_r1]
  refine laps_of_rest held.before (.str 1#3 0#3 (-1)) (by decide) (by decide) common_port
    fun _ => ?_
  simp only [Arch.exec_str, BitVec.reduceAdd, file_r0, file_r1, BitVec.reduceNeg,
    BitVec.reduceSignExtend, BitVec.zero_add, Arch.write_port]
  exact rest _ _ _ (held.update (by decide) _)

/-- One round, from the pause on. -/
theorem laps_of_round {Cut : Arch × Talk → Prop} {arch : Arch} (count : AtCount (arch, talk))
    (below : talk.rounds < 1022)
    (rest : ∀ arch' talk', AtCount (arch', talk') → talk'.rounds = talk.rounds + 1 →
      dialogue.Laps Cut (arch', talk')) : dialogue.Laps Cut (arch, talk) := by
  obtain ⟨pc, register, flags, memory, hexData⟩ := arch
  obtain ⟨rounds, reading⟩ := talk
  obtain ⟨rfl, zero, copy, link, held, sw, rfl, rfl⟩ := count
  dsimp only at zero copy link held below
  have pauses : ∀ env, decode (Arch.fetched ⟨16#16, register, flags, memory, sw.setWidth 16⟩ env) =
      .pse (BitVec.ofNat 12 (0xC02 + rounds)) := by
    intro env
    rw [← DisplayFunction.decode_opPSE, ← counted_eq below, ← held.pause]
    rfl
  have waits : dialogue.Waits
      (⟨16#16, register, flags, memory, sw.setWidth 16⟩, ⟨rounds, some sw⟩)
      (BitVec.ofNat 12 (0xC02 + rounds)) := ⟨pauses, rfl, led_counted⟩
  have inside : (16#16).toNat ≤ 254 := by decide
  obtain ⟨attends, left⟩ := Dialogue.leaves_waits waits inside
  refine .next attends fun env => ?_
  rw [left env, eq_file register, zero, copy, link]
  change dialogue.Laps Cut (⟨17#16, file 0#16 _ (counted rounds) _ _ _ _ 13#16, flags, memory,
    sw.setWidth 16⟩, ⟨rounds + 1, some sw⟩)
  refine laps_of_rest held.after (.add 2#3 2#3 (.immediate 1)) (by decide) (by decide) trivial
    fun _ => ?_
  simp only [Arch.exec_addi, BitVec.reduceAdd, file_r2, BitVec.reduceSignExtend, counted_succ,
    update_file_r2]
  refine laps_of_rest held.after (.str 2#3 7#3 3) (by decide) (by decide) (Or.inl inside)
    fun _ => ?_
  simp only [Arch.exec_str, BitVec.reduceAdd, file_r2, file_r7, BitVec.reduceSignExtend,
    Arch.write_memory _ (show 16#16 ≠ 0xFFFF#16 by decide), BitVec.reduceSetWidth]
  have counts := held.count (rounds + 1)
  refine laps_of_rest counts.after (.br 0b111#3 (-6)) (by decide) (by decide) trivial fun _ => ?_
  rw [Arch.exec_br, if_pos selects_nzp]
  refine laps_of_input ⟨rounds + 1, some sw⟩ counts fun flags memory sw shown => ?_
  exact rest _ _ ⟨rfl, rfl, rfl, rfl, shown, sw, rfl, rfl⟩ rfl

theorem overflows : ∀ (left : Nat) {arch : Arch} {talk : Talk}, AtCount (arch, talk) →
    talk.rounds + left = 1022 → dialogue.Laps Overflown (arch, talk) := by
  intro left
  induction left with
  | zero => exact fun count total => .reached ⟨count, total⟩
  | succ left inductionHypothesis =>
      intro arch talk count total
      refine laps_of_round count (by omega) fun arch' talk' next rounds => ?_
      exact inductionHypothesis next (by omega)

/-- Addresses 11 to 13: the pause instruction is loaded as data. -/
theorem laps_of_prologue (zero : register 0#3 = 0#16) (shipped : Shipped 11#8 19#8 memory) :
    dialogue.Laps Overflown (⟨11#16, register, flags, memory, hexData⟩, ⟨0, none⟩) := by
  have held : Holds 0 memory := ⟨shipped.within (by decide), shipped.within (by decide),
    shipped 16#8 (by decide) (by decide)⟩
  rw [eq_file register, zero]
  refine laps_of_pause held.before 0x801#12 (by decide) (by decide) rfl ?_
  refine laps_of_rest held.before (.jsr 0) (by decide) (by decide) trivial fun _ => ?_
  simp only [Arch.exec_jsr, BitVec.reduceAdd, BitVec.reduceSignExtend, BitVec.add_zero,
    update_file_r7]
  have inside : (16#16).toNat ≤ 254 := by decide
  refine laps_of_load held.before 2#3 7#3 3 (by decide) (by decide) (Or.inl inside) fun _ => ?_
  simp only [Arch.exec_ldr, BitVec.reduceAdd, file_r7, BitVec.reduceSignExtend,
    Arch.read_memory _ (show 16#16 ≠ 0xFFFF#16 by decide), BitVec.reduceSetWidth, held.pause,
    update_file_r2]
  refine laps_of_input ⟨0, none⟩ held fun flags memory sw shown => ?_
  exact overflows 1022 ⟨rfl, rfl, rfl, rfl, shown, sw, rfl, rfl⟩ rfl

end Lap

section Run

open TestTop (FetchesAt archAt)

theorem rounds_record (env : Env) (arch : Arch) (talk : Talk) :
    talk.rounds ≤ (dialogue.record env arch talk).rounds := by
  rw [Dialogue.record, dialogue]
  dsimp only
  split_ifs <;> simp

/-- Up to the overflow, which is there to stay. -/
theorem lap (state : Arch × Talk) (overflown : 1022 ≤ state.2.rounds) :
    (state.2.rounds < 1022 → dialogue.Attends state) ∧ ∀ env,
      Inevitable (Clocked.traced execute dialogue.record)
        (fun state => state.2.rounds < 1022 → dialogue.Attends state)
        (fun state => 1022 ≤ state.2.rounds)
        (Clocked.traced execute dialogue.record env state) := by
  refine ⟨fun below => absurd below (Nat.not_lt.mpr overflown), fun env => .reached ?_⟩
  exact Nat.le_trans overflown (rounds_record env state.1 state.2)

/-- The test shows its readings and counts 1022 rounds from 2 on.  Then the word at 16 is no
longer a pause, and the machine runs through it. -/
theorem counts_until_overflow (image : BitVec 8 → Word) (inputs : Nat → TestTop.Input)
    (running : ∀ t, (inputs t).reset = false) (start : TestTop.State)
    (fetching : start.cpu.state = .s18) (entry : start.cpu.pc = 11#16)
    (zero : start.arch.register 0#3 = 0#16) (shipped : Shipped 11#8 19#8 start.mem.memArray) :
    let views := Dialogue.viewAt inputs (Clocked.run (TestTop.step image) inputs start)
    let talk := dialogue.talkAt views ⟨0, none⟩
    (∀ t, (views t).cpu.state.Paused → (talk t).rounds < 1022 →
        dialogue.Shows (talk t) (views t).cpu.hexData (views t).cpu.led (views t).memory) ∧
      (TestTop.Pressed inputs →
        ∃ t, (views t).cpu.state = .s18 ∧ (views t).cpu.pc = 16#16 ∧
          (talk t).rounds = 1022 ∧ (views t).memory 16#8 = 0xE000#16 ∧
          (views (t + 7)).cpu.state = .s18 ∧ (views (t + 7)).cpu.pc = 17#16) := by
  rw [TestTop.runs_eq_transfer image inputs running]
  have first : FetchesAt inputs start 0 := fetching
  have initially : dialogue.Laps Overflown (start.arch, ⟨0, none⟩) := by
    rw [show start.arch = ⟨11#16, start.arch.register, start.arch.flags, start.arch.memory,
      start.arch.hexData⟩ by rw [← entry]; rfl]
    exact laps_of_prologue zero shipped
  constructor
  · intro t paused below
    obtain ⟨last, begun, fetches, waiting⟩ := TestTop.exists_lastFetch first t
    have pauses := (TestTop.pauses_of_paused fetches begun waiting paused).2
    have laps := TestTop.traced_at_fetch lap Dialogue.talk_next first
      (initially.mono (fun state attends _ => attends) fun state overflown => overflown.2.ge)
      fetches
    have same : dialogue.talkOf inputs start ⟨0, none⟩ t =
        dialogue.talkOf inputs start ⟨0, none⟩ last :=
      Dialogue.talk_of_paused fetches begun waiting pauses
    have below' : (dialogue.talkOf inputs start ⟨0, none⟩ last).rounds < 1022 := same ▸ below
    rcases ((Inevitable.step_of_lap lap laps).1 below').waits with plain | ⟨ledVect12, waits⟩
    · exact absurd pauses (plain (TestTop.envAt inputs last))
    · exact Dialogue.shows_of_waits fetches begun waiting paused waits
  · intro pressed
    obtain ⟨t, -, fetches, count, rounds⟩ := TestTop.exists_fetch_of_traced Dialogue.talk_next
      (TestTop.nextFetch_of_pressed pressed) initially first rfl
    have overflown : (archAt inputs start t).memory 16#8 = 0xE000#16 := by
      rw [count.held.pause, rounds]
      rfl
    have address : (archAt inputs start t).pc = 16#16 := count.address
    have skipped : decode ((archAt inputs start t).fetched (TestTop.envAt inputs t)) =
        .unassigned := by
      rw [Arch.fetched, address, Arch.read, if_neg (by decide)]
      change decode ((archAt inputs start t).memory 16#8) = .unassigned
      rw [overflown]
      rfl
    obtain ⟨next, effect⟩ := TestTop.nextFetch_of_instr fetches skipped 0 rfl
    rw [Arch.step, skipped, address] at effect
    exact ⟨t, fetches, address, rounds, overflown, next.fetches, congrArg Arch.pc effect⟩

def testStart : TestTop.State where
  cpu := { Cpu.blank .s18 with pc := 11#16 }
  mem := { memArray := memoryContents, memOut := 0#16 }

/-- 5 on the switches, and the button pressed and released all the time. -/
def blinking (t : Nat) : TestTop.Input :=
  { TestTop.Input.quiet with sw := 5#10, continue_ := t % 2 == 1 }

theorem counts_until_overflow_blinking :
    let views := Dialogue.viewAt blinking
      (Clocked.run (TestTop.step memoryContents) blinking testStart)
    let talk := dialogue.talkAt views ⟨0, none⟩
    (∀ t, (views t).cpu.state.Paused → (talk t).rounds < 1022 →
        dialogue.Shows (talk t) (views t).cpu.hexData (views t).cpu.led (views t).memory) ∧
      ∃ t, (views t).cpu.state = .s18 ∧ (views t).cpu.pc = 16#16 ∧
        (talk t).rounds = 1022 ∧ (views t).memory 16#8 = 0xE000#16 ∧
        (views (t + 7)).cpu.state = .s18 ∧ (views (t + 7)).cpu.pc = 17#16 := by
  have pressed : TestTop.Pressed blinking :=
    ⟨fun t => ⟨2 * t + 1, by omega, by simp [blinking]⟩,
      fun t => ⟨2 * t, by omega, by simp [blinking]⟩⟩
  obtain ⟨shows, overflow⟩ := counts_until_overflow memoryContents blinking (fun _ => rfl)
    testStart rfl rfl rfl fun _ _ _ => rfl
  exact ⟨shows, overflow pressed⟩

end Run

end DigitalSystems.Slc3.SelfModifying
