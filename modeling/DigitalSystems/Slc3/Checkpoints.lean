import DigitalSystems.Slc3.Conversation

/-!
# The shipped tests

Three of the programs in front of the bubble sort: the second test of the switches and the
display at 6, the exclusive or at 20, and the counter at 42.
-/

namespace DigitalSystems.Slc3

open Isa
open Conversation (settled laps_of_reading laps_of_wait)
open Dialogue (laps_of_rest)

namespace Echo

/-- The last reading of the switches. -/
def conversation : Conversation (Option (BitVec 10)) where
  turn _ sw := some sw
  Shows reading hexData led _ :=
    match reading with
    | none => led = 0x001#10
    | some sw => hexData = sw.setWidth 16 ∧ led = 0x002#10
  shows_common _ shows := shows
  home := 9#16
  AtHome _ := True

/-- The pause at 9, behind a reading. -/
def AtOutput (state : Arch × (BitVec 10 → Option (BitVec 10))) : Prop :=
  ∃ register value memory sw, register 0#3 = 0#16 ∧ Shipped 6#8 10#8 memory ∧
    state = (⟨9#16, register, signClass value, memory, sw.setWidth 16⟩, settled (some sw))

variable {register : RegisterFile} {flags : Flags} {memory : BitVec 8 → Word} {hexData : Word}
  {reading : Option (BitVec 10)}

/-- Addresses 7 and 8. -/
theorem laps_of_input (zero : register 0#3 = 0#16) (shipped : Shipped 6#8 10#8 memory) :
    conversation.dialogue.Laps AtOutput
      (⟨7#16, register, flags, memory, hexData⟩, conversation.turn reading) := by
  rw [eq_file register, zero]
  refine laps_of_reading shipped 1#3 0#3 (-1) (by decide) (by decide) common_port fun env => ?_
  simp only [Arch.exec_ldr, BitVec.reduceAdd, file_r0, BitVec.reduceNeg, BitVec.reduceSignExtend,
    BitVec.zero_add, Arch.read_port, update_file_r1]
  refine laps_of_rest shipped (.str 1#3 0#3 (-1)) (by decide) (by decide) common_port
    fun _ => ?_
  simp only [Arch.exec_str, BitVec.reduceAdd, file_r0, file_r1, BitVec.reduceNeg,
    BitVec.reduceSignExtend, BitVec.zero_add, Arch.write_port]
  exact .reached ⟨_, _, _, _, rfl, shipped.update (Or.inr (by decide)) _, rfl⟩

theorem conducts : conversation.dialogue.Conducts AtOutput := by
  refine Conversation.conducts_of_waits (by decide) 0xC02#12 ?_ ?_
  · rintro _ ⟨register, value, memory, sw, zero, shipped, rfl⟩
    have held : ShippedAt 6#8 10#8 9#16 (.pse 0xC02#12) := by decide
    exact ⟨rfl, decode_fetched shipped held, some sw, rfl, trivial, rfl, rfl⟩
  · rintro _ reading ⟨register, value, memory, sw, zero, shipped, same⟩
    obtain ⟨rfl, -⟩ := Prod.mk.inj same
    refine laps_of_rest shipped (.br 0b111#3 (-4)) (by decide) (by decide) trivial fun _ => ?_
    rw [Arch.exec_br, if_pos selects_nzp]
    exact laps_of_input zero shipped

def program : Program where
  Talk := Option (BitVec 10)
  conversation := conversation
  initial := none
  entry := 6#10
  Cut := AtOutput
  conducts := conducts
  begins := by
    rintro ⟨pc, register, flags, memory, hexData⟩ rfl zero shipped
    have test : Shipped 6#8 10#8 memory := shipped.within (by decide)
    refine laps_of_wait test 0x801#12 (by decide) (by decide) rfl ?_
    exact laps_of_input zero test

end Echo

namespace ExclusiveOr

/-- Waiting for the operands, or done with both. -/
inductive Phase where
  | first
  | second (a : BitVec 10)
  | result (a b : BitVec 10)

def conversation : Conversation Phase where
  turn phase sw :=
    match phase with
    | .first => .second sw
    | .second a => .result a sw
    | .result _ _ => .first
  Shows phase hexData led _ :=
    match phase with
    | .first => led = 0x001#10
    | .second _ => led = 0x002#10
    | .result a b => hexData = (a ^^^ b).setWidth 16 ∧ led = 0x005#10
  shows_common _ shows := shows
  home := 21#16
  AtHome phase := phase = .first

/-- The pause for the first operand. -/
structure AtInput (state : Arch × (BitVec 10 → Phase)) : Prop where
  address : state.1.pc = 21#16
  zero : state.1.register 0#3 = 0#16
  shipped : Shipped 20#8 35#8 state.1.memory
  waiting : state.2 = settled .first

/-- The exclusive or from negations and conjunctions. -/
theorem not_and_not (x y : Word) :
    ~~~(~~~(~~~x &&& y) &&& ~~~(~~~y &&& x)) = x ^^^ y := by
  ext i inside
  simp only [BitVec.getElem_not, BitVec.getElem_and, BitVec.getElem_xor]
  cases x[i] <;> cases y[i] <;> rfl

variable {memory : BitVec 8 → Word} {hexData r1 r2 r3 r4 r5 r6 r7 : Word} {flags : Flags}
  {a b : BitVec 10}

/-- Addresses 33 to 35, with the result in `R3`. -/
theorem laps_of_output (shipped : Shipped 20#8 35#8 memory) {value : Word} :
    conversation.dialogue.Laps AtInput
      (⟨33#16, file 0#16 r1 r2 ((a ^^^ b).setWidth 16) r4 r5 r6 r7, signClass value, memory,
        hexData⟩, settled (.result a b)) := by
  refine laps_of_rest shipped (.str 3#3 0#3 (-1)) (by decide) (by decide) common_port
    fun _ => ?_
  simp only [Arch.exec_str, BitVec.reduceAdd, file_r0, file_r3, BitVec.reduceNeg,
    BitVec.reduceSignExtend, BitVec.zero_add, Arch.write_port]
  have intact := shipped.update (Or.inr (show 35#8 < 0xFF#8 by decide)) ((a ^^^ b).setWidth 16)
  refine laps_of_wait intact 0x405#12 (by decide) (by decide) ⟨rfl, rfl⟩ ?_
  refine laps_of_rest intact (.br 0b111#3 (-15)) (by decide) (by decide) trivial fun _ => ?_
  rw [Arch.exec_br, if_pos selects_nzp]
  exact .reached ⟨rfl, rfl, intact, rfl⟩

/-- Addresses 25 to 32. -/
theorem laps_of_operands (shipped : Shipped 20#8 35#8 memory) :
    conversation.dialogue.Laps AtInput
      (⟨25#16, file 0#16 (a.setWidth 16) (b.setWidth 16) r3 r4 r5 r6 r7, flags, memory, hexData⟩,
        settled (.result a b)) := by
  refine laps_of_rest shipped (.not 3#3 1#3) (by decide) (by decide) trivial fun _ => ?_
  simp only [Arch.exec_not, BitVec.reduceAdd, file_r1, update_file_r3]
  refine laps_of_rest shipped (.and 3#3 3#3 (.register 2#3)) (by decide) (by decide) trivial
    fun _ => ?_
  simp only [Arch.exec_and, BitVec.reduceAdd, file_r2, file_r3, update_file_r3]
  refine laps_of_rest shipped (.not 3#3 3#3) (by decide) (by decide) trivial fun _ => ?_
  simp only [Arch.exec_not, BitVec.reduceAdd, file_r3, update_file_r3]
  refine laps_of_rest shipped (.not 4#3 2#3) (by decide) (by decide) trivial fun _ => ?_
  simp only [Arch.exec_not, BitVec.reduceAdd, file_r2, update_file_r4]
  refine laps_of_rest shipped (.and 4#3 4#3 (.register 1#3)) (by decide) (by decide) trivial
    fun _ => ?_
  simp only [Arch.exec_and, BitVec.reduceAdd, file_r1, file_r4, update_file_r4]
  refine laps_of_rest shipped (.not 4#3 4#3) (by decide) (by decide) trivial fun _ => ?_
  simp only [Arch.exec_not, BitVec.reduceAdd, file_r4, update_file_r4]
  refine laps_of_rest shipped (.and 3#3 3#3 (.register 4#3)) (by decide) (by decide) trivial
    fun _ => ?_
  simp only [Arch.exec_and, BitVec.reduceAdd, file_r3, file_r4, update_file_r3]
  refine laps_of_rest shipped (.not 3#3 3#3) (by decide) (by decide) trivial fun _ => ?_
  simp only [Arch.exec_not, BitVec.reduceAdd, file_r3, update_file_r3, not_and_not,
    ← BitVec.setWidth_xor]
  exact laps_of_output shipped

/-- Addresses 22 to 24: the operands are read. -/
theorem laps_of_input (shipped : Shipped 20#8 35#8 memory) :
    conversation.dialogue.Laps AtInput
      (⟨22#16, file 0#16 r1 r2 r3 r4 r5 r6 r7, flags, memory, hexData⟩,
        conversation.turn .first) := by
  refine laps_of_reading shipped 1#3 0#3 (-1) (by decide) (by decide) common_port fun env => ?_
  simp only [Arch.exec_ldr, BitVec.reduceAdd, file_r0, BitVec.reduceNeg, BitVec.reduceSignExtend,
    BitVec.zero_add, Arch.read_port, update_file_r1]
  refine laps_of_wait shipped 0x802#12 (by decide) (by decide)
    (show conversation.Shows (.second env.loadSwitches) _ _ _ from rfl) ?_
  refine laps_of_reading shipped 2#3 0#3 (-1) (by decide) (by decide) common_port fun _ => ?_
  simp only [Arch.exec_ldr, BitVec.reduceAdd, file_r0, BitVec.reduceNeg, BitVec.reduceSignExtend,
    BitVec.zero_add, Arch.read_port, update_file_r2]
  exact laps_of_operands shipped

theorem conducts : conversation.dialogue.Conducts AtInput := by
  refine Conversation.conducts_of_waits (by decide) 0x801#12 ?_ ?_
  · rintro ⟨⟨pc, register, flags, memory, hexData⟩, phase⟩ ⟨rfl, zero, shipped, rfl⟩
    have held : ShippedAt 20#8 35#8 21#16 (.pse 0x801#12) := by decide
    exact ⟨rfl, decode_fetched shipped held, .first, rfl, rfl, rfl⟩
  · rintro ⟨pc, register, flags, memory, hexData⟩ phase ⟨rfl, zero, shipped, known⟩
    obtain rfl : phase = .first := congrFun known 0#10
    dsimp only at zero shipped
    rw [eq_file register, zero]
    exact laps_of_input shipped

def program : Program where
  Talk := Phase
  conversation := conversation
  initial := .first
  entry := 20#10
  Cut := AtInput
  conducts := conducts
  begins := by
    rintro ⟨pc, register, flags, memory, hexData⟩ rfl - shipped
    have test : Shipped 20#8 35#8 memory := shipped.within (by decide)
    rw [eq_file register]
    refine laps_of_rest test (.and 0#3 0#3 (.immediate 0)) (by decide) (by decide) trivial
      fun _ => ?_
    simp only [Arch.exec_andi, BitVec.reduceAdd, BitVec.reduceSetWidth, file_r0,
      BitVec.reduceSignExtend, BitVec.and_zero, update_file_r0]
    exact .reached ⟨rfl, rfl, test, rfl⟩

end ExclusiveOr

namespace RunOnce

/-- The number of times the button has been used. -/
def conversation : Conversation Nat where
  turn presses _ := presses + 1
  Shows presses hexData led _ := hexData = BitVec.ofNat 16 presses ∧ led = 0x001#10
  shows_common _ shows := shows
  home := 46#16
  AtHome _ := True

/-- The pause of the loop, whose address is in `R7`. -/
structure AtOutput (state : Arch × (BitVec 10 → Nat)) : Prop where
  address : state.1.pc = 46#16
  zero : state.1.register 0#3 = 0#16
  loop : state.1.register 7#3 = 45#16
  counted : ∃ presses, state.1.register 1#3 = BitVec.ofNat 16 presses ∧
    state.1.hexData = BitVec.ofNat 16 presses ∧ state.2 = settled presses
  shipped : Shipped 42#8 48#8 state.1.memory

variable {memory : BitVec 8 → Word} {hexData r2 r3 r4 r5 r6 : Word} {flags : Flags}

/-- Address 45. -/
theorem laps_of_loop (shipped : Shipped 42#8 48#8 memory) (presses : Nat) :
    conversation.dialogue.Laps AtOutput
      (⟨45#16, file 0#16 (BitVec.ofNat 16 presses) r2 r3 r4 r5 r6 45#16, flags, memory, hexData⟩,
        settled presses) := by
  refine laps_of_rest shipped (.str 1#3 0#3 (-1)) (by decide) (by decide) common_port
    fun _ => ?_
  simp only [Arch.exec_str, BitVec.reduceAdd, file_r0, file_r1, BitVec.reduceNeg,
    BitVec.reduceSignExtend, BitVec.zero_add, Arch.write_port]
  exact .reached ⟨rfl, rfl, rfl, ⟨presses, rfl, rfl, rfl⟩, shipped.update (Or.inr (by decide)) _⟩

theorem conducts : conversation.dialogue.Conducts AtOutput := by
  refine Conversation.conducts_of_waits (by decide) 0x401#12 ?_ ?_
  · rintro ⟨⟨pc, register, flags, memory, hexData⟩, outcome⟩
      ⟨rfl, -, -, ⟨presses, -, shown, rfl⟩, shipped⟩
    have held : ShippedAt 42#8 48#8 46#16 (.pse 0x401#12) := by decide
    exact ⟨rfl, decode_fetched shipped held, presses, rfl, trivial, shown, rfl⟩
  · rintro ⟨pc, register, flags, memory, hexData⟩ presses
      ⟨rfl, zero, loop, ⟨presses', count, -, known⟩, shipped⟩
    obtain rfl : presses = presses' := congrFun known 0#10
    dsimp only at zero count loop shipped
    have next : BitVec.ofNat 16 presses + 1#16 = BitVec.ofNat 16 (presses + 1) :=
      BitVec.ofNat_add_ofNat _ _
    rw [eq_file register, zero, count, loop]
    refine laps_of_rest shipped (.add 1#3 1#3 (.immediate 1)) (by decide) (by decide) trivial
      fun _ => ?_
    simp only [Arch.exec_addi, file_r1, BitVec.reduceSignExtend, next, update_file_r1]
    refine laps_of_rest shipped (.jmp 7#3) (by decide) (by decide) trivial fun _ => ?_
    rw [Arch.exec_jmp, file_r7]
    exact laps_of_loop shipped (presses + 1)

def program : Program where
  Talk := Nat
  conversation := conversation
  initial := 0
  entry := 42#10
  Cut := AtOutput
  conducts := conducts
  begins := by
    rintro ⟨pc, register, flags, memory, hexData⟩ rfl - shipped
    have test : Shipped 42#8 48#8 memory := shipped.within (by decide)
    rw [eq_file register]
    refine laps_of_rest test (.and 0#3 0#3 (.immediate 0)) (by decide) (by decide) trivial
      fun _ => ?_
    simp only [Arch.exec_andi, BitVec.reduceAdd, BitVec.reduceSetWidth, file_r0,
      BitVec.reduceSignExtend, BitVec.and_zero, update_file_r0]
    refine laps_of_rest test (.and 1#3 1#3 (.immediate 0)) (by decide) (by decide) trivial
      fun _ => ?_
    simp only [Arch.exec_andi, BitVec.reduceAdd, file_r1, BitVec.reduceSignExtend,
      BitVec.and_zero, update_file_r1]
    refine laps_of_rest test (.jsr 0) (by decide) (by decide) trivial fun _ => ?_
    simp only [Arch.exec_jsr, BitVec.reduceAdd, BitVec.reduceSignExtend, BitVec.add_zero,
      update_file_r7]
    exact laps_of_loop test 0

end RunOnce

end DigitalSystems.Slc3
