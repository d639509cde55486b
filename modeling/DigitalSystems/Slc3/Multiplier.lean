import DigitalSystems.Arith.SignedBits
import DigitalSystems.Slc3.Operations
import DigitalSystems.Slc3.Programs
import DigitalSystems.Slc3.SwitchReadings
import Mathlib.Tactic.Ring

/-!
# The shipped multiplier

The program at the addresses 49 to 73 reads two operands from the switches, multiplies
them by shifting and adding, and starts again.
-/

namespace DigitalSystems.Slc3.Multiplier

open Isa
open Clocked (Inevitable)

/-- The last readings of the two operands. -/
structure Readings where
  first : Option (BitVec 10)
  second : Option (BitVec 10)

def record (env : Env) (arch : Arch) (readings : Readings) : Readings where
  first := (arch.reading 55#16 env).or readings.first
  second := (arch.reading 57#16 env).or readings.second

/-- The first operand counts as a signed byte, the second as ten bits without sign. -/
def product (a b : BitVec 10) : Word := BitVec.ofInt 16 ((a.setWidth 8).toInt * b.toNat)

/-- `hexData` is the product of the last readings. -/
def Multiplied (readings : Readings) (hexData : Word) : Prop :=
  ∃ a b, readings.first = some a ∧ readings.second = some b ∧ hexData = product a b

def AtOutput (state : Arch × Readings) : Prop :=
  state.1.pc = 71#16 →
    Shipped 49#8 73#8 state.1.memory ∧ Multiplied state.2 state.1.hexData

/-- The top of a lap: the base register and the mask are as the prologue left them. -/
def AtLap (state : Arch × Readings) : Prop :=
  ∃ r1 r2 r4 r5 r6 r7 flags memory hexData readings, Shipped 49#8 73#8 memory ∧
    state = (⟨52#16, file 0#16 r1 r2 0x80#16 r4 r5 r6 r7, flags, memory, hexData⟩, readings)

/-- The machine comes to the top of a lap, and shows products on the way. -/
abbrev Laps : Arch × Readings → Prop :=
  Inevitable (Clocked.traced execute record) AtOutput AtLap

section Step

variable {pc : Word} {register : RegisterFile} {flags : Flags} {memory : BitVec 8 → Word}
  {hexData : Word} {readings : Readings}

theorem record_other {env : Env} (first : pc ≠ 55#16) (second : pc ≠ 57#16) :
    record env ⟨pc, register, flags, memory, hexData⟩ readings = readings := by
  rw [record, Arch.reading, Arch.reading, if_neg fun read => first read.1,
    if_neg fun read => second read.1]
  rfl

/-- An instruction that neither reads an operand nor ends a lap's work. -/
theorem laps_of_rest (shipped : Shipped 49#8 73#8 memory) (instr : Instr)
    (held : ShippedAt 49#8 73#8 pc instr) (other : pc ≠ 55#16 ∧ pc ≠ 57#16 ∧ pc ≠ 71#16)
    (rest : ∀ env, Laps
      (Arch.exec ⟨pc + 1#16, register, flags, memory, hexData⟩ env instr, readings)) :
    Laps (⟨pc, register, flags, memory, hexData⟩, readings) := by
  obtain ⟨first, second, output⟩ := other
  refine .next (fun here => absurd here output) fun env => ?_
  rw [traced_shipped record shipped instr held, record_other first second]
  exact rest env

theorem record_load (shipped : Shipped 49#8 73#8 memory) {instr : Instr}
    (held : ShippedAt 49#8 73#8 pc instr) (loads : instr.Loads) (env : Env) :
    record env ⟨pc, register, flags, memory, hexData⟩ readings =
      { first := if pc = 55#16 then some env.loadSwitches else readings.first
        second := if pc = 57#16 then some env.loadSwitches else readings.second } := by
  have loading : (decode (Arch.fetched ⟨pc, register, flags, memory, hexData⟩ env)).Loads := by
    rwa [decode_fetched shipped held]
  have reading : ∀ address : Word,
      Arch.reading ⟨pc, register, flags, memory, hexData⟩ address env =
        if pc = address then some env.loadSwitches else none := by
    intro address
    exact if_congr ⟨fun read => read.1, fun here => ⟨here, loading⟩⟩ rfl rfl
  rw [record, reading, reading]
  congr 1
  · split <;> rfl
  · split <;> rfl

/-- A load of an operand. -/
theorem laps_of_load (shipped : Shipped 49#8 73#8 memory) (instr : Instr)
    (held : ShippedAt 49#8 73#8 pc instr) (loads : instr.Loads) (other : pc ≠ 71#16)
    (rest : ∀ env, Laps
      (Arch.exec ⟨pc + 1#16, register, flags, memory, hexData⟩ env instr,
        { first := if pc = 55#16 then some env.loadSwitches else readings.first
          second := if pc = 57#16 then some env.loadSwitches else readings.second })) :
    Laps (⟨pc, register, flags, memory, hexData⟩, readings) := by
  refine .next (fun here => absurd here other) fun env => ?_
  rw [traced_shipped record shipped instr held, record_load shipped held loads]
  exact rest env

end Step

section Arithmetic

/-- The running total after `i` bits of the first operand, sign bit first. -/
def total (a b : BitVec 10) (i : Nat) : Word :=
  BitVec.ofInt 16 ((if i = 0 then 0 else (a.setWidth 8).toInt >>> (8 - i)) * b.toNat)

variable (a b : BitVec 10)

/-- What the second operand contributes for the bit tested in round `i`. -/
def addend (i : Nat) : Word := if a.getLsbD (7 - i) then b.setWidth 16 else 0#16

theorem total_zero : total a b 0 = 0#16 := by
  rw [total, if_pos rfl, Int.zero_mul]
  rfl

theorem total_eight : total a b 8 = product a b := by
  rw [total, product, if_neg (by decide), Nat.sub_self, Int.shiftRight_zero]

theorem addend_eq (i : Nat) :
    addend a b i = BitVec.ofInt 16 ((a.getLsbD (7 - i)).toNat * b.toNat) := by
  unfold addend
  cases a.getLsbD (7 - i)
  · change 0#16 = BitVec.ofInt 16 (0 * b.toNat)
    rw [Int.zero_mul]
    rfl
  · change b.setWidth 16 = BitVec.ofInt 16 (1 * b.toNat)
    rw [Int.one_mul, BitVec.ofInt_natCast, BitVec.ofNat_toNat]

theorem getLsbD_low {k : Nat} (below : k < 8) :
    (a.setWidth 8).getLsbD k = a.getLsbD k := by
  rw [BitVec.getLsbD_setWidth, decide_eq_true below, Bool.true_and]

/-- The first round negates: the bit it adds is the sign. -/
theorem total_one : ~~~(total a b 0 + total a b 0 + addend a b 0) + 1#16 = total a b 1 := by
  have sign := Arith.toInt_shiftRight_sign (a.setWidth 8)
  rw [getLsbD_low a (by decide)] at sign
  rw [← BitVec.neg_eq_not_add, addend_eq, total, total, if_pos rfl, if_neg Nat.one_ne_zero,
    sign, ← BitVec.ofInt_add, ← BitVec.ofInt_add, ← BitVec.ofInt_neg, Nat.sub_zero]
  congr 1
  ring

theorem total_succ {i : Nat} (later : i ≠ 0) (inside : i < 8) :
    total a b i + total a b i + addend a b i = total a b (i + 1) := by
  have below : 7 - i < 8 := by omega
  have shift := Arith.toInt_shiftRight (a.setWidth 8) below
  rw [getLsbD_low a below, show 7 - i + 1 = 8 - i by omega] at shift
  rw [addend_eq, total, total, if_neg later, if_neg (Nat.succ_ne_zero i),
    show 8 - (i + 1) = 7 - i by omega, shift, ← BitVec.ofInt_add, ← BitVec.ofInt_add]
  congr 1
  ring

/-- The mask tests bit 7 of the shifted operand. -/
theorem mask_shifted {i : Nat} (inside : i < 8) :
    (0x80#16 &&& a.setWidth 16 <<< i).toInt = 0 ↔ a.getLsbD (7 - i) = false := by
  have bit : (a.setWidth 16 <<< i).getLsbD 7 = a.getLsbD (7 - i) := by
    simp [show ¬ 7 < i by omega]
  have mask : 0x80#16 &&& a.setWidth 16 <<< i =
      if a.getLsbD (7 - i) then 0x80#16 else 0#16 := by
    rw [← bit]
    exact BitVec.twoPow_and (a.setWidth 16 <<< i) 7
  rw [mask]
  cases a.getLsbD (7 - i) <;> decide

theorem shift_succ (i : Nat) :
    a.setWidth 16 <<< i + a.setWidth 16 <<< i = a.setWidth 16 <<< (i + 1) := by
  rw [BitVec.shiftLeft_add]
  generalize a.setWidth 16 <<< i = shifted
  apply BitVec.eq_of_toNat_eq
  rw [BitVec.toNat_add, BitVec.toNat_shiftLeft, Nat.shiftLeft_eq]
  omega

theorem round_toInt_pos {i : Nat} (inside : i < 8) :
    0 < (BitVec.ofNat 16 i).toInt ↔ i ≠ 0 := by
  rw [BitVec.toInt_eq_toNat_cond, BitVec.toNat_ofNat]
  split <;> omega

theorem round_toInt_neg {i : Nat} (inside : i < 8) :
    (BitVec.ofNat 16 (i + 1) + 0xFFF8#16).toInt < 0 ↔ i + 1 < 8 := by
  rw [BitVec.toInt_eq_toNat_cond, BitVec.toNat_add, BitVec.toNat_ofNat, BitVec.toNat_ofNat]
  split <;> omega

end Arithmetic

section Loop

variable {a b : BitVec 10} {memory : BitVec 8 → Word} {hexData : Word} {readings : Readings}
  {r1 r4 r5 r6 r7 : Word} {flags : Flags}

/-- The machine in the loop: base register, mask and second operand are in place. -/
abbrev multiplying (b : BitVec 10) (memory : BitVec 8 → Word) (hexData r6 pc r1 r4 r5 r7 : Word)
    (flags : Flags) : Arch :=
  ⟨pc, file 0#16 r1 (b.setWidth 16) 0x80#16 r4 r5 r6 r7, flags, memory, hexData⟩

/-- Addresses 58 to 61: the total is doubled and the second operand added for a set bit. -/
theorem laps_of_add (shipped : Shipped 49#8 73#8 memory) {i : Nat} (inside : i < 8)
    (rest : ∀ r7 flags, Laps (multiplying b memory hexData r6 62#16 (a.setWidth 16 <<< i) r4
      (r5 + r5 + addend a b i) r7 flags, readings)) :
    Laps (multiplying b memory hexData r6 58#16 (a.setWidth 16 <<< i) r4 r5 r7 flags,
      readings) := by
  refine laps_of_rest shipped (.add 5#3 5#3 (.register 5#3)) (by decide) (by decide)
    fun _ => ?_
  simp only [Arch.exec_add, BitVec.reduceAdd, file_r5, update_file_r5]
  refine laps_of_rest shipped (.and 7#3 3#3 (.register 1#3)) (by decide) (by decide)
    fun _ => ?_
  simp only [Arch.exec_and, BitVec.reduceAdd, file_r3, file_r1, update_file_r7]
  refine laps_of_rest shipped (.br 0b010#3 1) (by decide) (by decide) fun _ => ?_
  simp only [Arch.exec_br, BitVec.reduceAdd, selects_z, mask_shifted a inside]
  cases bit : a.getLsbD (7 - i) with
  | false =>
      have clear : addend a b i = 0#16 := by
        rw [addend, bit]
        rfl
      rw [clear, BitVec.add_zero] at rest
      exact rest _ _
  | true =>
      have set : addend a b i = b.setWidth 16 := by
        rw [addend, bit]
        rfl
      rw [set] at rest
      refine laps_of_rest shipped (.add 5#3 5#3 (.register 2#3)) (by decide) (by decide)
        fun _ => ?_
      simp only [Arch.exec_add, file_r5, file_r2, update_file_r5]
      exact rest _ _

/-- Addresses 62 to 65: the first round negates the total. -/
theorem laps_of_negate (shipped : Shipped 49#8 73#8 memory) {i : Nat} (inside : i < 8)
    (rest : ∀ flags, Laps (multiplying b memory hexData r6 66#16 r1 (BitVec.ofNat 16 i)
      (if i = 0 then ~~~r5 + 1#16 else r5) r7 flags, readings)) :
    Laps (multiplying b memory hexData r6 62#16 r1 (BitVec.ofNat 16 i) r5 r7 flags,
      readings) := by
  refine laps_of_rest shipped (.add 4#3 4#3 (.immediate 0)) (by decide) (by decide)
    fun _ => ?_
  simp only [Arch.exec_addi, BitVec.reduceAdd, file_r4, BitVec.reduceSignExtend, BitVec.add_zero,
    update_file_r4]
  refine laps_of_rest shipped (.br 0b001#3 2) (by decide) (by decide) fun _ => ?_
  simp only [Arch.exec_br, BitVec.reduceAdd, selects_p, round_toInt_pos inside]
  by_cases first : i = 0
  · rw [if_neg (not_not_intro first)]
    rw [if_pos first] at rest
    refine laps_of_rest shipped (.not 5#3 5#3) (by decide) (by decide) fun _ => ?_
    simp only [Arch.exec_not, BitVec.reduceAdd, file_r5, update_file_r5]
    refine laps_of_rest shipped (.add 5#3 5#3 (.immediate 1)) (by decide) (by decide)
      fun _ => ?_
    simp only [Arch.exec_addi, BitVec.reduceAdd, file_r5, BitVec.reduceSignExtend, update_file_r5]
    exact rest _
  · rw [if_pos first]
    rw [if_neg first] at rest
    exact rest _

/-- Addresses 66 to 69: the next bit moves under the mask, unless all eight are done. -/
theorem laps_of_count (shipped : Shipped 49#8 73#8 memory) {i : Nat} (inside : i < 8)
    (rest : ∀ (env : Env) r7, Laps (multiplying b memory hexData r6
      (if i + 1 < 8 then 58#16 else 70#16) (a.setWidth 16 <<< (i + 1))
      (BitVec.ofNat 16 (i + 1)) r5 r7 (signClass env.undriven), readings)) :
    Laps (multiplying b memory hexData r6 66#16 (a.setWidth 16 <<< i) (BitVec.ofNat 16 i) r5
      r7 flags, readings) := by
  have next : BitVec.ofNat 16 i + 1#16 = BitVec.ofNat 16 (i + 1) :=
    BitVec.ofNat_add_ofNat _ _
  refine laps_of_rest shipped (.add 4#3 4#3 (.immediate 1)) (by decide) (by decide)
    fun _ => ?_
  simp only [Arch.exec_addi, BitVec.reduceAdd, file_r4, BitVec.reduceSignExtend, next,
    update_file_r4]
  refine laps_of_rest shipped (.add 1#3 1#3 (.register 1#3)) (by decide) (by decide)
    fun _ => ?_
  simp only [Arch.exec_add, BitVec.reduceAdd, file_r1, shift_succ, update_file_r1]
  refine laps_of_rest shipped (.add 7#3 4#3 (.immediate (-8))) (by decide) (by decide)
    fun _ => ?_
  simp only [Arch.exec_addi, BitVec.reduceAdd, file_r4, BitVec.reduceNeg, BitVec.reduceSignExtend,
    update_file_r7]
  refine laps_of_rest shipped (.br 0b100#3 (-12)) (by decide) (by decide) fun env => ?_
  simp only [Arch.exec_br, BitVec.reduceAdd, selects_n, round_toInt_neg inside]
  exact rest env _

theorem laps_of_round (shipped : Shipped 49#8 73#8 memory) {i : Nat} (inside : i < 8)
    (rest : ∀ (env : Env) r7, Laps (multiplying b memory hexData r6
      (if i + 1 < 8 then 58#16 else 70#16) (a.setWidth 16 <<< (i + 1))
      (BitVec.ofNat 16 (i + 1)) (total a b (i + 1)) r7 (signClass env.undriven), readings)) :
    Laps (multiplying b memory hexData r6 58#16 (a.setWidth 16 <<< i) (BitVec.ofNat 16 i)
      (total a b i) r7 flags, readings) := by
  have negated : (if i = 0 then ~~~(total a b i + total a b i + addend a b i) + 1#16
      else total a b i + total a b i + addend a b i) = total a b (i + 1) := by
    split
    case isTrue first =>
      subst first
      exact total_one a b
    case isFalse later => exact total_succ a b later inside
  refine laps_of_add shipped inside fun r7 flags => ?_
  refine laps_of_negate shipped inside fun flags => ?_
  rw [negated]
  exact laps_of_count shipped inside rest

/-- From round `i` on the loop completes the product. -/
theorem laps_of_loop (shipped : Shipped 49#8 73#8 memory)
    (rest : ∀ (env : Env) r1 r4 r7, Laps (multiplying b memory hexData r6 70#16 r1 r4
      (product a b) r7 (signClass env.undriven), readings)) :
    ∀ (rounds i : Nat) (r7 : Word) (flags : Flags), i + rounds + 1 = 8 →
      Laps (multiplying b memory hexData r6 58#16 (a.setWidth 16 <<< i) (BitVec.ofNat 16 i)
        (total a b i) r7 flags, readings) := by
  intro rounds
  induction rounds with
  | zero =>
      intro i r7 flags count
      obtain rfl : i = 7 := Nat.succ.inj count
      refine laps_of_round shipped (by decide) fun env r7 => ?_
      rw [total_eight]
      exact rest env _ _ r7
  | succ rounds inductionHypothesis =>
      intro i r7 flags count
      refine laps_of_round shipped (by omega) fun env r7 => ?_
      rw [if_pos (show i + 1 < 8 by omega)]
      exact inductionHypothesis (i + 1) r7 _ (by omega)

end Loop

section Lap

variable {memory : BitVec 8 → Word} {hexData : Word} {readings : Readings}
  {r1 r2 r4 r5 r6 r7 : Word} {flags : Flags}

/-- Addresses 70 to 72: the product is shown, and the next lap begins. -/
theorem laps_of_output (shipped : Shipped 49#8 73#8 memory) {value : Word}
    (multiplied : Multiplied readings r5) :
    Laps (⟨70#16, file 0#16 r1 r2 0x80#16 r4 r5 r6 r7, signClass value, memory, hexData⟩,
      readings) := by
  refine laps_of_rest shipped (.str 5#3 0#3 (-1)) (by decide) (by decide) fun _ => ?_
  simp only [Arch.exec_str, BitVec.reduceAdd, file_r0, file_r5, BitVec.reduceNeg,
    BitVec.reduceSignExtend, BitVec.zero_add, Arch.write_port]
  have intact := shipped.update (Or.inr (show 73#8 < 0xFF#8 by decide)) r5
  refine .next (fun _ => ⟨intact, multiplied⟩) fun env => ?_
  rw [traced_shipped record intact (.pse 0x403#12) (by decide),
    record_other (by decide) (by decide), Arch.exec_pse]
  refine laps_of_rest intact (.br 0b111#3 (-21)) (by decide) (by decide) fun _ => ?_
  rw [Arch.exec_br, if_pos selects_nzp]
  exact .reached ⟨_, _, _, _, _, _, _, _, _, _, intact, rfl⟩

/-- Addresses 54 to 57: the operands are read. -/
theorem laps_of_input (shipped : Shipped 49#8 73#8 memory) :
    Laps (⟨54#16, file 0#16 r1 r2 0x80#16 0#16 0#16 r6 r7, flags, memory, hexData⟩,
      readings) := by
  refine laps_of_rest shipped (.pse 0x801#12) (by decide) (by decide) fun _ => ?_
  simp only [Arch.exec_pse, BitVec.reduceAdd]
  refine laps_of_load shipped (.ldr 1#3 0#3 (-1)) (by decide) trivial (by decide)
    fun first => ?_
  simp only [Arch.exec_ldr, BitVec.reduceAdd, file_r0, BitVec.reduceNeg, BitVec.reduceSignExtend,
    BitVec.zero_add, Arch.read_port, update_file_r1]
  refine laps_of_rest shipped (.pse 0x802#12) (by decide) (by decide) fun _ => ?_
  simp only [Arch.exec_pse, BitVec.reduceAdd]
  refine laps_of_load shipped (.ldr 2#3 0#3 (-1)) (by decide) trivial (by decide)
    fun second => ?_
  simp only [Arch.exec_ldr, BitVec.reduceAdd, file_r0, BitVec.reduceNeg, BitVec.reduceSignExtend,
    BitVec.zero_add, Arch.read_port, update_file_r2]
  have loop : ∀ flags, Laps (multiplying second.loadSwitches memory hexData r6 58#16
      (first.loadSwitches.setWidth 16 <<< 0) (BitVec.ofNat 16 0)
      (total first.loadSwitches second.loadSwitches 0) r7 flags,
      ⟨some first.loadSwitches, some second.loadSwitches⟩) := fun flags =>
    laps_of_loop shipped
      (fun env r1 r4 r7 => laps_of_output shipped ⟨_, _, rfl, rfl, rfl⟩) 7 0 r7 flags rfl
  rw [BitVec.shiftLeft_zero, total_zero] at loop
  exact loop _

/-- A lap, from the instruction at its top on. -/
theorem lap (state : Arch × Readings) (top : AtLap state) :
    AtOutput state ∧ ∀ env, Laps (Clocked.traced execute record env state) := by
  obtain ⟨r1, r2, r4, r5, r6, r7, flags, memory, hexData, readings, shipped, rfl⟩ := top
  refine ⟨fun here => absurd here (show 52#16 ≠ 71#16 by decide), fun env => ?_⟩
  rw [traced_shipped record shipped (.and 4#3 4#3 (.immediate 0)) (by decide),
    record_other (by decide) (by decide)]
  simp only [Arch.exec_andi, BitVec.reduceAdd, file_r4, BitVec.reduceSignExtend, BitVec.and_zero,
    update_file_r4]
  refine laps_of_rest shipped (.and 5#3 5#3 (.immediate 0)) (by decide) (by decide)
    fun _ => ?_
  simp only [Arch.exec_andi, BitVec.reduceAdd, file_r5, BitVec.reduceSignExtend, BitVec.and_zero,
    update_file_r5]
  exact laps_of_input shipped

/-- Addresses 49 to 51: the base register is cleared and the mask loaded. -/
theorem laps_of_prologue {register : RegisterFile} (shipped : Shipped 49#8 73#8 memory) :
    Laps (⟨49#16, register, flags, memory, hexData⟩, readings) := by
  have mask : memory 73#8 = 0x80#16 := shipped 73#8 (by decide) (by decide)
  rw [eq_file register]
  refine laps_of_rest shipped (.and 0#3 0#3 (.immediate 0)) (by decide) (by decide)
    fun _ => ?_
  simp only [Arch.exec_andi, BitVec.reduceAdd, file_r0, BitVec.reduceSignExtend, BitVec.and_zero,
    update_file_r0]
  refine laps_of_rest shipped (.jsr 0) (by decide) (by decide) fun _ => ?_
  simp only [Arch.exec_jsr, BitVec.reduceAdd, BitVec.reduceSignExtend, BitVec.add_zero,
    update_file_r7]
  refine laps_of_rest shipped (.ldr 3#3 7#3 22) (by decide) (by decide) fun _ => ?_
  simp only [Arch.exec_ldr, BitVec.reduceAdd, file_r7, BitVec.reduceSignExtend]
  rw [Arch.read_memory _ (show 73#16 ≠ 0xFFFF#16 by decide)]
  simp only [BitVec.reduceSetWidth, mask, update_file_r3]
  exact .reached ⟨_, _, _, _, _, _, _, _, _, _, shipped, rfl⟩

end Lap

section Run

open TestTop (FetchesAt NextFetch archAt envAt readingAt)

variable {inputs : Nat → TestTop.Input} {start : TestTop.State}

def readingsAt (inputs : Nat → TestTop.Input) (start : TestTop.State) (t : Nat) :
    Readings where
  first := Clocked.latestBefore? (readingAt inputs start 55#16) t
  second := Clocked.latestBefore? (readingAt inputs start 57#16) t

theorem laps_at_fetch (fetching : FetchesAt inputs start 0)
    (entry : start.arch.pc = 49#16) (program : Shipped 49#8 73#8 start.arch.memory) {t : Nat}
    (fetches : FetchesAt inputs start t) :
    Laps (archAt inputs start t, readingsAt inputs start t) := by
  have initially : Laps (start.arch, readingsAt inputs start 0) := by
    rw [show start.arch = ⟨49#16, start.arch.register, start.arch.flags, start.arch.memory,
      start.arch.hexData⟩ by rw [← entry]]
    exact laps_of_prologue program
  refine TestTop.traced_at_fetch lap ?_ fetching initially fetches
  intro t later fetches next
  rw [readingsAt, TestTop.latestReading_next fetches next,
    TestTop.latestReading_next fetches next]
  rfl

/-- The shipped multiplier multiplies, on every lap: whenever it reaches the pause at 71,
and as long as it stays there, the display shows the product of the last two readings. -/
theorem shows_product_every_lap (image : BitVec 8 → Word) (inputs : Nat → TestTop.Input)
    (running : ∀ t, (inputs t).reset = false) (start : TestTop.State)
    (fetching : start.cpu.state = .s18) (entry : start.cpu.pc = 49#16)
    (program : Shipped 49#8 73#8 start.mem.memArray) (t u : Nat)
    (fetches : (Clocked.run (TestTop.step image) inputs start t).cpu.state = .s18)
    (output : (Clocked.run (TestTop.step image) inputs start t).cpu.pc = 71#16)
    (begun : t ≤ u)
    (stays : ∀ v, t < v → v ≤ u →
      (Clocked.run (TestTop.step image) inputs start v).cpu.state ≠ .s18) :
    let reading := fun (address : Word) v =>
      (Clocked.run (TestTop.step image) inputs start v).reading address (inputs v)
    ∃ a b, Clocked.latestBefore? (reading 55#16) t = some a ∧
      Clocked.latestBefore? (reading 57#16) t = some b ∧
      (Clocked.run (TestTop.step image) inputs start u).cpu.hexData = product a b := by
  simp only [TestTop.run_eq_transfer image inputs running] at fetches output stays ⊢
  have laps := laps_at_fetch fetching entry program fetches
  obtain ⟨intact, a, b, first, second, shown⟩ := (Inevitable.step_of_lap lap laps).1 output
  have held : ShippedAt 49#8 73#8 (archAt inputs start t).pc (.pse 0x403#12) := by
    rw [show (archAt inputs start t).pc = 71#16 from output]
    decide
  have silent : ¬ (decode ((archAt inputs start t).fetched (envAt inputs t))).Stores := by
    rw [decode_fetched intact held]
    exact id
  refine ⟨a, b, first, second, ?_⟩
  rw [← shown]
  exact TestTop.hexData_while_silent fetches silent begun fun v after before =>
    stays v after (Nat.le_of_lt before)

/-- Both operands read `x0FD`, that is -3 and 253; the button is pressed and released all
the time. -/
def blinking (t : Nat) : TestTop.Input :=
  { TestTop.Input.quiet with sw := 0x0FD#10, continue_ := t % 2 == 1 }

def selected : TestTop.State where
  cpu := { Cpu.blank .s18 with pc := 49#16 }
  mem := { memArray := memoryContents, memOut := 0#16 }

theorem shows_product_every_lap_blinking :
    let reading := fun (address : Word) v =>
      (Clocked.run (TestTop.step memoryContents) blinking selected v).reading address
        (blinking v)
    ∃ a b, Clocked.latestBefore? (reading 55#16) 766 = some a ∧
      Clocked.latestBefore? (reading 57#16) 766 = some b ∧
      (Clocked.run (TestTop.step memoryContents) blinking selected 766).cpu.hexData =
        product a b :=
  shows_product_every_lap memoryContents blinking (fun _ => rfl) selected rfl rfl
    (fun _ _ _ => rfl) 766 766 (by decide +kernel) (by decide +kernel) (Nat.le_refl _)
    (fun _ after before => absurd before (Nat.not_le.mpr after))

end Run

end DigitalSystems.Slc3.Multiplier
