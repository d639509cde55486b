import DigitalSystems.Slc3.Assembler
import DigitalSystems.Slc3.ReadWindow
import DigitalSystems.Slc3.SramTop

/-!
# Simulation memory and physical memory

`test_memory` answers a read one edge after the request, `ram` two edges after it,
and the two truncate an address differently.  The read window of the controller is
four cycles long, which covers both, so on addresses that both memories hold the
processor cannot tell them apart.
-/

namespace DigitalSystems.Slc3.MemoryEquivalence

/-- Addresses both memories resolve alike, and the memory-mapped port. -/
def Common (address : Word) : Prop := address.toNat ≤ 254 ∨ address = 0xFFFF#16

instance : DecidablePred Common := fun address =>
  inferInstanceAs (Decidable (address.toNat ≤ 254 ∨ address = 0xFFFF#16))

/-- The address has been placed in `MAR` and the access is not over. -/
def accessing : Isdu → Bool
  | .s33_1 | .s33_2 | .s33_3 | .s33_4 => true
  | .s25_1 | .s25_2 | .s25_3 | .s25_4 => true
  | .s23 | .s16_1 | .s16_2 | .s16_3 | .s16_4 => true
  | _ => false

variable {ram : Ram}

def sramCell (state : SramTop.State ram) : Word :=
  ram.word state.ram (state.cpu.mar.extractLsb' 0 10)

/-- The two machines in one cycle: equal processors, a silent loader, memories that
agree on words `0 .. 254`, and in each pipeline the word under way. -/
structure Related (test : TestTop.State) (sram : SramTop.State ram) : Prop where
  cpu : sram.cpu = test.cpu
  loader : sram.loader.state = .idle
  agree : ∀ address : Nat, address ≤ 254 →
    ram.word sram.ram (BitVec.ofNat 10 address) = test.mem.memArray (BitVec.ofNat 8 address)
  common : accessing test.cpu.state = true → Common test.cpu.mar
  latched : 1 ≤ test.cpu.state.requests →
    test.mem.memOut = test.cell ∧ ram.latch sram.ram = sramCell sram
  registered : 2 ≤ test.cpu.state.requests → ram.q sram.ram = sramCell sram

def testInput (input : SramTop.Input) (memX : Word) : TestTop.Input where
  sw := input.sw
  reset := input.resetAh
  run := input.runAh
  continue_ := input.continueAh
  busX := input.x
  memX := memX

theorem cell_eq {test : TestTop.State} {sram : SramTop.State ram}
    (related : Related test sram) (inside : test.cpu.mar.toNat ≤ 254) :
    sramCell sram = test.cell := by
  have wide : sram.cpu.mar.extractLsb' 0 10 = BitVec.ofNat 10 test.cpu.mar.toNat := by
    rw [related.cpu]
    apply BitVec.eq_of_toNat_eq
    simp
  have narrow : test.cpu.mar.setWidth 8 = BitVec.ofNat 8 test.cpu.mar.toNat := by
    apply BitVec.eq_of_toNat_eq
    simp
  rw [sramCell, TestTop.State.cell, wide, narrow, related.agree _ inside]

theorem readData_eq {test : TestTop.State} {sram : SramTop.State ram}
    (related : Related test sram) (window : test.cpu.state.requests = 3)
    (input : SramTop.Input) (memX : Word) :
    sram.cpu.readData (SramTop.cpuInput input sram) =
      test.cpu.readData (TestTop.cpuInput (testInput input memX) test) := by
  have access : accessing test.cpu.state = true := by
    cases phase : test.cpu.state <;> simp_all [Isdu.requests, accessing]
  rw [related.cpu, Cpu.readData, Cpu.readData]
  rcases related.common access with inside | port
  · have out : ram.q sram.ram = test.mem.memOut := by
      rw [related.registered (by omega), (related.latched (by omega)).1,
        cell_eq related inside]
    simp only [SramTop.cpuInput, TestTop.cpuInput, testInput, out]
  · simp only [port, if_true]
    rfl

section Edge

variable (input : Slc3.Input) (cpu : Cpu)

theorem not_accessing_decode (opcode : BitVec 4) :
    accessing (Isdu.decode opcode) = false := by
  unfold Isdu.decode
  split <;> rfl

theorem common_transfer (common : accessing cpu.state = true → Common cpu.mar)
    (placed : cpu.control.ldMAR = true → Common (cpu.bus input.x))
    (access : accessing (cpu.transfer input).state = true) :
    Common (cpu.transfer input).mar := by
  obtain ⟨state, pc, mar, mdr, ir, registers, ⟨dout, flags⟩, hexData⟩ := cpu
  cases state
  case s18 | s6 | s7 => exact placed rfl
  case halted => cases pressed : input.run <;> simp [Cpu.transfer, pressed, accessing] at access
  case pauseIR1 | pauseIR2 =>
    cases pressed : input.continue_ <;> simp [Cpu.transfer, pressed, accessing] at access
  case s32 => simp [Cpu.transfer, not_accessing_decode] at access
  case s0 => cases dout <;> exact absurd access Bool.false_ne_true
  all_goals first | exact common rfl | exact absurd access Bool.false_ne_true

end Edge

variable {test : TestTop.State} {sram : SramTop.State ram}

/-- A store reaches the same one of the words `0 .. 254`, or none of them. -/
theorem agree_update {mar mdr : Word} {wide : BitVec 10 → Word} {narrow : BitVec 8 → Word}
    (common : Common mar)
    (agree : ∀ address : Nat, address ≤ 254 →
      wide (BitVec.ofNat 10 address) = narrow (BitVec.ofNat 8 address))
    (address : Nat) (bound : address ≤ 254) :
    Function.update wide (mar.extractLsb' 0 10) mdr (BitVec.ofNat 10 address) =
      Function.update narrow (mar.setWidth 8) mdr (BitVec.ofNat 8 address) := by
  have wideEq : BitVec.ofNat 10 address = mar.extractLsb' 0 10 ↔ address = mar.toNat % 1024 := by
    rw [← BitVec.toNat_inj]
    simp
    omega
  have narrowEq : BitVec.ofNat 8 address = mar.setWidth 8 ↔ address = mar.toNat % 256 := by
    rw [← BitVec.toNat_inj]
    simp
    omega
  have sameCell : address = mar.toNat % 1024 ↔ address = mar.toNat % 256 := by
    rcases common with inside | port
    · omega
    · subst port
      simp only [BitVec.toNat_ofNat]
      omega
  by_cases hit : address = mar.toNat % 256
  · rw [narrowEq.mpr hit, wideEq.mpr (sameCell.mpr hit), Function.update_self,
      Function.update_self]
  · rw [Function.update_of_ne (fun equal => hit (sameCell.mp (wideEq.mp equal))),
      Function.update_of_ne (fun equal => hit (narrowEq.mp equal))]
    exact agree address bound

section Step

variable (related : Related test sram) (input : SramTop.Input)
  (released : input.resetAh = false)

include related released

/-- The loader is silent, so the physical memory sees the processor's ports. -/
theorem ramPorts_of_related : SramTop.ramPorts input sram = SramTop.cpuPorts sram := by
  apply SramTop.ramPorts_of_not_weSelect
  rw [SramTop.weSelect_of_released _ released, Instantiateram.wren, related.loader]

theorem cpu_step (memX : Word) :
    (SramTop.step input sram).cpu =
      test.cpu.transfer (TestTop.cpuInput (testInput input memX) test) := by
  change sram.cpu.step (SramTop.cpuInput input sram) = _
  rw [Cpu.step_eq_transfer _ _ released, related.cpu]
  apply Cpu.transfer_congr
  · rfl
  · rfl
  · rfl
  · intro window
    have same := readData_eq related window input memX
    rwa [related.cpu] at same

variable (lawful : ram.Lawful)

include lawful

theorem word_step_of_idle (idle : test.cpu.we = false) :
    ram.word (SramTop.step input sram).ram = ram.word sram.ram := by
  apply lawful.word_hold
  simp [ramPorts_of_related related input released, SramTop.cpuPorts, related.cpu, idle]

theorem agree_step (memX : Word) (address : Nat) (bound : address ≤ 254) :
    ram.word (SramTop.step input sram).ram (BitVec.ofNat 10 address) =
      (TestTop.memTransfer (testInput input memX) test).memArray
        (BitVec.ofNat 8 address) := by
  have ports := ramPorts_of_related related input released
  cases writes : test.cpu.we with
  | true =>
      have access : accessing test.cpu.state = true := by
        cases phase : test.cpu.state <;>
          simp_all [Cpu.we, Cpu.control, Isdu.control, accessing]
      have noRead : test.cpu.oe = false := by
        simpa [writes] using TestTop.oe_we_exclusive test.cpu
      change ram.word (ram.step _ _) _ = _
      rw [lawful.word_write _ _ (by simp [ports, SramTop.cpuPorts, related.cpu, writes])]
      simp only [ports, SramTop.cpuPorts, related.cpu, TestTop.memTransfer, noRead, writes,
        if_true, Bool.false_eq_true, if_false]
      exact agree_update (related.common access) related.agree address bound
  | false =>
      rw [word_step_of_idle related input released lawful writes,
        TestTop.memArray_memTransfer _ writes]
      exact related.agree address bound

/-- A request brings the word to the latch. -/
theorem latch_step (reads : test.cpu.oe = true) (idle : test.cpu.we = false) :
    ram.latch (SramTop.step input sram).ram = sramCell sram := by
  have ports := ramPorts_of_related related input released
  change ram.latch (ram.step _ _) = _
  rw [lawful.latch_read _ _ (by simp [ports, SramTop.cpuPorts, related.cpu, reads])
    (by simp [ports, SramTop.cpuPorts, related.cpu, idle]), ports]
  rfl

theorem sramCell_step (idle : test.cpu.we = false)
    (sameMar : (SramTop.step input sram).cpu.mar = sram.cpu.mar) :
    sramCell (SramTop.step input sram) = sramCell sram := by
  rw [sramCell, sameMar, word_step_of_idle related input released lawful idle, sramCell]

end Step

theorem related_step (lawful : ram.Lawful) (image : BitVec 8 → Word)
    (related : Related test sram) (input : SramTop.Input) (memX : Word)
    (released : input.resetAh = false)
    (placed : test.cpu.control.ldMAR = true → Common (test.cpu.bus input.x)) :
    Related (TestTop.step image (testInput input memX) test)
      (SramTop.step input sram) := by
  have cpuStep := cpu_step related input released memX
  rw [TestTop.step_eq_transfer image _ _ released]
  constructor
  case cpu => exact cpuStep
  case loader =>
    simp [SramTop.step, Instantiateram.step, Instantiateram.nextState, released, related.loader]
  case agree =>
    intro address bound
    exact agree_step related input released lawful memX address bound
  case common => exact common_transfer _ _ related.common placed
  case latched =>
    intro window
    obtain ⟨reads, idle, sameMar, -⟩ := Cpu.requests_transfer _ _ window
    refine ⟨TestTop.latched_transfer (testInput input memX) test window, ?_⟩
    rw [← cpuStep, ← related.cpu] at sameMar
    rw [sramCell_step related input released lawful idle sameMar]
    exact latch_step related input released lawful reads idle
  case registered =>
    intro window
    change 2 ≤ (test.cpu.transfer _).state.requests at window
    obtain ⟨-, idle, sameMar, count⟩ := Cpu.requests_transfer _ _ (Nat.le_of_succ_le window)
    have earlier : 1 ≤ test.cpu.state.requests := by omega
    rw [← cpuStep, ← related.cpu] at sameMar
    rw [sramCell_step related input released lawful idle sameMar, ← (related.latched earlier).2]
    exact lawful.q_register _ _

theorem related_start {test : TestTop.State} {sram : SramTop.State ram}
    (between : test.cpu.state = .halted ∨ test.cpu.state = .s18)
    (cpu : sram.cpu = test.cpu) (loader : sram.loader.state = .idle)
    (agree : ∀ address : Nat, address ≤ 254 →
      ram.word sram.ram (BitVec.ofNat 10 address) =
        test.mem.memArray (BitVec.ofNat 8 address)) :
    Related test sram := by
  have quiet : accessing test.cpu.state = false ∧ test.cpu.state.requests = 0 := by
    rcases between with phase | phase <;> rw [phase] <;> exact ⟨rfl, rfl⟩
  refine ⟨cpu, loader, agree, ?_, ?_, ?_⟩
  · simp [quiet.1]
  · simp [quiet.2]
  · simp [quiet.2]

/-- On addresses both memories hold, the two top levels are indistinguishable. -/
theorem memories_indistinguishable (lawful : ram.Lawful) (image : BitVec 8 → Word)
    (inputs : Nat → SramTop.Input) (memX : Nat → Word)
    (released : ∀ t, (inputs t).resetAh = false)
    (test : TestTop.State) (sram : SramTop.State ram)
    (between : test.cpu.state = .halted ∨ test.cpu.state = .s18)
    (cpu : sram.cpu = test.cpu) (loader : sram.loader.state = .idle)
    (agree : ∀ address : Nat, address ≤ 254 →
      ram.word sram.ram (BitVec.ofNat 10 address) =
        test.mem.memArray (BitVec.ofNat 8 address))
    (n : Nat)
    (placed : ∀ t, t < n →
      let before := Clocked.run (TestTop.step image)
        (fun t => testInput (inputs t) (memX t)) test t
      before.cpu.control.ldMAR = true → Common (before.cpu.bus (inputs t).x)) :
    let testCpu := (Clocked.run (TestTop.step image)
      (fun t => testInput (inputs t) (memX t)) test n).cpu
    let sramCpu := (Clocked.run SramTop.step inputs sram n).cpu
    sramCpu = testCpu ∧ sramCpu.led = testCpu.led ∧ sramCpu.oe = testCpu.oe ∧
      sramCpu.we = testCpu.we := by
  have related : Related
      (Clocked.run (TestTop.step image) (fun t => testInput (inputs t) (memX t)) test n)
      (Clocked.run SramTop.step inputs sram n) := by
    apply Clocked.run_related Related (related_start between cpu loader agree)
    intro t before related
    exact related_step lawful image related (inputs t) (memX t) (released t) (placed t before)
  intro testCpu sramCpu
  have same : sramCpu = testCpu := related.cpu
  exact ⟨same, congrArg Cpu.led same, congrArg Cpu.oe same, congrArg Cpu.we same⟩

def twoLoads : BitVec 8 → Word
  | 0#8 => Assembler.opLDR Assembler.r0 Assembler.r1 Assembler.inSW
  | _ => Assembler.opLDR Assembler.r2 Assembler.r1 1

def quietInput : SramTop.Input where
  sw := 5#10
  runAh := false
  continueAh := false
  x := 0#16

def twoLoadsSram : SramTop.State Ram.reference where
  cpu := Cpu.blank .s18
  loader := { state := .idle, address := 0#16 }
  ram := (fun address => twoLoads (address.setWidth 8), 0xAAAA#16, 0x5555#16)

theorem memories_indistinguishable_twoLoads :
    let testCpu := (Clocked.run (TestTop.step twoLoads) (fun _ => testInput quietInput 7#16)
      (.loaded twoLoads) 26).cpu
    let sramCpu := (Clocked.run SramTop.step (fun _ => quietInput) twoLoadsSram 26).cpu
    sramCpu = testCpu ∧ sramCpu.led = testCpu.led ∧ sramCpu.oe = testCpu.oe ∧
      sramCpu.we = testCpu.we :=
  memories_indistinguishable Ram.reference_lawful twoLoads (fun _ => quietInput)
    (fun _ => 7#16) (fun _ => rfl) (.loaded twoLoads) twoLoadsSram (Or.inr rfl) rfl rfl
    (by decide +kernel) 26 (by decide +kernel)

end DigitalSystems.Slc3.MemoryEquivalence
