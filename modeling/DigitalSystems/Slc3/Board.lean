import DigitalSystems.Slc3.BootImage
import DigitalSystems.Slc3.Checkpoints
import DigitalSystems.Slc3.Menu

/-!
# The programs on the board

`slc3_sramtop` from its reset on: the loader installs the image, `Run` starts the
processor, and the word at 0 jumps to the program selected on the switches.  A program that
stays at addresses both memories hold runs there as it does with `test_memory`.
-/

namespace DigitalSystems.Slc3.Board

open Isa
open MemoryEquivalence (Common Related testInput)
open TestTop (FetchesAt NextFetch archAt envAt)

section Placed

variable {inputs : Nat → TestTop.Input} {start : TestTop.State} {t : Nat}

/-- The address of a load or a store is placed right after the decoding. -/
theorem operation_before_address (input : TestTop.Input) {state : TestTop.State}
    (placing : (TestTop.transfer input state).cpu.state = .s6 ∨
      (TestTop.transfer input state).cpu.state = .s7) :
    state.cpu.state.operation = none := by
  obtain ⟨⟨phase, pc, mar, mdr, ir, registers, ⟨dout, flags⟩, hexData⟩, mem⟩ := state
  obtain ⟨sw, reset, run, continue_, busX, memX⟩ := input
  cases phase
  case pauseIR1 => cases continue_ <;> rcases placing with first | second <;> contradiction
  case pauseIR2 => cases continue_ <;> rcases placing with first | second <;> contradiction
  case s0 => cases dout <;> rcases placing with first | second <;> contradiction
  all_goals first
    | rfl
    | rcases placing with first | second <;> contradiction

theorem time_of_address {u : Nat} (fetches : FetchesAt inputs start t) (begun : t ≤ u)
    (waiting : ∀ v, t < v → v ≤ u → ¬ FetchesAt inputs start v)
    (placing : (Clocked.run TestTop.transfer inputs start u).cpu.state = .s6 ∨
      (Clocked.run TestTop.transfer inputs start u).cpu.state = .s7) : u = t + 7 := by
  have working := TestTop.operation_of_fetches fetches begun waiting
  have late : t + 7 ≤ u := by
    by_contra early
    rw [if_pos (Nat.lt_of_not_le early)] at working
    rcases placing with first | second
    · rw [first] at working
      cases working
    · rw [second] at working
      cases working
  by_contra other
  obtain ⟨last, rfl⟩ := Nat.exists_eq_add_one_of_ne_zero (show u ≠ 0 by omega)
  have before := TestTop.operation_of_fetches fetches (show t ≤ last by omega)
    fun v after below => waiting v after (by omega)
  rw [if_neg (by omega), operation_before_address _ placing] at before
  cases before

theorem state_of_ldMAR {cpu : Cpu} (placing : cpu.control.ldMAR = true) :
    cpu.state = .s18 ∨ cpu.state = .s6 ∨ cpu.state = .s7 := by
  obtain ⟨phase, pc, mar, mdr, ir, registers, ben, hexData⟩ := cpu
  cases phase
  case s18 => exact Or.inl rfl
  case s6 => exact Or.inr (Or.inl rfl)
  case s7 => exact Or.inr (Or.inr rfl)
  all_goals cases placing

theorem bus_of_address {cpu : Cpu} (x : Word) (placing : cpu.state = .s6 ∨ cpu.state = .s7) :
    cpu.bus x = cpu.register (cpu.ir.extractLsb' 6 3) +
      (cpu.ir.extractLsb' 0 6).signExtend 16 := by
  obtain ⟨phase, pc, mar, mdr, ir, registers, ben, hexData⟩ := cpu
  rcases placing with rfl | rfl <;> rfl

/-- The decoder's fields are those that the datapath reads. -/
theorem common_of_accesses {word : Word} {register : RegisterFile}
    (accesses : (decode word).Accesses register)
    (opcode : TestTop.execState (decode word) = .s6 ∨ TestTop.execState (decode word) = .s7) :
    Common (register (word.extractLsb' 6 3) + (word.extractLsb' 0 6).signExtend 16) := by
  revert accesses opcode
  unfold decode
  split
  all_goals
    intro accesses opcode
    first
    | exact accesses
    | rcases opcode with first | second <;> contradiction

/-- As long as every instruction is contained, only common addresses are placed. -/
theorem placed_of_contained (fetching : FetchesAt inputs start 0)
    (contained : ∀ u, u ≤ t → FetchesAt inputs start u → (archAt inputs start u).Contained)
    (placing : (Clocked.run TestTop.transfer inputs start t).cpu.control.ldMAR = true)
    (x : Word) : Common ((Clocked.run TestTop.transfer inputs start t).cpu.bus x) := by
  obtain ⟨last, begun, fetches, waiting⟩ := TestTop.exists_lastFetch fetching t
  obtain ⟨pc, accesses⟩ := contained last begun fetches
  rcases state_of_ldMAR placing with fetch | address
  · have here : t = last := by
      by_contra other
      exact waiting t (by omega) le_rfl fetch
    subst here
    have drives : (Clocked.run TestTop.transfer inputs start t).cpu.bus x =
        (archAt inputs start t).pc := by
      rw [Cpu.bus, Cpu.control, fetch]
      rfl
    rwa [drives]
  · obtain rfl := time_of_address fetches begun waiting address
    have opcode := (TestTop.execState_of_fetches fetches).1
    have view := TestTop.run_fetch (fun k => inputs (last + k)) _ fetches
    rw [← Clocked.run_add] at view
    rw [bus_of_address x address, view]
    rw [opcode] at address
    exact common_of_accesses (accesses (envAt inputs last)) address

end Placed

section Twin

variable {ram : Ram}

/-- The machine with `test_memory` that starts with the same processor and words. -/
def twin (state : SramTop.State ram) : TestTop.State where
  cpu := state.cpu
  mem :=
    { memArray := fun address => ram.word state.ram (address.setWidth 10)
      memOut := 0#16 }

def testInputs (inputs : Nat → SramTop.Input) (t : Nat) : TestTop.Input :=
  testInput (inputs t) 0#16

variable {inputs : Nat → SramTop.Input} {start : SramTop.State ram}

/-- While every instruction of the twin is contained, the board follows it. -/
theorem related_run (lawful : ram.Lawful) (running : ∀ t, (inputs t).resetAh = false)
    (fetching : start.cpu.state = .s18) (silent : start.loader.state = .idle) (n : Nat)
    (contained : ∀ u, u < n → FetchesAt (testInputs inputs) (twin start) u →
      (archAt (testInputs inputs) (twin start) u).Contained) :
    Related (Clocked.run TestTop.transfer (testInputs inputs) (twin start) n)
      (Clocked.run SramTop.step inputs start n) := by
  have agree : ∀ address : Nat, address ≤ 254 →
      ram.word start.ram (BitVec.ofNat 10 address) =
        (twin start).mem.memArray (BitVec.ofNat 8 address) := by
    intro address bound
    refine congrArg (ram.word start.ram) (BitVec.eq_of_toNat_eq ?_)
    rw [BitVec.toNat_setWidth_of_le (by decide), BitVec.toNat_ofNat, BitVec.toNat_ofNat]
    omega
  have fetches : FetchesAt (testInputs inputs) (twin start) 0 := fetching
  apply Clocked.run_related Related
    (MemoryEquivalence.related_start (Or.inr fetching) rfl silent agree)
  intro t before related
  have placed := fun placing => placed_of_contained fetches
    (fun u below => contained u (Nat.lt_of_le_of_lt below before)) placing (inputs t).x
  have step := MemoryEquivalence.related_step lawful memoryContents related (inputs t) 0#16
    (running t) placed
  rwa [TestTop.step_eq_transfer memoryContents _ _ (running t)] at step

end Twin

section Bootstrap

variable {inputs : Nat → TestTop.Input} {start : TestTop.State}

theorem next_of_shipped {first last : BitVec 8} {pc : Word} {register : RegisterFile}
    {flags : Flags} {memory : BitVec 8 → Word} {hexData : Word} {t : Nat}
    (fetches : FetchesAt inputs start t)
    (view : archAt inputs start t = ⟨pc, register, flags, memory, hexData⟩)
    (shipped : Shipped first last memory) (instr : Instr)
    (held : ShippedAt first last pc instr) (accesses : instr.Accesses register)
    (inside : last ≤ 254#8 ∧ pc ≤ last.setWidth 16) (cycles : Nat)
    (lasts : ExecLasts (archAt inputs start t).flags
      (fun u => (inputs (t + (7 + u))).continue_) cycles instr) :
    NextFetch inputs start t (t + (7 + cycles)) ∧
      archAt inputs start (t + (7 + cycles)) =
        Arch.exec ⟨pc + 1#16, register, flags, memory, hexData⟩ (envAt inputs t) instr ∧
      (archAt inputs start t).Contained := by
  have fetched : ∀ env, decode ((archAt inputs start t).fetched env) = instr := by
    rw [view]
    exact decode_fetched shipped held
  obtain ⟨next, effect⟩ := TestTop.nextFetch_of_instr fetches (fetched _) cycles lasts
  refine ⟨next, effect.trans ?_, ?_, fun env => ?_⟩
  · rw [Arch.step, fetched, view]
  · rw [view]
    have below := BitVec.le_def.mp inside.2
    rw [BitVec.toNat_setWidth_of_le (by decide)] at below
    exact Or.inl (Nat.le_trans below (BitVec.le_def.mp inside.1))
  · rw [fetched, view]
    exact accesses

/-- The words 0 to 2 jump to the address on the switches. -/
theorem bootstrap (fetching : FetchesAt inputs start 0) (entry : start.arch.pc = 0#16)
    (shipped : Shipped 0#8 2#8 start.arch.memory) :
    FetchesAt inputs start 29 ∧
      (archAt inputs start 29).pc = (inputs 19).sw.setWidth 16 ∧
      (archAt inputs start 29).register 0#3 = 0#16 ∧
      (archAt inputs start 29).memory = start.arch.memory ∧
      ∀ t, t < 29 → FetchesAt inputs start t → (archAt inputs start t).Contained := by
  have atStart : archAt inputs start 0 = ⟨0#16, start.arch.register, start.arch.flags,
      start.arch.memory, start.arch.hexData⟩ := by
    rw [← entry]
    rfl
  rw [eq_file start.arch.register] at atStart
  obtain ⟨next, clears, first⟩ := next_of_shipped fetching atStart shipped
    (.and 0#3 0#3 (.immediate 0)) (by decide) trivial (by decide) 1 rfl
  simp only [Arch.exec_andi, BitVec.reduceAdd, file_r0, BitVec.reduceSignExtend,
    BitVec.and_zero, update_file_r0] at clears
  obtain ⟨next', loads, second⟩ := next_of_shipped next.fetches clears shipped
    (.ldr 1#3 0#3 (-1)) (by decide) common_port (by decide) 6 rfl
  simp only [Arch.exec_ldr, BitVec.reduceAdd, file_r0, BitVec.reduceNeg, BitVec.reduceSignExtend,
    BitVec.zero_add, Arch.read_port, update_file_r1] at loads
  obtain ⟨next'', jumps, third⟩ := next_of_shipped next'.fetches loads shipped (.jmp 1#3)
    (by decide) trivial (by decide) 1 rfl
  rw [Arch.exec_jmp, file_r1] at jumps
  have memory : (archAt inputs start 29).memory = start.arch.memory := by
    rw [show archAt inputs start 29 = _ from jumps]
  refine ⟨next''.fetches, congrArg Arch.pc jumps, congrArg (fun arch => arch.register 0#3) jumps,
    memory, ?_⟩
  intro t before fetches
  rcases Nat.eq_zero_or_pos t with rfl | later
  · exact first
  rcases Nat.lt_trichotomy t 8 with early | rfl | later'
  · exact absurd fetches (next.between t later early)
  · exact second
  rcases Nat.lt_trichotomy t 21 with early | rfl | later''
  · exact absurd fetches (next'.between t later' early)
  · exact third
  · exact absurd fetches (next''.between t later'' before)

end Bootstrap

section Boot

variable {ram : Ram} {inputs : Nat → SramTop.Input} {start : SramTop.State ram} {r s : Nat}

/-- The processor is about to execute its first instruction, and the image is installed. -/
structure Booted (state : SramTop.State ram) : Prop where
  fetching : state.cpu.state = .s18
  address : state.cpu.pc = 0#16
  silent : state.loader.state = .idle
  image : ∀ i, i < 256 → SramTop.word state i = Instantiateram.data (BitVec.ofNat 16 i)

theorem pc_of_waiting (start : SramTop.State ram) (reset : (inputs r).resetAh = true)
    (running : ∀ t, r < t → (inputs t).resetAh = false) {m : Nat}
    (waiting : ∀ t, r < t → t < r + 1 + m → (inputs t).runAh = false) :
    (Clocked.run SramTop.step inputs start (r + 1 + m)).cpu.state = .halted ∧
      (Clocked.run SramTop.step inputs start (r + 1 + m)).cpu.pc = 0#16 := by
  induction m with
  | zero =>
      rw [Nat.add_zero, Clocked.run_succ, SramTop.step, Cpu.step_reset _ _ reset]
      exact ⟨rfl, rfl⟩
  | succ m inductionHypothesis =>
      obtain ⟨halted, counter⟩ := inductionHypothesis fun t after before =>
        waiting t after (by omega)
      rw [← Nat.add_assoc, SramTop.cpu_succ start _ (running _ (by omega)), Cpu.transfer, halted]
      refine ⟨?_, counter⟩
      change (if (inputs (r + 1 + m)).runAh then Isdu.s18 else .halted) = .halted
      rw [waiting (r + 1 + m) (by omega) (by omega)]
      rfl

/-- The loader has passed all its addresses before `Run` is pressed. -/
theorem installed_of_waiting (lawful : ram.Lawful) (reset : (inputs r).resetAh = true)
    (waiting : ∀ t, r < t → t < s → (inputs t).runAh = false) (order : r < s)
    (finished : (Clocked.run SramTop.step inputs start s).loader.state ≠ .memWrite) (i : Nat)
    (bound : i < 256) :
    SramTop.word (Clocked.run SramTop.step inputs start s) i =
      Instantiateram.data (BitVec.ofNat 16 i) := by
  -- up to cycle `s` this is a run in which `Run` stays released
  let released : Nat → SramTop.Input := fun t =>
    if t < s then inputs t else { inputs t with runAh := false }
  have same : Clocked.run SramTop.step inputs start s =
      Clocked.run SramTop.step released start s :=
    Clocked.run_congr fun t before => (if_pos before).symm
  have resetting : (released r).resetAh = true := by
    rw [show released r = inputs r from if_pos order]
    exact reset
  have held : ∀ t, r ≤ t → (released t).runAh = true → (released t).resetAh = true := by
    intro t begun pressed
    rcases Nat.eq_or_lt_of_le begun with rfl | after
    · exact resetting
    · exfalso
      rcases Nat.lt_or_ge t s with before | late
      · rw [show released t = inputs t from if_pos before, waiting t after before] at pressed
        cases pressed
      · rw [show released t = { inputs t with runAh := false } from
          if_neg (Nat.not_lt.mpr late)] at pressed
        cases pressed
  have installing : SramTop.Installing _ (Clocked.run SramTop.step released start s) :=
    SramTop.installing_run lawful resetting held order
  rw [same] at finished ⊢
  apply installing.table i bound
  rw [SramTop.progress]
  cases loader : (Clocked.run SramTop.step released start s).loader.state with
  | memWrite => exact absurd loader finished
  | idle => exact bound
  | done => exact bound

theorem booted (lawful : ram.Lawful) (reset : (inputs r).resetAh = true)
    (running : ∀ t, r < t → (inputs t).resetAh = false) (order : r + 257 ≤ s)
    (waiting : ∀ t, r < t → t < s → (inputs t).runAh = false)
    (pressed : (inputs s).runAh = true) :
    Booted (Clocked.run SramTop.step inputs start (s + 1)) := by
  obtain ⟨m, rfl⟩ := Nat.exists_eq_add_of_le (show r + 1 ≤ s by omega)
  obtain ⟨halted, counter⟩ := pc_of_waiting start reset running waiting
  have low : (inputs (r + 1 + m)).resetAh = false := running _ (by omega)
  have quiet : (Clocked.run SramTop.step inputs start (r + 1 + m)).loader.wren = false :=
    (SramTop.loader_after_reset start r m reset fun t after _ => running t after).2 (by omega)
  have finished : (Clocked.run SramTop.step inputs start (r + 1 + m)).loader.state ≠
      .memWrite := by
    intro writing
    rw [Instantiateram.wren, writing] at quiet
    cases quiet
  refine ⟨?_, ?_, ?_, fun i bound => ?_⟩
  · rw [SramTop.state_of_halted start _ low halted, pressed]
    rfl
  · rw [SramTop.cpu_succ start _ low, Cpu.transfer, halted]
    exact counter
  · rw [Clocked.run_succ, SramTop.step_loader, low]
    cases phase : (Clocked.run SramTop.step inputs start (r + 1 + m)).loader.state with
    | memWrite => exact absurd phase finished
    | idle => simp [Instantiateram.step, Instantiateram.nextState, phase]
    | done => simp [Instantiateram.step, Instantiateram.nextState, phase]
  · rw [Clocked.run_succ, SramTop.word_step_of_silent lawful _ halted]
    · exact installed_of_waiting lawful reset waiting (by omega) finished i bound
    · rw [SramTop.weSelect_of_released _ low, quiet]

end Boot

section Conducted

variable {ram : Ram} {inputs : Nat → SramTop.Input} {start : SramTop.State ram}

/-- The board, with the words below 256 as the processor addresses them. -/
def viewAt (inputs : Nat → SramTop.Input) (states : Nat → SramTop.State ram) (t : Nat) :
    View where
  sw := (inputs t).sw
  continue_ := (inputs t).continueAh
  cpu := (states t).cpu
  memory address := SramTop.word (states t) address.toNat

/-- The loader's table is the shipped image, up to the constants of the auto counter. -/
theorem shipped_of_booted (booted : Booted start) {first last : BitVec 8}
    (program : last ≤ 172#8) : Shipped first last (twin start).mem.memArray := by
  intro address _ below
  have other : address ≠ 173#8 ∧ address ≠ 174#8 := by
    constructor <;> rintro rfl
    · exact absurd (BitVec.le_trans below program) (by decide)
    · exact absurd (BitVec.le_trans below program) (by decide)
  have word : (twin start).mem.memArray address = SramTop.word start address.toNat :=
    congrArg (ram.word start.ram) (BitVec.ofNat_toNat 10 address).symm
  rw [word, booted.image _ address.isLt, memoryContents_eq_data address other,
    BitVec.ofNat_toNat]

theorem agrees_of_related {test : TestTop.State} {sram : SramTop.State ram}
    (related : Related test sram) (sw : BitVec 10) (button : Bool) :
    View.Agrees ⟨sw, button, test.cpu, test.mem.memArray⟩
      ⟨sw, button, sram.cpu, fun address => SramTop.word sram address.toNat⟩ where
  sw := rfl
  continue_ := rfl
  cpu := related.cpu
  memory := by
    intro address inside
    have same : BitVec.ofNat 8 address.toNat = address := by
      rw [BitVec.ofNat_toNat, BitVec.setWidth_eq]
    have agree := related.agree address.toNat (BitVec.le_def.mp inside)
    rw [same] at agree
    exact agree

/-- The selected program, from the fetch that the bootstrap leads to. -/
theorem serves_of_booted (lawful : ram.Lawful) (running : ∀ t, (inputs t).resetAh = false)
    (booted : Booted start) (program : Program) (selected : (inputs 19).sw = program.entry) :
    program.conversation.Serves
      (fun u => viewAt inputs (Clocked.run SramTop.step inputs start) (29 + u))
      program.initial := by
  have first : FetchesAt (testInputs inputs) (twin start) 0 := booted.fetching
  have shipped : Shipped 0#8 172#8 (twin start).arch.memory :=
    shipped_of_booted booted (by decide)
  obtain ⟨fetching, address, zero, memory, before⟩ := bootstrap first booted.address
    (shipped.within (by decide))
  have reached : FetchesAt (fun u => testInputs inputs (29 + u))
      (Clocked.run TestTop.transfer (testInputs inputs) (twin start) 29) 0 := fetching
  have initially : program.conversation.dialogue.Laps program.Cut
      ((Clocked.run TestTop.transfer (testInputs inputs) (twin start) 29).arch,
        Conversation.settled program.initial) := by
    apply program.begins _ _ zero (memory ▸ shipped)
    rw [← selected]
    exact address
  have contained : ∀ t, FetchesAt (testInputs inputs) (twin start) t →
      (archAt (testInputs inputs) (twin start) t).Contained := by
    intro t fetches
    rcases Nat.lt_or_ge t 29 with early | late
    · exact before t early fetches
    · obtain ⟨u, rfl⟩ := Nat.exists_eq_add_of_le late
      rw [FetchesAt, Clocked.run_add] at fetches
      rw [archAt, Clocked.run_add]
      exact Dialogue.contained_of_conducts program.conducts reached initially fetches
  have served := Conversation.serves_of_conducts program.conducts reached initially
  refine served.agree fun u => ?_
  have related : Related (Clocked.run TestTop.transfer (testInputs inputs) (twin start) (29 + u))
      (Clocked.run SramTop.step inputs start (29 + u)) :=
    related_run lawful running booted.fetching booted.silent _ fun v _ => contained v
  rw [Clocked.run_add] at related
  exact agrees_of_related related _ _

/-- The shipped programs that wait for the button. -/
def programs : List Program := [Echo.program, ExclusiveOr.program, RunOnce.program, Menu.program]

/-- After a reset, with `Run` released for 257 cycles and then pressed, the board holds
the conversation of the program that is on the switches when the bootstrap reads them. -/
theorem board_serves (lawful : ram.Lawful) (inputs : Nat → SramTop.Input)
    (start : SramTop.State ram) (r s : Nat) (reset : (inputs r).resetAh = true)
    (running : ∀ t, r < t → (inputs t).resetAh = false) (order : r + 257 ≤ s)
    (waiting : ∀ t, r < t → t < s → (inputs t).runAh = false)
    (pressed : (inputs s).runAh = true) :
    ∀ program ∈ programs, (inputs (s + 20)).sw = program.entry →
      program.conversation.Serves
        (fun u => viewAt inputs (Clocked.run SramTop.step inputs start) (s + 30 + u))
        program.initial := by
  intro program _ selected
  have ready : Booted (Clocked.run SramTop.step inputs start (s + 1)) :=
    booted lawful reset running order waiting pressed
  have served := @serves_of_booted ram (fun t => inputs (s + 1 + t)) _ lawful
    (fun t => running (s + 1 + t) (by omega)) ready program selected
  have views : (fun u => viewAt inputs (Clocked.run SramTop.step inputs start) (s + 30 + u)) =
      fun u => viewAt (fun t => inputs (s + 1 + t))
        (Clocked.run SramTop.step (fun t => inputs (s + 1 + t))
          (Clocked.run SramTop.step inputs start (s + 1))) (29 + u) := by
    funext u
    rw [viewAt, viewAt, ← Clocked.run_add, show s + 30 + u = s + 1 + (29 + u) by omega]
  rw [views]
  exact served

/-- Reset in cycle 0, `Run` in cycle 257, 90 on the switches and then 1, the entry of
words, with `Continue` going up and down all the time. -/
def menuSelected (t : Nat) : SramTop.Input where
  sw := if t < 287 then 90#10 else 1#10
  runAh := t == 0 || t == 257
  continueAh := t % 2 == 0
  x := 0#16

theorem board_serves_menuSelected :
    Menu.conversation.Serves
      (fun u => viewAt menuSelected
        (Clocked.run SramTop.step menuSelected SramTop.emptyStart) (257 + 30 + u))
      ⟨Menu.shippedWords, .selecting⟩ := by
  have listed : Menu.program ∈ programs :=
    List.mem_cons_of_mem _ (List.mem_cons_of_mem _
      (List.mem_cons_of_mem _ List.mem_cons_self))
  refine board_serves Ram.reference_lawful menuSelected SramTop.emptyStart 0 257 rfl ?_ (by decide)
    ?_ rfl Menu.program listed rfl
  · intro t after
    by_cases pressed : t = 257
    · rw [pressed]
      rfl
    · simp [menuSelected, SramTop.Input.resetAh, Nat.ne_of_gt after, pressed]
  · intro t after before
    simp [menuSelected, Nat.ne_of_gt after, Nat.ne_of_lt before]

end Conducted

end DigitalSystems.Slc3.Board
