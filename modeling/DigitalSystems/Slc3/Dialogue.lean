import DigitalSystems.Slc3.Operations
import DigitalSystems.Slc3.Programs
import DigitalSystems.Slc3.SwitchReadings

/-!
# Dialogues

A program that waits for the button conducts a dialogue with the person at the board: it
takes values over from the switches, and it shows something while it waits.  The dialogue
moves with the loads and the pauses of the program and with nothing else, in the run of
instructions and, cycle by cycle, in that of the machine.
-/

namespace DigitalSystems.Slc3

open Isa
open Clocked (Inevitable)

universe u

/-- What can be seen of the board in one cycle. -/
structure View where
  sw : BitVec 10
  continue_ : Bool
  cpu : Cpu
  memory : BitVec 8 → Word

/-- `read` is for the load at an address, with the switches, and `press` for the end of the
pause at an address. -/
structure Dialogue (Talk : Type u) where
  read : Word → BitVec 10 → Talk → Talk
  press : Word → Talk → Talk
  /-- What the display, the LEDs and the memory show while the program waits. -/
  Shows : Talk → Word → BitVec 10 → (BitVec 8 → Word) → Prop
  home : Word
  AtHome : Talk → Prop

namespace Dialogue

variable {Talk : Type u} (dialogue : Dialogue Talk)

def observe (view : View) (talk : Talk) : Talk :=
  if view.cpu.state = .s25_4 then dialogue.read (view.cpu.pc - 1#16) view.sw talk
  else if view.cpu.state = .pauseIR2 ∧ view.continue_ = false then
    dialogue.press (view.cpu.pc - 1#16) talk
  else talk

/-- What follows from everything seen so far. -/
def talkAt (views : Nat → View) (initial : Talk) (t : Nat) : Talk :=
  Clocked.run dialogue.observe views initial t

/-- What one instruction does to the dialogue. -/
def record (env : Env) (arch : Arch) (talk : Talk) : Talk :=
  if (decode (arch.fetched env)).Loads then dialogue.read arch.pc env.loadSwitches talk
  else if (decode (arch.fetched env)).Pauses then dialogue.press arch.pc talk
  else talk

/-- About to wait for the button, with the dialogue on the board. -/
structure Waits (state : Arch × Talk) (ledVect12 : BitVec 12) : Prop where
  pauses : ∀ env, decode (state.1.fetched env) = .pse ledVect12
  shows : dialogue.Shows state.2 state.1.hexData (ledVect12.extractLsb' 0 10) state.1.memory

structure Attends (state : Arch × Talk) : Prop where
  contained : state.1.Contained
  waits : state.1.Plain ∨ ∃ ledVect12, dialogue.Waits state ledVect12

abbrev Laps (Cut : Arch × Talk → Prop) : Arch × Talk → Prop :=
  Inevitable (Clocked.traced execute dialogue.record) dialogue.Attends Cut

/-- The laps of a program: from one pause at the home address to the next. -/
structure Conducts (Cut : Arch × Talk → Prop) : Prop where
  lap : ∀ state, Cut state → dialogue.Attends state ∧
    ∀ env, dialogue.Laps Cut (Clocked.traced execute dialogue.record env state)
  pauses : ∀ state, Cut state → ∀ env, (decode (state.1.fetched env)).Pauses
  home : ∀ state, Cut state → state.1.pc = dialogue.home ∧ dialogue.AtHome state.2

section Step

variable {dialogue} {Cut : Arch × Talk → Prop} {low high : BitVec 8} {pc : Word}
  {register : RegisterFile} {flags : Flags} {memory : BitVec 8 → Word} {hexData : Word}
  {talk : Talk}

theorem record_shipped (shipped : Shipped low high memory) {instr : Instr}
    (held : ShippedAt low high pc instr) (env : Env) :
    dialogue.record env ⟨pc, register, flags, memory, hexData⟩ talk =
      if instr.Loads then dialogue.read pc env.loadSwitches talk
      else if instr.Pauses then dialogue.press pc talk else talk := by
  rw [record, decode_fetched shipped held]

theorem attends_of_plain (shipped : Shipped low high memory) {instr : Instr}
    (held : ShippedAt low high pc instr) (inside : pc ≤ 254#16) (plain : ¬ instr.Pauses)
    (accesses : instr.Accesses register) :
    dialogue.Attends (⟨pc, register, flags, memory, hexData⟩, talk) := by
  refine ⟨⟨Or.inl inside, fun env => ?_⟩, Or.inl fun env => ?_⟩
  · rwa [decode_fetched shipped held]
  · rwa [decode_fetched shipped held]

/-- An instruction that neither reads the switches nor waits. -/
theorem laps_of_rest (shipped : Shipped low high memory) (instr : Instr)
    (held : ShippedAt low high pc instr)
    (silent : pc ≤ 254#16 ∧ ¬ instr.Loads ∧ ¬ instr.Pauses) (accesses : instr.Accesses register)
    (rest : ∀ env, dialogue.Laps Cut
      (Arch.exec ⟨pc + 1#16, register, flags, memory, hexData⟩ env instr, talk)) :
    dialogue.Laps Cut (⟨pc, register, flags, memory, hexData⟩, talk) := by
  obtain ⟨inside, reads, plain⟩ := silent
  refine .next (attends_of_plain shipped held inside plain accesses) fun env => ?_
  rw [traced_shipped dialogue.record shipped instr held, record_shipped shipped held,
    if_neg reads, if_neg plain]
  exact rest env

theorem laps_of_load (shipped : Shipped low high memory) (dr baseR : BitVec 3)
    (offset6 : BitVec 6) (held : ShippedAt low high pc (.ldr dr baseR offset6))
    (inside : pc ≤ 254#16) (accesses : (Instr.ldr dr baseR offset6).Accesses register)
    (rest : ∀ env, dialogue.Laps Cut
      (Arch.exec ⟨pc + 1#16, register, flags, memory, hexData⟩ env (.ldr dr baseR offset6),
        dialogue.read pc env.loadSwitches talk)) :
    dialogue.Laps Cut (⟨pc, register, flags, memory, hexData⟩, talk) := by
  refine .next (attends_of_plain shipped held inside id accesses) fun env => ?_
  have loads : (Instr.ldr dr baseR offset6).Loads := trivial
  rw [traced_shipped dialogue.record shipped _ held, record_shipped shipped held, if_pos loads]
  exact rest env

theorem leaves_waits {state : Arch × Talk} {ledVect12 : BitVec 12}
    (waits : dialogue.Waits state ledVect12) (inside : state.1.pc ≤ 254#16) :
    dialogue.Attends state ∧ ∀ env, Clocked.traced execute dialogue.record env state =
      ({ state.1 with pc := state.1.pc + 1#16 }, dialogue.press state.1.pc state.2) := by
  have pausing : (Instr.pse ledVect12).Pauses := trivial
  have idle : ¬ (Instr.pse ledVect12).Loads := id
  refine ⟨⟨⟨Or.inl inside, fun env => ?_⟩, Or.inr ⟨ledVect12, waits⟩⟩, fun env => ?_⟩
  · rw [waits.pauses env]
    trivial
  · rw [Clocked.traced, record, execute, Arch.step, waits.pauses env, if_neg idle,
      if_pos pausing]
    rfl

theorem laps_of_pause (shipped : Shipped low high memory) (ledVect12 : BitVec 12)
    (held : ShippedAt low high pc (.pse ledVect12)) (inside : pc ≤ 254#16)
    (shows : dialogue.Shows talk hexData (ledVect12.extractLsb' 0 10) memory)
    (rest : dialogue.Laps Cut
      (⟨pc + 1#16, register, flags, memory, hexData⟩, dialogue.press pc talk)) :
    dialogue.Laps Cut (⟨pc, register, flags, memory, hexData⟩, talk) := by
  have waits : dialogue.Waits (⟨pc, register, flags, memory, hexData⟩, talk) ledVect12 :=
    ⟨decode_fetched shipped held, shows⟩
  obtain ⟨attends, left⟩ := leaves_waits waits inside
  refine .next attends fun env => ?_
  rw [left env]
  exact rest

/-- Laps that begin with the pause at the home address. -/
theorem conducts_of_waits (inside : dialogue.home ≤ 254#16) (ledVect12 : BitVec 12)
    (waits : ∀ state, Cut state → state.1.pc = dialogue.home ∧
      dialogue.Waits state ledVect12 ∧ dialogue.AtHome state.2)
    (rest : ∀ arch talk, Cut (arch, talk) → dialogue.Laps Cut
      ({ arch with pc := dialogue.home + 1#16 }, dialogue.press dialogue.home talk)) :
    dialogue.Conducts Cut where
  lap state cut := by
    obtain ⟨address, waiting, -⟩ := waits state cut
    obtain ⟨attends, left⟩ := leaves_waits waiting (address ▸ inside)
    refine ⟨attends, fun env => ?_⟩
    rw [left env, address]
    exact rest state.1 state.2 cut
  pauses state cut env := by
    rw [(waits state cut).2.1.pauses env]
    trivial
  home state cut := ⟨(waits state cut).1, (waits state cut).2.2⟩

end Step

section Run

open TestTop (FetchesAt NextFetch Pressed archAt envAt)

def viewAt (inputs : Nat → TestTop.Input) (states : Nat → TestTop.State) (t : Nat) : View where
  sw := (inputs t).sw
  continue_ := (inputs t).continue_
  cpu := (states t).cpu
  memory := (states t).mem.memArray

/-- The dialogue in the run of the machine. -/
abbrev talkOf (inputs : Nat → TestTop.Input) (start : TestTop.State) (initial : Talk)
    (t : Nat) : Talk :=
  dialogue.talkAt (viewAt inputs (Clocked.run TestTop.transfer inputs start)) initial t

variable {dialogue} {inputs : Nat → TestTop.Input} {start : TestTop.State} {initial : Talk}
  {t later : Nat} {Cut : Arch × Talk → Prop}

theorem observe_other {view : View} {talk : Talk} (loading : view.cpu.state ≠ .s25_4)
    (leaving : ¬ (view.cpu.state = .pauseIR2 ∧ view.continue_ = false)) :
    dialogue.observe view talk = talk := by
  rw [observe, if_neg loading, if_neg leaving]

section Waiting

variable {u : Nat} (fetches : FetchesAt inputs start t) (begun : t ≤ u)
  (waiting : ∀ v, t < v → v ≤ u → ¬ FetchesAt inputs start v)

include fetches begun waiting

theorem pauses_of_leaving
    (paused : (Clocked.run TestTop.transfer inputs start u).cpu.state = .pauseIR2)
    (released : (inputs u).continue_ = false) :
    FetchesAt inputs start (u + 1) ∧
      (decode ((archAt inputs start t).fetched (envAt inputs t))).Pauses := by
  refine ⟨?_, (TestTop.pauses_of_paused fetches begun waiting (Or.inr paused)).2⟩
  rw [FetchesAt, Clocked.run_succ, (TestTop.transfer_pause _ _ (Or.inr paused)).2, released,
    paused]
  rfl

theorem loads_of_loading
    (loading : (Clocked.run TestTop.transfer inputs start u).cpu.state = .s25_4) :
    (decode ((archAt inputs start t).fetched (envAt inputs t))).Loads := by
  have working := TestTop.operation_of_fetches fetches begun waiting
  rw [loading] at working
  split at working
  · cases working
  · cases instr : decode ((archAt inputs start t).fetched (envAt inputs t)) with
    | ldr dr baseR offset6 => trivial
    | _ =>
        rw [instr] at working
        cases working

/-- As long as a pause lasts the dialogue stands still. -/
theorem talk_of_paused
    (pauses : (decode ((archAt inputs start t).fetched (envAt inputs t))).Pauses) :
    dialogue.talkOf inputs start initial u = dialogue.talkOf inputs start initial t := by
  apply Clocked.run_of_quiet begun
  intro v above below talk
  have waiting' : ∀ w, t < w → w ≤ v → ¬ FetchesAt inputs start w :=
    fun w after before => waiting w after (by omega)
  refine observe_other (fun loading => ?_) fun leaving => ?_
  · have loads := loads_of_loading fetches above waiting' loading
    obtain ⟨ledVect12, instr⟩ := pauses.eq_pse
    rw [instr] at loads
    exact loads
  · exact waiting (v + 1) (by omega) below
      (pauses_of_leaving fetches above waiting' leaving.1 leaving.2).1

end Waiting

theorem leaving_of_pauses (fetches : FetchesAt inputs start t)
    (next : NextFetch inputs start t later) {u : Nat} (begun : t ≤ u) (before : u < later)
    (paused : (Clocked.run TestTop.transfer inputs start u).cpu.state = .pauseIR2)
    (released : (inputs u).continue_ = false) :
    u + 1 = later ∧ (decode ((archAt inputs start t).fetched (envAt inputs t))).Pauses := by
  obtain ⟨fetching, pauses⟩ := pauses_of_leaving fetches begun
    (fun v after below => next.between v after (Nat.lt_of_le_of_lt below before)) paused released
  refine ⟨?_, pauses⟩
  by_contra other
  exact next.between (u + 1) (by omega) (by omega) fetching

theorem talk_of_loads (fetches : FetchesAt inputs start t)
    (next : NextFetch inputs start t later)
    (loads : (decode ((archAt inputs start t).fetched (envAt inputs t))).Loads) :
    dialogue.talkOf inputs start initial later =
      dialogue.record (envAt inputs t) (archAt inputs start t)
        (dialogue.talkOf inputs start initial t) := by
  have during : t + 11 < later := by
    rw [next.unique (TestTop.nextFetch_of_lasts fetches (execLasts_of_loads _ _ loads)).1]
    omega
  have plain : ¬ (decode ((archAt inputs start t).fetched (envAt inputs t))).Pauses := by
    obtain ⟨dr, baseR, offset6, instr⟩ := loads.eq_ldr
    rw [instr]
    exact id
  have single : dialogue.talkOf inputs start initial later =
      dialogue.observe (viewAt inputs (Clocked.run TestTop.transfer inputs start) (t + 11))
        (dialogue.talkOf inputs start initial t) := by
    refine Clocked.run_of_single (Nat.le_add_right t 11) during ?_
    intro u begun before other talk
    refine observe_other (fun loading => other ?_) fun leaving => plain ?_
    · exact (TestTop.loads_of_loading fetches next begun before loading).1
    · exact (leaving_of_pauses fetches next begun before leaving.1 leaving.2).2
  obtain ⟨loading, counter⟩ := TestTop.loading_of_loads fetches loads
  rw [single, observe, viewAt, if_pos loading, counter, BitVec.add_sub_cancel, record,
    if_pos loads]
  rfl

theorem talk_of_pauses (fetches : FetchesAt inputs start t)
    (next : NextFetch inputs start t later)
    (pauses : (decode ((archAt inputs start t).fetched (envAt inputs t))).Pauses) :
    dialogue.talkOf inputs start initial later =
      dialogue.record (envAt inputs t) (archAt inputs start t)
        (dialogue.talkOf inputs start initial t) := by
  have idle : ¬ (decode ((archAt inputs start t).fetched (envAt inputs t))).Loads := by
    obtain ⟨ledVect12, instr⟩ := pauses.eq_pse
    rw [instr]
    exact id
  obtain ⟨last, rfl, begun, paused, released, counter⟩ :=
    TestTop.leaves_of_pauses fetches next pauses
  have single : dialogue.talkOf inputs start initial (last + 1) =
      dialogue.observe (viewAt inputs (Clocked.run TestTop.transfer inputs start) last)
        (dialogue.talkOf inputs start initial t) := by
    refine Clocked.run_of_single begun (Nat.lt_succ_self last) ?_
    intro u begun before other talk
    refine observe_other (fun loading => idle ?_) fun leaving => other ?_
    · exact (TestTop.loads_of_loading fetches next begun before loading).2
    · exact Nat.succ.inj (leaving_of_pauses fetches next begun before leaving.1 leaving.2).1
  have elsewhere : (Clocked.run TestTop.transfer inputs start last).cpu.state ≠ .s25_4 :=
    fun loading => nomatch paused.symm.trans loading
  rw [single, observe, viewAt, if_neg elsewhere, if_pos ⟨paused, released⟩, counter,
    BitVec.add_sub_cancel, record, if_neg idle, if_pos pauses]

theorem talk_next (fetches : FetchesAt inputs start t) (next : NextFetch inputs start t later) :
    dialogue.talkOf inputs start initial later =
      dialogue.record (envAt inputs t) (archAt inputs start t)
        (dialogue.talkOf inputs start initial t) := by
  by_cases loads : (decode ((archAt inputs start t).fetched (envAt inputs t))).Loads
  · exact talk_of_loads fetches next loads
  by_cases pauses : (decode ((archAt inputs start t).fetched (envAt inputs t))).Pauses
  · exact talk_of_pauses fetches next pauses
  rw [record, if_neg loads, if_neg pauses]
  apply Clocked.run_of_quiet (Nat.le_of_lt next.order)
  intro u begun before talk
  exact observe_other
    (fun loading => loads (TestTop.loads_of_loading fetches next begun before loading).2)
    fun leaving => pauses (leaving_of_pauses fetches next begun before leaving.1 leaving.2).2

theorem extract_of_pse {word : Word} {ledVect12 : BitVec 12}
    (pse : decode word = .pse ledVect12) :
    word.extractLsb' 0 10 = ledVect12.extractLsb' 0 10 := by
  have vector : ledVect12 = word.extractLsb' 0 12 := by
    unfold decode at pse
    split at pse <;> cases pse
    rfl
  rw [vector, BitVec.extractLsb'_extractLsb'_of_le (by decide)]

/-- While it waits the machine shows what it showed when the pause was fetched. -/
theorem shows_of_waits (fetches : FetchesAt inputs start t) (begun : t ≤ later)
    (waiting : ∀ v, t < v → v ≤ later → ¬ FetchesAt inputs start v)
    (paused : (Clocked.run TestTop.transfer inputs start later).cpu.state.Paused)
    {ledVect12 : BitVec 12}
    (waits : dialogue.Waits (archAt inputs start t, dialogue.talkOf inputs start initial t)
      ledVect12) :
    dialogue.Shows (dialogue.talkOf inputs start initial later)
      (Clocked.run TestTop.transfer inputs start later).cpu.hexData
      (Clocked.run TestTop.transfer inputs start later).cpu.led
      (Clocked.run TestTop.transfer inputs start later).mem.memArray := by
  obtain ⟨late, pauses⟩ := TestTop.pauses_of_paused fetches begun waiting paused
  have waiting' : ∀ v, t < v → v < later → ¬ FetchesAt inputs start v :=
    fun v after before => waiting v after (Nat.le_of_lt before)
  obtain ⟨rest, rfl⟩ := Nat.exists_eq_add_of_le late
  have view := TestTop.arch_while_paused fetches pauses waiting'
  rw [Arch.step, waits.pauses] at view
  have hexData : (Clocked.run TestTop.transfer inputs start (t + 7 + rest)).cpu.hexData =
      (archAt inputs start t).hexData := congrArg Arch.hexData view
  have memory : (Clocked.run TestTop.transfer inputs start (t + 7 + rest)).mem.memArray =
      (archAt inputs start t).memory := congrArg Arch.memory view
  rw [talk_of_paused fetches begun waiting pauses, hexData, memory,
    (Cpu.led_of_paused _ paused).1, TestTop.ir_of_fetches fetches late waiting',
    extract_of_pse (waits.pauses (envAt inputs t))]
  exact waits.shows

/-- On the way to the next pause nothing waits. -/
theorem pausing_of_laps (conducts : dialogue.Conducts Cut) {state : Arch × Talk}
    (laps : dialogue.Laps Cut state) :
    Inevitable execute Arch.Plain (fun arch => ∀ env, (decode (arch.fetched env)).Pauses)
      state.1 := by
  refine (laps.stopping fun state => state.1.Plain).untraced (fun _ _ passed => passed.2) ?_
  intro arch talk stopped
  rcases stopped with cut | ⟨attends, stays⟩
  · exact conducts.pauses (arch, talk) cut
  · rcases attends.waits with plain | ⟨ledVect12, waits⟩
    · exact absurd plain stays
    · intro env
      rw [waits.pauses env]
      trivial

section Laps

variable (conducts : dialogue.Conducts Cut) (fetching : FetchesAt inputs start 0)
  (initially : dialogue.Laps Cut (start.arch, initial))

include conducts fetching initially

theorem laps_at_fetch (fetches : FetchesAt inputs start t) :
    dialogue.Laps Cut (archAt inputs start t, dialogue.talkOf inputs start initial t) :=
  TestTop.traced_at_fetch conducts.lap talk_next fetching initially fetches

theorem contained_of_conducts (fetches : FetchesAt inputs start t) :
    (archAt inputs start t).Contained :=
  (Inevitable.step_of_lap conducts.lap
    (laps_at_fetch conducts fetching initially fetches)).1.contained

/-- The dialogue is on the board whenever the machine waits. -/
theorem shows_of_conducts
    (paused : (Clocked.run TestTop.transfer inputs start t).cpu.state.Paused) :
    dialogue.Shows (dialogue.talkOf inputs start initial t)
      (Clocked.run TestTop.transfer inputs start t).cpu.hexData
      (Clocked.run TestTop.transfer inputs start t).cpu.led
      (Clocked.run TestTop.transfer inputs start t).mem.memArray := by
  obtain ⟨last, begun, fetches, waiting⟩ := TestTop.exists_lastFetch fetching t
  have pauses := (TestTop.pauses_of_paused fetches begun waiting paused).2
  rcases (Inevitable.step_of_lap conducts.lap
    (laps_at_fetch conducts fetching initially fetches)).1.waits with plain | ⟨ledVect12, waits⟩
  · exact absurd pauses (plain (envAt inputs last))
  · exact shows_of_waits fetches begun waiting paused waits

/-- The machine waits again and again. -/
theorem waits_of_conducts (t : Nat) :
    ∃ u, t ≤ u ∧ (Clocked.run TestTop.transfer inputs start u).cpu.state.Paused := by
  refine TestTop.exists_paused fetching (fun fetches => ?_) t
  exact pausing_of_laps conducts (laps_at_fetch conducts fetching initially fetches)

/-- As long as the button is used the dialogue keeps coming back to where it begins. -/
theorem returns_of_conducts (pressed : Pressed inputs) (t : Nat) :
    ∃ u, t ≤ u ∧ (Clocked.run TestTop.transfer inputs start u).cpu.state.Paused ∧
      dialogue.AtHome (dialogue.talkOf inputs start initial u) := by
  obtain ⟨last, begun, fetches, waiting⟩ := TestTop.exists_lastFetch fetching t
  obtain ⟨later, next⟩ := TestTop.nextFetch_of_pressed pressed fetches
  have after : t ≤ later := by
    by_contra early
    exact waiting later next.order (by omega) next.fetches
  obtain ⟨u, order, arrives, cut⟩ := TestTop.exists_fetch_of_traced talk_next
    (TestTop.nextFetch_of_pressed pressed)
    (laps_at_fetch conducts fetching initially next.fetches) next.fetches rfl
  have pauses := conducts.pauses _ cut (envAt inputs u)
  have quiet : ∀ v, u < v → v ≤ u + 7 → ¬ FetchesAt inputs start v := by
    intro v after' before
    rcases Nat.eq_or_lt_of_le before with rfl | early
    · rw [FetchesAt, (TestTop.pauses_of_fetches arrives pauses).1]
      decide
    · exact TestTop.quiet_of_fetches arrives after' early
  refine ⟨u + 7, by omega, Or.inl (TestTop.pauses_of_fetches arrives pauses).1, ?_⟩
  rw [talk_of_paused arrives (Nat.le_add_right u 7) quiet pauses]
  exact (conducts.home _ cut).2

end Laps

end Run

end Dialogue

end DigitalSystems.Slc3
