import DigitalSystems.Slc3.Fetches

/-!
# Switch readings

A load takes its data over in `S_25_4`, eleven cycles after its fetch.  The readings of
a program are the switches in these cycles.
-/

namespace DigitalSystems.Slc3

/-- Cycles since the fetch, in the states that lead a load to its data. -/
def Isdu.elapsed : Isdu → Option Nat
  | s18 => some 0
  | s33_1 => some 1
  | s33_2 => some 2
  | s33_3 => some 3
  | s33_4 => some 4
  | s35 => some 5
  | s32 => some 6
  | s6 => some 7
  | s25_1 => some 8
  | s25_2 => some 9
  | s25_3 => some 10
  | s25_4 => some 11
  | _ => none

def Isa.Instr.Loads : Isa.Instr → Prop
  | .ldr .. => True
  | _ => False

instance : DecidablePred Isa.Instr.Loads
  | .ldr .. => isTrue trivial
  | .add .. | .and .. | .not .. | .str .. | .jsr .. | .jmp .. | .br .. | .pse .. |
    .unassigned => isFalse id

theorem Isa.Instr.Loads.eq_ldr {instr : Isa.Instr} (loads : instr.Loads) :
    ∃ dr baseR offset6, instr = .ldr dr baseR offset6 := by
  cases instr with
  | ldr dr baseR offset6 => exact ⟨dr, baseR, offset6, rfl⟩
  | _ => exact loads.elim

/-- The switch reading of a load at `address`. -/
def Isa.Arch.reading (arch : Isa.Arch) (address : Word) (env : Isa.Env) :
    Option (BitVec 10) :=
  if arch.pc = address ∧ (Isa.decode (arch.fetched env)).Loads then some env.loadSwitches
  else none

theorem Isa.execLasts_of_loads (flags : Flags) (continue_ : Nat → Bool) {instr : Isa.Instr}
    (loads : instr.Loads) : Isa.ExecLasts flags continue_ 6 instr := by
  obtain ⟨dr, baseR, offset6, rfl⟩ := loads.eq_ldr
  rfl

namespace TestTop

theorem elapsed_transfer {input : Input} {state : State} {n : Nat}
    (later : (transfer input state).cpu.state.elapsed = some (n + 1)) :
    state.cpu.state.elapsed = some n := by
  obtain ⟨⟨phase, pc, mar, mdr, ir, registers, ⟨dout, flags⟩, hexData⟩, mem⟩ := state
  obtain ⟨sw, reset, run, continue_, busX, memX⟩ := input
  cases phase
  case s32 =>
    change (Isdu.decode (ir.extractLsb' 12 4)).elapsed = some (n + 1) at later
    revert later
    unfold Isdu.decode
    split <;> intro later <;> cases later
    rfl
  case halted => cases run <;> cases later
  case pauseIR1 => cases continue_ <;> cases later
  case pauseIR2 => cases continue_ <;> cases later
  case s0 => cases dout <;> cases later
  all_goals cases later <;> rfl

theorem fetching_of_elapsed {state : Isdu} (elapsed : state.elapsed = some 0) :
    state = .s18 := by
  cases state
  case s18 => rfl
  all_goals cases elapsed

/-- The switches that a load fetched from `address` takes over in this cycle. -/
def State.reading (state : State) (address : Word) (input : Input) : Option (BitVec 10) :=
  if state.cpu.state = .s25_4 ∧ state.cpu.pc = address + 1#16 then some input.sw else none

section Run

variable {inputs : Nat → Input} {start : State} {t later : Nat}

theorem elapsed_run {u n : Nat} (k : Nat)
    (elapsed : (Clocked.run transfer inputs start (u + k)).cpu.state.elapsed = some (n + k)) :
    (Clocked.run transfer inputs start u).cpu.state.elapsed = some n := by
  induction k with
  | zero => exact elapsed
  | succ k inductionHypothesis => exact inductionHypothesis (elapsed_transfer elapsed)

/-- Between two fetches a state tells how long ago the first of them was. -/
theorem time_of_elapsed (fetches : FetchesAt inputs start t)
    (next : NextFetch inputs start t later) {u n : Nat} (begun : t ≤ u) (before : u < later)
    (elapsed : (Clocked.run transfer inputs start u).cpu.state.elapsed = some n) :
    u = t + n := by
  induction u, begun using Nat.le_induction generalizing n with
  | base =>
      rw [show (Clocked.run transfer inputs start t).cpu.state = .s18 from fetches] at elapsed
      obtain rfl : 0 = n := Option.some.inj elapsed
      rfl
  | succ u begun inductionHypothesis =>
      cases n with
      | zero =>
          have fetching : FetchesAt inputs start (u + 1) := fetching_of_elapsed elapsed
          exact absurd fetching (next.between (u + 1) (Nat.lt_succ_of_le begun) before)
      | succ n =>
          have earlier := inductionHypothesis (Nat.lt_of_succ_lt before)
            (elapsed_transfer elapsed)
          rw [earlier]
          rfl

theorem run_address (inputs : Nat → Input) {state : State}
    (entered : state.cpu.state = .s6) :
    (Clocked.run transfer inputs state 4).cpu.state = .s25_4 ∧
      (Clocked.run transfer inputs state 4).cpu.pc = state.cpu.pc := by
  obtain ⟨⟨phase, pc, mar, mdr, ir, registers, ben, hexData⟩, mem⟩ := state
  subst entered
  exact ⟨rfl, rfl⟩

theorem loading_of_loads (fetches : FetchesAt inputs start t)
    (loads : (Isa.decode ((archAt inputs start t).fetched (envAt inputs t))).Loads) :
    (Clocked.run transfer inputs start (t + 11)).cpu.state = .s25_4 ∧
      (Clocked.run transfer inputs start (t + 11)).cpu.pc =
        (archAt inputs start t).pc + 1#16 := by
  obtain ⟨decodes, counter⟩ := execState_of_fetches fetches
  obtain ⟨dr, baseR, offset6, instr⟩ := loads.eq_ldr
  rw [instr] at decodes
  have address := run_address (fun k => inputs (t + 7 + k)) decodes
  rw [← Clocked.run_add] at address
  exact ⟨address.1, address.2.trans counter⟩

theorem loads_of_loading (fetches : FetchesAt inputs start t)
    (next : NextFetch inputs start t later) {u : Nat} (begun : t ≤ u) (before : u < later)
    (loading : (Clocked.run transfer inputs start u).cpu.state = .s25_4) :
    u = t + 11 ∧
      (Isa.decode ((archAt inputs start t).fetched (envAt inputs t))).Loads := by
  have elapsed : (Clocked.run transfer inputs start u).cpu.state.elapsed = some 11 :=
    congrArg Isdu.elapsed loading
  obtain rfl := time_of_elapsed fetches next begun before elapsed
  have executing : (Clocked.run transfer inputs start (t + 7)).cpu.state.elapsed = some 7 :=
    elapsed_run 4 elapsed
  rw [(execState_of_fetches fetches).1] at executing
  refine ⟨rfl, ?_⟩
  cases instr : Isa.decode ((archAt inputs start t).fetched (envAt inputs t)) with
  | ldr dr baseR offset6 => trivial
  | _ =>
      rw [instr] at executing
      cases executing

/-- The reading of a load at `address` in cycle `u`. -/
def readingAt (inputs : Nat → Input) (start : State) (address : Word) (u : Nat) :
    Option (BitVec 10) :=
  (Clocked.run transfer inputs start u).reading address (inputs u)

/-- The last reading of `address` changes from fetch to fetch as the instruction does it. -/
theorem latestReading_next (fetches : FetchesAt inputs start t)
    (next : NextFetch inputs start t later) (address : Word) :
    Clocked.latestBefore? (readingAt inputs start address) later =
      ((archAt inputs start t).reading address (envAt inputs t)).or
        (Clocked.latestBefore? (readingAt inputs start address) t) := by
  by_cases loads : (Isa.decode ((archAt inputs start t).fetched (envAt inputs t))).Loads
  · obtain ⟨loading, counter⟩ := loading_of_loads fetches loads
    have during : t + 11 < later := by
      rw [next.unique (nextFetch_of_lasts fetches (Isa.execLasts_of_loads _ _ loads)).1]
      omega
    have quiet : ∀ u, t ≤ u → u < later → u ≠ t + 11 →
        readingAt inputs start address u = none := by
      intro u begun before other
      refine if_neg fun reads => other ?_
      exact (loads_of_loading fetches next begun before reads.1).1
    rw [Clocked.latestBefore?_of_single (Nat.le_add_right t 11) during quiet]
    refine congrArg (Option.or · _) ?_
    rw [readingAt, State.reading, Isa.Arch.reading, loading, counter]
    exact if_congr ⟨fun reads => ⟨(BitVec.add_left_inj _).mp reads.2, loads⟩,
      fun reads => ⟨rfl, congrArg (· + 1#16) reads.1⟩⟩ rfl rfl
  · have quiet : ∀ u, t ≤ u → u < later → readingAt inputs start address u = none := by
      intro u begun before
      refine if_neg fun reads => loads ?_
      exact (loads_of_loading fetches next begun before reads.1).2
    rw [Clocked.latestBefore?_of_quiet (Nat.le_of_lt next.order) quiet, Isa.Arch.reading,
      if_neg fun read => loads read.2, Option.none_or]

end Run

end TestTop

end DigitalSystems.Slc3
