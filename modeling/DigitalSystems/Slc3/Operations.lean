import DigitalSystems.Clocked.Counting
import DigitalSystems.Slc3.Fetches
import DigitalSystems.Slc3.Pause

/-!
# The operation in progress

After the fetch the state of the controller tells which operation it has entered.  What
only one operation does, pausing or writing the display, is thereby traced back to the
instruction fetched.
-/

namespace DigitalSystems.Slc3

/-- The state that `S_32` entered for the operation in progress. -/
def Isdu.operation : Isdu → Option Isdu
  | pauseIR1 | pauseIR2 => some pauseIR1
  | s1 => some s1
  | s5 => some s5
  | s9 => some s9
  | s6 | s25_1 | s25_2 | s25_3 | s25_4 | s27 => some s6
  | s7 | s23 | s16_1 | s16_2 | s16_3 | s16_4 => some s7
  | s4 | s21 => some s4
  | s12 => some s12
  | s0 | s22 => some s0
  | _ => none

instance : DecidablePred Isdu.Paused := fun _ => inferInstanceAs (Decidable (_ ∨ _))

theorem Isdu.paused_iff {state : Isdu} : state.Paused ↔ state.operation = some .pauseIR1 := by
  cases state <;> decide

def Isa.Instr.Stores : Isa.Instr → Prop
  | .str .. => True
  | _ => False

instance : DecidablePred Isa.Instr.Stores
  | .str .. => isTrue trivial
  | .add .. | .and .. | .not .. | .ldr .. | .jsr .. | .jmp .. | .br .. | .pse .. |
    .unassigned => isFalse id

namespace TestTop

/-- A pause begins with the next cycle. -/
def PauseBegins (states : Nat → State) (t : Nat) : Prop :=
  ¬ (states t).cpu.state.Paused ∧ (states (t + 1)).cpu.state.Paused

instance (states : Nat → State) : DecidablePred (PauseBegins states) := fun _ =>
  inferInstanceAs (Decidable (_ ∧ _))

/-- The instruction at `address` is fetched. -/
def FetchesFrom (address : Word) (states : Nat → State) (t : Nat) : Prop :=
  (states t).cpu.state = .s18 ∧ (states t).cpu.pc = address

instance (address : Word) (states : Nat → State) : DecidablePred (FetchesFrom address states) :=
  fun _ => inferInstanceAs (Decidable (_ ∧ _))

section Step

variable (input : Input) {state : State} {entered : Isdu}

theorem operation_transfer (working : state.cpu.state.operation = some entered)
    (busy : (transfer input state).cpu.state ≠ .s18) :
    (transfer input state).cpu.state.operation = some entered := by
  obtain ⟨⟨phase, pc, mar, mdr, ir, registers, ⟨dout, flags⟩, hexData⟩, mem⟩ := state
  obtain ⟨sw, reset, run, continue_, busX, memX⟩ := input
  cases phase
  case pauseIR1 => cases continue_ <;> exact working
  case pauseIR2 =>
    cases continue_ with
    | false => exact absurd rfl busy
    | true => exact working
  case s0 =>
    cases dout with
    | false => exact absurd rfl busy
    | true => exact working
  all_goals first
    | exact working
    | exact absurd rfl busy
    | exact absurd working nofun

theorem ir_transfer (working : state.cpu.state.operation = some entered) :
    (transfer input state).cpu.ir = state.cpu.ir := by
  obtain ⟨⟨phase, pc, mar, mdr, ir, registers, ben, hexData⟩, mem⟩ := state
  cases phase
  case s35 => exact absurd working nofun
  all_goals rfl

/-- Only a store writes the display. -/
theorem hexData_transfer (other : state.cpu.state.operation ≠ some .s7) :
    (transfer input state).cpu.hexData = state.cpu.hexData := by
  obtain ⟨⟨phase, pc, mar, mdr, ir, registers, ben, hexData⟩, mem⟩ := state
  cases phase
  case s16_1 | s16_2 | s16_3 | s16_4 => exact absurd rfl other
  all_goals rfl

end Step

theorem operation_fetch (inputs : Nat → Input) (state : State)
    (fetching : state.cpu.state = .s18) (t : Nat) (bound : t < 7) :
    (Clocked.run transfer inputs state t).cpu.state.operation = none := by
  obtain ⟨⟨phase, pc, mar, mdr, ir, registers, ben, hexData⟩, mem⟩ := state
  subst fetching
  interval_cases t <;> rfl

theorem operation_execState {instr : Isa.Instr} (busy : execState instr ≠ .s18) :
    (execState instr).operation = some (execState instr) := by
  cases instr
  case unassigned => exact absurd rfl busy
  all_goals rfl

section Run

variable {inputs : Nat → Input} {start : State} {t u : Nat}

/-- From a fetch on, as long as there is no other. -/
theorem operation_of_fetches (fetches : FetchesAt inputs start t) (begun : t ≤ u)
    (waiting : ∀ v, t < v → v ≤ u → ¬ FetchesAt inputs start v) :
    (Clocked.run transfer inputs start u).cpu.state.operation =
      if u < t + 7 then none
      else some (execState (Isa.decode ((archAt inputs start t).fetched (envAt inputs t)))) := by
  rcases Nat.lt_or_ge u (t + 7) with early | late
  · obtain ⟨k, rfl⟩ := Nat.exists_eq_add_of_le begun
    rw [if_pos early, Clocked.run_add]
    exact operation_fetch _ _ fetches k (by omega)
  · rw [if_neg (Nat.not_lt.mpr late)]
    induction u, late using Nat.le_induction with
    | base =>
        have entered := (execState_of_fetches fetches).1
        have busy : ¬ FetchesAt inputs start (t + 7) := waiting (t + 7) (by omega) le_rfl
        rw [FetchesAt, entered] at busy
        rw [entered]
        exact operation_execState busy
    | succ u late inductionHypothesis =>
        have working := inductionHypothesis (by omega) fun v after before =>
          waiting v after (Nat.le_succ_of_le before)
        exact operation_transfer (inputs u) working (waiting (u + 1) (by omega) le_rfl)

theorem ir_of_fetches (fetches : FetchesAt inputs start t) (late : t + 7 ≤ u)
    (waiting : ∀ v, t < v → v < u → ¬ FetchesAt inputs start v) :
    (Clocked.run transfer inputs start u).cpu.ir =
      (archAt inputs start t).fetched (envAt inputs t) := by
  induction u, late using Nat.le_induction with
  | base =>
      rw [Clocked.run_add, run_fetch _ _ fetches]
      rfl
  | succ u late inductionHypothesis =>
      have working := operation_of_fetches fetches (by omega) fun v after before =>
        waiting v after (Nat.lt_succ_of_le before)
      rw [if_neg (Nat.not_lt.mpr late)] at working
      rw [Clocked.run_succ, ir_transfer (inputs u) working]
      exact inductionHypothesis fun v after before => waiting v after (Nat.lt_succ_of_lt before)

/-- An instruction that is not a store leaves the display alone, up to the next fetch. -/
theorem hexData_while_silent (fetches : FetchesAt inputs start t)
    (silent : ¬ (Isa.decode ((archAt inputs start t).fetched (envAt inputs t))).Stores)
    (begun : t ≤ u) (waiting : ∀ v, t < v → v < u → ¬ FetchesAt inputs start v) :
    (Clocked.run transfer inputs start u).cpu.hexData =
      (Clocked.run transfer inputs start t).cpu.hexData := by
  induction u, begun using Nat.le_induction with
  | base => rfl
  | succ u begun inductionHypothesis =>
      have working := operation_of_fetches fetches begun fun v after before =>
        waiting v after (Nat.lt_succ_of_le before)
      rw [Clocked.run_succ, hexData_transfer]
      · exact inductionHypothesis fun v after before => waiting v after (Nat.lt_succ_of_lt before)
      · intro storing
        rw [storing] at working
        split at working
        · cases working
        · cases instr : Isa.decode ((archAt inputs start t).fetched (envAt inputs t)) with
          | str sr baseR offset6 =>
              rw [instr] at silent
              exact silent trivial
          | _ =>
              rw [instr] at working
              cases working

/-- A pause is that of the instruction fetched last. -/
theorem pauses_of_paused (fetches : FetchesAt inputs start t) (begun : t ≤ u)
    (waiting : ∀ v, t < v → v ≤ u → ¬ FetchesAt inputs start v)
    (paused : (Clocked.run transfer inputs start u).cpu.state.Paused) :
    t + 7 ≤ u ∧
      (Isa.decode ((archAt inputs start t).fetched (envAt inputs t))).Pauses := by
  have working := operation_of_fetches fetches begun waiting
  rw [Isdu.paused_iff.mp paused] at working
  split at working
  case isTrue => cases working
  case isFalse late =>
    refine ⟨Nat.not_lt.mp late, ?_⟩
    cases instr : Isa.decode ((archAt inputs start t).fetched (envAt inputs t)) with
    | pse ledVect12 => trivial
    | _ =>
        rw [instr] at working
        cases working

theorem paused_of_fetches (fetches : FetchesAt inputs start t)
    (pauses : (Isa.decode ((archAt inputs start t).fetched (envAt inputs t))).Pauses)
    (late : t + 7 ≤ u) (waiting : ∀ v, t < v → v ≤ u → ¬ FetchesAt inputs start v) :
    (Clocked.run transfer inputs start u).cpu.state.Paused := by
  have working := operation_of_fetches fetches (by omega) waiting
  obtain ⟨ledVect12, instr⟩ := pauses.eq_pse
  rw [if_neg (Nat.not_lt.mpr late), instr] at working
  exact Isdu.paused_iff.mpr working

/-- A pause is left in the cycle before the next fetch. -/
theorem leaves_of_pauses {later : Nat} (fetches : FetchesAt inputs start t)
    (next : NextFetch inputs start t later)
    (pauses : (Isa.decode ((archAt inputs start t).fetched (envAt inputs t))).Pauses) :
    ∃ last, later = last + 1 ∧ t ≤ last ∧
      (Clocked.run transfer inputs start last).cpu.state = .pauseIR2 ∧
      (inputs last).continue_ = false ∧
      (Clocked.run transfer inputs start last).cpu.pc = (archAt inputs start t).pc + 1#16 := by
  obtain ⟨rest, total⟩ := Nat.exists_eq_add_of_le (next.late fetches)
  have entered := (pauses_of_fetches fetches pauses).1
  have pos : rest ≠ 0 := by
    rintro rfl
    have fetching : FetchesAt inputs start (t + 7) := total ▸ next.fetches
    rw [FetchesAt, entered] at fetching
    cases fetching
  obtain ⟨held, rfl⟩ := Nat.exists_eq_add_one_of_ne_zero pos
  subst total
  have waiting : ∀ v, t < v → v ≤ t + 7 + held → ¬ FetchesAt inputs start v :=
    fun v after before => next.between v after (by omega)
  have paused := paused_of_fetches fetches pauses (Nat.le_add_right (t + 7) held) waiting
  have left : (transfer (inputs (t + 7 + held))
      (Clocked.run transfer inputs start (t + 7 + held))).cpu.state = .s18 := next.fetches
  rw [(transfer_pause (inputs (t + 7 + held)) _ paused).2] at left
  have view := arch_while_paused fetches pauses fun v after before =>
    waiting v after (Nat.le_of_lt before)
  obtain ⟨ledVect12, instr⟩ := pauses.eq_pse
  refine ⟨t + 7 + held, rfl, by omega, ?_, ?_, ?_⟩
  · rcases paused with first | second
    · rw [first] at left
      split at left <;> cases left
    · exact second
  · rw [← Bool.not_eq_true]
    intro pressed
    rw [if_pos pressed] at left
    cases left
  · apply (congrArg Isa.Arch.pc view).trans
    rw [Isa.Arch.step, instr]
    rfl

theorem pauseBegins_of_pauses (fetches : FetchesAt inputs start t)
    (pauses : (Isa.decode ((archAt inputs start t).fetched (envAt inputs t))).Pauses) :
    PauseBegins (Clocked.run transfer inputs start) (t + 6) := by
  constructor
  · rw [Isdu.paused_iff, Clocked.run_add, operation_fetch _ _ fetches 6 (by decide)]
    exact nofun
  · exact Or.inl (pauses_of_fetches fetches pauses).1

theorem eq_of_pauseBegins (fetches : FetchesAt inputs start t) (begun : t ≤ u)
    (waiting : ∀ v, t < v → v ≤ u → ¬ FetchesAt inputs start v)
    (begins : PauseBegins (Clocked.run transfer inputs start) u) :
    u = t + 6 ∧
      (Isa.decode ((archAt inputs start t).fetched (envAt inputs t))).Pauses := by
  obtain ⟨running, paused⟩ := begins
  have last : ¬ FetchesAt inputs start (u + 1) := by
    intro fetching
    rw [FetchesAt] at fetching
    rw [fetching] at paused
    exact absurd paused (by decide)
  have waiting' : ∀ v, t < v → v ≤ u + 1 → ¬ FetchesAt inputs start v := by
    intro v after below
    rcases Nat.le_succ_iff.mp below with inside | rfl
    · exact waiting v after inside
    · exact last
  obtain ⟨late, pauses⟩ := pauses_of_paused fetches (Nat.le_succ_of_le begun) waiting' paused
  refine ⟨?_, pauses⟩
  by_contra other
  have working := operation_of_fetches fetches begun waiting
  obtain ⟨ledVect12, instr⟩ := pauses.eq_pse
  rw [if_neg (by omega), instr] at working
  exact running (Isdu.paused_iff.mpr working)

/-- From a fetch on a pause begins exactly if the instruction fetched pauses. -/
theorem count_pauses (fetches : FetchesAt inputs start t) (begun : t ≤ u)
    (waiting : ∀ v, t < v → v < u → ¬ FetchesAt inputs start v) :
    Nat.count (PauseBegins (Clocked.run transfer inputs start)) u =
      Nat.count (PauseBegins (Clocked.run transfer inputs start)) t +
        if t + 7 ≤ u ∧
          (Isa.decode ((archAt inputs start t).fetched (envAt inputs t))).Pauses
        then 1 else 0 := by
  have single : ∀ v, t ≤ v → v < u → PauseBegins (Clocked.run transfer inputs start) v →
      v = t + 6 ∧ (Isa.decode ((archAt inputs start t).fetched (envAt inputs t))).Pauses :=
    fun v above below begins => eq_of_pauseBegins fetches above
      (fun w after before => waiting w after (Nat.lt_of_le_of_lt before below)) begins
  split
  case isTrue begins =>
    rw [Clocked.count_of_single (Nat.le_add_right t 6) begins.1
      fun v above below event => (single v above below event).1,
      if_pos (pauseBegins_of_pauses fetches begins.2)]
  case isFalse silent =>
    apply Clocked.count_of_quiet begun
    intro v above below event
    obtain ⟨rfl, pauses⟩ := single v above below event
    exact silent ⟨below, pauses⟩

theorem count_pauses_of_plain (fetching : FetchesAt inputs start 0)
    (plain : ∀ v, v < u → FetchesAt inputs start v → (archAt inputs start v).Plain) :
    Nat.count (PauseBegins (Clocked.run transfer inputs start)) u = 0 := by
  rw [Clocked.count_of_quiet (Nat.zero_le u), Nat.count_zero]
  intro v _ before begins
  obtain ⟨last, begun, fetches, waiting⟩ := exists_lastFetch fetching v
  exact plain last (Nat.lt_of_le_of_lt begun before) fetches (envAt inputs last)
    (eq_of_pauseBegins fetches begun waiting begins).2

theorem count_fetches (address : Word) (fetches : FetchesAt inputs start t) (begun : t < u)
    (waiting : ∀ v, t < v → v < u → ¬ FetchesAt inputs start v) :
    Nat.count (FetchesFrom address (Clocked.run transfer inputs start)) u =
      Nat.count (FetchesFrom address (Clocked.run transfer inputs start)) t +
        if (archAt inputs start t).pc = address then 1 else 0 := by
  rw [Clocked.count_of_single (Nat.le_refl t) begun]
  · congr 1
    exact if_congr ⟨fun from_ => from_.2, fun here => ⟨fetches, here⟩⟩ rfl rfl
  · intro v above below from_
    by_contra other
    exact waiting v (by omega) below from_.1

/-- If the instructions at every fetch inevitably lead to a pause, the machine waits for a
button again and again. -/
theorem exists_paused (fetching : FetchesAt inputs start 0)
    (pausing : ∀ {t}, FetchesAt inputs start t → Clocked.Inevitable Isa.execute Isa.Arch.Plain
      (fun arch => ∀ env, (Isa.decode (arch.fetched env)).Pauses) (archAt inputs start t))
    (t : Nat) : ∃ u, t ≤ u ∧ (Clocked.run transfer inputs start u).cpu.state.Paused := by
  obtain ⟨last, begun, fetches, waiting⟩ := exists_lastFetch fetching t
  obtain ⟨later, order, arrives, pauses, _⟩ :=
    exists_fetch_of_inevitable nextFetch_of_plain (pausing fetches) fetches rfl
  rcases Nat.lt_or_ge (later + 7) t with early | late
  · -- The pause has begun before cycle `t` and still lasts.
    have same : later = last := by
      by_contra other
      exact waiting later (by omega) (by omega) arrives
    subst same
    exact ⟨t, le_rfl, paused_of_fetches arrives (pauses _) (Nat.le_of_lt early) waiting⟩
  · exact ⟨later + 7, late, Or.inl (pauses_of_fetches arrives (pauses _)).1⟩

end Run

end TestTop

end DigitalSystems.Slc3
