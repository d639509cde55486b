import DigitalSystems.Clocked.Inevitable
import DigitalSystems.Clocked.Latest
import DigitalSystems.Slc3.Refinement

/-!
# Runs of instructions

The fetch cycles cut a run without reset into instructions: from one fetch to the next
the programmer's view makes one reference step, a pause included.  What holds of the
instruction set carries over to the machine through these rules.
-/

namespace DigitalSystems.Slc3

universe u

namespace Isa

def Instr.Pauses : Instr → Prop
  | .pse _ => True
  | _ => False

instance : DecidablePred Instr.Pauses
  | .pse _ => isTrue trivial
  | .add .. | .and .. | .not .. | .ldr .. | .str .. | .jsr .. | .jmp .. | .br .. |
    .unassigned => isFalse id

theorem Instr.Pauses.eq_pse {instr : Instr} (pauses : instr.Pauses) :
    ∃ ledVect12, instr = .pse ledVect12 := by
  cases instr with
  | pse ledVect12 => exact ⟨ledVect12, rfl⟩
  | _ => exact pauses.elim

/-- The instruction set as a clocked machine, one step an instruction. -/
def execute (env : Env) (arch : Arch) : Arch := arch.step env

/-- Whatever the switches are, the next instruction does not wait for a button. -/
def Arch.Plain (arch : Arch) : Prop := ∀ env, ¬ (decode (arch.fetched env)).Pauses

theorem exists_execLasts (flags : Flags) (continue_ : Nat → Bool) {instr : Instr}
    (plain : ¬ instr.Pauses) : ∃ cycles, ExecLasts flags continue_ cycles instr := by
  cases instr with
  | pse ledVect12 => exact absurd trivial plain
  | _ => exact ⟨_, rfl⟩

end Isa

namespace TestTop

section Pause

variable {inputs : Nat → Input} {state : State}

/-- As long as a pause has not been left, and in the cycle in which it has, the
programmer's view is the one it began with. -/
theorem arch_of_pause (entered : state.cpu.state = .pauseIR1) {cycles : Nat}
    (waiting : ∀ t, t < cycles → (Clocked.run transfer inputs state t).cpu.state ≠ .s18) :
    (Clocked.run transfer inputs state cycles).arch = state.arch ∧
      ((Clocked.run transfer inputs state cycles).cpu.state = .pauseIR1 ∨
        (Clocked.run transfer inputs state cycles).cpu.state = .pauseIR2 ∨
        (Clocked.run transfer inputs state cycles).cpu.state = .s18) := by
  induction cycles with
  | zero => exact ⟨rfl, Or.inl entered⟩
  | succ cycles inductionHypothesis =>
      obtain ⟨unchanged, phase⟩ := inductionHypothesis fun t bound => waiting t (by omega)
      have busy := waiting cycles (Nat.lt_succ_self cycles)
      have paused : (Clocked.run transfer inputs state cycles).cpu.state = .pauseIR1 ∨
          (Clocked.run transfer inputs state cycles).cpu.state = .pauseIR2 := by
        rcases phase with first | second | fetching
        · exact Or.inl first
        · exact Or.inr second
        · exact absurd fetching busy
      have edge := transfer_pause (inputs cycles) _ paused
      rw [Clocked.run_succ]
      refine ⟨edge.1.trans unchanged, ?_⟩
      rw [edge.2]
      split
      · exact Or.inr (Or.inl rfl)
      · split
        · exact Or.inl rfl
        · exact Or.inr (Or.inr rfl)

end Pause

section Run

variable (inputs : Nat → Input) (start : State)

def FetchesAt (t : Nat) : Prop := (Clocked.run transfer inputs start t).cpu.state = .s18

def archAt (t : Nat) : Isa.Arch := (Clocked.run transfer inputs start t).arch

/-- What the environment shows the instruction fetched in cycle `t`. -/
def envAt (t : Nat) : Isa.Env := env fun u => inputs (t + u)

/-- `later` is the first fetch after cycle `t`. -/
structure NextFetch (t later : Nat) : Prop where
  order : t < later
  fetches : FetchesAt inputs start later
  between : ∀ u, t < u → u < later → ¬ FetchesAt inputs start u

variable {inputs start} {t later : Nat}

theorem nextFetch_of_lasts (fetches : FetchesAt inputs start t) {cycles : Nat}
    (lasts : Isa.ExecLasts (archAt inputs start t).flags
      (fun u => (inputs (t + (7 + u))).continue_) cycles
      (Isa.decode ((archAt inputs start t).fetched (envAt inputs t)))) :
    NextFetch inputs start t (t + (7 + cycles)) ∧
      archAt inputs start (t + (7 + cycles)) =
        (archAt inputs start t).step (envAt inputs t) := by
  obtain ⟨fetching, effect, busy⟩ :=
    completes_instruction (fun u => inputs (t + u)) _ fetches lasts
  rw [← Clocked.run_add] at fetching effect
  refine ⟨⟨by omega, fetching, ?_⟩, effect⟩
  intro u after before
  obtain ⟨m, rfl⟩ := Nat.exists_eq_add_of_lt after
  rw [FetchesAt, Nat.add_assoc, Clocked.run_add]
  exact busy (m + 1) (Nat.succ_pos m) (by omega)

theorem nextFetch_of_instr (fetches : FetchesAt inputs start t) {instr : Isa.Instr}
    (fetched : Isa.decode ((archAt inputs start t).fetched (envAt inputs t)) = instr)
    (cycles : Nat)
    (lasts : Isa.ExecLasts (archAt inputs start t).flags
      (fun u => (inputs (t + (7 + u))).continue_) cycles instr) :
    NextFetch inputs start t (t + (7 + cycles)) ∧
      archAt inputs start (t + (7 + cycles)) =
        (archAt inputs start t).step (envAt inputs t) := by
  subst fetched
  exact nextFetch_of_lasts fetches lasts

/-- An instruction other than a pause completes whatever the buttons do. -/
theorem nextFetch_of_not_pauses (fetches : FetchesAt inputs start t)
    (plain : ¬ (Isa.decode ((archAt inputs start t).fetched (envAt inputs t))).Pauses) :
    ∃ later, NextFetch inputs start t later ∧
      archAt inputs start later = (archAt inputs start t).step (envAt inputs t) := by
  obtain ⟨cycles, lasts⟩ := Isa.exists_execLasts (archAt inputs start t).flags
    (fun u => (inputs (t + (7 + u))).continue_) plain
  exact ⟨_, nextFetch_of_lasts fetches lasts⟩

theorem NextFetch.unique {other : Nat} (next : NextFetch inputs start t later)
    (next' : NextFetch inputs start t other) : later = other := by
  rcases Nat.lt_trichotomy later other with before | equal | after
  · exact absurd next.fetches (next'.between later next.order before)
  · exact equal
  · exact absurd next'.fetches (next.between other next'.order after)

theorem quiet_of_fetches (fetches : FetchesAt inputs start t) {u : Nat} (after : t < u)
    (before : u < t + 7) : ¬ FetchesAt inputs start u := by
  obtain ⟨m, rfl⟩ := Nat.exists_eq_add_of_lt after
  rw [FetchesAt, Nat.add_assoc, Clocked.run_add]
  exact busy_fetch (fun u => inputs (t + u)) _ fetches (m + 1) (Nat.succ_pos m) (by omega)

theorem NextFetch.late (next : NextFetch inputs start t later)
    (fetches : FetchesAt inputs start t) : t + 7 ≤ later := by
  by_contra early
  exact quiet_of_fetches fetches next.order (Nat.lt_of_not_le early) next.fetches

theorem execState_of_fetches (fetches : FetchesAt inputs start t) :
    (Clocked.run transfer inputs start (t + 7)).cpu.state =
        execState (Isa.decode ((archAt inputs start t).fetched (envAt inputs t))) ∧
      (Clocked.run transfer inputs start (t + 7)).cpu.pc =
        (archAt inputs start t).pc + 1#16 := by
  have fetch := run_fetch (fun u => inputs (t + u)) _ fetches
  rw [← Clocked.run_add] at fetch
  rw [fetch]
  exact ⟨decode_eq_execState _, rfl⟩

theorem pauses_of_fetches (fetches : FetchesAt inputs start t)
    (pauses : (Isa.decode ((archAt inputs start t).fetched (envAt inputs t))).Pauses) :
    (Clocked.run transfer inputs start (t + 7)).cpu.state = .pauseIR1 ∧
      archAt inputs start (t + 7) = (archAt inputs start t).step (envAt inputs t) := by
  obtain ⟨ledVect12, instr⟩ := pauses.eq_pse
  refine ⟨?_, ?_⟩
  · apply (execState_of_fetches fetches).1.trans
    exact congrArg execState instr
  · have fetch := run_fetch (fun u => inputs (t + u)) _ fetches
    rw [← Clocked.run_add] at fetch
    rw [archAt, fetch, Isa.Arch.step, instr]
    rfl

/-- After a fetched pause instruction, up to the next fetch. -/
theorem arch_while_paused (fetches : FetchesAt inputs start t)
    (pauses : (Isa.decode ((archAt inputs start t).fetched (envAt inputs t))).Pauses)
    {rest : Nat} (waiting : ∀ u, t < u → u < t + 7 + rest → ¬ FetchesAt inputs start u) :
    archAt inputs start (t + 7 + rest) = (archAt inputs start t).step (envAt inputs t) := by
  obtain ⟨entered, effect⟩ := pauses_of_fetches fetches pauses
  have busy : ∀ u, u < rest →
      (Clocked.run transfer (fun u => inputs (t + 7 + u))
        (Clocked.run transfer inputs start (t + 7)) u).cpu.state ≠ .s18 := by
    intro u before
    rw [← Clocked.run_add]
    exact waiting (t + 7 + u) (by omega) (by omega)
  have waited := (arch_of_pause entered busy).1
  rw [← Clocked.run_add] at waited
  exact waited.trans effect

/-- From one fetch to the next the programmer's view makes one reference step. -/
theorem archAt_next (fetches : FetchesAt inputs start t)
    (next : NextFetch inputs start t later) :
    archAt inputs start later = (archAt inputs start t).step (envAt inputs t) := by
  by_cases pauses :
      (Isa.decode ((archAt inputs start t).fetched (envAt inputs t))).Pauses
  · have late : t + 7 ≤ later := next.late fetches
    obtain ⟨rest, rfl⟩ := Nat.exists_eq_add_of_le late
    exact arch_while_paused fetches pauses next.between
  · obtain ⟨first, next', effect⟩ := nextFetch_of_not_pauses fetches pauses
    rw [next.unique next']
    exact effect

/-- What holds of the fetch in cycle 0, and of the next fetch when it holds of one,
holds of every fetch. -/
theorem fetch_invariant (Holds : Nat → Prop) (initially : Holds 0)
    (fetching : FetchesAt inputs start 0)
    (preserved : ∀ t later, FetchesAt inputs start t → NextFetch inputs start t later →
      Holds t → Holds later)
    (fetches : FetchesAt inputs start t) : Holds t := by
  induction t using Nat.strongRecOn with
  | ind t inductionHypothesis =>
      rcases Nat.eq_zero_or_pos t with rfl | begun
      · exact initially
      · rcases Clocked.isLatest_or_quiet (FetchesAt inputs start) 0 t with
          ⟨last, _, before, fetched, quiet⟩ | quiet
        · exact preserved last t fetched ⟨before, fetches, quiet⟩
            (inductionHypothesis last before fetched)
        · exact absurd fetching (quiet 0 (Nat.zero_le 0) begun)

/-- A program that runs in laps is on the way to the end of one at every fetch. -/
theorem traced_at_fetch {Trace : Type u} {record : Isa.Env → Isa.Arch → Trace → Trace}
    {Through Cut : Isa.Arch × Trace → Prop} {trace : Nat → Trace}
    (lap : ∀ state, Cut state → Through state ∧ ∀ env,
      Clocked.Inevitable (Clocked.traced Isa.execute record) Through Cut
        (Clocked.traced Isa.execute record env state))
    (recorded : ∀ {t later}, FetchesAt inputs start t → NextFetch inputs start t later →
      trace later = record (envAt inputs t) (archAt inputs start t) (trace t))
    (fetching : FetchesAt inputs start 0)
    (initially : Clocked.Inevitable (Clocked.traced Isa.execute record) Through Cut
      (start.arch, trace 0))
    (fetches : FetchesAt inputs start t) :
    Clocked.Inevitable (Clocked.traced Isa.execute record) Through Cut
      (archAt inputs start t, trace t) := by
  refine fetch_invariant (fun t => Clocked.Inevitable (Clocked.traced Isa.execute record)
    Through Cut (archAt inputs start t, trace t)) initially fetching ?_ fetches
  intro t later fetches next underway
  have step := (Clocked.Inevitable.step_of_lap lap underway).2 (envAt inputs t)
  rw [Clocked.traced, Isa.execute, ← archAt_next fetches next, ← recorded fetches next] at step
  exact step

/-- If every instruction completes, the end of the lap is reached. -/
theorem exists_fetch_of_traced {Trace : Type u} {record : Isa.Env → Isa.Arch → Trace → Trace}
    {Through Goal : Isa.Arch × Trace → Prop} {trace : Nat → Trace}
    (recorded : ∀ {t later}, FetchesAt inputs start t → NextFetch inputs start t later →
      trace later = record (envAt inputs t) (archAt inputs start t) (trace t))
    (completes : ∀ {t}, FetchesAt inputs start t → ∃ later, NextFetch inputs start t later)
    {state : Isa.Arch × Trace}
    (inevitable : Clocked.Inevitable (Clocked.traced Isa.execute record) Through Goal state)
    (fetches : FetchesAt inputs start t) (view : (archAt inputs start t, trace t) = state) :
    ∃ later, t ≤ later ∧ FetchesAt inputs start later ∧
      Goal (archAt inputs start later, trace later) := by
  induction inevitable generalizing t with
  | reached goal => exact ⟨t, Nat.le_refl t, fetches, view ▸ goal⟩
  | next _ _ inductionHypothesis =>
      subst view
      obtain ⟨later, next⟩ := completes fetches
      have step : (archAt inputs start later, trace later) =
          Clocked.traced Isa.execute record (envAt inputs t) (archAt inputs start t, trace t) :=
        Prod.ext (archAt_next fetches next) (recorded fetches next)
      obtain ⟨last, order, arrives, goal⟩ :=
        inductionHypothesis (envAt inputs t) next.fetches step
      exact ⟨last, Nat.le_trans (Nat.le_of_lt next.order) order, arrives, goal⟩

/-- In a run that has begun with a fetch every cycle belongs to an instruction. -/
theorem exists_lastFetch (fetching : FetchesAt inputs start 0) (u : Nat) :
    ∃ t, t ≤ u ∧ FetchesAt inputs start t ∧
      ∀ v, t < v → v ≤ u → ¬ FetchesAt inputs start v := by
  rcases Clocked.isLatest_or_quiet (FetchesAt inputs start) 0 (u + 1) with
    ⟨t, _, before, fetches, quiet⟩ | quiet
  · exact ⟨t, Nat.le_of_lt_succ before, fetches, fun v after below =>
      quiet v after (Nat.lt_succ_of_le below)⟩
  · exact absurd fetching (quiet 0 (Nat.le_refl 0) (Nat.succ_pos u))

theorem nextFetch_of_plain (fetches : FetchesAt inputs start t)
    (plain : (archAt inputs start t).Plain) : ∃ later, NextFetch inputs start t later := by
  obtain ⟨later, next, _⟩ := nextFetch_of_not_pauses fetches (plain (envAt inputs t))
  exact ⟨later, next⟩

/-- `Continue` is pressed and released again and again. -/
structure Pressed (inputs : Nat → Input) : Prop where
  down : ∀ t, ∃ u, t ≤ u ∧ (inputs u).continue_ = true
  up : ∀ t, ∃ u, t ≤ u ∧ (inputs u).continue_ = false

theorem Pressed.pauseLasts (pressed : Pressed inputs) (t : Nat) :
    ∃ cycles, Isa.PauseLasts (fun u => (inputs (t + u)).continue_) cycles := by
  have presses : ∃ up, (inputs (t + up)).continue_ = true := by
    obtain ⟨u, begun, down⟩ := pressed.down t
    obtain ⟨up, rfl⟩ := Nat.exists_eq_add_of_le begun
    exact ⟨up, down⟩
  obtain ⟨up, down, first⟩ := Nat.findX presses
  have releases : ∃ held, (inputs (t + (up + held))).continue_ = false := by
    obtain ⟨u, begun, released⟩ := pressed.up (t + up)
    obtain ⟨held, rfl⟩ := Nat.exists_eq_add_of_le begun
    exact ⟨held, by rw [← Nat.add_assoc]; exact released⟩
  obtain ⟨held, released, last⟩ := Nat.findX releases
  have pos : held ≠ 0 := by
    rintro rfl
    rw [Nat.add_zero, down] at released
    cases released
  obtain ⟨rest, rfl⟩ := Nat.exists_eq_add_one_of_ne_zero pos
  refine ⟨up + rest + 2, up, rest, rfl, ?_, ?_, released⟩
  · intro u before
    exact Bool.eq_false_iff.mpr (first u before)
  · intro u after before
    obtain ⟨k, rfl⟩ := Nat.exists_eq_add_of_le after
    exact Bool.eq_true_of_not_eq_false (last k (by omega))

/-- Then every instruction completes. -/
theorem nextFetch_of_pressed (pressed : Pressed inputs) (fetches : FetchesAt inputs start t) :
    ∃ later, NextFetch inputs start t later := by
  by_cases pauses :
      (Isa.decode ((archAt inputs start t).fetched (envAt inputs t))).Pauses
  · obtain ⟨ledVect12, instr⟩ := pauses.eq_pse
    obtain ⟨cycles, lasts⟩ := pressed.pauseLasts (t + 7)
    simp only [Nat.add_assoc] at lasts
    exact ⟨_, (nextFetch_of_instr fetches instr cycles lasts).1⟩
  · obtain ⟨later, next, _⟩ := nextFetch_of_not_pauses fetches pauses
    exact ⟨later, next⟩

/-- A goal that is inevitable for the instruction set is reached by the machine after
finitely many cycles, if every instruction on the way completes. -/
theorem exists_fetch_of_inevitable {Through Goal : Isa.Arch → Prop} {arch : Isa.Arch}
    (completes : ∀ {t}, FetchesAt inputs start t → Through (archAt inputs start t) →
      ∃ later, NextFetch inputs start t later)
    (inevitable : Clocked.Inevitable Isa.execute Through Goal arch)
    (fetches : FetchesAt inputs start t) (view : archAt inputs start t = arch) :
    ∃ later, t ≤ later ∧ FetchesAt inputs start later ∧ Goal (archAt inputs start later) ∧
      ∀ u, t ≤ u → u < later → FetchesAt inputs start u → Through (archAt inputs start u) := by
  induction inevitable generalizing t with
  | reached goal =>
      exact ⟨t, Nat.le_refl t, fetches, view ▸ goal,
        fun u begun before => absurd before (Nat.not_lt.mpr begun)⟩
  | next through _ inductionHypothesis =>
      obtain ⟨later, next⟩ := completes fetches (view ▸ through)
      have effect := archAt_next fetches next
      obtain ⟨last, order, arrives, goal, onTheWay⟩ :=
        inductionHypothesis (envAt inputs t) next.fetches (view ▸ effect)
      refine ⟨last, Nat.le_trans (Nat.le_of_lt next.order) order, arrives, goal, ?_⟩
      intro u begun before fetching
      rcases Nat.lt_or_ge u later with early | late
      · rcases Nat.eq_or_lt_of_le begun with rfl | after
        · exact view ▸ through
        · exact absurd fetching (next.between u after early)
      · exact onTheWay u late before fetching

end Run

end TestTop

end DigitalSystems.Slc3
