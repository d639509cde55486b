import Mathlib.Data.Nat.Init
import Mathlib.Order.Basic

/-!
# Runs of clocked machines

A clocked machine is a step function: it takes the inputs present in one clock
cycle and the registers before the edge, and returns the registers after it.
A run feeds it an input waveform, one value for each cycle.
-/

namespace DigitalSystems.Clocked

universe u v w

variable {Input : Type u} {State : Type v}

/-- The registers after `n` clock edges, `inputs t` being present in cycle `t`. -/
def run (step : Input → State → State) (inputs : Nat → Input) (start : State) :
    Nat → State
  | 0 => start
  | n + 1 => step (inputs n) (run step inputs start n)

@[simp]
theorem run_zero (step : Input → State → State) (inputs : Nat → Input) (start : State) :
    run step inputs start 0 = start := rfl

theorem run_succ (step : Input → State → State) (inputs : Nat → Input) (start : State)
    (n : Nat) :
    run step inputs start (n + 1) = step (inputs n) (run step inputs start n) := rfl

theorem run_add (step : Input → State → State) (inputs : Nat → Input) (start : State)
    (m n : Nat) :
    run step inputs start (m + n) =
      run step (fun t => inputs (m + t)) (run step inputs start m) n := by
  induction n with
  | zero => rfl
  | succ n inductionHypothesis =>
      rw [← Nat.add_assoc, run_succ, run_succ, inductionHypothesis]

/-- The first `n` cycles only depend on the inputs of these cycles. -/
theorem run_congr {step : Input → State → State} {inputs inputs' : Nat → Input}
    {start : State} {n : Nat} (agree : ∀ t, t < n → inputs t = inputs' t) :
    run step inputs start n = run step inputs' start n := by
  induction n with
  | zero => rfl
  | succ n inductionHypothesis =>
      rw [run_succ, run_succ, agree n (Nat.lt_succ_self n),
        inductionHypothesis fun t before => agree t (Nat.lt_succ_of_lt before)]

/-- A property that holds at the start and survives every edge of the run holds
in every cycle.  The step may use the inputs of its own cycle. -/
theorem run_invariant {step : Input → State → State} {inputs : Nat → Input}
    {start : State} (Holds : State → Prop) (initially : Holds start)
    (preserved : ∀ t state, Holds state → Holds (step (inputs t) state)) (n : Nat) :
    Holds (run step inputs start n) := by
  induction n with
  | zero => exact initially
  | succ n inductionHypothesis => exact preserved n _ inductionHypothesis

/-- A machine stands still over cycles that do not change any of its states. -/
theorem run_of_quiet {step : Input → State → State} {inputs : Nat → Input} {start : State}
    {first last : Nat} (order : first ≤ last)
    (quiet : ∀ t, first ≤ t → t < last → ∀ state, step (inputs t) state = state) :
    run step inputs start last = run step inputs start first := by
  induction last, order using Nat.le_induction with
  | base => rfl
  | succ last order inductionHypothesis =>
      rw [run_succ, quiet last order (Nat.lt_succ_self last)]
      exact inductionHypothesis fun t begun before =>
        quiet t begun (Nat.lt_succ_of_lt before)

theorem run_of_single {step : Input → State → State} {inputs : Nat → Input} {start : State}
    {first time last : Nat} (begun : first ≤ time) (before : time < last)
    (quiet : ∀ t, first ≤ t → t < last → t ≠ time → ∀ state, step (inputs t) state = state) :
    run step inputs start last = step (inputs time) (run step inputs start first) := by
  have after : run step inputs start last = run step inputs start (time + 1) :=
    run_of_quiet before fun t above below => quiet t (by omega) below (by omega)
  have earlier : run step inputs start time = run step inputs start first :=
    run_of_quiet begun fun t above below => quiet t above (by omega) (by omega)
  rw [after, run_succ, earlier]

/-- Lockstep rule for two machines: a relation that every edge preserves up to
cycle `n` still relates the two runs in cycle `n`. -/
theorem run_related {Input' : Type u} {State' : Type w}
    {step : Input → State → State} {step' : Input' → State' → State'}
    {inputs : Nat → Input} {inputs' : Nat → Input'} {start : State} {start' : State'}
    (Related : State → State' → Prop) (initially : Related start start') (n : Nat)
    (preserved : ∀ t, t < n →
      Related (run step inputs start t) (run step' inputs' start' t) →
      Related (run step inputs start (t + 1)) (run step' inputs' start' (t + 1))) :
    Related (run step inputs start n) (run step' inputs' start' n) := by
  induction n with
  | zero => exact initially
  | succ n inductionHypothesis =>
      apply preserved n (Nat.lt_succ_self n)
      exact inductionHypothesis fun t before =>
        preserved t (Nat.lt_succ_of_lt before)

end DigitalSystems.Clocked
