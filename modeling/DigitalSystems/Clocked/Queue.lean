import DigitalSystems.Clocked.Run
import Mathlib.Data.Nat.Count

/-!
# Machines that are queues

A machine with a flow-controlled entrance and exit is a queue if nothing gets lost, nothing
is made up and the order is kept.  One edge is enough to check: what it delivers and then
still holds is what it held and then accepted.
-/

namespace DigitalSystems.Clocked

universe u v w

variable {Input : Type u} {State : Type v} {Data : Type w}

/-- What the cycles before `n` emit, in order. -/
def emitted (emits : Nat → Option Data) : Nat → List Data
  | 0 => []
  | n + 1 => emitted emits n ++ (emits n).toList

structure IsQueue (step : Input → State → State) (accepts delivers : Input → State → Option Data)
    (Valid : State → Prop) (contents : State → List Data) : Prop where
  valid : ∀ input {state}, Valid state → Valid (step input state)
  balance : ∀ input {state}, Valid state →
    (delivers input state).toList ++ contents (step input state) =
      contents state ++ (accepts input state).toList

theorem emitted_prefix (emits : Nat → Option Data) {m n : Nat} (order : m ≤ n) :
    emitted emits m <+: emitted emits n := by
  induction n, order using Nat.le_induction with
  | base => exact List.prefix_refl _
  | succ n _ inductionHypothesis => exact inductionHypothesis.trans (List.prefix_append _ _)

theorem map_emitted {Data' : Type v} (f : Data → Data') (emits : Nat → Option Data) (n : Nat) :
    (emitted emits n).map f = emitted (fun t => (emits t).map f) n := by
  induction n with
  | zero => rfl
  | succ n inductionHypothesis =>
      rw [emitted, emitted, List.map_append, inductionHypothesis, Option.toList_map]

theorem filter_emitted (keep : Data → Bool) (emits : Nat → Option Data) (n : Nat) :
    (emitted emits n).filter keep = emitted (fun t => (emits t).filter keep) n := by
  induction n with
  | zero => rfl
  | succ n inductionHypothesis =>
      rw [emitted, emitted, List.filter_append, inductionHypothesis, Option.toList_filter]

namespace IsQueue

variable {step : Input → State → State} {accepts delivers : Input → State → Option Data}
  {Valid : State → Prop} {contents : State → List Data}

theorem run_valid (queue : IsQueue step accepts delivers Valid contents)
    (inputs : Nat → Input) {start : State} (valid : Valid start) (n : Nat) :
    Valid (run step inputs start n) :=
  run_invariant Valid valid (fun t _ holds => queue.valid (inputs t) holds) n

/-- What has been accepted has been delivered or is still there. -/
theorem run_balance (queue : IsQueue step accepts delivers Valid contents)
    (inputs : Nat → Input) {start : State} (valid : Valid start) (empty : contents start = [])
    (n : Nat) :
    emitted (fun t => accepts (inputs t) (run step inputs start t)) n =
      emitted (fun t => delivers (inputs t) (run step inputs start t)) n ++
        contents (run step inputs start n) := by
  induction n with
  | zero => exact empty.symm
  | succ n inductionHypothesis =>
      have edge := queue.balance (inputs n) (queue.run_valid inputs valid n)
      rw [emitted, emitted, inductionHypothesis, List.append_assoc, List.append_assoc, run_succ,
        edge]

end IsQueue

end DigitalSystems.Clocked
