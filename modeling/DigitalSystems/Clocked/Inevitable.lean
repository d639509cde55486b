import DigitalSystems.Clocked.Run

/-!
# Inevitable states

`Inevitable step Through Goal state`: whatever the inputs are, the machine comes to
`Goal` after finitely many steps, and `Through` holds in every state on the way.  It is
the total correctness of a program whose inputs are out of its hands; laid end to end,
such stretches also give what holds for ever.
-/

namespace DigitalSystems.Clocked

universe u v w

variable {Input : Type u} {State : Type v}

/-- The machine together with a record of what it has done so far. -/
def traced {Trace : Type w} (step : Input → State → State)
    (record : Input → State → Trace → Trace) (input : Input) (state : State × Trace) :
    State × Trace :=
  (step input state.1, record input state.1 state.2)

inductive Inevitable (step : Input → State → State) (Through Goal : State → Prop) :
    State → Prop where
  | reached {state} : Goal state → Inevitable step Through Goal state
  | next {state} :
      Through state →
      (∀ input, Inevitable step Through Goal (step input state)) →
      Inevitable step Through Goal state

namespace Inevitable

variable {step : Input → State → State} {Through Goal : State → Prop} {state : State}

/-- Laps: if `Cut` is left through `Through` and inevitably reached again, being on the
way to `Cut` is invariant. -/
theorem step_of_lap {Cut : State → Prop}
    (lap : ∀ state, Cut state →
      Through state ∧ ∀ input, Inevitable step Through Cut (step input state))
    (inevitable : Inevitable step Through Cut state) :
    Through state ∧ ∀ input, Inevitable step Through Cut (step input state) := by
  cases inevitable with
  | reached cut => exact lap state cut
  | next through rest => exact ⟨through, rest⟩

theorem mono {Through' Goal' : State → Prop} (through : ∀ state, Through state → Through' state)
    (goal : ∀ state, Goal state → Goal' state)
    (inevitable : Inevitable step Through Goal state) : Inevitable step Through' Goal' state := by
  induction inevitable with
  | reached reached => exact .reached (goal _ reached)
  | next passed _ inductionHypothesis => exact .next (through _ passed) inductionHypothesis

/-- What every step preserves still holds at the goal. -/
theorem keeping (Holds : State → Prop) (preserved : ∀ input state, Holds state →
      Holds (step input state)) (inevitable : Inevitable step Through Goal state)
    (holds : Holds state) :
    Inevitable step (fun state => Through state ∧ Holds state)
      (fun state => Goal state ∧ Holds state) state := by
  induction inevitable with
  | reached reached => exact .reached ⟨reached, holds⟩
  | next passed _ inductionHypothesis =>
      exact .next ⟨passed, holds⟩ fun input =>
        inductionHypothesis input (preserved input _ holds)

/-- One stretch after another. -/
theorem trans {Goal' : State → Prop} (inevitable : Inevitable step Through Goal state)
    (rest : ∀ state, Goal state → Inevitable step Through Goal' state) :
    Inevitable step Through Goal' state := by
  induction inevitable with
  | reached reached => exact rest _ reached
  | next passed _ inductionHypothesis => exact .next passed inductionHypothesis

/-- A stretch in which nothing is recorded. -/
theorem silent {Trace : Type w} {record : Input → State → Trace → Trace} {trace : Trace}
    (quiet : ∀ input state, Through state → record input state trace = trace)
    (inevitable : Inevitable step Through Goal state) :
    Inevitable (traced step record) (fun state => Through state.1 ∧ state.2 = trace)
      (fun state => Goal state.1 ∧ state.2 = trace) (state, trace) := by
  induction inevitable with
  | reached reached => exact .reached ⟨reached, rfl⟩
  | @next state passed _ inductionHypothesis =>
      refine .next ⟨passed, rfl⟩ fun input => ?_
      rw [traced, quiet input state passed]
      exact inductionHypothesis input

/-- Leave the record out. -/
theorem untraced {Trace : Type w} {record : Input → State → Trace → Trace}
    {Through Goal : State × Trace → Prop} {Through' Goal' : State → Prop}
    (through : ∀ state trace, Through (state, trace) → Through' state)
    (goal : ∀ state trace, Goal (state, trace) → Goal' state) {traced' : State × Trace}
    (inevitable : Inevitable (traced step record) Through Goal traced') :
    Inevitable step Through' Goal' traced'.1 := by
  induction inevitable with
  | @reached state reached => exact .reached (goal state.1 state.2 reached)
  | @next state passed _ inductionHypothesis =>
      exact .next (through state.1 state.2 passed) inductionHypothesis

/-- Stop early, where a condition fails for the first time. -/
theorem stopping (Condition : State → Prop) (inevitable : Inevitable step Through Goal state) :
    Inevitable step (fun state => Through state ∧ Condition state)
      (fun state => Goal state ∨ Through state ∧ ¬ Condition state) state := by
  induction inevitable with
  | reached goal => exact .reached (Or.inl goal)
  | @next state through _ inductionHypothesis =>
      by_cases holds : Condition state
      · exact .next ⟨through, holds⟩ inductionHypothesis
      · exact .reached (Or.inr ⟨through, holds⟩)

end Inevitable

end DigitalSystems.Clocked
