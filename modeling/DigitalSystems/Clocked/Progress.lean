import Mathlib.Data.Nat.Find

/-!
# Progress

Something happens eventually if a rank never grows and falls in every helpful cycle, and
helpful cycles come again and again.
-/

namespace DigitalSystems.Clocked

/-- `Happens` in infinitely many cycles. -/
def Recurs (Happens : Nat → Prop) : Prop := ∀ t, ∃ u, t ≤ u ∧ Happens u

theorem Recurs.exists_first {Happens : Nat → Prop} (recurs : Recurs Happens) (t : Nat) :
    ∃ u, t ≤ u ∧ Happens u ∧ ∀ v, t ≤ v → v < u → ¬ Happens v := by
  classical
  have later := recurs t
  obtain ⟨begun, happens⟩ := Nat.find_spec later
  exact ⟨_, begun, happens, fun v after before event => Nat.find_min later before ⟨after, event⟩⟩

theorem eventually_of_rank {Waiting : Nat → Nat → Prop} {Goal Helpful : Nat → Prop}
    (step : ∀ rank t, Waiting rank t → (∃ u, t ≤ u ∧ Goal u) ∨
      ∃ rank', Waiting rank' (t + 1) ∧ rank' ≤ rank ∧ (Helpful t → rank' < rank))
    (helpful : Recurs Helpful) {rank t : Nat} (waiting : Waiting rank t) :
    ∃ u, t ≤ u ∧ Goal u := by
  induction rank using Nat.strongRecOn generalizing t with
  | ind rank inductionHypothesis =>
      obtain ⟨u, begun, helps⟩ := helpful t
      obtain ⟨delay, rfl⟩ := Nat.exists_eq_add_of_le begun
      -- Inside one rank the argument is by the distance to the next helpful cycle.
      induction delay generalizing t with
      | zero =>
          rcases step rank t waiting with goal | ⟨rank', waiting', _, falls⟩
          · exact goal
          · obtain ⟨u, later, goal⟩ := inductionHypothesis rank' (falls helps) waiting'
            exact ⟨u, Nat.le_of_succ_le later, goal⟩
      | succ delay nearer =>
          rcases step rank t waiting with goal | ⟨rank', waiting', bound, _⟩
          · exact goal
          · have arrives : ∃ u, t + 1 ≤ u ∧ Goal u := by
              rcases Nat.eq_or_lt_of_le bound with rfl | smaller
              · apply nearer waiting' (Nat.le_add_right _ _)
                rw [show t + 1 + delay = t + (delay + 1) by omega]
                exact helps
              · exact inductionHypothesis rank' smaller waiting'
            obtain ⟨u, later, goal⟩ := arrives
            exact ⟨u, Nat.le_of_succ_le later, goal⟩

end DigitalSystems.Clocked
