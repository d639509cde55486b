import DigitalSystems.Clocked.Progress
import Mathlib.Data.Nat.Count

/-!
# Counting events

`Nat.count Event n` is how often an event happens in the cycles before `n`.  Over a
stretch of cycles with at most one place for the event it grows by at most one.
-/

namespace DigitalSystems.Clocked

variable {Event : Nat → Prop} [DecidablePred Event] {first time n : Nat}

theorem count_of_quiet (order : first ≤ n)
    (quiet : ∀ t, first ≤ t → t < n → ¬ Event t) :
    Nat.count Event n = Nat.count Event first := by
  induction n, order using Nat.le_induction with
  | base => rfl
  | succ n order inductionHypothesis =>
      rw [Nat.count_succ, if_neg (quiet n order (Nat.lt_succ_self n)), Nat.add_zero]
      exact inductionHypothesis fun t begun before =>
        quiet t begun (Nat.lt_succ_of_lt before)

theorem count_of_single (begun : first ≤ time) (before : time < n)
    (single : ∀ t, first ≤ t → t < n → Event t → t = time) :
    Nat.count Event n = Nat.count Event first + if Event time then 1 else 0 := by
  have after : Nat.count Event n = Nat.count Event (time + 1) :=
    count_of_quiet before fun t above below happens => by
      have same := single t (by omega) below happens
      omega
  have earlier : Nat.count Event time = Nat.count Event first :=
    count_of_quiet begun fun t above below happens => by
      have same := single t above (by omega) happens
      omega
  rw [after, Nat.count_succ, earlier]

theorem count_le_of_imp {Event' : Nat → Prop} [DecidablePred Event'] (order : first ≤ n)
    (implies : ∀ t, first ≤ t → t < n → Event t → Event' t) :
    Nat.count Event n + Nat.count Event' first ≤ Nat.count Event' n + Nat.count Event first := by
  induction n, order using Nat.le_induction with
  | base => exact Nat.le_of_eq (Nat.add_comm _ _)
  | succ n order inductionHypothesis =>
      have earlier := inductionHypothesis fun t begun before =>
        implies t begun (Nat.lt_succ_of_lt before)
      have now := implies n order (Nat.lt_succ_self n)
      rw [Nat.count_succ, Nat.count_succ]
      split_ifs with event event' event'
      · omega
      · exact absurd (now event) event'
      · omega
      · omega

/-- An event that recurs happens any number of times. -/
theorem Recurs.exists_count (recurs : Recurs Event) (first more : Nat) :
    ∃ last, first ≤ last ∧ Nat.count Event last = Nat.count Event first + more := by
  induction more with
  | zero => exact ⟨first, Nat.le_refl first, rfl⟩
  | succ more inductionHypothesis =>
      obtain ⟨last, order, counted⟩ := inductionHypothesis
      obtain ⟨next, begun, happens, quiet⟩ := recurs.exists_first last
      refine ⟨next + 1, by omega, ?_⟩
      rw [Nat.count_succ, if_pos happens, count_of_quiet begun quiet, counted, Nat.add_assoc]

end DigitalSystems.Clocked
