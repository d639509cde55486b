import Mathlib.Data.List.Basic
import Mathlib.Data.Nat.Init
import Mathlib.Logic.Function.Basic
import Mathlib.Order.MinMax

/-!
# Sorting by adjacent exchanges

An array is a function of the index, ordered through a key.  A bubble pass carries the
greatest element of a prefix to its end; what lies behind the prefix is settled already.
-/

namespace DigitalSystems.Sorting

universe u v

variable {α : Type u} {κ : Type v} [LinearOrder κ] (key : α → κ)

/-- Swaps the neighbours `i` and `i + 1` if they are out of order. -/
def exchange (i : Nat) (data : Nat → α) : Nat → α :=
  if key (data (i + 1)) < key (data i) then
    Function.update (Function.update data i (data (i + 1))) (i + 1) (data i)
  else data

def MaxAt (data : Nat → α) (i : Nat) : Prop := ∀ j, j ≤ i → key (data j) ≤ key (data i)

/-- No element from `bound` on is smaller than one before it. -/
def SettledFrom (bound size : Nat) (data : Nat → α) : Prop :=
  ∀ i j, i < j → bound ≤ j → j < size → key (data i) ≤ key (data j)

section Exchange

variable {data : Nat → α} {i : Nat}

theorem exchange_of_le (ordered : key (data i) ≤ key (data (i + 1))) :
    exchange key i data = data := if_neg (not_lt.mpr ordered)

theorem exchange_of_ne {j : Nat} (left : j ≠ i) (right : j ≠ i + 1) :
    exchange key i data j = data j := by
  unfold exchange
  split
  · rw [Function.update_of_ne right, Function.update_of_ne left]
  · rfl

variable (data i)

theorem key_exchange_left :
    key (exchange key i data i) = min (key (data i)) (key (data (i + 1))) := by
  have apart : i ≠ i + 1 := Nat.ne_of_lt (Nat.lt_succ_self i)
  unfold exchange
  split
  case isTrue disordered =>
    rw [Function.update_of_ne apart, Function.update_self, min_eq_right disordered.le]
  case isFalse ordered => rw [min_eq_left (not_lt.mp ordered)]

theorem key_exchange_right :
    key (exchange key i data (i + 1)) = max (key (data i)) (key (data (i + 1))) := by
  unfold exchange
  split
  case isTrue disordered => rw [Function.update_self, max_eq_left disordered.le]
  case isFalse ordered => rw [max_eq_right (not_lt.mp ordered)]

theorem perm_exchange (rest : Nat) :
    ((List.range (i + 2 + rest)).map (exchange key i data)).Perm
      ((List.range (i + 2 + rest)).map data) := by
  have before : (List.range i).map (exchange key i data) = (List.range i).map data := by
    refine List.map_congr_left fun j member => ?_
    have below := List.mem_range.mp member
    exact exchange_of_ne key (by omega) (by omega)
  have after : ((List.range rest).map (i + 2 + ·)).map (exchange key i data) =
      ((List.range rest).map (i + 2 + ·)).map data := by
    rw [List.map_map, List.map_map]
    refine List.map_congr_left fun j _ => ?_
    change exchange key i data (i + 2 + j) = data (i + 2 + j)
    exact exchange_of_ne key (by omega) (by omega)
  have pair : [exchange key i data i, exchange key i data (i + 1)].Perm
      [data i, data (i + 1)] := by
    have apart : i ≠ i + 1 := Nat.ne_of_lt (Nat.lt_succ_self i)
    unfold exchange
    split
    · rw [Function.update_self, Function.update_of_ne apart, Function.update_self]
      exact List.Perm.swap _ _ _
    · exact List.Perm.refl _
  have split : List.range (i + 2 + rest) =
      List.range i ++ ([i, i + 1] ++ (List.range rest).map (i + 2 + ·)) := by
    rw [List.range_add, List.range_succ, List.range_succ, List.append_assoc,
      List.append_assoc]
    rfl
  rw [split, List.map_append, List.map_append, List.map_append, List.map_append, before,
    after]
  exact (pair.append_right _).append_left _

end Exchange

section Pass

variable {key} {data : Nat → α} {i bound size : Nat}

theorem maxAt_zero : MaxAt key data 0 := by
  intro j first
  rw [Nat.le_zero.mp first]

theorem MaxAt.exchange (greatest : MaxAt key data i) :
    MaxAt key (exchange key i data) (i + 1) := by
  intro j inside
  rw [key_exchange_right key]
  rcases Nat.lt_trichotomy j i with before | rfl | after
  · rw [exchange_of_ne key (by omega) (by omega)]
    exact (greatest j before.le).trans (le_max_left _ _)
  · rw [key_exchange_left key]
    exact min_le_max
  · obtain rfl : j = i + 1 := by omega
    rw [key_exchange_right key]

theorem SettledFrom.exchange (settled : SettledFrom key bound size data)
    (inside : i + 1 < bound) : SettledFrom key bound size (exchange key i data) := by
  intro j k order above below
  have fixed : Sorting.exchange key i data k = data k :=
    exchange_of_ne key (by omega) (by omega)
  rw [fixed]
  by_cases left : j = i
  · subst left
    rw [key_exchange_left key]
    exact (min_le_left _ _).trans (settled j k order above below)
  · by_cases right : j = i + 1
    · subst right
      rw [key_exchange_right key]
      exact max_le (settled i k (by omega) above below)
        (settled (i + 1) k order above below)
    · rw [exchange_of_ne key left right]
      exact settled j k order above below

theorem settledFrom_size : SettledFrom key size size data := by
  intro j k _ above below
  exact absurd below (Nat.not_lt.mpr above)

/-- A pass over a prefix settles one more element. -/
theorem SettledFrom.of_maxAt (settled : SettledFrom key (i + 1) size data)
    (greatest : MaxAt key data i) : SettledFrom key i size data := by
  intro j k order above below
  rcases Nat.eq_or_lt_of_le above with rfl | after
  · exact greatest j order.le
  · exact settled j k order after below

end Pass

end DigitalSystems.Sorting
