import Mathlib.Data.Nat.Init
import Mathlib.Algebra.Group.Nat.Defs
import Mathlib.Order.Nat
import Mathlib.Tactic.SplitIfs

/-!
# The first set bit from a place on

Adding a single bit to the complement of a word flips the bits from there up to the first
one that the word has set.  Twice the word side by side makes the search go round.
-/

namespace DigitalSystems.Arith

variable {size : Nat}

/-- `i` is the first set bit of `word` from `place` on. -/
def FirstFrom (word : BitVec size) (place i : Nat) : Prop :=
  word.getLsbD i = true ∧ place ≤ i ∧ ∀ k, place ≤ k → k < i → word.getLsbD k = false

/-- The carry runs through the clear bits of the word. -/
theorem carry_not_twoPow (word : BitVec size) (place i : Nat) (inside : i ≤ size) :
    BitVec.carry i (~~~word) (BitVec.twoPow size place) false = true ↔
      place < i ∧ ∀ k, place ≤ k → k < i → word.getLsbD k = false := by
  induction i with
  | zero => simp
  | succ i inductionHypothesis =>
      have carried := inductionHypothesis (Nat.le_of_lt inside)
      have added : (BitVec.twoPow size place).getLsbD i = decide (place = i) := by
        rw [BitVec.getLsbD_twoPow, Bool.and_eq_right_iff_imp]
        intro same
        have equal := of_decide_eq_true same
        exact decide_eq_true (by omega)
      have flipped : (~~~word).getLsbD i = !word.getLsbD i := by
        rw [BitVec.getLsbD_not, decide_eq_true (Nat.lt_of_succ_le inside), Bool.true_and]
      -- A clear bit at `i` keeps a carry going; at `place` itself it starts one.
      rw [BitVec.carry_succ, flipped, added]
      rcases Nat.lt_trichotomy i place with below | rfl | above
      · have none : BitVec.carry i (~~~word) (BitVec.twoPow size place) false = false :=
          Bool.eq_false_iff.mpr fun carry => absurd (carried.mp carry).1 (by omega)
        rw [none, decide_eq_false (by omega), Bool.atLeastTwo_false_right, Bool.and_false]
        exact ⟨nofun, fun later => absurd later.1 (by omega)⟩
      · have none : BitVec.carry i (~~~word) (BitVec.twoPow size i) false = false :=
          Bool.eq_false_iff.mpr fun carry => absurd (carried.mp carry).1 (Nat.lt_irrefl i)
        rw [none, decide_eq_true rfl, Bool.atLeastTwo_false_right, Bool.and_true,
          Bool.not_eq_true']
        constructor
        · intro clear
          refine ⟨Nat.lt_succ_self i, fun k begun before => ?_⟩
          obtain rfl : k = i := by omega
          exact clear
        · exact fun started => started.2 i (Nat.le_refl i) (Nat.lt_succ_self i)
      · rw [decide_eq_false (by omega), Bool.atLeastTwo_false_mid, Bool.and_eq_true,
          Bool.not_eq_true', carried]
        constructor
        · rintro ⟨clear, -, earlier⟩
          refine ⟨by omega, fun k begun before => ?_⟩
          rcases Nat.lt_succ_iff_lt_or_eq.mp before with inner | rfl
          · exact earlier k begun inner
          · exact clear
        · rintro ⟨-, clear⟩
          exact ⟨clear i (by omega) (Nat.lt_succ_self i), above,
            fun k begun before => clear k begun (Nat.lt_succ_of_lt before)⟩

/-- The sum has, of the bits set in the word, the first one from `place` on. -/
theorem getLsbD_first (word : BitVec size) (place i : Nat) :
    (word &&& (~~~word + BitVec.twoPow size place)).getLsbD i = true ↔
      FirstFrom word place i := by
  rw [BitVec.getLsbD_and, Bool.and_eq_true, FirstFrom]
  apply and_congr_right
  intro set
  have inside : i < size := BitVec.lt_of_getLsbD set
  have carried := carry_not_twoPow word place i (Nat.le_of_lt inside)
  rw [BitVec.getLsbD_add inside, BitVec.getLsbD_not, set, BitVec.getLsbD_twoPow,
    decide_eq_true inside, Bool.not_true, Bool.and_false, Bool.false_xor]
  rcases Nat.lt_trichotomy place i with before | rfl | after
  · rw [decide_eq_false (p := place = i) (by omega), Bool.and_false, Bool.false_xor, carried]
    exact ⟨fun found => ⟨Nat.le_of_lt before, found.2⟩, fun found => ⟨before, found.2⟩⟩
  · have none : BitVec.carry place (~~~word) (BitVec.twoPow size place) false = false :=
      Bool.eq_false_iff.mpr fun carry => absurd (carried.mp carry).1 (Nat.lt_irrefl place)
    rw [none, Bool.xor_false, decide_eq_true inside, decide_eq_true rfl]
    exact ⟨fun _ => ⟨Nat.le_refl place, fun k begun before => absurd before (by omega)⟩,
      fun _ => rfl⟩
  · have none : BitVec.carry i (~~~word) (BitVec.twoPow size place) false = false :=
      Bool.eq_false_iff.mpr fun carry => absurd (carried.mp carry).1 (by omega)
    rw [none, Bool.xor_false, decide_eq_false (p := place = i) (by omega), Bool.and_false]
    exact ⟨nofun, fun found => absurd found.1 (by omega)⟩

/-- The way from `place` to `i` around a circle of `size` places. -/
def distance (size place i : Nat) : Nat := if place ≤ i then i - place else i + size - place

/-- `i` is the first set bit from `place` on, going round. -/
def FirstAround (word : BitVec size) (place i : Nat) : Prop :=
  word.getLsbD i = true ∧
    ∀ k, word.getLsbD k = true → distance size place i ≤ distance size place k

theorem distance_lt {place i : Nat} (start : place < size) (inside : i < size) :
    distance size place i < size := by
  unfold distance
  split <;> omega

theorem distance_inj {place i k : Nat} (start : place < size) (inside : i < size)
    (bound : k < size) (equal : distance size place i = distance size place k) : i = k := by
  unfold distance at equal
  split_ifs at equal <;> omega

theorem FirstAround.lt {word : BitVec size} {place i : Nat} (first : FirstAround word place i) :
    i < size :=
  BitVec.lt_of_getLsbD first.1

theorem FirstAround.unique {word : BitVec size} {place i j : Nat} (start : place < size)
    (first : FirstAround word place i) (other : FirstAround word place j) : i = j := by
  have equal := Nat.le_antisymm (first.2 j other.1) (other.2 i first.1)
  exact distance_inj start first.lt other.lt equal

theorem exists_firstAround {word : BitVec size} (nonzero : word ≠ 0#(size)) (place : Nat) :
    ∃ i, FirstAround word place i := by
  classical
  have some : ∃ d i, word.getLsbD i = true ∧ distance size place i = d := by
    by_contra none
    apply nonzero
    apply BitVec.eq_of_getLsbD_eq
    intro i _
    rw [BitVec.getLsbD_zero, Bool.eq_false_iff]
    exact fun set => none ⟨_, i, set, rfl⟩
  obtain ⟨i, set, nearest⟩ := Nat.find_spec some
  refine ⟨i, set, fun k other => ?_⟩
  rw [nearest]
  exact Nat.find_min' some ⟨k, other, rfl⟩

/-- The place of the first set bit has moved past it: what is ahead has come nearer. -/
theorem distance_next {place i k : Nat} (start : place < size) (bound : k < size)
    (nearer : distance size place i < distance size place k) :
    distance size (if i + 1 = size then 0 else i + 1) k < distance size place k := by
  unfold distance at *
  split_ifs at * <;> omega

/-- A place between is nearer to what lies behind it. -/
theorem distance_le {place i k : Nat} (start : place < size) (bound : k < size)
    (nearer : distance size place i ≤ distance size place k) :
    distance size i k ≤ distance size place k := by
  unfold distance at *
  split_ifs at * <;> omega

theorem getLsbD_twice (word : BitVec size) {i : Nat} (inside : i < size) :
    (word ++ word).getLsbD i = word.getLsbD i ∧
      (word ++ word).getLsbD (i + size) = word.getLsbD i := by
  rw [BitVec.getLsbD_append, BitVec.getLsbD_append, if_pos inside,
    if_neg (by omega), Nat.add_sub_cancel]
  exact ⟨rfl, rfl⟩

/-- A search in two copies of the word goes round it once. -/
theorem firstFrom_twice (word : BitVec size) {place i : Nat} (start : place < size)
    (inside : i < size) :
    FirstFrom (word ++ word) place i ∨ FirstFrom (word ++ word) place (i + size) ↔
      FirstAround word place i := by
  obtain ⟨low, high⟩ := getLsbD_twice word inside
  unfold FirstFrom FirstAround distance
  rw [low, high]
  constructor
  · rintro (⟨set, begun, clear⟩ | ⟨set, -, clear⟩)
    · refine ⟨set, fun k other => ?_⟩
      have bound : k < size := BitVec.lt_of_getLsbD other
      have ahead : ¬ (place ≤ k ∧ k < i) := fun between =>
        absurd (clear k between.1 between.2) (by rw [(getLsbD_twice word bound).1, other]; nofun)
      split_ifs <;> omega
    · have behind : ¬ place ≤ i := fun ahead =>
        absurd (clear i ahead (by omega)) (by rw [low, set]; nofun)
      refine ⟨set, fun k other => ?_⟩
      have bound : k < size := BitVec.lt_of_getLsbD other
      have first : ¬ place ≤ k := fun ahead =>
        absurd (clear k ahead (by omega)) (by rw [(getLsbD_twice word bound).1, other]; nofun)
      have second : ¬ k < i := fun before =>
        absurd (clear (k + size) (by omega) (by omega))
          (by rw [(getLsbD_twice word bound).2, other]; nofun)
      split_ifs
      omega
  · rintro ⟨set, nearest⟩
    have clear : ∀ k, k < size →
        ¬ (if place ≤ i then i - place else i + size - place) ≤
          (if place ≤ k then k - place else k + size - place) → word.getLsbD k = false :=
      fun k _ nearer => Bool.eq_false_iff.mpr fun other => nearer (nearest k other)
    by_cases ahead : place ≤ i
    · refine Or.inl ⟨set, ahead, fun k begun before => ?_⟩
      rw [(getLsbD_twice word (show k < size by omega)).1]
      apply clear k (by omega)
      split_ifs
      omega
    · refine Or.inr ⟨set, by omega, fun k begun before => ?_⟩
      rcases Nat.lt_or_ge k size with lower | upper
      · rw [(getLsbD_twice word lower).1]
        apply clear k lower
        split_ifs
        omega
      · obtain ⟨k, rfl⟩ := Nat.exists_eq_add_of_le' upper
        rw [(getLsbD_twice word (show k < size by omega)).2]
        apply clear k (by omega)
        split_ifs <;> omega

end DigitalSystems.Arith
