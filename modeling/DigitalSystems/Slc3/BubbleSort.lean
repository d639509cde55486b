import DigitalSystems.Slc3.Programs
import DigitalSystems.Sorting.Exchange

/-!
# The shipped bubble sort

The routine at the addresses 119 to 136, on sixteen words from the address in `R6`.
-/

namespace DigitalSystems.Slc3.BubbleSort

open Isa
open Clocked (Inevitable)

/-- `memory` with sixteen words from `p` on replaced. -/
def place (p : Nat) (data : Nat → Word) (memory : BitVec 8 → Word) (address : BitVec 8) :
    Word :=
  if p ≤ address.toNat ∧ address.toNat < p + 16 then data (address.toNat - p)
  else memory address

def cell (p i : Nat) : Word := BitVec.ofNat 16 (p + i)

section Memory

variable {p i : Nat} {data : Nat → Word} {memory : BitVec 8 → Word}

theorem toNat_cell (fits : p + 15 ≤ 254) (inside : i < 16) :
    (BitVec.ofNat 8 (p + i)).toNat = p + i := by
  rw [BitVec.toNat_ofNat]
  exact Nat.mod_eq_of_lt (by omega)

theorem cell_setWidth : (cell p i).setWidth 8 = BitVec.ofNat 8 (p + i) :=
  BitVec.setWidth_ofNat_of_le (by decide) _

theorem cell_ne_port (fits : p + 15 ≤ 254) (inside : i < 16) : cell p i ≠ 0xFFFF#16 := by
  intro port
  have value := congrArg BitVec.toNat port
  rw [cell, BitVec.toNat_ofNat, Nat.mod_eq_of_lt (by omega)] at value
  change p + i = 65535 at value
  omega

theorem common_cell (fits : p + 15 ≤ 254) (inside : i < 16) :
    MemoryEquivalence.Common (cell p i) := by
  refine Or.inl ?_
  rw [cell, BitVec.toNat_ofNat, Nat.mod_eq_of_lt (by omega)]
  omega

theorem cell_succ_pred : cell p (i + 1) + 0xFFFF#16 = cell p i := by
  rw [cell, ← Nat.add_assoc, BitVec.ofNat_add, BitVec.add_assoc]
  exact BitVec.add_zero _

theorem place_cell (fits : p + 15 ≤ 254) (inside : i < 16) :
    place p data memory (BitVec.ofNat 8 (p + i)) = data i := by
  rw [place, toNat_cell fits inside, if_pos ⟨by omega, by omega⟩, Nat.add_sub_cancel_left]

theorem update_place (fits : p + 15 ≤ 254) (inside : i < 16) (value : Word) :
    Function.update (place p data memory) (BitVec.ofNat 8 (p + i)) value =
      place p (Function.update data i value) memory := by
  funext address
  by_cases hit : address = BitVec.ofNat 8 (p + i)
  · subst hit
    rw [Function.update_self, place_cell fits inside, Function.update_self]
  · have apart : address.toNat ≠ p + i := by
      intro equal
      exact hit (BitVec.eq_of_toNat_eq (equal.trans (toNat_cell fits inside).symm))
    rw [Function.update_of_ne hit, place, place]
    split
    · rw [Function.update_of_ne (by omega)]
    · rfl

theorem place_outside {address : BitVec 8}
    (outside : address.toNat < p ∨ p + 15 < address.toNat) :
    place p data memory address = memory address := if_neg (by omega)

theorem read_cell (fits : p + 15 ≤ 254) (inside : i < 16) (pc hexData : Word)
    (register : RegisterFile) (flags : Flags) (switches : BitVec 10) :
    Arch.read ⟨pc, register, flags, place p data memory, hexData⟩ switches (cell p i) =
      data i := by
  rw [Arch.read, if_neg (cell_ne_port fits inside), cell_setWidth]
  exact place_cell fits inside

theorem write_cell (fits : p + 15 ≤ 254) (inside : i < 16) (pc hexData value : Word)
    (register : RegisterFile) (flags : Flags) :
    Arch.write ⟨pc, register, flags, place p data memory, hexData⟩ (cell p i) value =
      ⟨pc, register, flags, place p (Function.update data i value) memory, hexData⟩ := by
  rw [Arch.write, if_neg (cell_ne_port fits inside), cell_setWidth,
    update_place fits inside]

/-- Every memory is its own sixteen words put back in place. -/
theorem place_words :
    place p (fun i => memory (BitVec.ofNat 8 (p + i))) memory = memory := by
  funext address
  unfold place
  split
  case isTrue inside =>
    dsimp only
    rw [Nat.add_sub_cancel' inside.1, BitVec.ofNat_toNat, BitVec.setWidth_eq]
  case isFalse => rfl

theorem shipped_place (disjoint : p + 15 < 119 ∨ 136 < p)
    (shipped : Shipped 119#8 136#8 memory) : Shipped 119#8 136#8 (place p data memory) := by
  intro address above below
  rw [BitVec.le_def] at above below
  change 119 ≤ address.toNat at above
  change address.toNat ≤ 136 at below
  rw [place_outside (by omega), shipped address above below]

end Memory

section Arithmetic

theorem difference_toInt_le_zero {x y : Word} (smallX : x.toNat < 2 ^ 15)
    (smallY : y.toNat < 2 ^ 15) : (x + (~~~y + 1#16)).toInt ≤ 0 ↔ x.toNat ≤ y.toNat := by
  have difference : x + (~~~y + 1#16) = x - y := by
    rw [← BitVec.neg_eq_not_add, BitVec.sub_eq_add_neg]
  rw [difference, BitVec.toInt_eq_toNat_cond, BitVec.toNat_sub]
  split <;> omega

theorem counter_toInt_neg {m j : Nat} (m_le : m ≤ 16) (j_le : j ≤ 17) :
    (-BitVec.ofNat 16 m + BitVec.ofNat 16 j).toInt < 0 ↔ j < m := by
  rw [BitVec.toInt_eq_toNat_cond, BitVec.toNat_add, BitVec.toNat_neg, BitVec.toNat_ofNat,
    BitVec.toNat_ofNat]
  split <;> omega

theorem counter_succ (m : Nat) :
    -BitVec.ofNat 16 (m + 1) + 1#16 = -BitVec.ofNat 16 m := by
  rw [BitVec.ofNat_add, BitVec.neg_add, BitVec.sub_eq_add_neg, BitVec.add_assoc]
  exact BitVec.add_zero _

theorem counter_neg {m : Nat} (m_le : m ≤ 16) :
    (-BitVec.ofNat 16 m).toInt < 0 ↔ 0 < m := by
  rw [BitVec.toInt_eq_toNat_cond, BitVec.toNat_neg, BitVec.toNat_ofNat]
  split <;> omega

end Arithmetic

section Routine

variable {p : Nat} {memory : BitVec 8 → Word} {r7 hexData : Word} {Goal : Arch → Prop}

/-- The machine in the routine: `R0` is zero, `R6` points to the data. -/
abbrev sorting (p : Nat) (memory : BitVec 8 → Word) (r7 hexData pc r1 r2 r3 r4 r5 : Word)
    (flags : Flags) (data : Nat → Word) : Arch :=
  ⟨pc, file 0#16 r1 r2 r3 r4 r5 (BitVec.ofNat 16 p) r7, flags, place p data memory, hexData⟩

section Compare

variable {i : Nat} {data : Nat → Word} {r1 r3 r4 r5 : Word} {flags : Flags}

/-- Addresses 121 to 130: the neighbours `i` and `i + 1` are compared and exchanged. -/
theorem compare_exchange (fits : p + 15 ≤ 254)
    (shipped : ∀ data, Shipped 119#8 136#8 (place p data memory)) (inside : i + 1 < 16)
    (small : ∀ k, k < 16 → (data k).toNat < 2 ^ 15)
    (rest : ∀ r3 r4 r5 flags, Inevitable execute (Arch.Within 119#8 136#8) Goal
      (sorting p memory r7 hexData 131#16 r1 (BitVec.ofNat 16 (i + 1)) r3 r4 r5 flags
        (Sorting.exchange BitVec.toNat i data))) :
    Inevitable execute (Arch.Within 119#8 136#8) Goal
      (sorting p memory r7 hexData 121#16 r1 (BitVec.ofNat 16 (i + 1)) r3 r4 r5 flags
        data) := by
  have pointer : BitVec.ofNat 16 p + BitVec.ofNat 16 (i + 1) = cell p (i + 1) :=
    BitVec.ofNat_add_ofNat _ _
  have left := small i (by omega)
  have right := small (i + 1) inside
  have lower : MemoryEquivalence.Common (cell p (i + 1) + 0xFFFF#16) := by
    rw [cell_succ_pred]
    exact common_cell fits (Nat.lt_of_succ_lt inside)
  have upper : MemoryEquivalence.Common (cell p (i + 1) + 0#16) := by
    rw [BitVec.add_zero]
    exact common_cell fits inside
  refine inevitable_shipped (shipped data) (.add 3#3 6#3 (.register 2#3)) (by decide)
    (by decide) id trivial fun _ => ?_
  simp only [Arch.exec_add, BitVec.reduceAdd, file_r6, file_r2, pointer, update_file_r3]
  refine inevitable_shipped (shipped data) (.ldr 4#3 3#3 (-1)) (by decide)
    (by decide) id lower fun _ => ?_
  simp only [Arch.exec_ldr, BitVec.reduceAdd, file_r3, BitVec.reduceNeg, BitVec.reduceSignExtend,
    cell_succ_pred, read_cell fits (Nat.lt_of_succ_lt inside), update_file_r4]
  refine inevitable_shipped (shipped data) (.ldr 5#3 3#3 0) (by decide)
    (by decide) id upper fun _ => ?_
  simp only [Arch.exec_ldr, BitVec.reduceAdd, file_r3, BitVec.reduceSignExtend, BitVec.add_zero,
    read_cell fits inside, update_file_r5]
  refine inevitable_shipped (shipped data) (.not 5#3 5#3) (by decide)
    (by decide) id trivial fun _ => ?_
  simp only [Arch.exec_not, BitVec.reduceAdd, file_r5, update_file_r5]
  refine inevitable_shipped (shipped data) (.add 5#3 5#3 (.immediate 1)) (by decide)
    (by decide) id trivial fun _ => ?_
  simp only [Arch.exec_addi, BitVec.reduceAdd, file_r5, update_file_r5]
  refine inevitable_shipped (shipped data) (.add 5#3 4#3 (.register 5#3)) (by decide)
    (by decide) id trivial fun _ => ?_
  simp only [Arch.exec_add, BitVec.reduceAdd, file_r4, file_r5, update_file_r5]
  refine inevitable_shipped (shipped data) (.br 0b110#3 3) (by decide)
    (by decide) id trivial fun _ => ?_
  simp only [Arch.exec_br, BitVec.reduceAdd, selects_nz, BitVec.reduceSignExtend,
    difference_toInt_le_zero left right]
  by_cases ordered : (data i).toNat ≤ (data (i + 1)).toNat
  · rw [if_pos ordered]
    have same := rest (cell p (i + 1)) (data i) (data i + (~~~data (i + 1) + 1#16))
    rw [Sorting.exchange_of_le BitVec.toNat ordered] at same
    exact same _
  · rw [if_neg ordered]
    refine inevitable_shipped (shipped data) (.ldr 5#3 3#3 0) (by decide)
      (by decide) id upper fun _ => ?_
    simp only [Arch.exec_ldr, BitVec.reduceAdd, file_r3, BitVec.reduceSignExtend, BitVec.add_zero,
      read_cell fits inside, update_file_r5]
    refine inevitable_shipped (shipped data) (.str 5#3 3#3 (-1)) (by decide)
      (by decide) id lower fun _ => ?_
    simp only [Arch.exec_str, BitVec.reduceAdd, file_r3, file_r5, BitVec.reduceNeg,
      BitVec.reduceSignExtend, cell_succ_pred, write_cell fits (Nat.lt_of_succ_lt inside)]
    refine inevitable_shipped (shipped _) (.str 4#3 3#3 0) (by decide)
      (by decide) id upper fun _ => ?_
    simp only [Arch.exec_str, BitVec.reduceAdd, file_r3, file_r4, BitVec.reduceSignExtend,
      BitVec.add_zero, write_cell fits inside]
    have swapped := rest (cell p (i + 1)) (data i) (data (i + 1))
    rw [Sorting.exchange, if_pos (Nat.lt_of_not_le ordered)] at swapped
    exact swapped _

theorem advance (shipped : ∀ data, Shipped 119#8 136#8 (place p data memory)) {m : Nat}
    (m_le : m ≤ 16) (inside : i + 1 < 16)
    (again : ∀ r3 flags, i + 2 < m → Inevitable execute (Arch.Within 119#8 136#8) Goal
      (sorting p memory r7 hexData 121#16 (-BitVec.ofNat 16 m) (BitVec.ofNat 16 (i + 2)) r3 r4
        r5 flags data))
    (done : ∀ r3 flags, m ≤ i + 2 → Inevitable execute (Arch.Within 119#8 136#8) Goal
      (sorting p memory r7 hexData 134#16 (-BitVec.ofNat 16 m) (BitVec.ofNat 16 (i + 2)) r3 r4
        r5 flags data)) :
    Inevitable execute (Arch.Within 119#8 136#8) Goal
      (sorting p memory r7 hexData 131#16 (-BitVec.ofNat 16 m) (BitVec.ofNat 16 (i + 1)) r3 r4
        r5 flags data) := by
  have next : BitVec.ofNat 16 (i + 1) + 1#16 = BitVec.ofNat 16 (i + 2) :=
    BitVec.ofNat_add_ofNat _ _
  refine inevitable_shipped (shipped data) (.add 2#3 2#3 (.immediate 1)) (by decide)
    (by decide) id trivial fun _ => ?_
  simp only [Arch.exec_addi, BitVec.reduceAdd, file_r2, BitVec.reduceSignExtend, next,
    update_file_r2]
  refine inevitable_shipped (shipped data) (.add 3#3 1#3 (.register 2#3)) (by decide)
    (by decide) id trivial fun _ => ?_
  simp only [Arch.exec_add, BitVec.reduceAdd, file_r1, file_r2, update_file_r3]
  refine inevitable_shipped (shipped data) (.br 0b100#3 (-13)) (by decide)
    (by decide) id trivial fun _ => ?_
  simp only [Arch.exec_br, BitVec.reduceAdd, selects_n,
    counter_toInt_neg m_le (show i + 2 ≤ 17 by omega)]
  by_cases more : i + 2 < m
  · rw [if_pos more]
    exact again _ _ more
  · rw [if_neg more]
    exact done _ _ (Nat.le_of_not_lt more)

end Compare

/-- What the routine keeps of the words it was given: it only permutes them. -/
def Rearranges (original data : Nat → Word) : Prop :=
  ((List.range 16).map data).Perm ((List.range 16).map original)

theorem Rearranges.small {original data : Nat → Word} (rearranges : Rearranges original data)
    (small : ∀ k, k < 16 → (original k).toNat < 2 ^ 15) (k : Nat) (inside : k < 16) :
    (data k).toNat < 2 ^ 15 := by
  have member : data k ∈ (List.range 16).map original :=
    rearranges.mem_iff.mp (List.mem_map_of_mem (List.mem_range.mpr inside))
  obtain ⟨j, bound, same⟩ := List.mem_map.mp member
  rw [← same]
  exact small j (List.mem_range.mp bound)

theorem Rearranges.exchange {original data : Nat → Word} {i : Nat}
    (rearranges : Rearranges original data) (inside : i + 1 < 16) :
    Rearranges original (Sorting.exchange BitVec.toNat i data) := by
  obtain ⟨rest, total⟩ := Nat.exists_eq_add_of_le (show i + 2 ≤ 16 from inside)
  have swapped := Sorting.perm_exchange BitVec.toNat data i rest
  rw [← total] at swapped
  exact swapped.trans rearranges

section Loops

variable {original : Nat → Word} (fits : p + 15 ≤ 254)
  (shipped : ∀ data, Shipped 119#8 136#8 (place p data memory))
  (small : ∀ k, k < 16 → (original k).toNat < 2 ^ 15)

include fits shipped small

/-- The inner loop, entered at 121 with `R2 = i + 1`.  A last round is made even when the
prefix has only one element; its words are in order by then. -/
theorem inner_loop {m : Nat} (m_pos : 1 ≤ m) (m_le : m ≤ 16)
    (rest : ∀ data r2 r3 r4 r5 flags, Rearranges original data →
      Sorting.SettledFrom BitVec.toNat (m - 1) 16 data →
      Inevitable execute (Arch.Within 119#8 136#8) Goal
        (sorting p memory r7 hexData 134#16 (-BitVec.ofNat 16 m) r2 r3 r4 r5 flags data)) :
    ∀ (rounds i : Nat) (data : Nat → Word) (r3 r4 r5 : Word) (flags : Flags),
      i + rounds + 2 = max m 2 → Rearranges original data →
      Sorting.SettledFrom BitVec.toNat m 16 data → Sorting.MaxAt BitVec.toNat data i →
      Inevitable execute (Arch.Within 119#8 136#8) Goal
        (sorting p memory r7 hexData 121#16 (-BitVec.ofNat 16 m) (BitVec.ofNat 16 (i + 1)) r3
          r4 r5 flags data) := by
  intro rounds
  induction rounds with
  | zero =>
      intro i data r3 r4 r5 flags count rearranges settled greatest
      have inside : i + 1 < 16 := by omega
      refine compare_exchange fits shipped inside (rearranges.small small) ?_
      intro r3 r4 r5 flags
      refine advance shipped m_le inside (fun r3 flags more => by omega) ?_
      intro r3 flags _
      refine rest _ _ _ _ _ _ (rearranges.exchange inside) ?_
      rcases Nat.eq_or_lt_of_le m_pos with rfl | several
      · obtain rfl : i = 0 := by omega
        rw [Sorting.exchange_of_le BitVec.toNat (settled 0 1 (by decide) (by decide) (by decide))]
        exact settled.of_maxAt Sorting.maxAt_zero
      · obtain rfl : m = i + 2 := by omega
        exact (settled.exchange (by omega)).of_maxAt greatest.exchange
  | succ rounds inductionHypothesis =>
      intro i data r3 r4 r5 flags count rearranges settled greatest
      have inside : i + 1 < 16 := by omega
      refine compare_exchange fits shipped inside (rearranges.small small) ?_
      intro r3 r4 r5 flags
      refine advance shipped m_le inside ?_ (fun r3 flags done => by omega)
      intro r3 flags more
      exact inductionHypothesis (i + 1) _ _ _ _ _ (by omega) (rearranges.exchange inside)
        (settled.exchange (by omega)) greatest.exchange

/-- A round of the outer loop, entered at 120 with `R1 = -(m + 1)`. -/
theorem outer_round {m : Nat} (bound : m < 16) {data : Nat → Word} {r2 r3 r4 r5 : Word}
    {flags : Flags} (rearranges : Rearranges original data)
    (settled : Sorting.SettledFrom BitVec.toNat (m + 1) 16 data)
    (rest : ∀ data r2 r3 r4 r5 flags, Rearranges original data →
      Sorting.SettledFrom BitVec.toNat m 16 data →
      Inevitable execute (Arch.Within 119#8 136#8) Goal
        (sorting p memory r7 hexData (if 0 < m then 120#16 else 136#16) (-BitVec.ofNat 16 m)
          r2 r3 r4 r5 flags data)) :
    Inevitable execute (Arch.Within 119#8 136#8) Goal
      (sorting p memory r7 hexData 120#16 (-BitVec.ofNat 16 (m + 1)) r2 r3 r4 r5 flags
        data) := by
  refine inevitable_shipped (shipped data) (.add 2#3 0#3 (.immediate 1)) (by decide)
    (by decide) id trivial fun _ => ?_
  simp only [Arch.exec_addi, BitVec.reduceAdd, file_r0, BitVec.reduceSignExtend, BitVec.zero_add,
    update_file_r2]
  refine inner_loop fits shipped small (Nat.succ_pos m) bound ?_ (max (m + 1) 2 - 2) 0 _ _ _
    _ _ (by omega) rearranges settled Sorting.maxAt_zero
  intro data r2 r3 r4 r5 flags rearranges settled
  refine inevitable_shipped (shipped data) (.add 1#3 1#3 (.immediate 1)) (by decide)
    (by decide) id trivial fun _ => ?_
  simp only [Arch.exec_addi, BitVec.reduceAdd, file_r1, BitVec.reduceSignExtend, counter_succ,
    update_file_r1]
  refine inevitable_shipped (shipped data) (.br 0b100#3 (-16)) (by decide)
    (by decide) id trivial fun _ => ?_
  simp only [Arch.exec_br, BitVec.reduceAdd, selects_n, counter_neg bound.le]
  exact rest data r2 r3 r4 r5 _ rearranges settled

theorem outer_loop
    (rest : ∀ data r1 r2 r3 r4 r5 flags, Rearranges original data →
      Sorting.SettledFrom BitVec.toNat 0 16 data →
      Inevitable execute (Arch.Within 119#8 136#8) Goal
        (sorting p memory r7 hexData 136#16 r1 r2 r3 r4 r5 flags data)) :
    ∀ (m : Nat) (data : Nat → Word) (r2 r3 r4 r5 : Word) (flags : Flags),
      m < 16 → Rearranges original data →
      Sorting.SettledFrom BitVec.toNat (m + 1) 16 data →
      Inevitable execute (Arch.Within 119#8 136#8) Goal
        (sorting p memory r7 hexData 120#16 (-BitVec.ofNat 16 (m + 1)) r2 r3 r4 r5 flags
          data) := by
  intro m
  induction m with
  | zero =>
      intro data r2 r3 r4 r5 flags bound rearranges settled
      refine outer_round fits shipped small bound rearranges settled ?_
      intro data r2 r3 r4 r5 flags
      exact rest data _ r2 r3 r4 r5 flags
  | succ m inductionHypothesis =>
      intro data r2 r3 r4 r5 flags bound rearranges settled
      refine outer_round fits shipped small bound rearranges settled ?_
      intro data r2 r3 r4 r5 flags
      exact inductionHypothesis data r2 r3 r4 r5 flags (Nat.lt_of_succ_lt bound)

end Loops

end Routine

/-- `after` is what a call of the routine makes of `before`. -/
structure Sorts (p : Nat) (before after : Arch) : Prop where
  returns : after.pc = before.register 7#3
  ordered : ∀ i j, i ≤ j → j < 16 →
    after.memory (BitVec.ofNat 8 (p + i)) ≤ after.memory (BitVec.ofNat 8 (p + j))
  permuted : ((List.range 16).map fun i => after.memory (BitVec.ofNat 8 (p + i))).Perm
    ((List.range 16).map fun i => before.memory (BitVec.ofNat 8 (p + i)))
  elsewhere : ∀ address : BitVec 8, address.toNat < p ∨ p + 15 < address.toNat →
    after.memory address = before.memory address
  r0 : after.register 0#3 = before.register 0#3
  r6 : after.register 6#3 = before.register 6#3
  r7 : after.register 7#3 = before.register 7#3
  hexData : after.hexData = before.hexData

theorem eq_sorting {before : Arch} {p : Nat} (entry : before.pc = 119#16)
    (zero : before.register 0#3 = 0#16) (pointer : before.register 6#3 = BitVec.ofNat 16 p) :
    before = sorting p before.memory (before.register 7#3) before.hexData 119#16
      (before.register 1#3) (before.register 2#3) (before.register 3#3) (before.register 4#3)
      (before.register 5#3) before.flags fun k => before.memory (BitVec.ofNat 8 (p + k)) := by
  obtain ⟨pc, register, flags, memory, hexData⟩ := before
  dsimp only at entry zero pointer
  rw [sorting, place_words, ← entry, ← zero, ← pointer, ← eq_file]

theorem sorts_of_settled {before : Arch} {p : Nat} (fits : p + 15 ≤ 254)
    (zero : before.register 0#3 = 0#16) (pointer : before.register 6#3 = BitVec.ofNat 16 p)
    {data : Nat → Word}
    (rearranges : Rearranges (fun k => before.memory (BitVec.ofNat 8 (p + k))) data)
    (settled : Sorting.SettledFrom BitVec.toNat 0 16 data) (r1 r2 r3 r4 r5 : Word)
    (flags : Flags) :
    Sorts p before (sorting p before.memory (before.register 7#3) before.hexData
      (before.register 7#3) r1 r2 r3 r4 r5 flags data) where
  returns := rfl
  ordered := by
    intro i j order below
    change place p data before.memory _ ≤ place p data before.memory _
    rw [place_cell fits (Nat.lt_of_le_of_lt order below), place_cell fits below]
    rcases Nat.eq_or_lt_of_le order with rfl | before
    · exact BitVec.le_refl _
    · exact settled i j before (Nat.zero_le j) below
  permuted := by
    have words : ((List.range 16).map fun i => place p data before.memory
        (BitVec.ofNat 8 (p + i))) = (List.range 16).map data :=
      List.map_congr_left fun i member => place_cell fits (List.mem_range.mp member)
    rw [words]
    exact rearranges
  elsewhere := fun address outside => place_outside outside
  r0 := zero.symm
  r6 := pointer.symm
  r7 := rfl
  hexData := rfl

/-- From its entry the routine comes to its return, which ends a sorting call. -/
theorem returns_within {before : Arch} {p : Nat} (fits : p + 15 ≤ 254)
    (disjoint : p + 15 < 119 ∨ 136 < p) (entry : before.pc = 119#16)
    (zero : before.register 0#3 = 0#16) (pointer : before.register 6#3 = BitVec.ofNat 16 p)
    (routine : Shipped 119#8 136#8 before.memory)
    (small : ∀ k, k < 16 → (before.memory (BitVec.ofNat 8 (p + k))).toNat < 2 ^ 15) :
    Inevitable execute (Arch.Within 119#8 136#8)
      (fun arch => arch.pc = 136#16 ∧
        ∀ env, decode (arch.fetched env) = .jmp 7#3 ∧ Sorts p before (execute env arch))
      before := by
  have shipped : ∀ data, Shipped 119#8 136#8 (place p data before.memory) :=
    fun _ => shipped_place disjoint routine
  refine (congrArg (Inevitable execute _ _) (eq_sorting entry zero pointer)).mpr ?_
  refine inevitable_shipped (shipped _) (.add 1#3 0#3 (.immediate (-16))) (by decide)
    (by decide) id trivial fun _ => ?_
  simp only [Arch.exec_addi, BitVec.reduceAdd, file_r0, update_file_r1]
  refine outer_loop fits shipped small ?_ 15 _ _ _ _ _ _ (by decide) (List.Perm.refl _)
    Sorting.settledFrom_size
  intro data r1 r2 r3 r4 r5 flags rearranges settled
  refine .reached ⟨rfl, fun env => ⟨decode_fetched (shipped data) (by decide) env, ?_⟩⟩
  rw [execute_shipped (shipped data) (.jmp 7#3) (by decide)]
  exact sorts_of_settled fits zero pointer rearranges settled r1 r2 r3 r4 r5 flags

theorem returns_inevitably {before : Arch} {p : Nat} (fits : p + 15 ≤ 254)
    (disjoint : p + 15 < 119 ∨ 136 < p) (entry : before.pc = 119#16)
    (zero : before.register 0#3 = 0#16) (pointer : before.register 6#3 = BitVec.ofNat 16 p)
    (routine : Shipped 119#8 136#8 before.memory)
    (small : ∀ k, k < 16 → (before.memory (BitVec.ofNat 8 (p + k))).toNat < 2 ^ 15) :
    Inevitable execute Arch.Plain
      (fun arch => arch.pc = 136#16 ∧
        ∀ env, decode (arch.fetched env) = .jmp 7#3 ∧ Sorts p before (execute env arch))
      before :=
  (returns_within fits disjoint entry zero pointer routine small).mono
    (fun _ within => within.plain) fun _ goal => goal

/-- The shipped routine sorts: entered at 119 it comes to its return at 136 after finitely
many cycles, and the machine is back at the caller with the sixteen words in order. -/
theorem routine_sorts (image : BitVec 8 → Word) (inputs : Nat → TestTop.Input)
    (running : ∀ t, (inputs t).reset = false) (start : TestTop.State) (p : Nat)
    (fits : p + 15 ≤ 254) (disjoint : p + 15 < 119 ∨ 136 < p)
    (fetching : start.cpu.state = .s18) (entry : start.arch.pc = 119#16)
    (zero : start.arch.register 0#3 = 0#16)
    (pointer : start.arch.register 6#3 = BitVec.ofNat 16 p)
    (routine : Shipped 119#8 136#8 start.arch.memory)
    (small : ∀ k, k < 16 → (start.arch.memory (BitVec.ofNat 8 (p + k))).toNat < 2 ^ 15) :
    ∃ t,
      let fetch := Clocked.run (TestTop.step image) inputs start t
      let back := Clocked.run (TestTop.step image) inputs start (t + 8)
      fetch.cpu.state = .s18 ∧ fetch.cpu.pc = 136#16 ∧ back.cpu.state = .s18 ∧
        Sorts p start.arch back.arch := by
  simp only [TestTop.run_eq_transfer image inputs running]
  have first : TestTop.FetchesAt inputs start 0 := fetching
  obtain ⟨t, _, fetches, ⟨atReturn, returns⟩, _⟩ := TestTop.exists_fetch_of_inevitable
    TestTop.nextFetch_of_plain
    (returns_inevitably fits disjoint entry zero pointer routine small) first rfl
  obtain ⟨jump, sorts⟩ := returns (TestTop.envAt inputs t)
  obtain ⟨next, effect⟩ := TestTop.nextFetch_of_instr fetches jump 1 rfl
  refine ⟨t, fetches, atReturn, next.fetches, ?_⟩
  rw [execute, ← effect] at sorts
  exact sorts

/-- The menu's call: `R6` points to the shipped data at 74, the return is to 104. -/
def menuCall : TestTop.State where
  cpu :=
    { Cpu.blank .s18 with
      pc := 119#16
      register := file 0#16 0#16 0#16 0#16 0#16 0#16 74#16 104#16 }
  mem := { memArray := memoryContents, memOut := 0#16 }

theorem routine_sorts_menuCall :
    ∃ t,
      let fetch := Clocked.run (TestTop.step memoryContents) (fun _ => .quiet) menuCall t
      let back := Clocked.run (TestTop.step memoryContents) (fun _ => .quiet) menuCall (t + 8)
      fetch.cpu.state = .s18 ∧ fetch.cpu.pc = 136#16 ∧ back.cpu.state = .s18 ∧
        Sorts 74 menuCall.arch back.arch :=
  routine_sorts memoryContents (fun _ => .quiet) (fun _ => rfl) menuCall 74 (by decide)
    (by decide) rfl rfl rfl rfl (fun _ _ _ => rfl) (by decide)

end DigitalSystems.Slc3.BubbleSort
