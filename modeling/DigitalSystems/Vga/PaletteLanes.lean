import DigitalSystems.Vga.WriteMap

/-!
# Byte enables of the palette

A palette register takes the whole data word, whatever the byte enables say.  The
lanes a write does not enable are right as long as the data repeats them.
-/

namespace DigitalSystems.Vga.Interface

variable {mem : Onchipmem}

def writtenPaletteLane (k : BitVec 3) (lane : Nat) (input : AvalonInput) :
    Option (BitVec 8) :=
  if WritesPalette k input ∧ input.avlByteEn.getLsbD lane = true then
    some (Clocked.lane 8 input.avlWritedata lane)
  else none

/-- What lane `lane` of register `k` should hold in cycle `n`: the byte last written to
it through its enable, or its initial content. -/
def lastPaletteByte (inputs : Nat → AvalonInput) (start : Interface mem) (n : Nat)
    (k : BitVec 3) (lane : Nat) : BitVec 8 :=
  (Clocked.latestBefore? (fun t => writtenPaletteLane k lane (inputs t)) n).getD
    (Clocked.lane 8 (start.colorRegisters k) lane)

def PaletteLanes (font : FontRom) (inputs : Nat → AvalonInput) (start : Interface mem)
    (n : Nat) : Prop :=
  ∀ k lane, lane < 4 →
    Clocked.lane 8 ((Clocked.run (step font) inputs start n).colorRegisters k) lane =
      lastPaletteByte inputs start n k lane

/-- The last write to each register repeats, in the lanes it does not enable, what they
should hold. -/
def RepeatsLanes (inputs : Nat → AvalonInput) (start : Interface mem) (n : Nat) : Prop :=
  ∀ k t, Clocked.IsLatest (fun t => WritesPalette k (inputs t)) n t →
    ∀ lane, lane < 4 → (inputs t).avlByteEn.getLsbD lane = false →
      Clocked.lane 8 (inputs t).avlWritedata lane = lastPaletteByte inputs start t k lane

section Run

variable {inputs : Nat → AvalonInput} {start : Interface mem} {n : Nat} {k : BitVec 3}

theorem stored_of_not_writes {input : AvalonInput} (other : ¬ WritesPalette k input) :
    storedPalette k input = none ∧ ∀ lane, writtenPaletteLane k lane input = none :=
  ⟨if_neg other, fun _ => if_neg fun written => other written.1⟩

theorem register_after_write (font : FontRom) {t : Nat}
    (latest : Clocked.IsLatest (fun t => WritesPalette k (inputs t)) n t) :
    (Clocked.run (step font) inputs start n).colorRegisters k = (inputs t).avlWritedata := by
  have last : Clocked.latestBefore? (fun t => storedPalette k (inputs t)) n =
      Clocked.latestBefore? (fun t => storedPalette k (inputs t)) (t + 1) :=
    Clocked.latestBefore?_of_quiet latest.1 fun u after before =>
      (stored_of_not_writes (latest.2.2 u after before)).1
  have stored : storedPalette k (inputs t) = some (inputs t).avlWritedata :=
    if_pos latest.2.1
  rw [colorRegisters_run font inputs, last, Clocked.latestBefore?_succ, stored]
  rfl

theorem lastPaletteByte_after_write {t : Nat}
    (latest : Clocked.IsLatest (fun t => WritesPalette k (inputs t)) n t) (lane : Nat) :
    lastPaletteByte inputs start n k lane =
      if (inputs t).avlByteEn.getLsbD lane = true then
        Clocked.lane 8 (inputs t).avlWritedata lane
      else lastPaletteByte inputs start t k lane := by
  have last : Clocked.latestBefore? (fun t => writtenPaletteLane k lane (inputs t)) n =
      Clocked.latestBefore? (fun t => writtenPaletteLane k lane (inputs t)) (t + 1) :=
    Clocked.latestBefore?_of_quiet latest.1 fun u after before =>
      (stored_of_not_writes (latest.2.2 u after before)).2 lane
  rw [lastPaletteByte, last, Clocked.latestBefore?_succ, writtenPaletteLane]
  cases enabled : (inputs t).avlByteEn.getLsbD lane with
  | true =>
      rw [if_pos ⟨latest.2.1, rfl⟩]
      rfl
  | false =>
      rw [if_neg fun written => Bool.false_ne_true written.2]
      rfl

theorem register_unwritten (font : FontRom)
    (quiet : ∀ t, 0 ≤ t → t < n → ¬ WritesPalette k (inputs t)) (lane : Nat) :
    Clocked.lane 8 ((Clocked.run (step font) inputs start n).colorRegisters k) lane =
      lastPaletteByte inputs start n k lane := by
  have words : Clocked.latestBefore? (fun t => storedPalette k (inputs t)) n = none :=
    Clocked.latestBefore?_of_quiet (Nat.zero_le n) fun t begun before =>
      (stored_of_not_writes (quiet t begun before)).1
  have bytes : Clocked.latestBefore? (fun t => writtenPaletteLane k lane (inputs t)) n = none :=
    Clocked.latestBefore?_of_quiet (Nat.zero_le n) fun t begun before =>
      (stored_of_not_writes (quiet t begun before)).2 lane
  rw [colorRegisters_run font inputs, words, lastPaletteByte, bytes]
  rfl

end Run

/-- The palette honours the byte enables of a sequence of writes if and only if the last
write to each register repeats what the lanes it leaves out should hold. -/
theorem paletteLanes_iff_repeatsLanes (font : FontRom) (inputs : Nat → AvalonInput)
    (start : Interface mem) (n : Nat) :
    PaletteLanes font inputs start n ↔ RepeatsLanes inputs start n := by
  constructor
  · intro honoured k t latest lane bound disabled
    have byte := honoured k lane bound
    rw [register_after_write font latest, lastPaletteByte_after_write latest,
      if_neg (by rw [disabled]; exact Bool.false_ne_true)] at byte
    exact byte
  · intro repeats k lane bound
    rcases Clocked.isLatest_or_quiet (fun t => WritesPalette k (inputs t)) 0 n with
      ⟨t, _, latest⟩ | quiet
    · rw [register_after_write font latest, lastPaletteByte_after_write latest]
      cases enabled : (inputs t).avlByteEn.getLsbD lane with
      | true => rfl
      | false => exact repeats k t latest lane bound enabled
    · exact register_unwritten font quiet lane

def lowByteWrite (t : Nat) : AvalonInput :=
  { AvalonInput.idle with
    avlCs := true
    avlWrite := t == 0
    avlByteEn := 0b0001#4
    avlAddr := 0x800#12
    avlWritedata := 0xFFFFFFFF#32 }

/-- A write of the lowest byte sets the other three as well. -/
theorem lowByteWrite_sets_word :
    ¬ PaletteLanes (fun _ => 0#8) lowByteWrite cleared 1 := by
  intro honoured
  exact absurd (honoured 0#3 1 (by decide)) (by decide)

end DigitalSystems.Vga.Interface
