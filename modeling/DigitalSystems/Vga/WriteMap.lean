import DigitalSystems.Clocked.Latest
import DigitalSystems.Vga.Interface

/-!
# The Avalon write map

Addresses below `0x800` are video memory, those with bit 11 set are palette
registers.  The memory ignores chip select and bit 11, so a palette write reaches it
too, in a word that the raster address, eleven bits wide, cannot name.
-/

namespace DigitalSystems.Vga.Interface

variable {mem : Onchipmem}

def writtenLane (address : BitVec 12) (k : Nat) (input : AvalonInput) : Option (BitVec 8) :=
  if input.avlWrite = true ∧ input.avlAddr = address ∧ input.avlByteEn.getLsbD k = true then
    some (Clocked.lane 8 input.avlWritedata k)
  else none

def writtenPalette (k : BitVec 3) (input : AvalonInput) : Option VramWord :=
  if input.avlWrite = true ∧ isPalette input.avlAddr = true ∧
      paletteIndex input.avlAddr = k then
    some input.avlWritedata
  else none

/-- A write that the palette takes: it looks at chip select, the memory does not. -/
def WritesPalette (k : BitVec 3) (input : AvalonInput) : Prop :=
  input.avlCs = true ∧ input.avlWrite = true ∧ isPalette input.avlAddr = true ∧
    paletteIndex input.avlAddr = k

instance (k : BitVec 3) : DecidablePred (WritesPalette k) := fun _ =>
  inferInstanceAs (Decidable (_ ∧ _ ∧ _ ∧ _))

def storedPalette (k : BitVec 3) (input : AvalonInput) : Option VramWord :=
  if WritesPalette k input then some input.avlWritedata else none

/-- With chip select on every write the palette takes every write to it. -/
theorem storedPalette_of_chipSelect {input : AvalonInput}
    (chip : input.avlWrite = true → input.avlCs = true) (k : BitVec 3) :
    storedPalette k input = writtenPalette k input := by
  rw [storedPalette, writtenPalette]
  apply if_congr _ rfl rfl
  exact ⟨fun stored => stored.2, fun written => ⟨chip written.1, written⟩⟩

def displayed (s : Interface mem) (drawX drawY : BitVec 10) : TextMode.Cell :=
  TextMode.cell (TextMode.offsetx drawX drawY)
    (s.word ((TextMode.rowMajorAddress drawX drawY).setWidth 12))

section Step

variable (font : FontRom) (input : AvalonInput) (s : Interface mem)

theorem lane_step_eq_getD (lawful : mem.Lawful) (address : BitVec 12) (k : Nat) :
    Clocked.lane 8 ((step font input s).word address) k =
      (writtenLane address k input).getD (Clocked.lane 8 (s.word address) k) := by
  rw [lane_step font input s lawful, writtenLane]
  split <;> rfl

theorem colorRegisters_step_eq_getD (k : BitVec 3) :
    (step font input s).colorRegisters k =
      (storedPalette k input).getD (s.colorRegisters k) := by
  rw [step_colorRegisters, nextColorRegisters, storedPalette]
  by_cases stored : WritesPalette k input
  · obtain ⟨chip, write, palette, rfl⟩ := id stored
    simp [stored, chip, write, palette]
  · rw [if_neg stored]
    by_cases taken : (input.avlCs && input.avlWrite && isPalette input.avlAddr) = true
    · have other : k ≠ paletteIndex input.avlAddr := by
        rintro rfl
        simp only [Bool.and_eq_true] at taken
        exact stored ⟨taken.1.1, taken.1.2, taken.2, rfl⟩
      rw [if_pos taken, Function.update_of_ne other]
      rfl
    · rw [if_neg taken]
      rfl

theorem isPalette_rowMajorAddress (address : BitVec 11) :
    isPalette (address.setWidth 12) = false := by
  simp [isPalette]

theorem displayed_step_of_palette (lawful : mem.Lawful)
    (palette : isPalette input.avlAddr = true) (drawX drawY : BitVec 10) :
    (step font input s).displayed drawX drawY = s.displayed drawX drawY := by
  have other : input.avlAddr ≠ (TextMode.rowMajorAddress drawX drawY).setWidth 12 := by
    intro equal
    rw [equal, isPalette_rowMajorAddress] at palette
    exact absurd palette nofun
  rw [displayed, displayed, word_step_of_ne font input s lawful other]

theorem displayed_step_of_idle (lawful : mem.Lawful) (idle : input.avlWrite = false)
    (drawX drawY : BitVec 10) :
    (step font input s).displayed drawX drawY = s.displayed drawX drawY := by
  rw [displayed, displayed, word_step_of_idle font input s lawful idle]

theorem colorRegisters_step_of_vram (vram : isPalette input.avlAddr = false) :
    (step font input s).colorRegisters = s.colorRegisters := by
  simp [nextColorRegisters, vram]

theorem colorRegisters_step_of_idle (idle : input.avlWrite = false) :
    (step font input s).colorRegisters = s.colorRegisters := by
  simp [nextColorRegisters, idle]

end Step

/-- A palette register holds the word that it last took. -/
theorem colorRegisters_run (font : FontRom) (inputs : Nat → AvalonInput)
    (start : Interface mem) (n : Nat) (k : BitVec 3) :
    (Clocked.run (step font) inputs start n).colorRegisters k =
      (Clocked.latestBefore? (fun t => storedPalette k (inputs t)) n).getD
        (start.colorRegisters k) := by
  apply Clocked.observe_run_eq_latest (step font) inputs fun s => s.colorRegisters k
  intro t _
  exact colorRegisters_step_eq_getD font (inputs t) _ k

/-- After `n` cycles the cells and the palette hold what was last written to them, and
cycle `n` keeps the two apart. -/
structure WriteMap (font : FontRom) (inputs : Nat → AvalonInput) (start : Interface mem)
    (n : Nat) : Prop where
  cells : ∀ cell, cell < 2400 → ∀ half, half < 2 →
    Clocked.lane 8 ((Clocked.run (step font) inputs start n).word (BitVec.ofNat 12 (cell / 2)))
        (2 * (cell % 2) + half) =
      (Clocked.latestBefore? (fun t =>
        writtenLane (BitVec.ofNat 12 (cell / 2)) (2 * (cell % 2) + half) (inputs t)) n).getD
        (Clocked.lane 8 (start.word (BitVec.ofNat 12 (cell / 2))) (2 * (cell % 2) + half))
  palette : ∀ k,
    (Clocked.run (step font) inputs start n).colorRegisters k =
      (Clocked.latestBefore? (fun t => writtenPalette k (inputs t)) n).getD
        (start.colorRegisters k)
  paletteWrite : isPalette (inputs n).avlAddr = true → ∀ drawX drawY,
    (Clocked.run (step font) inputs start (n + 1)).displayed drawX drawY =
      (Clocked.run (step font) inputs start n).displayed drawX drawY
  vramWrite : isPalette (inputs n).avlAddr = false →
    (Clocked.run (step font) inputs start (n + 1)).colorRegisters =
      (Clocked.run (step font) inputs start n).colorRegisters
  noWrite : (inputs n).avlWrite = false →
    (Clocked.run (step font) inputs start (n + 1)).colorRegisters =
        (Clocked.run (step font) inputs start n).colorRegisters ∧
      ∀ drawX drawY,
        (Clocked.run (step font) inputs start (n + 1)).displayed drawX drawY =
          (Clocked.run (step font) inputs start n).displayed drawX drawY

/-- The write map is a faithful store of two separate parts, in every run. -/
theorem writeMap_of_chipSelect (lawful : mem.Lawful) (font : FontRom)
    (inputs : Nat → AvalonInput)
    (chip : ∀ t, (inputs t).avlWrite = true → (inputs t).avlCs = true)
    (start : Interface mem) (n : Nat) : WriteMap font inputs start n := by
  constructor
  case cells =>
    intro cell _ half _
    apply Clocked.observe_run_eq_latest (step font) inputs fun s =>
      Clocked.lane 8 (s.word (BitVec.ofNat 12 (cell / 2))) (2 * (cell % 2) + half)
    intro t _
    exact lane_step_eq_getD font (inputs t) _ lawful _ _
  case palette =>
    intro k
    simp only [← fun t => storedPalette_of_chipSelect (chip t) k]
    exact colorRegisters_run font inputs start n k
  case paletteWrite =>
    intro palette drawX drawY
    exact displayed_step_of_palette font (inputs n) _ lawful palette drawX drawY
  case vramWrite =>
    intro vram
    exact colorRegisters_step_of_vram font (inputs n) _ vram
  case noWrite =>
    intro idle
    refine ⟨colorRegisters_step_of_idle font (inputs n) _ idle, ?_⟩
    intro drawX drawY
    exact displayed_step_of_idle font (inputs n) _ lawful idle drawX drawY

def paletteWrites (t : Nat) : AvalonInput :=
  { AvalonInput.idle with
    avlCs := true
    avlWrite := t == 0
    avlByteEn := 0b1111#4
    avlAddr := 0x802#12
    avlWritedata := 0xFFFFFFFF#32 }

theorem writeMap_of_chipSelect_paletteWrites :
    WriteMap (fun _ => 0#8) paletteWrites cleared 3 :=
  writeMap_of_chipSelect Onchipmem.reference_lawful (fun _ => 0#8) paletteWrites
    (fun _ _ => rfl) cleared 3

end DigitalSystems.Vga.Interface
