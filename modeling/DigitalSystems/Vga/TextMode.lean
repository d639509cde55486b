import Mathlib.Data.Nat.Init

/-!
# Text mode

The combinational drawing logic of `vga_text_avl_interface`, from the beam position
and the word on read port `b` to the twelve colour bits, and the picture it is meant
to draw.  The font table is a parameter.
-/

namespace DigitalSystems.Vga

abbrev Palette := BitVec 3 → BitVec 32

/-- `font_rom`: one row of eight pixels for each address. -/
abbrev FontRom := BitVec 11 → BitVec 8

namespace TextMode

section Drawing

variable (drawX drawY : BitVec 10)

/-- The index arithmetic is 32 bits wide, the index keeps twelve of them. -/
def rowMajorIndex : BitVec 12 :=
  ((drawY >>> 4).setWidth 32 * 80#32 + (drawX >>> 3).setWidth 32).setWidth 12

def rowMajorAddress : BitVec 11 := (rowMajorIndex drawX drawY >>> 1).setWidth 11

def offsetx : Bool := (rowMajorIndex drawX drawY).getLsbD 0

structure Cell where
  invert : Bool
  char1 : BitVec 7
  fg : BitVec 4
  bg : BitVec 4
  deriving DecidableEq, Repr

def cell (offset : Bool) (readB : BitVec 32) : Cell :=
  if offset = false then
    { invert := readB.getLsbD 15
      char1 := readB.extractLsb' 8 7
      fg := readB.extractLsb' 4 4
      bg := readB.extractLsb' 0 4 }
  else
    { invert := readB.getLsbD 31
      char1 := readB.extractLsb' 24 7
      fg := readB.extractLsb' 20 4
      bg := readB.extractLsb' 16 4 }

def fontaddr (char1 : BitVec 7) : BitVec 11 :=
  (char1.setWidth 32 * 16#32 + (drawY.extractLsb' 0 4).setWidth 32).setWidth 11

/-- `data[7 - Drawx[2:0]]` -/
def out (data : BitVec 8) : Bool := data.getLsbD (7 - (drawX.extractLsb' 0 3).toNat)

/-- Twelve bits of the palette word that the index names, by its low bit. -/
def selectRgb (palette : Palette) (index : BitVec 4) : BitVec 12 :=
  if index.getLsbD 0 = false then (palette (index.extractLsb' 1 3)).extractLsb' 1 12
  else (palette (index.extractLsb' 1 3)).extractLsb' 13 12

/-- The colour block.  In the source `==` binds before `^`. -/
def nextRgb (font : FontRom) (palette : Palette) (readB : BitVec 32) : BitVec 12 :=
  let cell := cell (offsetx drawX drawY) readB
  let out := out drawX (font (fontaddr drawY cell.char1))
  if out ^^ (cell.invert == false) then selectRgb palette cell.bg
  else selectRgb palette cell.fg

end Drawing

def halfWord (word : BitVec 32) (index : Nat) : BitVec 16 :=
  word.extractLsb' (16 * (index % 2)) 16

def colour (palette : Palette) (index : Nat) : BitVec 12 :=
  (palette (BitVec.ofNat 3 (index / 2))).extractLsb' (if index % 2 = 0 then 1 else 13) 12

def glyph (font : FontRom) (code x y : Nat) : Bool :=
  (font (BitVec.ofNat 11 (16 * code + y % 16))).getLsbD (7 - x % 8)

/-- The pixel of a cell shows the foreground: set in the glyph, or clear and inverted. -/
def foreground (font : FontRom) (half : BitVec 16) (x y : Nat) : Bool :=
  glyph font (half.extractLsb' 8 7).toNat x y != half.getLsbD 15

def cellColour (font : FontRom) (palette : Palette) (half : BitVec 16) (x y : Nat) :
    BitVec 12 :=
  if foreground font half x y then colour palette (half.extractLsb' 4 4).toNat
  else colour palette (half.extractLsb' 0 4).toNat

/-- The text-mode colour of pixel `(x, y)`. -/
def textColour (font : FontRom) (palette : Palette) (vram : Nat → BitVec 32)
    (x y : Nat) : BitVec 12 :=
  let index := y / 16 * 80 + x / 8
  cellColour font palette (halfWord (vram (index / 2)) index) x y

section Visible

variable {drawX drawY : BitVec 10}

theorem toNat_rowMajorIndex (right : drawX.toNat < 640) (low : drawY.toNat < 480) :
    (rowMajorIndex drawX drawY).toNat = drawY.toNat / 16 * 80 + drawX.toNat / 8 := by
  simp only [rowMajorIndex, BitVec.toNat_setWidth, BitVec.toNat_add, BitVec.toNat_mul,
    BitVec.toNat_ushiftRight, BitVec.toNat_ofNat, Nat.shiftRight_eq_div_pow]
  omega

/-- A visible position addresses one of the first 1200 words. -/
theorem toNat_rowMajorAddress (right : drawX.toNat < 640) (low : drawY.toNat < 480) :
    (rowMajorAddress drawX drawY).toNat = (drawY.toNat / 16 * 80 + drawX.toNat / 8) / 2 := by
  simp only [rowMajorAddress, BitVec.toNat_setWidth, BitVec.toNat_ushiftRight,
    Nat.shiftRight_eq_div_pow, toNat_rowMajorIndex right low]
  omega

theorem offsetx_eq (right : drawX.toNat < 640) (low : drawY.toNat < 480) :
    offsetx drawX drawY =
      decide ((drawY.toNat / 16 * 80 + drawX.toNat / 8) % 2 = 1) := by
  rw [offsetx, BitVec.getLsbD, toNat_rowMajorIndex right low, Nat.testBit_zero]

end Visible

theorem cell_eq_halfWord (word : BitVec 32) (index : Nat) :
    cell (decide (index % 2 = 1)) word =
      { invert := (halfWord word index).getLsbD 15
        char1 := (halfWord word index).extractLsb' 8 7
        fg := (halfWord word index).extractLsb' 4 4
        bg := (halfWord word index).extractLsb' 0 4 } := by
  have slice : ∀ start length, start + length ≤ 16 →
      (halfWord word index).extractLsb' start length =
        word.extractLsb' (16 * (index % 2) + start) length := by
    intro start length inside
    apply BitVec.eq_of_getLsbD_eq
    intro i bound
    have within : start + i < 16 := by omega
    simp [halfWord, bound, within, Nat.add_assoc]
  rw [slice 8 7 (by decide), slice 4 4 (by decide), slice 0 4 (by decide)]
  rcases Nat.mod_two_eq_zero_or_one index with even | odd
  · simp [cell, halfWord, even]
  · simp [cell, halfWord, odd]

theorem fontaddr_eq (drawY : BitVec 10) (char1 : BitVec 7) :
    fontaddr drawY char1 = BitVec.ofNat 11 (16 * char1.toNat + drawY.toNat % 16) := by
  apply BitVec.eq_of_toNat_eq
  simp only [fontaddr, BitVec.toNat_setWidth, BitVec.toNat_add, BitVec.toNat_mul,
    BitVec.toNat_ofNat, BitVec.extractLsb'_toNat, Nat.shiftRight_zero]
  omega

theorem out_eq (drawX : BitVec 10) (data : BitVec 8) :
    out drawX data = data.getLsbD (7 - drawX.toNat % 8) := by
  simp [out, BitVec.extractLsb'_toNat]

theorem selectRgb_eq_colour (palette : Palette) (index : BitVec 4) :
    selectRgb palette index = colour palette index.toNat := by
  have register : index.extractLsb' 1 3 = BitVec.ofNat 3 (index.toNat / 2) := by
    apply BitVec.eq_of_toNat_eq
    simp [BitVec.extractLsb'_toNat, Nat.shiftRight_eq_div_pow]
  have low : index.getLsbD 0 = decide (index.toNat % 2 = 1) := by
    rw [BitVec.getLsbD, Nat.testBit_zero]
  rw [selectRgb, colour, register, low]
  rcases Nat.mod_two_eq_zero_or_one index.toNat with even | odd
  · simp [even]
  · simp [odd]

/-- The drawing logic computes the text-mode colour at every visible position. -/
theorem nextRgb_eq_textColour (font : FontRom) (palette : Palette)
    (vram : Nat → BitVec 32) {drawX drawY : BitVec 10} (right : drawX.toNat < 640)
    (low : drawY.toNat < 480) :
    nextRgb drawX drawY font palette (vram (rowMajorAddress drawX drawY).toNat) =
      textColour font palette vram drawX.toNat drawY.toNat := by
  simp only [nextRgb, textColour, cellColour, toNat_rowMajorAddress right low,
    offsetx_eq right low, cell_eq_halfWord, fontaddr_eq, out_eq, selectRgb_eq_colour]
  generalize halfWord (vram _) _ = half
  have background : ∀ pixel invert : Bool,
      (pixel ^^ (invert == false)) = !(pixel != invert) := by decide
  rw [background, ← glyph, ← foreground]
  cases foreground font half drawX.toNat drawY.toNat <;> rfl

end TextMode

end DigitalSystems.Vga
