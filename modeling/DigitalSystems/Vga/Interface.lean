import DigitalSystems.Vga.Controller
import DigitalSystems.Vga.Onchipmem
import DigitalSystems.Vga.TextMode

/-!
# The text-mode interface `vga_text_avl_interface`

One step is one edge of `CLK`.  The colour registers are clocked by the pixel clock,
which `vga_controller` derives from the same edge.
-/

namespace DigitalSystems.Vga

structure AvalonInput where
  reset : Bool
  avlRead : Bool
  avlWrite : Bool
  avlCs : Bool
  avlByteEn : BitVec 4
  avlAddr : BitVec 12
  avlWritedata : VramWord

structure Interface (mem : Onchipmem) where
  controller : Controller
  ramport : mem.State
  avlReaddata : VramWord
  colorRegisters : Palette
  rgb : BitVec 12
  red : BitVec 4
  green : BitVec 4
  blue : BitVec 4

def AvalonInput.idle : AvalonInput where
  reset := false
  avlRead := false
  avlWrite := false
  avlCs := false
  avlByteEn := 0#4
  avlAddr := 0#12
  avlWritedata := 0#32

namespace Interface

variable {mem : Onchipmem}

def drawX (s : Interface mem) : BitVec 10 := s.controller.hc

def drawY (s : Interface mem) : BitVec 10 := s.controller.vc

def readA (s : Interface mem) : VramWord := mem.qA s.ramport

def readB (s : Interface mem) : VramWord := mem.qB s.ramport

def word (s : Interface mem) (address : BitVec 12) : VramWord := mem.word s.ramport address

/-- The wiring of `ramport`: write enable and read enable are not gated. -/
def ports (input : AvalonInput) (s : Interface mem) : Onchipmem.Ports where
  addressA := input.avlAddr
  addressB :=
    (TextMode.rowMajorAddress (s.controller.present input.reset).hc
      (s.controller.present input.reset).vc).setWidth 12
  byteenaA := input.avlByteEn
  dataA := input.avlWritedata
  rdenA := input.avlRead
  wrenA := input.avlWrite

/-- An address with bit 11 set is a palette register, by its three low bits. -/
def isPalette (address : BitVec 12) : Bool := address.getLsbD 11

def paletteIndex (address : BitVec 12) : BitVec 3 := address.extractLsb' 0 3

def nextReaddata (input : AvalonInput) (s : Interface mem) : VramWord :=
  if input.avlCs && input.avlRead then
    if isPalette input.avlAddr then s.colorRegisters (paletteIndex input.avlAddr)
    else s.readA
  else s.avlReaddata

def nextColorRegisters (input : AvalonInput) (s : Interface mem) : Palette :=
  if input.avlCs && input.avlWrite && isPalette input.avlAddr then
    Function.update s.colorRegisters (paletteIndex input.avlAddr) input.avlWritedata
  else s.colorRegisters

def pixelEdge (input : AvalonInput) (s : Interface mem) : Bool :=
  !input.reset && s.controller.rises

def scan (font : FontRom) (s : Interface mem) : BitVec 12 × BitVec 4 × BitVec 4 × BitVec 4 :=
  if s.controller.blank then
    (TextMode.nextRgb s.drawX s.drawY font s.colorRegisters s.readB,
      s.rgb.extractLsb' 8 4, s.rgb.extractLsb' 4 4, s.rgb.extractLsb' 0 4)
  else (s.rgb, 0#4, 0#4, 0#4)

def step (font : FontRom) (input : AvalonInput) (s : Interface mem) : Interface mem :=
  let colours :=
    if pixelEdge input s then scan font s else (s.rgb, s.red, s.green, s.blue)
  { controller := s.controller.step input.reset
    ramport := mem.step (ports input s) s.ramport
    avlReaddata := nextReaddata input s
    colorRegisters := nextColorRegisters input s
    rgb := colours.1
    red := colours.2.1
    green := colours.2.2.1
    blue := colours.2.2.2 }

def cleared : Interface Onchipmem.reference where
  controller := Controller.zero
  ramport := (fun _ => 0#32, 0#32, 0#32)
  avlReaddata := 0#32
  colorRegisters := fun _ => 0#32
  rgb := 0#12
  red := 0#4
  green := 0#4
  blue := 0#4

variable (font : FontRom) (input : AvalonInput) (s : Interface mem)

@[simp]
theorem step_controller : (step font input s).controller = s.controller.step input.reset := rfl

@[simp]
theorem step_colorRegisters :
    (step font input s).colorRegisters = nextColorRegisters input s := rfl

@[simp]
theorem step_avlReaddata : (step font input s).avlReaddata = nextReaddata input s := rfl

/-- A write reaches the enabled lanes of the addressed word, whatever bit 11 says. -/
theorem lane_step (lawful : mem.Lawful) (address : BitVec 12) (k : Nat) :
    Clocked.lane 8 ((step font input s).word address) k =
      if input.avlWrite = true ∧ input.avlAddr = address ∧
          input.avlByteEn.getLsbD k = true then
        Clocked.lane 8 input.avlWritedata k
      else Clocked.lane 8 (s.word address) k :=
  lawful.lane_step (ports input s) s.ramport address k

theorem word_step_of_idle (lawful : mem.Lawful) (idle : input.avlWrite = false) :
    (step font input s).word = s.word :=
  lawful.word_hold (ports input s) s.ramport idle

theorem word_step_of_ne (lawful : mem.Lawful) {address : BitVec 12}
    (other : input.avlAddr ≠ address) :
    (step font input s).word address = s.word address := by
  apply Clocked.eq_of_lanes 8 4 (by decide) (by decide)
  intro k _
  rw [lane_step font input s lawful]
  simp [other]

end Interface

end DigitalSystems.Vga
