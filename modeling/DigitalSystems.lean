import DigitalSystems.Slc3.Refinement
import DigitalSystems.Slc3.Branches
import DigitalSystems.Slc3.BootLoader
import DigitalSystems.Slc3.DisplayPort
import DigitalSystems.Slc3.MemoryEquivalence
import DigitalSystems.Slc3.ResetHistory
import DigitalSystems.Vga.Driver
import DigitalSystems.Vga.ReadPort
import DigitalSystems.Vga.ScanOut
import DigitalSystems.Vga.WriteMap
import DigitalSystems.Vga.Raster
import DigitalSystems.Vga.Capture
import DigitalSystems.Vga.PaletteLanes
import DigitalSystems.Slc3.BootImage
import DigitalSystems.Slc3.Pause
import DigitalSystems.Vga.PaletteDriver
import DigitalSystems.Vga.ScreenSaver
import DigitalSystems.Clocked.Inevitable
import DigitalSystems.Slc3.Fetches
import DigitalSystems.Arith.SignedBits
import DigitalSystems.Slc3.BubbleSort
import DigitalSystems.Slc3.Multiplier
import DigitalSystems.Slc3.Encoders
import DigitalSystems.Slc3.AutoCounter
import DigitalSystems.Slc3.DisplayFunction
import DigitalSystems.Slc3.Menu
import DigitalSystems.Slc3.Board
import DigitalSystems.Slc3.SelfModifying
import DigitalSystems.Vga.Demo
import DigitalSystems.Soc.ClockCrosser
import DigitalSystems.Soc.VgaSlave
import DigitalSystems.Soc.CmdMux
