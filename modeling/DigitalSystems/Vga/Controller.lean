import DigitalSystems.Clocked.Run
import Mathlib.Data.Nat.Init

/-!
# The raster counters `vga_controller`

One step is one edge of the 50 MHz clock.  The counters and the sync registers are
clocked by `clkdiv`, so they move at every second edge, the one that raises it.
-/

namespace DigitalSystems.Vga

@[ext]
structure Controller where
  clkdiv : Bool
  hc : BitVec 10
  vc : BitVec 10
  hs : Bool
  vs : Bool

namespace Controller

def hpixels : BitVec 10 := 0b1100011111#10

def vlines : BitVec 10 := 0b1000001100#10

/-- What an active reset holds the registers at. -/
def zero : Controller where
  clkdiv := false
  hc := 0#10
  vc := 0#10
  hs := false
  vs := false

/-- The registers as the circuit sees them: the reset is asynchronous. -/
def present (reset : Bool) (c : Controller) : Controller := if reset then zero else c

def nextHc (c : Controller) : BitVec 10 := if c.hc = hpixels then 0#10 else c.hc + 1#10

def nextVc (c : Controller) : BitVec 10 :=
  if c.hc = hpixels then if c.vc = vlines then 0#10 else c.vc + 1#10 else c.vc

/-- `hsync_proc`; the sum is computed on 32 bits. -/
def nextHs (c : Controller) : Bool :=
  !(decide (c.hc.toNat + 1 ≥ 0b1010010000) && decide (c.hc.toNat + 1 < 0b1011110000))

/-- `vsync_proc`; both constants are nine bits wide. -/
def nextVs (c : Controller) : Bool :=
  !(c.vc.toNat + 1 == 0b111101010 || c.vc.toNat + 1 == 0b111101011)

def display (c : Controller) : Bool :=
  !(decide (c.hc ≥ 0b1010000000#10) || decide (c.vc ≥ 0b0111100000#10))

def blank (c : Controller) : Bool := c.display

/-- The coming edge of `Clk` raises the pixel clock. -/
def rises (c : Controller) : Bool := !c.clkdiv

def step (reset : Bool) (c : Controller) : Controller :=
  if reset then zero
  else if c.rises then
    { clkdiv := true, hc := c.nextHc, vc := c.nextVc, hs := c.nextHs, vs := c.nextVs }
  else { c with clkdiv := false }

theorem blank_eq_true_iff (c : Controller) :
    c.blank = true ↔ c.hc.toNat < 640 ∧ c.vc.toNat < 480 := by
  simp [blank, display, BitVec.le_def]

theorem toNat_next (c : Controller) (inside : c.hc.toNat < 800) (below : c.vc.toNat < 525) :
    c.nextHc.toNat = (c.hc.toNat + 1) % 800 ∧
      c.nextVc.toNat = (c.vc.toNat + (c.hc.toNat + 1) / 800) % 525 := by
  have lastPixel : c.hc = hpixels ↔ c.hc.toNat = 799 := by
    rw [← BitVec.toNat_inj]
    rfl
  have lastLine : c.vc = vlines ↔ c.vc.toNat = 524 := by
    rw [← BitVec.toNat_inj]
    rfl
  unfold nextHc nextVc
  by_cases last : c.hc = hpixels
  · have pixel := lastPixel.mp last
    rw [if_pos last, if_pos last]
    by_cases bottom : c.vc = vlines
    · have line := lastLine.mp bottom
      rw [if_pos bottom, pixel, line]
      exact ⟨rfl, rfl⟩
    · have line := mt lastLine.mpr bottom
      rw [if_neg bottom, BitVec.toNat_add, pixel]
      refine ⟨rfl, ?_⟩
      simp only [BitVec.toNat_ofNat]
      omega
  · have pixel := mt lastPixel.mpr last
    rw [if_neg last, if_neg last, BitVec.toNat_add]
    simp only [BitVec.toNat_ofNat]
    omega

/-- Before the `k`-th pixel clock since the reset the beam is at the `k`-th position,
and the edge of that pixel clock is the next one. -/
theorem position_run (k : Nat) :
    (Clocked.run step (fun _ => false) zero (2 * k)).clkdiv = false ∧
      (Clocked.run step (fun _ => false) zero (2 * k)).hc.toNat = k % 800 ∧
      (Clocked.run step (fun _ => false) zero (2 * k)).vc.toNat = k / 800 % 525 := by
  induction k with
  | zero => exact ⟨rfl, rfl, rfl⟩
  | succ k inductionHypothesis =>
      rw [show 2 * (k + 1) = 2 * k + 1 + 1 from rfl, Clocked.run_succ, Clocked.run_succ]
      generalize Clocked.run step (fun _ => false) zero (2 * k) = c at inductionHypothesis
      obtain ⟨low, pixel, line⟩ := inductionHypothesis
      have next := toNat_next c (by omega) (by omega)
      have falls : step false (step false c) = { step false c with clkdiv := false } := by
        simp [step, rises, low]
      have rise : step false c =
          { clkdiv := true, hc := c.nextHc, vc := c.nextVc, hs := c.nextHs, vs := c.nextVs } := by
        simp [step, rises, low]
      rw [falls, rise]
      refine ⟨rfl, ?_, ?_⟩
      · change c.nextHc.toNat = _
        omega
      · change c.nextVc.toNat = _
        omega

theorem position_between (k : Nat) :
    (Clocked.run step (fun _ => false) zero (2 * k + 1)).clkdiv = true ∧
      (Clocked.run step (fun _ => false) zero (2 * k + 1)).hc =
        (Clocked.run step (fun _ => false) zero (2 * (k + 1))).hc ∧
      (Clocked.run step (fun _ => false) zero (2 * k + 1)).vc =
        (Clocked.run step (fun _ => false) zero (2 * (k + 1))).vc := by
  have low := (position_run k).1
  rw [show 2 * (k + 1) = 2 * k + 1 + 1 from rfl, Clocked.run_succ step _ _ (2 * k + 1),
    Clocked.run_succ]
  simp [step, rises, low]

end Controller

end DigitalSystems.Vga
