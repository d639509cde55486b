import DigitalSystems.Vga.ScanOut

/-!
# The captured pixel

A beam position lasts for two cycles of `CLK`.  Read port `b` fetches the word of the
position at the edge between them, and `RGB` takes the pixel at the edge that ends the
second.  Nothing is assumed of the bus traffic while the beam is elsewhere.
-/

namespace DigitalSystems.Vga

/-- Port `b` returns the word that was at its address at the last edge, if that edge
left the word alone. -/
def Onchipmem.ReadsPortB (mem : Onchipmem) : Prop :=
  ∀ ports state,
    mem.word (mem.step ports state) ports.addressB = mem.word state ports.addressB →
      mem.qB (mem.step ports state) = mem.word state ports.addressB

theorem Onchipmem.reference_readsPortB : Onchipmem.reference.ReadsPortB :=
  fun _ _ _ => rfl

namespace Interface

variable {mem : Onchipmem} (font : FontRom) {inputs : Nat → AvalonInput}
  {start : Interface mem}

theorem readB_beforeEdge (portB : mem.ReadsPortB) {k : Nat}
    (started : Started inputs start (2 * (k + 1)))
    (constant : (beforeEdge font inputs start (k + 1)).word =
      (afterEdge font inputs start k).word) :
    (beforeEdge font inputs start (k + 1)).readB =
      (beforeEdge font inputs start (k + 1)).word
        ((TextMode.rowMajorAddress (beforeEdge font inputs start (k + 1)).drawX
          (beforeEdge font inputs start (k + 1)).drawY).setWidth 12) := by
  have position := (after_position font started).2
  have address : (ports (inputs (2 * k + 1)) (afterEdge font inputs start k)).addressB =
      (TextMode.rowMajorAddress (beforeEdge font inputs start (k + 1)).drawX
        (beforeEdge font inputs start (k + 1)).drawY).setWidth 12 := by
    rw [← position.1, ← position.2]
    simp only [ports, Controller.present, started.released (2 * k + 1) (by omega)]
    rfl
  have read := portB (ports (inputs (2 * k + 1)) (afterEdge font inputs start k))
    (afterEdge font inputs start k).ramport (congrFun constant _)
  rw [address] at read
  rw [constant]
  exact read

/-- At every visible position but the first after the reset, `RGB` takes the text-mode
colour of the position, and no index or address on the way is cut short. -/
theorem captured_eq_picture (portB : mem.ReadsPortB) {k x y : Nat}
    (started : Started inputs start (2 * (k + 1) + 1))
    (column : (beforeEdge font inputs start (k + 1)).drawX.toNat = x)
    (row : (beforeEdge font inputs start (k + 1)).drawY.toNat = y)
    (right : x < 640) (low : y < 480)
    (constant : (beforeEdge font inputs start (k + 1)).word =
      (afterEdge font inputs start k).word) :
    (afterEdge font inputs start (k + 1)).rgb =
        picture font (beforeEdge font inputs start (k + 1)) x y ∧
      (TextMode.rowMajorIndex (beforeEdge font inputs start (k + 1)).drawX
          (beforeEdge font inputs start (k + 1)).drawY).toNat = y / 16 * 80 + x / 8 ∧
      (TextMode.rowMajorAddress (beforeEdge font inputs start (k + 1)).drawX
          (beforeEdge font inputs start (k + 1)).drawY).toNat =
        (y / 16 * 80 + x / 8) / 2 ∧
      ∀ char1,
        (TextMode.fontaddr (beforeEdge font inputs start (k + 1)).drawY char1).toNat =
          16 * char1.toNat + y % 16 := by
  subst column row
  refine ⟨?_, TextMode.toNat_rowMajorIndex right low,
    TextMode.toNat_rowMajorAddress right low, ?_⟩
  · have shown : (beforeEdge font inputs start (k + 1)).controller.blank = true :=
      (Controller.blank_eq_true_iff _).mpr ⟨right, low⟩
    have earlier : Started inputs start (2 * (k + 1)) := started.upTo (by omega)
    have read := readB_beforeEdge font portB earlier constant
    have drawn := TextMode.nextRgb_eq_textColour font
      (beforeEdge font inputs start (k + 1)).colorRegisters
      (fun i => (beforeEdge font inputs start (k + 1)).word (BitVec.ofNat 12 i)) right low
    rw [(scan_edge font started).1, if_pos shown, read, picture, ← drawn]
    simp only [BitVec.ofNat_toNat]
  · intro char1
    rw [TextMode.fontaddr_eq, BitVec.toNat_ofNat, Nat.mod_eq_of_lt]
    omega

theorem captured_eq_picture_whiteCorner :
    (afterEdge (fun _ => 0#8) (fun _ => AvalonInput.idle) whiteCorner 1).rgb =
        picture (fun _ => 0#8)
          (beforeEdge (fun _ => 0#8) (fun _ => AvalonInput.idle) whiteCorner 1) 1 0 ∧
      (TextMode.rowMajorIndex
          (beforeEdge (fun _ => 0#8) (fun _ => AvalonInput.idle) whiteCorner 1).drawX
          (beforeEdge (fun _ => 0#8) (fun _ => AvalonInput.idle) whiteCorner 1).drawY).toNat =
        0 / 16 * 80 + 1 / 8 ∧
      (TextMode.rowMajorAddress
          (beforeEdge (fun _ => 0#8) (fun _ => AvalonInput.idle) whiteCorner 1).drawX
          (beforeEdge (fun _ => 0#8) (fun _ => AvalonInput.idle) whiteCorner 1).drawY).toNat =
        (0 / 16 * 80 + 1 / 8) / 2 ∧
      ∀ char1,
        (TextMode.fontaddr
          (beforeEdge (fun _ => 0#8) (fun _ => AvalonInput.idle) whiteCorner 1).drawY
            char1).toNat = 16 * char1.toNat + 0 % 16 :=
  captured_eq_picture (fun _ => 0#8) Onchipmem.reference_readsPortB
    (quiet_whiteCorner.started _) rfl rfl (by decide) (by decide) rfl

end Interface

end DigitalSystems.Vga
