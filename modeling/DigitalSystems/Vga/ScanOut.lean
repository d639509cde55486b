import DigitalSystems.Vga.Interface

/-!
# Scan-out

A pixel passes two registers, `RGB` and the channels, and both only move while the
beam is on a visible position.  The channels therefore trail the beam by one visible
pixel: a line starts with the pixel that ended the line before, and keeps its own
last pixel for the next line.
-/

namespace DigitalSystems.Vga.Interface

variable {mem : Onchipmem}

def channels (s : Interface mem) : BitVec 12 := s.red ++ s.green ++ s.blue

/-- The edge of the pixel clock, counted from the reset, that leaves a pixel. -/
def pixelClock (frame line pixel : Nat) : Nat := frame * 420000 + line * 800 + pixel

theorem pixelClock_succ (frame line pixel : Nat) :
    pixelClock frame line (pixel + 1) = pixelClock frame line pixel + 1 :=
  (Nat.add_assoc _ _ _).symm

def previousLine (y : Nat) : Nat := if y = 0 then 479 else y - 1

def picture (font : FontRom) (s : Interface mem) (x y : Nat) : BitVec 12 :=
  TextMode.textColour font s.colorRegisters (fun i => s.word (BitVec.ofNat 12 i)) x y

/-- The edges of the pixel clock are every second edge of `CLK`, the first one
included; these are the registers before and after the `k`-th. -/
def beforeEdge (font : FontRom) (inputs : Nat → AvalonInput) (start : Interface mem)
    (k : Nat) : Interface mem :=
  Clocked.run (step font) inputs start (2 * k)

def afterEdge (font : FontRom) (inputs : Nat → AvalonInput) (start : Interface mem)
    (k : Nat) : Interface mem :=
  Clocked.run (step font) inputs start (2 * k + 1)

/-- The values registered on a visible line are its 640 pixels, in order. -/
def LineScanned (font : FontRom) (inputs : Nat → AvalonInput) (start : Interface mem)
    (frame y : Nat) : Prop :=
  ∀ x, x < 640 →
    (afterEdge font inputs start (pixelClock frame y x)).channels = picture font start x y

/-- A visible line is of one colour, that of the last pixel of the line before. -/
def LineUniform (font : FontRom) (start : Interface mem) (y : Nat) : Prop :=
  ∀ x, x < 640 → picture font start x y = picture font start 639 (previousLine y)

structure AtPixel (s : Interface mem) (x y : Nat) : Prop where
  rises : s.controller.rises = true
  blank : s.controller.blank = true
  drawX : s.drawX.toNat = x
  drawY : s.drawY.toNat = y

theorem channels_of_slices (rgb : BitVec 12) :
    rgb.extractLsb' 8 4 ++ rgb.extractLsb' 4 4 ++ rgb.extractLsb' 0 4 = rgb := by
  have upper : rgb.extractLsb' 8 4 ++ rgb.extractLsb' 4 4 = rgb.extractLsb' 4 8 :=
    BitVec.extractLsb'_append_extractLsb'_eq_extractLsb' rfl
  have whole : rgb.extractLsb' 4 8 ++ rgb.extractLsb' 0 4 = rgb.extractLsb' 0 12 :=
    BitVec.extractLsb'_append_extractLsb'_eq_extractLsb' rfl
  rw [upper]
  exact whole.trans BitVec.extractLsb'_eq_self

section Run

variable (font : FontRom) {inputs : Nat → AvalonInput} {start : Interface mem}

/-- The run starts after a reset, which stays released up to cycle `last`. -/
structure Started (inputs : Nat → AvalonInput) (start : Interface mem) (last : Nat) :
    Prop where
  fresh : start.controller = Controller.zero
  released : ∀ t, t < last → (inputs t).reset = false

/-- The run starts after a reset, and nothing writes video memory or palette. -/
structure Quiet (inputs : Nat → AvalonInput) (start : Interface mem) : Prop where
  fresh : start.controller = Controller.zero
  released : ∀ t, (inputs t).reset = false
  unwritten : ∀ t, (inputs t).avlWrite = false

theorem Started.upTo {last earlier : Nat} (started : Started inputs start last)
    (before : earlier ≤ last) : Started inputs start earlier :=
  ⟨started.fresh, fun t early => started.released t (Nat.lt_of_lt_of_le early before)⟩

theorem Quiet.started (quiet : Quiet inputs start) (last : Nat) :
    Started inputs start last :=
  ⟨quiet.fresh, fun t _ => quiet.released t⟩

theorem controller_run {t : Nat} (started : Started inputs start t) :
    (Clocked.run (step font) inputs start t).controller =
      Clocked.run Controller.step (fun _ => false) Controller.zero t := by
  obtain ⟨fresh, released⟩ := started
  induction t with
  | zero => exact fresh
  | succ t inductionHypothesis =>
      rw [Clocked.run_succ, Clocked.run_succ, step_controller,
        released t (Nat.lt_succ_self t),
        inductionHypothesis fun u before => released u (Nat.lt_succ_of_lt before)]

theorem contents_run (lawful : mem.Lawful) (quiet : Quiet inputs start) (t : Nat) :
    (Clocked.run (step font) inputs start t).word = start.word ∧
      (Clocked.run (step font) inputs start t).colorRegisters = start.colorRegisters := by
  apply Clocked.run_invariant fun s : Interface mem =>
    s.word = start.word ∧ s.colorRegisters = start.colorRegisters
  · exact ⟨rfl, rfl⟩
  · rintro t s ⟨word, palette⟩
    refine ⟨(word_step_of_idle font _ s lawful (quiet.unwritten t)).trans word, ?_⟩
    rw [← palette, step_colorRegisters, nextColorRegisters]
    simp [quiet.unwritten t]

theorem before_position {k : Nat} (started : Started inputs start (2 * k)) :
    (beforeEdge font inputs start k).controller.rises = true ∧
      (beforeEdge font inputs start k).drawX.toNat = k % 800 ∧
      (beforeEdge font inputs start k).drawY.toNat = k / 800 % 525 := by
  have position := Controller.position_run k
  rw [← controller_run font started] at position
  refine ⟨?_, position.2⟩
  exact congrArg Bool.not position.1

theorem after_position {k : Nat} (started : Started inputs start (2 * (k + 1))) :
    (afterEdge font inputs start k).controller.rises = false ∧
      (afterEdge font inputs start k).drawX = (beforeEdge font inputs start (k + 1)).drawX ∧
      (afterEdge font inputs start k).drawY = (beforeEdge font inputs start (k + 1)).drawY := by
  have position := Controller.position_between k
  have earlier : Started inputs start (2 * k + 1) := started.upTo (by omega)
  rw [← controller_run font earlier, ← controller_run font started] at position
  refine ⟨?_, position.2⟩
  exact congrArg Bool.not position.1

theorem scan_edge {k : Nat} (started : Started inputs start (2 * k + 1)) :
    (afterEdge font inputs start k).rgb =
        (if (beforeEdge font inputs start k).controller.blank then
          TextMode.nextRgb (beforeEdge font inputs start k).drawX
            (beforeEdge font inputs start k).drawY font
            (beforeEdge font inputs start k).colorRegisters
            (beforeEdge font inputs start k).readB
        else (beforeEdge font inputs start k).rgb) ∧
      (afterEdge font inputs start k).channels =
        if (beforeEdge font inputs start k).controller.blank then
          (beforeEdge font inputs start k).rgb
        else 0#12 := by
  have earlier : Started inputs start (2 * k) := started.upTo (by omega)
  have edge : pixelEdge (inputs (2 * k)) (beforeEdge font inputs start k) = true := by
    simp [pixelEdge, started.released (2 * k) (Nat.lt_succ_self _),
      (before_position font earlier).1]
  have step_eq : afterEdge font inputs start k =
      step font (inputs (2 * k)) (beforeEdge font inputs start k) := rfl
  rw [step_eq]
  generalize beforeEdge font inputs start k = s at edge ⊢
  cases visible : s.controller.blank
  · simp [step, channels, scan, edge, visible]
  · simp [step, channels, scan, edge, visible, channels_of_slices]

/-- The other edge of the clock leaves the colours alone and reads the next word. -/
theorem between_edges (lawful : mem.Lawful) (quiet : Quiet inputs start) (k : Nat) :
    (beforeEdge font inputs start (k + 1)).rgb = (afterEdge font inputs start k).rgb ∧
      (beforeEdge font inputs start (k + 1)).readB =
        start.word ((TextMode.rowMajorAddress
          (beforeEdge font inputs start (k + 1)).drawX
          (beforeEdge font inputs start (k + 1)).drawY).setWidth 12) := by
  have step_eq : beforeEdge font inputs start (k + 1) =
      step font (inputs (2 * k + 1)) (afterEdge font inputs start k) := rfl
  have position := after_position font (quiet.started (2 * (k + 1)))
  have held : pixelEdge (inputs (2 * k + 1)) (afterEdge font inputs start k) = false := by
    simp [pixelEdge, position.1]
  constructor
  · rw [step_eq, step, held]
    rfl
  · rw [← position.2.1, ← position.2.2, step_eq]
    have read := lawful.qB_read (ports (inputs (2 * k + 1)) (afterEdge font inputs start k))
      (afterEdge font inputs start k).ramport
      (fun writes => absurd writes (by simp [ports, quiet.unwritten]))
    refine read.trans ?_
    simp only [ports, Controller.present, quiet.released]
    exact congrFun (contents_run font lawful quiet (2 * k + 1)).1 _

theorem rgb_succ (lawful : mem.Lawful) (quiet : Quiet inputs start) (k : Nat)
    (begun : 0 < k) :
    (beforeEdge font inputs start (k + 1)).rgb =
      if (beforeEdge font inputs start k).controller.blank then
        picture font start (k % 800) (k / 800 % 525)
      else (beforeEdge font inputs start k).rgb := by
  obtain ⟨k, rfl⟩ := Nat.exists_eq_succ_of_ne_zero (Nat.ne_of_gt begun)
  rw [(between_edges font lawful quiet (k + 1)).1,
    (scan_edge font (quiet.started (2 * (k + 1) + 1))).1]
  cases visible : (beforeEdge font inputs start (k + 1)).controller.blank with
  | false => rfl
  | true =>
      have position := (before_position font (quiet.started (2 * (k + 1)))).2
      have inside : (beforeEdge font inputs start (k + 1)).drawX.toNat < 640 ∧
          (beforeEdge font inputs start (k + 1)).drawY.toNat < 480 :=
        (Controller.blank_eq_true_iff _).mp visible
      have drawn := TextMode.nextRgb_eq_textColour font start.colorRegisters
        (fun i => start.word (BitVec.ofNat 12 i)) inside.1 inside.2
      have palette : (beforeEdge font inputs start (k + 1)).colorRegisters =
          start.colorRegisters := (contents_run font lawful quiet (2 * (k + 1))).2
      rw [if_pos rfl, if_pos rfl, (between_edges font lawful quiet k).2, palette, picture,
        ← position.1, ← position.2]
      simpa only [BitVec.ofNat_toNat] using drawn

theorem blank_iff (quiet : Quiet inputs start) (k : Nat) :
    (beforeEdge font inputs start k).controller.blank = true ↔
      k % 800 < 640 ∧ k / 800 % 525 < 480 := by
  have position := (before_position font (quiet.started (2 * k))).2
  rw [Controller.blank_eq_true_iff, ← position.1, ← position.2]
  rfl

theorem rgb_hold (lawful : mem.Lawful) (quiet : Quiet inputs start) {k : Nat}
    (begun : 0 < k) (m : Nat)
    (outside : ∀ j, j < m → ¬ ((k + j) % 800 < 640 ∧ (k + j) / 800 % 525 < 480)) :
    (beforeEdge font inputs start (k + m)).rgb = (beforeEdge font inputs start k).rgb := by
  induction m with
  | zero => rfl
  | succ m inductionHypothesis =>
      have hidden : ¬ (beforeEdge font inputs start (k + m)).controller.blank = true := by
        rw [blank_iff font quiet]
        exact outside m (Nat.lt_succ_self m)
      rw [← Nat.add_assoc, rgb_succ font lawful quiet (k + m) (by omega), if_neg hidden]
      exact inductionHypothesis fun j before => outside j (Nat.lt_succ_of_lt before)

theorem rgb_inside (lawful : mem.Lawful) (quiet : Quiet inputs start) {frame y x : Nat}
    (begun : 0 < pixelClock frame y x) (visible : y < 480) (inside : x < 640) :
    (beforeEdge font inputs start (pixelClock frame y x + 1)).rgb =
      picture font start x y := by
  have column : pixelClock frame y x % 800 = x := by
    unfold pixelClock
    omega
  have row : pixelClock frame y x / 800 % 525 = y := by
    unfold pixelClock
    omega
  have shown := (blank_iff font quiet (pixelClock frame y x)).mpr (by omega)
  rw [rgb_succ font lawful quiet _ begun, if_pos shown, column, row]

theorem rgb_first (lawful : mem.Lawful) (quiet : Quiet inputs start) {frame y : Nat}
    (later : 1 ≤ frame) (visible : y < 480) :
    (beforeEdge font inputs start (pixelClock frame y 0)).rgb =
      picture font start 639 (previousLine y) := by
  unfold previousLine
  by_cases top : y = 0
  · obtain ⟨frame, rfl⟩ := Nat.exists_eq_add_of_le later
    have last := rgb_inside font lawful quiet (show 0 < pixelClock frame 479 639 by
      unfold pixelClock; omega) (by decide) (by decide)
    have gap : pixelClock (1 + frame) y 0 = pixelClock frame 479 639 + 1 + 36160 := by
      unfold pixelClock
      omega
    rw [gap, rgb_hold font lawful quiet (Nat.succ_pos _), last, if_pos top]
    intro j bound
    unfold pixelClock
    omega
  · have last := rgb_inside font lawful quiet (show 0 < pixelClock frame (y - 1) 639 by
      unfold pixelClock; omega) (show y - 1 < 480 by omega) (by decide)
    have gap : pixelClock frame y 0 = pixelClock frame (y - 1) 639 + 1 + 160 := by
      unfold pixelClock
      omega
    rw [gap, rgb_hold font lawful quiet (Nat.succ_pos _), last, if_neg top]
    intro j bound
    unfold pixelClock
    omega

theorem atPixel (quiet : Quiet inputs start) {frame y x : Nat} (visible : y < 480)
    (inside : x < 640) :
    AtPixel (beforeEdge font inputs start (pixelClock frame y x)) x y := by
  have position := before_position font (quiet.started (2 * pixelClock frame y x))
  have column : pixelClock frame y x % 800 = x := by
    unfold pixelClock
    omega
  have row : pixelClock frame y x / 800 % 525 = y := by
    unfold pixelClock
    omega
  rw [column, row] at position
  refine ⟨position.1, ?_, position.2.1, position.2.2⟩
  rw [blank_iff font quiet, column, row]
  exact ⟨inside, visible⟩

theorem channels_of_visible (quiet : Quiet inputs start) {frame y x : Nat}
    (visible : y < 480) (inside : x < 640) :
    (afterEdge font inputs start (pixelClock frame y x)).channels =
      (beforeEdge font inputs start (pixelClock frame y x)).rgb := by
  rw [(scan_edge font (quiet.started _)).2, if_pos (atPixel font quiet visible inside).blank]

/-- On every visible line after the first frame the beam passes the 640 positions in
order; the values registered there are the pixels of the line if and only if the line
has the one colour of the pixel before it; all other edges register black. -/
theorem lineScanned_iff_lineUniform (lawful : mem.Lawful) (quiet : Quiet inputs start)
    {frame y : Nat} (later : 1 ≤ frame) (visible : y < 480) :
    (∀ x, x < 640 →
        AtPixel (beforeEdge font inputs start (pixelClock frame y x)) x y) ∧
      (LineScanned font inputs start frame y ↔ LineUniform font start y) ∧
      ∀ k, (beforeEdge font inputs start k).controller.blank = false →
        (afterEdge font inputs start k).channels = 0#12 := by
  have first : (afterEdge font inputs start (pixelClock frame y 0)).channels =
      picture font start 639 (previousLine y) := by
    rw [channels_of_visible font quiet visible (by decide),
      rgb_first font lawful quiet later visible]
  have next : ∀ x, x + 1 < 640 →
      (afterEdge font inputs start (pixelClock frame y (x + 1))).channels =
        picture font start x y := by
    intro x inside
    have begun : 0 < pixelClock frame y x := by
      unfold pixelClock
      omega
    rw [channels_of_visible font quiet visible inside, pixelClock_succ]
    exact rgb_inside font lawful quiet begun visible (Nat.lt_of_succ_lt inside)
  refine ⟨fun x inside => atPixel font quiet visible inside, ⟨?_, ?_⟩, ?_⟩
  · intro scanned x inside
    induction x with
    | zero => exact (scanned 0 inside).symm.trans first
    | succ x inductionHypothesis =>
        rw [← scanned (x + 1) inside, next x inside]
        exact inductionHypothesis (Nat.lt_of_succ_lt inside)
  · intro uniform x inside
    cases x with
    | zero => exact first.trans (uniform 0 inside).symm
    | succ x =>
        rw [next x inside, uniform x (Nat.lt_of_succ_lt inside), uniform (x + 1) inside]
  · intro k hidden
    rw [(scan_edge font (quiet.started _)).2, hidden]
    rfl

end Run

def whiteCorner : Interface Onchipmem.reference :=
  { cleared with
    ramport := (fun address => if address = 0#12 then 1#32 else 0#32, 0#32, 0#32)
    colorRegisters := fun _ => 0x01FFE000#32 }

theorem quiet_whiteCorner : Quiet (fun _ => AvalonInput.idle) whiteCorner :=
  ⟨rfl, fun _ => rfl, fun _ => rfl⟩

/-- The top line starts black. -/
theorem whiteCorner_not_scanned :
    ¬ LineScanned (fun _ => 0#8) (fun _ => AvalonInput.idle) whiteCorner 1 0 := by
  intro scanned
  have shown := scanned 0 (by decide)
  rw [channels_of_visible _ quiet_whiteCorner (by decide) (by decide),
    rgb_first _ Onchipmem.reference_lawful quiet_whiteCorner (by decide) (by decide)] at shown
  exact absurd shown (by decide +kernel)

theorem lineScanned_iff_lineUniform_whiteCorner :
    (∀ x, x < 640 →
        AtPixel (beforeEdge (fun _ => 0#8) (fun _ => AvalonInput.idle) whiteCorner
          (pixelClock 1 0 x)) x 0) ∧
      (LineScanned (fun _ => 0#8) (fun _ => AvalonInput.idle) whiteCorner 1 0 ↔
        LineUniform (fun _ => 0#8) whiteCorner 0) ∧
      ∀ k, (beforeEdge (fun _ => 0#8) (fun _ => AvalonInput.idle) whiteCorner
          k).controller.blank = false →
        (afterEdge (fun _ => 0#8) (fun _ => AvalonInput.idle) whiteCorner k).channels =
          0#12 :=
  lineScanned_iff_lineUniform (fun _ => 0#8) Onchipmem.reference_lawful quiet_whiteCorner
    (by decide) (by decide)

end DigitalSystems.Vga.Interface
