import DigitalSystems.Vga.Accesses
import DigitalSystems.Vga.ScanOut

/-!
# The monitor

From the calls of the driver to the colours at the pins: the beam, which never waits,
shows the screen that the calls have made so far.
-/

namespace DigitalSystems.Vga

namespace Driver

open Interface

variable {mem : Onchipmem} {font : FontRom} {inputs : Nat → AvalonInput}
  {start : Interface mem}

section ScanOut

theorem cellColour_append (font : FontRom) (palette : Palette) (character colours : BitVec 8)
    (x y : Nat) :
    TextMode.cellColour font palette (character ++ colours) x y =
      TextMode.selectRgb palette
        (if TextMode.glyph font (Contents.cellOf colours character).char1.toNat x y !=
            (Contents.cellOf colours character).invert then
          (Contents.cellOf colours character).fg
        else (Contents.cellOf colours character).bg) := by
  have bit : ∀ i, (character ++ colours : BitVec 16).getLsbD i =
      if i < 8 then colours.getLsbD i else character.getLsbD (i - 8) :=
    fun _ => BitVec.getLsbD_append
  generalize (character ++ colours : BitVec 16) = half at bit ⊢
  have code : half.extractLsb' 8 7 = character.extractLsb' 0 7 := by
    apply BitVec.eq_of_getLsbD_eq
    intro i bound
    simp [bit, bound]
  have upright : half.getLsbD 15 = character.getLsbD 7 := bit 15
  have nibble : ∀ first, first ≤ 4 →
      half.extractLsb' first 4 = colours.extractLsb' first 4 := by
    intro first low
    apply BitVec.eq_of_getLsbD_eq
    intro i bound
    have inside : first + i < 8 := by omega
    simp [bit, bound, inside]
  rw [TextMode.cellColour, TextMode.foreground, code, upright, nibble 4 (by decide),
    nibble 0 (by decide), ← TextMode.selectRgb_eq_colour, ← TextMode.selectRgb_eq_colour,
    apply_ite (TextMode.selectRgb palette)]
  rfl

/-- The pixel that the drawing logic makes of the registers. -/
theorem pixel_eq_screen (font : FontRom) (s : Interface mem) {drawX drawY : BitVec 10}
    {x : Fin 640} {y : Fin 480} (column : drawX.toNat = x) (row : drawY.toNat = y) :
    pixel font s.colorRegisters s drawX drawY = (contents s).screen.pixel font x y := by
  have right : drawX.toNat < 640 := by omega
  have low : drawY.toNat < 480 := by omega
  rw [pixel_eq_cellColour font _ s right low, column, row, cellColour_append]
  rfl

/-- The bus leaves the word of position `(x, y)` alone in cycle `t`. -/
def Undisturbed (inputs : Nat → AvalonInput) (t : Nat) (x : Fin 640) (y : Fin 480) : Prop :=
  (inputs t).avlWrite = true →
    (inputs t).avlAddr.toNat ≠ (y / 16 * 80 + x / 8) / 2

theorem readB_of_undisturbed (lawful : mem.Lawful) {k : Nat}
    (started : Started inputs start (2 * (k + 1)))
    (undisturbed : (inputs (2 * k + 1)).avlWrite = true →
      (inputs (2 * k + 1)).avlAddr.toNat ≠
        (TextMode.rowMajorAddress (beforeEdge font inputs start (k + 1)).drawX
          (beforeEdge font inputs start (k + 1)).drawY).toNat) :
    (beforeEdge font inputs start (k + 1)).readB =
      (beforeEdge font inputs start (k + 1)).word
        ((TextMode.rowMajorAddress (beforeEdge font inputs start (k + 1)).drawX
          (beforeEdge font inputs start (k + 1)).drawY).setWidth 12) := by
  have position := (after_position font started).2
  generalize address : (TextMode.rowMajorAddress (beforeEdge font inputs start (k + 1)).drawX
    (beforeEdge font inputs start (k + 1)).drawY) = fetched at undisturbed ⊢
  have port : (ports (inputs (2 * k + 1)) (afterEdge font inputs start k)).addressB =
      fetched.setWidth 12 := by
    rw [← address, ← position.1, ← position.2]
    simp only [ports, Controller.present, started.released (2 * k + 1) (by omega)]
    rfl
  have other : (inputs (2 * k + 1)).avlWrite = true →
      (inputs (2 * k + 1)).avlAddr ≠ fetched.setWidth 12 := by
    intro writes equal
    apply undisturbed writes
    rw [equal, BitVec.toNat_setWidth, Nat.mod_eq_of_lt (by omega)]
  have kept : (beforeEdge font inputs start (k + 1)).word (fetched.setWidth 12) =
      (afterEdge font inputs start k).word (fetched.setWidth 12) := by
    cases writes : (inputs (2 * k + 1)).avlWrite with
    | false => exact congrFun (word_step_of_idle font _ _ lawful writes) _
    | true => exact word_step_of_ne font _ _ lawful (other writes)
  have read := lawful.qB_read (ports (inputs (2 * k + 1)) (afterEdge font inputs start k))
    (afterEdge font inputs start k).ramport (by rw [port]; exact other)
  rw [port] at read
  exact read.trans kept.symm

/-- `RGB` takes the pixel of the contents at the edge, if the word was not being written
when it was fetched. -/
theorem rgb_of_undisturbed (lawful : mem.Lawful) {k : Nat}
    (started : Started inputs start (2 * (k + 1) + 1)) {x : Fin 640} {y : Fin 480}
    (column : (k + 1) % 800 = x) (row : (k + 1) / 800 % 525 = y)
    (undisturbed : Undisturbed inputs (2 * k + 1) x y) :
    (beforeEdge font inputs start (k + 1)).controller.blank = true ∧
      (afterEdge font inputs start (k + 1)).rgb =
        (contents (beforeEdge font inputs start (k + 1))).screen.pixel font x y := by
  have earlier : Started inputs start (2 * (k + 1)) := started.upTo (by omega)
  have position := (before_position font earlier).2
  rw [column, row] at position
  have right : (beforeEdge font inputs start (k + 1)).drawX.toNat < 640 := by omega
  have low : (beforeEdge font inputs start (k + 1)).drawY.toNat < 480 := by omega
  have shown : (beforeEdge font inputs start (k + 1)).controller.blank = true :=
    (Controller.blank_eq_true_iff _).mpr ⟨right, low⟩
  have fetched := @readB_of_undisturbed _ font _ _ lawful _ earlier (fun writes => by
    rw [TextMode.toNat_rowMajorAddress right low, position.1, position.2]
    exact undisturbed writes)
  refine ⟨shown, ?_⟩
  rw [(scan_edge font started).1, if_pos shown, fetched,
    ← pixel_eq_screen font _ position.1 position.2]
  rfl

/-- A position of the beam at an edge of the pixel clock. -/
def Visible (k : Nat) : Prop := k % 800 < 640 ∧ k / 800 % 525 < 480

/-- From a visible position to the next one: on the line, on the next line or at the top. -/
def toNextVisible (x : Fin 640) (y : Fin 480) : Nat :=
  if x.val + 1 < 640 then 1 else if y.val + 1 < 480 then 161 else 36161

theorem next_visible {k : Nat} {x : Fin 640} {y : Fin 480} (column : k % 800 = x)
    (row : k / 800 % 525 = y) :
    Visible (k + toNextVisible x y) ∧
      ∀ j, 0 < j → j < toNextVisible x y → ¬ Visible (k + j) := by
  obtain ⟨frame, rfl⟩ : ∃ frame, k = pixelClock frame y x := by
    refine ⟨k / 420000, ?_⟩
    have nested : k / 800 / 525 = k / 420000 := Nat.div_div_eq_div_mul k 800 525
    unfold pixelClock
    omega
  obtain ⟨x, right⟩ := x
  obtain ⟨y, low⟩ := y
  unfold Visible toNextVisible pixelClock
  dsimp only
  split_ifs with inside above
  · exact ⟨by omega, fun j positive before => by omega⟩
  · exact ⟨by omega, fun j positive before => by omega⟩
  · exact ⟨by omega, fun j positive before => by omega⟩

theorem blank_of_started {k : Nat} (started : Started inputs start (2 * k)) :
    (beforeEdge font inputs start k).controller.blank = true ↔ Visible k := by
  have position := (before_position font started).2
  rw [Controller.blank_eq_true_iff, Visible, ← position.1, ← position.2]
  rfl

theorem rgb_between {k : Nat} (started : Started inputs start (2 * (k + 1))) :
    (beforeEdge font inputs start (k + 1)).rgb = (afterEdge font inputs start k).rgb := by
  have held : pixelEdge (inputs (2 * k + 1)) (afterEdge font inputs start k) = false := by
    simp [pixelEdge, (after_position font started).1]
  change (step font (inputs (2 * k + 1)) (afterEdge font inputs start k)).rgb = _
  rw [step, held]
  rfl

section Gap

variable {k gap : Nat} (started : Started inputs start (2 * (k + gap) + 1))
  (hidden : ∀ j, 0 < j → j < gap → ¬ Visible (k + j))

include started hidden

theorem rgb_while_hidden {j : Nat} (before : j < gap) :
    (afterEdge font inputs start (k + j)).rgb = (afterEdge font inputs start k).rgb := by
  induction j with
  | zero => rfl
  | succ j inductionHypothesis =>
      have edge : Started inputs start (2 * (k + j + 1) + 1) := started.upTo (by omega)
      have earlier : Started inputs start (2 * (k + j + 1)) := started.upTo (by omega)
      have dark : ¬ (beforeEdge font inputs start (k + j + 1)).controller.blank = true := by
        rw [blank_of_started earlier]
        exact hidden (j + 1) (Nat.succ_pos j) before
      rw [← Nat.add_assoc, (scan_edge font edge).1, if_neg dark, rgb_between earlier]
      exact inductionHypothesis (Nat.lt_of_succ_lt before)

theorem channels_while_hidden {j : Nat} (positive : 0 < j) (before : j < gap) :
    (afterEdge font inputs start (k + j)).channels = 0#12 := by
  have edge : Started inputs start (2 * (k + j) + 1) := started.upTo (by omega)
  have earlier : Started inputs start (2 * (k + j)) := started.upTo (by omega)
  have dark : ¬ (beforeEdge font inputs start (k + j)).controller.blank = true := by
    rw [blank_of_started earlier]
    exact hidden j positive before
  rw [(scan_edge font edge).2, if_neg dark]

/-- What `RGB` has taken comes to the pins at the next visible position. -/
theorem channels_at_next (positive : 0 < gap) (visible : Visible (k + gap)) :
    (afterEdge font inputs start (k + gap)).channels = (afterEdge font inputs start k).rgb := by
  obtain ⟨last, rfl⟩ := Nat.exists_eq_add_one_of_ne_zero (Nat.ne_of_gt positive)
  have earlier : Started inputs start (2 * (k + last + 1)) := started.upTo (by omega)
  have lit : (beforeEdge font inputs start (k + last + 1)).controller.blank = true :=
    (blank_of_started earlier).mpr visible
  rw [← @rgb_while_hidden _ font _ _ _ _ started hidden _ (Nat.lt_succ_self last),
    ← rgb_between earlier]
  rw [← Nat.add_assoc] at started ⊢
  rw [(scan_edge font started).2, if_pos lit]

end Gap

/-- The pixel at `(x, y)` is taken at edge `k`, it is at the pins at the next visible
position, and the pins are black meanwhile. -/
structure PinsShow (font : FontRom) (inputs : Nat → AvalonInput) (start : Interface mem)
    (k : Nat) (x : Fin 640) (y : Fin 480) (pixel : BitVec 12) : Prop where
  taken : (afterEdge font inputs start k).rgb = pixel
  shown : (afterEdge font inputs start (k + toNextVisible x y)).channels = pixel
  black : ∀ j, 0 < j → j < toNextVisible x y →
    (afterEdge font inputs start (k + j)).channels = 0#12

/-- The pins show what has been stored. -/
theorem shows_of_performed (lawful : mem.Lawful) {accesses : List Access} {k : Nat}
    {x : Fin 640} {y : Fin 480}
    (low : ∀ store, Access.store store ∈ accesses → store.offset < rows * columns * 2)
    (started : Started inputs start (2 * (k + 1 + toNextVisible x y) + 1))
    (performed : Performed font inputs start accesses (2 * (k + 1)))
    (column : (k + 1) % 800 = x) (row : (k + 1) / 800 % 525 = y)
    (undisturbed : Undisturbed inputs (2 * k + 1) x y) :
    PinsShow font inputs start (k + 1) x y
      ((accesses.foldl Contents.access (contents start)).screen.pixel font x y) := by
  have earlier : Started inputs start (2 * (k + 1) + 1) := started.upTo (by omega)
  have stored := stores_of_performed lawful
    (fun store membership => Nat.lt_trans (low store membership) (by decide)) performed
  have captured := (@rgb_of_undisturbed _ font _ _ lawful _ earlier _ _ column row undisturbed).2
  have screen : (contents (beforeEdge font inputs start (k + 1))).screen =
      (accesses.foldl Contents.access (contents start)).screen :=
    Contents.screen_of_bytes
      (fun offset inside => stored.byte offset (Nat.lt_trans inside (by decide))) stored.palette
  rw [screen] at captured
  obtain ⟨visible, hidden⟩ := next_visible column row
  have positive : 0 < toNextVisible x y := by
    unfold toNextVisible
    split_ifs <;> decide
  refine ⟨captured, ?_, fun j after before => ?_⟩
  · rw [channels_at_next started hidden positive visible, captured]
  · exact channels_while_hidden started hidden after before

theorem started_waveform (fresh : start.controller = Controller.zero) (palette : Palette)
    (accesses : List Access) (last : Nat) :
    Started (waveform palette accesses) start last :=
  ⟨fresh, fun t _ => reset_waveform palette accesses t⟩

end ScanOut

end Driver

end DigitalSystems.Vga
