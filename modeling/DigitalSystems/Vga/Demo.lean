import DigitalSystems.Vga.Monitor

/-!
# The demo

`textVGAColorScreenSaver` on the monitor: the calls that its loop makes, the picture they
are meant to give, and the pins.
-/

namespace DigitalSystems.Vga

namespace Driver

open Interface TextMode

variable {mem : Onchipmem} {inputs : Nat → AvalonInput} {start : Interface mem}

def Color.rgb (c : Color) : BitVec 12 :=
  c.red.setWidth 4 ++ c.green.setWidth 4 ++ c.blue.setWidth 4

/-- What `textVGAColorScreenSaver` has done when it has drawn these drawings. -/
def screenSaver (drawings : List Drawing) : List Access :=
  textVGAColorClr.map .store ++ (paletteProgram initialPalette).map .assign ++
    drawings.flatMap fun drawing => (textVGADrawColorText drawing.call).map .store

def Drawing.Covers (drawing : Drawing) (x : Fin 640) (y : Fin 480) : Prop :=
  drawing.y = y / 16 ∧ drawing.x ≤ x / 8 ∧ x / 8 < drawing.x + strlen drawing.str

instance (drawing : Drawing) (x : Fin 640) (y : Fin 480) : Decidable (drawing.Covers x y) :=
  inferInstanceAs (Decidable (_ ∧ _ ∧ _))

def lastDrawing (drawings : List Drawing) (x : Fin 640) (y : Fin 480) : Option Drawing :=
  Clocked.latest? (fun drawing => if drawing.Covers x y then some drawing else none) drawings

def Drawing.pixel (font : FontRom) (drawing : Drawing) (x : Fin 640) (y : Fin 480) :
    BitVec 12 :=
  if glyph font (drawing.str.getD (x / 8 - drawing.x) 0#8).toNat x y then
    (color drawing.fg).rgb
  else (color drawing.bg).rgb

/-- The picture of the screensaver: the drawings, one on top of the other, on black. -/
def screenSaverPixel (font : FontRom) (drawings : List Drawing) (x : Fin 640) (y : Fin 480) :
    BitVec 12 :=
  ((lastDrawing drawings x y).map fun drawing => drawing.pixel font x y).getD 0#12

/-- The string without the zero that ends it. -/
def Drawing.text (drawing : Drawing) : TextCall :=
  { drawing.call with str := drawing.str.takeWhile fun c => c != 0#8 }

theorem drawLoop_takeWhile (x y : Nat) (background foreground : BitVec 8)
    (str : List (BitVec 8)) (i : Nat) :
    drawLoop x y background foreground i (str.takeWhile fun c => c != 0#8) =
      drawLoop x y background foreground i str := by
  induction str generalizing i with
  | nil => rfl
  | cons character str inductionHypothesis =>
      by_cases terminator : character = 0#8
      · simp [drawLoop, terminator]
      · simp [drawLoop, terminator, inductionHypothesis]

def screenSaverCalls (drawings : List Drawing) : List Call :=
  .clear :: (initialPalette.map .palette ++ drawings.map fun drawing => .text drawing.text)

theorem accesses_palettes (calls : List PaletteCall) :
    (calls.map Call.palette).flatMap Call.accesses =
      (paletteProgram calls).map Access.assign := by
  rw [List.flatMap_map, paletteProgram, List.map_flatMap]
  rfl

theorem accesses_texts (drawings : List Drawing) :
    (drawings.map fun drawing => Call.text drawing.text).flatMap Call.accesses =
      drawings.flatMap fun drawing =>
        (textVGADrawColorText drawing.call).map Access.store := by
  rw [List.flatMap_map]
  apply List.flatMap_congr
  intro drawing _
  exact congrArg (List.map Access.store) (drawLoop_takeWhile _ _ _ _ _ _)

theorem accesses_screenSaverCalls (drawings : List Drawing) :
    (screenSaverCalls drawings).flatMap Call.accesses = screenSaver drawings := by
  rw [screenSaverCalls, List.flatMap_cons, List.flatMap_append, accesses_palettes,
    accesses_texts, screenSaver, List.append_assoc, Call.accesses]

theorem name_ascii : ∀ i : Fin 16,
    (bytes (color i).name).all (fun c => c.toNat ≤ 127) = true := by
  decide +kernel

theorem frame_ascii : (bytes "Drawing ").all (fun c => c.toNat ≤ 127) = true ∧
    (bytes " text with ").all (fun c => c.toNat ≤ 127) = true ∧
    (bytes " background").all (fun c => c.toNat ≤ 127) = true := by
  decide +kernel

theorem ascii_colorString (fg bg : Fin 16) :
    ∀ c ∈ (colorString fg bg).takeWhile (fun c => c != 0#8),
      1 ≤ c.toNat ∧ c.toNat ≤ 127 := by
  intro c membership
  have low : (colorString fg bg).all (fun c => c.toNat ≤ 127) = true := by
    simp only [colorString, List.all_append, name_ascii, frame_ascii, Bool.and_self,
      List.all_cons, List.all_nil]
    rfl
  have nonzero : (c != 0#8) = true := (List.all_eq_true.mp List.all_takeWhile c membership)
  have bound := List.all_eq_true.mp low c (List.takeWhile_subset _ membership)
  have positive : c.toNat ≠ 0 := fun zero =>
    absurd (BitVec.eq_of_toNat_eq zero) (by simpa using nonzero)
  exact ⟨Nat.one_le_iff_ne_zero.mpr positive, by simpa using bound⟩

theorem valid_text {drawing : Drawing} (chosen : drawing.Chosen) : drawing.text.Valid where
  row := chosen.row
  fits := by
    have room : Driver.room drawing.str = 80 - strlen drawing.str :=
      room_colorString chosen.distinct
    have short : strlen drawing.str ≤ 54 := strlen_colorString_le chosen.distinct
    have column := chosen.column
    rw [room] at column
    change drawing.x + strlen drawing.str ≤ 80
    omega
  ascii := ascii_colorString drawing.fg drawing.bg
  background := by
    change (BitVec.ofNat 8 drawing.bg).toNat < 16
    rw [BitVec.toNat_ofNat]
    omega
  foreground := by
    change (BitVec.ofNat 8 drawing.fg).toNat < 16
    rw [BitVec.toNat_ofNat]
    omega

theorem perform_palettes (calls : List PaletteCall) (screen : Screen) :
    (calls.map Call.palette).foldl Call.perform screen =
      { screen with
        colour := fun color => (lastColour calls color).getD (screen.colour color) } := by
  rw [List.foldl_map]
  have cell : (calls.foldl (fun s call => Call.perform s (.palette call)) screen).cell =
      screen.cell := by
    induction calls generalizing screen with
    | nil => rfl
    | cons call calls inductionHypothesis => exact inductionHypothesis _
  refine Screen.ext cell ?_
  funext color
  apply Clocked.observe_foldl_eq_latest (fun (s : Screen) call => Call.perform s (.palette call))
    fun s => s.colour color
  intro s call
  have number : (call.color.setWidth 4).toNat = call.color.toNat := by
    rw [BitVec.toNat_setWidth]
    exact Nat.mod_eq_of_lt call.color_lt
  by_cases same : color = call.color.setWidth 4
  · rw [if_pos (by rw [same, number]), same]
    exact Function.update_self _ _ _
  · rw [if_neg (fun equal => same (BitVec.eq_of_toNat_eq (equal.trans number.symm)))]
    exact Function.update_of_ne same _ _

theorem perform_texts (calls : List TextCall) (screen : Screen) :
    (calls.map Call.text).foldl Call.perform screen =
      { screen with
        cell := fun column row =>
          ((lastCall calls column row).map fun call => call.cell (column - call.x)).getD
            (screen.cell column row) } := by
  rw [List.foldl_map]
  have colour : (calls.foldl (fun s call => Call.perform s (.text call)) screen).colour =
      screen.colour := by
    induction calls generalizing screen with
    | nil => rfl
    | cons call calls inductionHypothesis => exact inductionHypothesis _
  refine Screen.ext ?_ colour
  funext column row
  dsimp only
  rw [lastCall, ← Clocked.latest?_map]
  apply Clocked.observe_foldl_eq_latest (fun (s : Screen) call => Call.perform s (.text call))
    fun s => s.cell column row
  intro s call
  by_cases covers : call.Covers column row <;> simp [Call.perform, covers]

theorem lastCall_text (drawings : List Drawing) (x : Fin 640) (y : Fin 480) :
    lastCall (drawings.map Drawing.text) (Screen.column x) (Screen.row y) =
      (lastDrawing drawings x y).map Drawing.text := by
  rw [lastCall, lastDrawing, ← Clocked.latest?_map, Clocked.latest?, Clocked.latest?,
    List.filterMap_map]
  congr 2
  funext drawing
  have same : drawing.text.Covers (Screen.column x) (Screen.row y) ↔ drawing.Covers x y :=
    Iff.rfl
  by_cases covers : drawing.Covers x y
  · simp [same, covers]
  · simp [same, covers]

theorem lastDrawing_covers {drawings : List Drawing} {x : Fin 640} {y : Fin 480}
    {drawing : Drawing} (last : lastDrawing drawings x y = some drawing) :
    drawing ∈ drawings ∧ drawing.Covers x y := by
  obtain ⟨other, membership, selected⟩ := Clocked.exists_of_latest? last
  by_cases covers : other.Covers x y
  · rw [if_pos covers, Option.some.injEq] at selected
    subst selected
    exact ⟨membership, covers⟩
  · rw [if_neg covers] at selected
    exact absurd selected nofun

theorem index_of_cell (font : FontRom) (screen : Screen) (x : Fin 640) (y : Fin 480)
    {cell : Cell} (shown : screen.cell (Screen.column x) (Screen.row y) = cell)
    (upright : cell.invert = false) :
    screen.index font x y = if glyph font cell.char1.toNat x y then cell.fg else cell.bg := by
  rw [Screen.index, shown, upright]
  simp

theorem colour_initialPalette (i : Fin 16) :
    lastColour initialPalette ((BitVec.ofNat 8 i).setWidth 4) = some (color i).rgb := by
  have index : (BitVec.ofNat 8 i).setWidth 4 = BitVec.ofNat 4 i := by
    apply BitVec.eq_of_toNat_eq
    simp only [BitVec.toNat_setWidth, BitVec.toNat_ofNat]
    omega
  rw [index, lastColour_initialPalette]
  rfl

theorem toNat_character {drawing : Drawing} {index : Nat}
    (inside : index < drawing.text.str.length) :
    (drawing.text.cell index).char1.toNat = (drawing.str.getD index 0#8).toNat := by
  have before : drawing.text.str <+: drawing.str := List.takeWhile_prefix _
  have same : drawing.text.str.getD index 0#8 = drawing.str.getD index 0#8 := by
    rw [List.getD_eq_getElem _ _ inside, before.getElem inside,
      List.getD_eq_getElem _ _ (Nat.lt_of_lt_of_le inside before.length_le)]
  have ascii : (drawing.str.getD index 0#8).toNat ≤ 127 := by
    rw [← same, List.getD_eq_getElem _ _ inside]
    exact (ascii_colorString _ _ _ (List.getElem_mem inside)).2
  rw [TextCall.cell, same]
  change (BitVec.setWidth 7 (drawing.str.getD index 0#8)).toNat = _
  rw [BitVec.toNat_setWidth]
  omega

/-- The calls of the screensaver draw its picture. -/
theorem pixel_screenSaverCalls (font : FontRom) (drawings : List Drawing) (screen : Screen)
    (x : Fin 640) (y : Fin 480) :
    ((screenSaverCalls drawings).foldl Call.perform screen).pixel font x y =
      screenSaverPixel font drawings x y := by
  have texts : (drawings.map fun drawing => Call.text drawing.text) =
      (drawings.map Drawing.text).map Call.text := by
    rw [List.map_map]
    rfl
  have cell : ((screenSaverCalls drawings).foldl Call.perform screen).cell
      (Screen.column x) (Screen.row y) =
        ((lastDrawing drawings x y).map fun drawing =>
          drawing.text.cell (x / 8 - drawing.x)).getD emptyCell := by
    rw [screenSaverCalls, List.foldl_cons, List.foldl_append, perform_palettes, texts,
      perform_texts]
    dsimp only
    rw [lastCall_text, Option.map_map]
    rfl
  have colour : ∀ i : Fin 16, ((screenSaverCalls drawings).foldl Call.perform screen).colour
      ((BitVec.ofNat 8 i).setWidth 4) = (color i).rgb := by
    intro i
    rw [screenSaverCalls, List.foldl_cons, List.foldl_append, perform_palettes, texts,
      perform_texts]
    dsimp only
    rw [colour_initialPalette, Option.getD_some]
  rw [Screen.pixel, screenSaverPixel]
  cases last : lastDrawing drawings x y with
  | none =>
      rw [last, Option.map_none, Option.getD_none] at cell
      have index := index_of_cell font _ x y cell rfl
      rw [show emptyCell.fg = emptyCell.bg from rfl, ite_self] at index
      rw [index]
      exact colour 0
  | some drawing =>
      obtain ⟨-, covers⟩ := lastDrawing_covers last
      rw [last] at cell
      have inside : x / 8 - drawing.x < drawing.text.str.length :=
        Nat.sub_lt_left_of_lt_add covers.2.1 covers.2.2
      have index := index_of_cell font _ x y cell rfl
      rw [Option.map_some, Option.getD_some, toNat_character inside] at index
      rw [index, Option.map_some, Option.getD_some, Drawing.pixel]
      split
      · exact colour drawing.fg
      · exact colour drawing.bg

theorem valid_screenSaverCalls {drawings : List Drawing}
    (chosen : ∀ drawing ∈ drawings, drawing.Chosen) :
    ∀ call ∈ screenSaverCalls drawings, call.Valid := by
  intro call membership
  rcases List.mem_cons.mp membership with rfl | rest
  · trivial
  · rcases List.mem_append.mp rest with palette | text
    · obtain ⟨_, -, rfl⟩ := List.mem_map.mp palette
      trivial
    · obtain ⟨drawing, drawn, rfl⟩ := List.mem_map.mp text
      exact valid_text (chosen drawing drawn)

/-- The screensaver on the monitor: whatever the random numbers are and however the bus
delays the accesses, once the palette is set the pins show the finished drawings, each pixel
at the visible position behind its own, and the drawing under way only shows in its own
cells.  A pixel whose word is being written when it is fetched is left open. -/
theorem screenSaver_on_monitor (lawful : mem.Lawful) (font : FontRom) (rand : Nat → Nat)
    (fuel rounds n : Nat) {drawings : List Drawing} {next : Drawing}
    (loop : drawings ++ [next] <+: screenSaverLoop rand fuel rounds n) {j k : Nat}
    {x : Fin 640} {y : Fin 480}
    (started : Started inputs start (2 * (k + 1 + toNextVisible x y) + 1))
    (performed : Performed font inputs start
      (screenSaver drawings ++ ((textVGADrawColorText next.call).map Access.store).take j)
      (2 * (k + 1)))
    (column : (k + 1) % 800 = x) (row : (k + 1) / 800 % 525 = y)
    (undisturbed : Undisturbed inputs (2 * k + 1) x y)
    (outside : j = 0 ∨ ¬ next.Covers x y) :
    PinsShow font inputs start (k + 1) x y (screenSaverPixel font drawings x y) := by
  have chosen : ∀ drawing ∈ drawings ++ [next], drawing.Chosen :=
    fun drawing membership => chosen_of_mem (loop.subset membership)
  have finished : ∀ drawing ∈ drawings, drawing.Chosen :=
    fun drawing membership => chosen drawing (List.mem_append_left _ membership)
  have valid := valid_screenSaverCalls finished
  have text : (textVGADrawColorText next.call).map Access.store =
      (Call.text next.text).accesses :=
    congrArg (List.map Access.store) (drawLoop_takeWhile _ _ _ _ _ _).symm
  have underway : ∀ screen, Underway font screen x y
      (((textVGADrawColorText next.call).map Access.store).take j) := by
    intro screen
    rcases outside with rfl | outside
    · exact .none
    · rw [text]
      exact .inside (.text next.text) j (valid_text (chosen next List.mem_concat_self)) outside
  rw [← accesses_screenSaverCalls] at performed
  have low := offset_program_accesses font valid (underway (contents start).screen)
  have shows := shows_of_performed lawful low started performed column row undisturbed
  rw [List.foldl_append, pixel_underway _ (underway _), screen_program _ valid,
    pixel_screenSaverCalls] at shows
  exact shows

theorem black_lt : 0 < 16 := by decide

theorem blue_lt : 1 < 16 := by decide

def blackOnBlue : Drawing where
  fg := ⟨0, black_lt⟩
  bg := ⟨1, blue_lt⟩
  x := 1
  y := 1

theorem length_blackOnBlue : 3 * (screenSaver [blackOnBlue]).length ≤ 15000 := by
  have palette : (paletteProgram initialPalette).length = 32 := by decide +kernel
  have drawn : (textVGADrawColorText blackOnBlue.call).length ≤ 80 := by decide +kernel
  rw [screenSaver, List.length_append, List.length_append, List.length_map, List.length_map,
    palette, List.flatMap_singleton, List.length_map, textVGAColorClr, List.length_map,
    List.length_range]
  unfold rows columns
  omega

theorem low_blackOnBlue :
    ∀ store, Access.store store ∈ screenSaver [blackOnBlue] → store.offset < 8192 := by
  have chosen : blackOnBlue.Chosen := ⟨by decide, by decide +kernel, by decide⟩
  have low := offset_program_accesses (fun _ => 0xFF#8)
    (valid_screenSaverCalls (List.forall_mem_singleton.mpr chosen))
    (Underway.none : Underway _ (contents cleared).screen 0 0 [])
  rw [accesses_screenSaverCalls, List.append_nil] at low
  exact fun store stored => Nat.lt_trans (low store stored) (by decide)

/-- One drawing is finished, and the next has not begun. -/
theorem performed_blackOnBlue (next : Drawing) {n : Nat} (late : 15000 ≤ n) :
    Performed (fun _ => 0xFF#8) (waveform cleared.colorRegisters (screenSaver [blackOnBlue]))
      cleared (screenSaver [blackOnBlue] ++
        ((textVGADrawColorText next.call).map Access.store).take 0) n := by
  rw [List.take_zero, List.append_nil]
  exact performed_waveform Onchipmem.reference_lawful low_blackOnBlue
    (Nat.le_trans length_blackOnBlue late)

theorem screenSaver_on_monitor_blackOnBlue :
    PinsShow (fun _ => 0xFF#8)
      (waveform cleared.colorRegisters (screenSaver [blackOnBlue])) cleared (436009 + 1) 10 20
      (screenSaverPixel (fun _ => 0xFF#8) [blackOnBlue] 10 20) :=
  have loop : [blackOnBlue] ++ [blackOnBlue] <+:
      screenSaverLoop (fun n => [0, 1, 1, 1].getD (n % 4) 0) 2 2 0 := by
    decide +kernel
  have performed := performed_blackOnBlue blackOnBlue
    (show 15000 ≤ 2 * (436009 + 1) by decide)
  have quiet := @quiet_waveform cleared.colorRegisters (screenSaver [blackOnBlue])
    (2 * 436009 + 1) (Nat.le_trans length_blackOnBlue (by decide))
  screenSaver_on_monitor Onchipmem.reference_lawful (fun _ => 0xFF#8) _ 2 2 0 loop
    (started_waveform rfl _ _ _) performed rfl rfl
    (fun writes => absurd (quiet.symm.trans writes) nofun) (Or.inl rfl)

end Driver

end DigitalSystems.Vga
