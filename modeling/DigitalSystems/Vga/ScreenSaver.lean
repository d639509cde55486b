import DigitalSystems.Vga.PaletteDriver

/-!
# The screensaver

`textVGAColorScreenSaver` prints the names of two different colours at a random place.
The random numbers are a stream; the loop that draws the colours again while they are
equal runs on fuel, and the endless loop for a number of rounds.
-/

namespace DigitalSystems.Vga.Driver

open Interface TextMode

structure Color where
  name : String
  red : BitVec 8
  green : BitVec 8
  blue : BitVec 8

def colors : List Color :=
  [ { name := "black", red := 0x0#8, green := 0x0#8, blue := 0x0#8 },
    { name := "blue", red := 0x0#8, green := 0x0#8, blue := 0xa#8 },
    { name := "green", red := 0x0#8, green := 0xa#8, blue := 0x0#8 },
    { name := "cyan", red := 0x0#8, green := 0xa#8, blue := 0xa#8 },
    { name := "red", red := 0xa#8, green := 0x0#8, blue := 0x0#8 },
    { name := "magenta", red := 0xa#8, green := 0x0#8, blue := 0xa#8 },
    { name := "brown", red := 0xa#8, green := 0x5#8, blue := 0x0#8 },
    { name := "light gray", red := 0xa#8, green := 0xa#8, blue := 0xa#8 },
    { name := "dark gray", red := 0x5#8, green := 0x5#8, blue := 0x5#8 },
    { name := "light blue", red := 0x5#8, green := 0x5#8, blue := 0xf#8 },
    { name := "light green", red := 0x5#8, green := 0xf#8, blue := 0x5#8 },
    { name := "light cyan", red := 0x5#8, green := 0xf#8, blue := 0xf#8 },
    { name := "light red", red := 0xf#8, green := 0x5#8, blue := 0x5#8 },
    { name := "light magenta", red := 0xf#8, green := 0x5#8, blue := 0xf#8 },
    { name := "yellow", red := 0xf#8, green := 0xf#8, blue := 0x5#8 },
    { name := "white", red := 0xf#8, green := 0xf#8, blue := 0xf#8 } ]

def color (i : Fin 16) : Color := colors.get i

def bytes (text : String) : List (BitVec 8) :=
  text.toList.map fun character => BitVec.ofNat 8 character.toNat

/-- `"Drawing %s text with %s background"`, and the zero that ends it. -/
def colorString (fg bg : Fin 16) : List (BitVec 8) :=
  bytes "Drawing " ++ bytes (color fg).name ++ bytes " text with " ++
    bytes (color bg).name ++ bytes " background" ++ [0#8]

/-- The size of `color_string`. -/
def colorStringSize : Nat := 80

def strlen (str : List (BitVec 8)) : Nat := (str.takeWhile fun c => c != 0#8).length

/-- `80-strlen(color_string)`, in the 32 bits of `size_t`. -/
def room (str : List (BitVec 8)) : Nat := (80 + 2 ^ 32 - strlen str) % 2 ^ 32

/-- The colour choice from the `n`-th random number on, and where it leaves the stream. -/
def chooseColors (rand : Nat → Nat) : Nat → Nat → Option (Fin 16 × Fin 16 × Nat)
  | 0, _ => none
  | fuel + 1, n =>
      let fg := Fin.ofNat 16 (rand n)
      let bg := Fin.ofNat 16 (rand (n + 1))
      if fg = bg then chooseColors rand fuel (n + 2) else some (fg, bg, n + 2)

/-- What one round of the loop has drawn. -/
structure Drawing where
  fg : Fin 16
  bg : Fin 16
  x : Nat
  y : Nat
  deriving DecidableEq

def Drawing.str (drawing : Drawing) : List (BitVec 8) := colorString drawing.fg drawing.bg

def Drawing.call (drawing : Drawing) : TextCall where
  str := drawing.str
  x := drawing.x
  y := drawing.y
  background := BitVec.ofNat 8 drawing.bg
  foreground := BitVec.ofNat 8 drawing.fg

def screenSaverLoop (rand : Nat → Nat) (fuel : Nat) : Nat → Nat → List Drawing
  | 0, _ => []
  | rounds + 1, n =>
      match chooseColors rand fuel n with
      | none => []
      | some (fg, bg, n) =>
          { fg := fg
            bg := bg
            x := rand n % room (colorString fg bg)
            y := rand (n + 1) % 30 } ::
          screenSaverLoop rand fuel rounds (n + 2)

/-- The palette loop of `textVGAColorScreenSaver`. -/
def initialPalette : List PaletteCall :=
  (List.finRange 16).map fun i : Fin 16 =>
    { color := BitVec.ofNat 8 i
      red := (color i).red
      green := (color i).green
      blue := (color i).blue
      color_lt := by revert i; decide
      red_lt := by revert i; decide
      green_lt := by revert i; decide
      blue_lt := by revert i; decide }

/-- A drawing whose string fits its buffer, that stores both bytes of every character, whose
stores stay in one row of the screen and carry two different colours that also look
different. -/
structure Drawing.Safe (drawing : Drawing) : Prop where
  fits : drawing.str.length ≤ colorStringSize
  room : 0 < room drawing.str ∧ room drawing.str = 80 - strlen drawing.str
  drawn : ∀ i, i < strlen drawing.str →
    ({ offset := (drawing.y * columns + drawing.x + i) * 2
       value := BitVec.ofNat 8 drawing.fg <<< 4 ||| BitVec.ofNat 8 drawing.bg } : Store) ∈
        textVGADrawColorText drawing.call ∧
      ({ offset := (drawing.y * columns + drawing.x + i) * 2 + 1
         value := drawing.str.getD i 0#8 } : Store) ∈ textVGADrawColorText drawing.call
  inside : ∀ store ∈ textVGADrawColorText drawing.call, store.offset < rows * columns * 2
  oneRow : ∀ store ∈ textVGADrawColorText drawing.call,
    store.offset / 2 / columns = drawing.y
  nibbles : ∀ store ∈ textVGADrawColorText drawing.call, store.offset % 2 = 0 →
    (store.value.extractLsb' 4 4).toNat = drawing.fg ∧
      (store.value.extractLsb' 0 4).toNat = drawing.bg
  distinct : drawing.fg ≠ drawing.bg
  readable : ∀ (mem : Onchipmem) (font : FontRom) (timing : Nat → Timing)
    (start : Interface mem),
    selectRgb (execute font timing start (paletteProgram initialPalette)).colorRegisters
        (BitVec.ofNat 4 drawing.fg) ≠
      selectRgb (execute font timing start (paletteProgram initialPalette)).colorRegisters
        (BitVec.ofNat 4 drawing.bg)

/-- Only one name is longer than eleven characters. -/
theorem length_name_le : ∀ i : Fin 16,
    (bytes (color i).name).length ≤ 11 ∨ i = 13 ∧ (bytes (color i).name).length = 13 := by
  decide +kernel

theorem length_names_le {fg bg : Fin 16} (distinct : fg ≠ bg) :
    (bytes (color fg).name).length + (bytes (color bg).name).length ≤ 24 := by
  rcases length_name_le fg with short | ⟨rfl, long⟩
  · rcases length_name_le bg with short' | ⟨-, long'⟩ <;> omega
  · rcases length_name_le bg with short' | ⟨rfl, -⟩
    · omega
    · exact absurd rfl distinct

theorem name_nonzero : ∀ i : Fin 16,
    (bytes (color i).name).all (fun c => c != 0#8) = true := by
  decide +kernel

theorem frame_nonzero : (bytes "Drawing ").all (fun c => c != 0#8) = true ∧
    (bytes " text with ").all (fun c => c != 0#8) = true ∧
    (bytes " background").all (fun c => c != 0#8) = true := by
  decide +kernel

theorem length_frame : (bytes "Drawing ").length = 8 ∧ (bytes " text with ").length = 11 ∧
    (bytes " background").length = 11 := by
  decide +kernel

theorem strlen_colorString (fg bg : Fin 16) :
    strlen (colorString fg bg) + 1 = (colorString fg bg).length := by
  have nonzero : (bytes "Drawing " ++ bytes (color fg).name ++ bytes " text with " ++
      bytes (color bg).name ++ bytes " background").all (fun c => c != 0#8) = true := by
    simp only [List.all_append, name_nonzero, frame_nonzero, Bool.and_self]
  rw [strlen, colorString, List.takeWhile_append_of_pos (List.all_eq_true.mp nonzero)]
  simp [Nat.add_assoc]

/-- The longest two different names leave room for the terminator. -/
theorem strlen_colorString_le {fg bg : Fin 16} (distinct : fg ≠ bg) :
    strlen (colorString fg bg) ≤ 54 := by
  have whole := strlen_colorString fg bg
  have names := length_names_le distinct
  simp only [colorString, List.length_append, length_frame, List.length_singleton] at whole
  unfold colorString
  omega

theorem room_colorString {fg bg : Fin 16} (distinct : fg ≠ bg) :
    room (colorString fg bg) = 80 - strlen (colorString fg bg) := by
  have short := strlen_colorString_le distinct
  unfold room
  omega

theorem distinct_of_chooseColors {rand : Nat → Nat} {fuel n m : Nat} {fg bg : Fin 16}
    (chosen : chooseColors rand fuel n = some (fg, bg, m)) : fg ≠ bg := by
  induction fuel generalizing n with
  | zero => exact absurd chosen nofun
  | succ fuel inductionHypothesis =>
      rw [chooseColors] at chosen
      split at chosen
      case isTrue => exact inductionHypothesis chosen
      case isFalse different =>
        cases chosen
        exact different

section Stores

variable {store : Store}

/-- The stores of a loop, character by character. -/
theorem mem_drawLoop {x y : Nat} {background foreground : BitVec 8} {str : List (BitVec 8)}
    {i : Nat} (stored : store ∈ drawLoop x y background foreground i str) :
    ∃ j, i ≤ j ∧ j < i + strlen str ∧
      ((store.offset = (y * columns + x + j) * 2 ∧
          store.value = foreground <<< 4 ||| background) ∨
        store.offset = (y * columns + x + j) * 2 + 1) := by
  induction str generalizing i with
  | nil => exact absurd stored List.not_mem_nil
  | cons character str inductionHypothesis =>
      rw [drawLoop] at stored
      split at stored
      case isTrue => exact absurd stored List.not_mem_nil
      case isFalse visible =>
        have length : strlen (character :: str) = strlen str + 1 := by
          simp [strlen, visible]
        rcases List.mem_cons.mp stored with rfl | later
        · exact ⟨i, Nat.le_refl i, by omega, Or.inl ⟨rfl, rfl⟩⟩
        · rcases List.mem_cons.mp later with rfl | rest
          · exact ⟨i, Nat.le_refl i, by omega, Or.inr rfl⟩
          · obtain ⟨j, after, before, place⟩ := inductionHypothesis rest
            exact ⟨j, by omega, by omega, place⟩

end Stores

/-- Every character up to the terminator is stored, after its colours. -/
theorem stored_of_lt_strlen (x y : Nat) (background foreground : BitVec 8)
    {str : List (BitVec 8)} (i : Nat) {j : Nat} (inside : j < strlen str) :
    ({ offset := (y * columns + x + (i + j)) * 2
       value := foreground <<< 4 ||| background } : Store) ∈
        drawLoop x y background foreground i str ∧
      ({ offset := (y * columns + x + (i + j)) * 2 + 1, value := str.getD j 0#8 } : Store) ∈
        drawLoop x y background foreground i str := by
  induction str generalizing i j with
  | nil => exact absurd inside (Nat.not_lt_zero j)
  | cons character str inductionHypothesis =>
      have visible : character ≠ 0#8 := by
        rintro rfl
        exact absurd inside (Nat.not_lt_zero j)
      have length : strlen (character :: str) = strlen str + 1 := by
        simp [strlen, visible]
      rw [drawLoop, if_neg visible]
      cases j with
      | zero => exact ⟨List.mem_cons_self, List.mem_cons_of_mem _ List.mem_cons_self⟩
      | succ j =>
          have later := inductionHypothesis (i + 1) (show j < strlen str by omega)
          rw [show i + 1 + j = i + (j + 1) by omega] at later
          exact ⟨List.mem_cons_of_mem _ (List.mem_cons_of_mem _ later.1),
            List.mem_cons_of_mem _ (List.mem_cons_of_mem _ later.2)⟩

theorem nibbles_of_colours : ∀ fg bg : Fin 16,
    let value : BitVec 8 := BitVec.ofNat 8 fg <<< 4 ||| BitVec.ofNat 8 bg
    (value.extractLsb' 4 4).toNat = fg ∧ (value.extractLsb' 0 4).toNat = bg := by
  decide

theorem lastColour_initialPalette : ∀ i : Fin 16,
    lastColour initialPalette (BitVec.ofNat 4 i) =
      some ((color i).red.setWidth 4 ++ (color i).green.setWidth 4 ++
        (color i).blue.setWidth 4) := by
  decide +kernel

theorem colors_distinct : ∀ fg bg : Fin 16, fg ≠ bg →
    (color fg).red.setWidth 4 ++ (color fg).green.setWidth 4 ++
        (color fg).blue.setWidth 4 ≠
      ((color bg).red.setWidth 4 ++ (color bg).green.setWidth 4 ++
        (color bg).blue.setWidth 4 : BitVec 12) := by
  decide +kernel

/-- A drawing of the loop: two different colours, a column with room, a row. -/
structure Drawing.Chosen (drawing : Drawing) : Prop where
  distinct : drawing.fg ≠ drawing.bg
  column : drawing.x < Driver.room drawing.str
  row : drawing.y < rows

theorem chosen_of_mem {rand : Nat → Nat} {fuel rounds n : Nat} {drawing : Drawing}
    (drawn : drawing ∈ screenSaverLoop rand fuel rounds n) : drawing.Chosen := by
  induction rounds generalizing n with
  | zero => exact absurd drawn List.not_mem_nil
  | succ rounds inductionHypothesis =>
      rw [screenSaverLoop] at drawn
      cases found : chooseColors rand fuel n with
      | none =>
          rw [found] at drawn
          exact absurd drawn List.not_mem_nil
      | some choice =>
          obtain ⟨fg, bg, m⟩ := choice
          rw [found] at drawn
          have distinct := distinct_of_chooseColors found
          rcases List.mem_cons.mp drawn with rfl | later
          · have short := strlen_colorString_le distinct
            have room := room_colorString distinct
            exact ⟨distinct, Nat.mod_lt _ (by omega), Nat.mod_lt _ (by decide)⟩
          · exact inductionHypothesis later

theorem safe_of_chosen {drawing : Drawing} (chosen : drawing.Chosen) : drawing.Safe := by
  obtain ⟨distinct, column, row⟩ := chosen
  have short : strlen drawing.str ≤ 54 := strlen_colorString_le distinct
  have room : room drawing.str = 80 - strlen drawing.str := room_colorString distinct
  have length : strlen drawing.str + 1 = drawing.str.length := strlen_colorString _ _
  rw [room] at column
  have place : ∀ store ∈ textVGADrawColorText drawing.call,
      ∃ j, j < strlen drawing.str ∧
        ((store.offset = (drawing.y * columns + drawing.x + j) * 2 ∧
            store.value = BitVec.ofNat 8 drawing.fg <<< 4 ||| BitVec.ofNat 8 drawing.bg) ∨
          store.offset = (drawing.y * columns + drawing.x + j) * 2 + 1) := by
    intro store stored
    obtain ⟨j, -, before, place⟩ := mem_drawLoop stored
    exact ⟨j, by rw [Nat.zero_add] at before; exact before, place⟩
  unfold rows at row
  unfold columns at place
  constructor
  case fits =>
    unfold colorStringSize
    omega
  case room => exact ⟨by omega, room⟩
  case drawn =>
    intro i before
    have stored := stored_of_lt_strlen drawing.x drawing.y (BitVec.ofNat 8 drawing.bg)
      (BitVec.ofNat 8 drawing.fg) 0 before
    rw [Nat.zero_add] at stored
    exact stored
  case inside =>
    intro store stored
    obtain ⟨j, before, ⟨offset, -⟩ | offset⟩ := place store stored <;>
      rw [offset] <;> unfold rows columns <;> omega
  case oneRow =>
    intro store stored
    obtain ⟨j, before, ⟨offset, -⟩ | offset⟩ := place store stored <;>
      rw [offset] <;> unfold columns <;> omega
  case nibbles =>
    intro store stored even
    obtain ⟨j, before, ⟨-, value⟩ | offset⟩ := place store stored
    · rw [value]
      exact nibbles_of_colours drawing.fg drawing.bg
    · omega
  case distinct => exact distinct
  case readable =>
    intro mem font timing start
    rw [colorRegisters_execute, selectRgb_paletteProgram, selectRgb_paletteProgram,
      lastColour_initialPalette, lastColour_initialPalette]
    exact colors_distinct _ _ distinct

/-- Every drawing of the screensaver is safe, for every stream of random numbers. -/
theorem screenSaver_safe (rand : Nat → Nat) (fuel rounds n : Nat) :
    ∀ drawing ∈ screenSaverLoop rand fuel rounds n, drawing.Safe :=
  fun _ drawn => safe_of_chosen (chosen_of_mem drawn)

/-- The first two numbers name the same colour, so the loop takes the next two. -/
theorem screenSaver_safe_redrawn :
    ({ fg := 0, bg := 1, x := 1, y := 1 } : Drawing).Safe :=
  screenSaver_safe (fun n => n / 3) 2 1 0 _ (by decide +kernel)

end DigitalSystems.Vga.Driver
