import DigitalSystems.Vga.ScreenSaver

/-!
# The text screen

What the display is for: cells and colours, changed by the calls of the driver.  Behind
it stand bytes and palette words, changed by the accesses that the calls are made of.
-/

namespace DigitalSystems.Vga

open TextMode

@[ext]
structure Screen where
  cell : Fin Driver.columns → Fin Driver.rows → Cell
  colour : BitVec 4 → BitVec 12

namespace Screen

def column (x : Fin 640) : Fin Driver.columns :=
  ⟨x / 8, by unfold Driver.columns; omega⟩

def row (y : Fin 480) : Fin Driver.rows :=
  ⟨y / 16, by unfold Driver.rows; omega⟩

/-- The colour index that a pixel shows. -/
def index (font : FontRom) (screen : Screen) (x : Fin 640) (y : Fin 480) : BitVec 4 :=
  let cell := screen.cell (column x) (row y)
  if glyph font cell.char1.toNat x y != cell.invert then cell.fg else cell.bg

def pixel (font : FontRom) (screen : Screen) (x : Fin 640) (y : Fin 480) : BitVec 12 :=
  screen.colour (screen.index font x y)

end Screen

namespace Driver

/-- A call of the driver. -/
inductive Call where
  | clear
  | text (call : TextCall)
  | palette (call : PaletteCall)

def Call.Valid : Call → Prop
  | .text call => call.Valid
  | _ => True

def emptyCell : Cell where
  invert := false
  char1 := 0#7
  fg := 0#4
  bg := 0#4

def TextCall.cell (call : TextCall) (index : Nat) : Cell where
  invert := false
  char1 := (call.str.getD index 0#8).setWidth 7
  fg := call.foreground.setWidth 4
  bg := call.background.setWidth 4

/-- What a call means. -/
def Call.perform (screen : Screen) : Call → Screen
  | .clear => { screen with cell := fun _ _ => emptyCell }
  | .text call =>
      { screen with
        cell := fun column row =>
          if call.Covers column row then call.cell (column - call.x)
          else screen.cell column row }
  | .palette call =>
      { screen with
        colour := Function.update screen.colour (call.color.setWidth 4) call.rgb }

/-- A call that may change a pixel while it is carried out. -/
def Call.Touches (font : FontRom) (screen : Screen) (x : Fin 640) (y : Fin 480) : Call → Prop
  | .clear => True
  | .text call => call.Covers (Screen.column x) (Screen.row y)
  | .palette call => screen.index font x y = call.color.setWidth 4

/-- An access of the processor to `vga_ctrl`. -/
inductive Access where
  | store (store : Store)
  | assign (assignment : Assignment)

def Call.accesses : Call → List Access
  | .clear => textVGAColorClr.map .store
  | .text call => (textVGADrawColorText call).map .store
  | .palette call => (setColorPalette call).map .assign

/-- What the interface stores. -/
@[ext]
structure Contents where
  byte : Nat → BitVec 8
  palette : Palette

namespace Contents

def access (contents : Contents) : Access → Contents
  | .store store =>
      { contents with byte := Function.update contents.byte store.offset store.value }
  | .assign assignment => { contents with palette := assign contents.palette assignment }

def cellOf (colours character : BitVec 8) : Cell where
  invert := character.getLsbD 7
  char1 := character.extractLsb' 0 7
  fg := colours.extractLsb' 4 4
  bg := colours.extractLsb' 0 4

def screen (contents : Contents) : Screen where
  cell column row :=
    cellOf (contents.byte ((row * columns + column) * 2 + 0))
      (contents.byte ((row * columns + column) * 2 + 1))
  colour color := selectRgb contents.palette color

variable (contents : Contents)

theorem access_stores (stores : List Store) :
    (stores.map Access.store).foldl access contents =
      { contents with
        byte := fun offset =>
          (Clocked.latest? (storedAt offset) stores).getD (contents.byte offset) } := by
  rw [List.foldl_map]
  have palette : (stores.foldl (fun c store => c.access (.store store)) contents).palette =
      contents.palette := by
    induction stores generalizing contents with
    | nil => rfl
    | cons store stores inductionHypothesis => exact inductionHypothesis _
  refine Contents.ext ?_ palette
  funext offset
  apply Clocked.observe_foldl_eq_latest (fun (c : Contents) store => c.access (.store store))
    fun c => c.byte offset
  intro c store
  by_cases here : store.offset = offset
  · simp [access, storedAt, here]
  · simp [access, storedAt, here, Ne.symm here]

theorem access_assignments (assignments : List Assignment) :
    (assignments.map Access.assign).foldl access contents =
      { contents with palette := assignments.foldl assign contents.palette } := by
  rw [List.foldl_map]
  induction assignments generalizing contents with
  | nil => rfl
  | cons assignment assignments inductionHypothesis => exact inductionHypothesis _

theorem offset_lt (column : Fin columns) (row : Fin rows) {half : Nat} (small : half < 2) :
    (row * columns + column) * 2 + half < rows * columns * 2 := by
  have := column.isLt
  have := row.isLt
  unfold columns rows at *
  omega

theorem screen_of_bytes {contents other : Contents}
    (bytes : ∀ offset, offset < rows * columns * 2 →
      contents.byte offset = other.byte offset)
    (palette : contents.palette = other.palette) : contents.screen = other.screen := by
  refine Screen.ext ?_ (by rw [screen, screen, palette])
  funext column row
  simp only [screen, bytes _ (offset_lt column row (Nat.zero_lt_two)),
    bytes _ (offset_lt column row (Nat.one_lt_two))]

end Contents

section Calls

variable {call : TextCall}

theorem getLsbD_of_low {value : BitVec 8} (low : value.toNat < 16) (i : Nat) :
    value.getLsbD (4 + i) = false := by
  apply Nat.testBit_lt_two_pow
  rw [Nat.pow_add]
  exact Nat.lt_of_lt_of_le low (Nat.le_mul_of_pos_right _ (Nat.two_pow_pos i))

theorem nibbles_of_low (foreground : BitVec 8) {background : BitVec 8}
    (low : background.toNat < 16) :
    (foreground <<< 4 ||| background).extractLsb' 4 4 = foreground.setWidth 4 ∧
      (foreground <<< 4 ||| background).extractLsb' 0 4 = background.setWidth 4 := by
  constructor <;> apply BitVec.eq_of_getLsbD_eq <;> intro i bound
  · have inside : 4 + i < 8 := by omega
    have shifted : ¬ 4 + i < 4 := by omega
    rw [BitVec.getLsbD_extractLsb', BitVec.getLsbD_or, BitVec.getLsbD_shiftLeft,
      getLsbD_of_low low, BitVec.getLsbD_setWidth, Nat.add_sub_cancel_left]
    simp [bound, inside, shifted]
  · simp [bound]

theorem cellOf_cellByte (valid : call.Valid) {index : Nat} (inside : index < call.str.length) :
    Contents.cellOf (call.cellByte index 0) (call.cellByte index 1) = call.cell index := by
  have ascii : (call.str.getD index 0#8).toNat ≤ 127 := by
    rw [List.getD_eq_getElem _ _ inside]
    exact (valid.ascii _ (List.getElem_mem inside)).2
  have nibbles := nibbles_of_low call.foreground valid.background
  have upright : (call.str.getD index 0#8).getLsbD 7 = false := by
    rw [BitVec.getLsbD]
    apply Nat.testBit_lt_two_pow
    omega
  have code : (call.str.getD index 0#8).extractLsb' 0 7 = (call.str.getD index 0#8).setWidth 7 :=
    (BitVec.setWidth_eq_extractLsb' (by decide)).symm
  rw [Contents.cellOf, TextCall.cellByte, TextCall.cellByte, if_pos rfl, if_neg (by decide),
    nibbles.1, nibbles.2, upright, code]
  rfl

theorem selectRgb_update (palette : Palette) (call : PaletteCall) (color : BitVec 4) :
    selectRgb ((setColorPalette call).foldl assign palette) color =
      Function.update (fun color => selectRgb palette color) (call.color.setWidth 4) call.rgb
        color := by
  have number : (call.color.setWidth 4).toNat = call.color.toNat := by
    rw [BitVec.toNat_setWidth]
    exact Nat.mod_eq_of_lt call.color_lt
  by_cases same : color = call.color.setWidth 4
  · rw [selectRgb_setColorPalette palette call color (by rw [same, number]), same,
      Function.update_self]
  · have other : color.toNat ≠ call.color.toNat := by
      rw [← number]
      exact fun equal => same (BitVec.eq_of_toNat_eq equal)
    have unchanged := selectRgb_take_of_ne palette call color other 2
    rw [List.take_of_length_le (Nat.le_of_eq (length_setColorPalette call))] at unchanged
    rw [Function.update_of_ne same, unchanged]

/-- A finished call has the meaning of the call. -/
theorem screen_accesses (contents : Contents) {call : Call} (valid : call.Valid) :
    (call.accesses.foldl Contents.access contents).screen = call.perform contents.screen := by
  cases call with
  | clear =>
      rw [Call.accesses, Contents.access_stores]
      refine Screen.ext ?_ rfl
      funext column row
      have byte : ∀ half, half < 2 → Clocked.latest?
          (storedAt ((row * columns + column) * 2 + half)) textVGAColorClr = some 0#8 := by
        intro half small
        apply latest_textVGAColorClr
        exact Contents.offset_lt column row small
      simp only [Contents.screen, byte 0 (by decide), byte 1 (by decide), Option.getD_some]
      rfl
  | text call =>
      rw [Call.accesses, Contents.access_stores]
      refine Screen.ext ?_ rfl
      funext column row
      have byte := @latest_textVGADrawColorText call column row valid column.isLt
      simp only [Contents.screen, byte 0 (by decide), byte 1 (by decide), Call.perform]
      by_cases covers : call.Covers column row
      · rw [if_pos covers, if_pos covers, if_pos covers]
        apply cellOf_cellByte valid
        exact Nat.sub_lt_left_of_lt_add covers.2.1 covers.2.2
      · rw [if_neg covers, if_neg covers, if_neg covers]
        rfl
  | palette call =>
      rw [Call.accesses, Contents.access_assignments]
      refine Screen.ext rfl ?_
      funext color
      exact selectRgb_update contents.palette call color

/-- The calls of a program, one after the other. -/
theorem screen_program (contents : Contents) {calls : List Call}
    (valid : ∀ call ∈ calls, call.Valid) :
    ((calls.flatMap Call.accesses).foldl Contents.access contents).screen =
      calls.foldl Call.perform contents.screen := by
  induction calls generalizing contents with
  | nil => rfl
  | cons call calls inductionHypothesis =>
      rw [List.flatMap_cons, List.foldl_append, List.foldl_cons,
        ← screen_accesses contents (valid call List.mem_cons_self)]
      exact inductionHypothesis _ fun other membership =>
        valid other (List.mem_cons_of_mem _ membership)

/-- Accesses that leave a pixel alone: none, or the first ones of a call that does not
touch it. -/
inductive Underway (font : FontRom) (screen : Screen) (x : Fin 640) (y : Fin 480) :
    List Access → Prop where
  | none : Underway font screen x y []
  | inside (call : Call) (j : Nat) : call.Valid → ¬ call.Touches font screen x y →
      Underway font screen x y (call.accesses.take j)

theorem byte_of_not_covers {call : TextCall} (valid : call.Valid) (contents : Contents)
    (j : Nat) {column : Fin columns} {row : Fin rows} (outside : ¬ call.Covers column row)
    {half : Nat} (small : half < 2) :
    (((Call.text call).accesses.take j).foldl Contents.access contents).byte
        ((row * columns + column) * 2 + half) =
      contents.byte ((row * columns + column) * 2 + half) := by
  have latest := @latest_textVGADrawColorText call column row valid column.isLt half small
  rw [if_neg outside, Clocked.latest?_eq_none_iff] at latest
  have none : Clocked.latest? (storedAt ((row * columns + column) * 2 + half))
      ((textVGADrawColorText call).take j) = none :=
    Clocked.latest?_eq_none_iff.mpr fun store membership =>
      latest store (List.mem_of_mem_take membership)
  rw [Call.accesses, ← List.map_take, Contents.access_stores]
  simp only [none, Option.getD_none]

/-- A call under way does not show at the pixels that it does not touch. -/
theorem pixel_underway {font : FontRom} (contents : Contents) {x : Fin 640} {y : Fin 480}
    {accesses : List Access} (underway : Underway font contents.screen x y accesses) :
    (accesses.foldl Contents.access contents).screen.pixel font x y =
      contents.screen.pixel font x y := by
  cases underway with
  | none => rfl
  | inside call j valid untouched =>
      cases call with
      | clear => exact absurd trivial untouched
      | text call =>
          have byte := fun half (small : half < 2) =>
            byte_of_not_covers valid contents j untouched small
          have palette : (((Call.text call).accesses.take j).foldl Contents.access
              contents).palette = contents.palette := by
            rw [Call.accesses, ← List.map_take, Contents.access_stores]
          have cell : (((Call.text call).accesses.take j).foldl Contents.access
              contents).screen.cell (Screen.column x) (Screen.row y) =
                contents.screen.cell (Screen.column x) (Screen.row y) := by
            simp only [Contents.screen, byte 0 (by decide), byte 1 (by decide)]
          rw [Screen.pixel, Screen.index, cell]
          exact congrArg (fun palette => selectRgb palette (contents.screen.index font x y)) palette
      | palette call =>
          rw [Call.accesses, ← List.map_take, Contents.access_assignments]
          apply selectRgb_take_of_ne
          intro same
          apply untouched
          apply BitVec.eq_of_toNat_eq
          rw [BitVec.toNat_setWidth, Nat.mod_eq_of_lt call.color_lt]
          exact same

end Calls

end Driver

end DigitalSystems.Vga
