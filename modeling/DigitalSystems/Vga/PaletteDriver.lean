import DigitalSystems.Vga.Driver
import DigitalSystems.Vga.ReadPort
import Mathlib.Algebra.Group.Nat.Defs

/-!
# The palette driver

`setColorPalette` replaces one half of a palette word by two compound assignments: one
clears the half, one adds the components.  Each of them reads the word over the bus and
writes it back, with any number of idle cycles in between.
-/

namespace DigitalSystems.Vga

namespace Driver

open Interface TextMode

/-- The arguments of `setColorPalette`, within the ranges its callers keep to. -/
structure PaletteCall where
  color : BitVec 8
  red : BitVec 8
  green : BitVec 8
  blue : BitVec 8
  color_lt : color.toNat < 16
  red_lt : red.toNat < 16
  green_lt : green.toNat < 16
  blue_lt : blue.toNat < 16

/-- A compound assignment to `vga_ctrl->palette[index]`. -/
structure Assignment where
  index : Fin 8
  operation : VramWord → VramWord

def PaletteCall.index (call : PaletteCall) : Fin 8 :=
  ⟨call.color.toNat / 2, by have := call.color_lt; omega⟩

def setColorPalette (call : PaletteCall) : List Assignment :=
  if call.color.toNat % 2 = 0 then
    [ { index := call.index, operation := fun word => word &&& 0xFFFFE000#32 },
      { index := call.index
        operation := fun word => word + (call.red.setWidth 32 <<< 9 +
          call.green.setWidth 32 <<< 5 + call.blue.setWidth 32 <<< 1) } ]
  else
    [ { index := call.index, operation := fun word => word &&& 0x00001FFF#32 },
      { index := call.index
        operation := fun word => word + (call.red.setWidth 32 <<< 21 +
          call.green.setWidth 32 <<< 17 + call.blue.setWidth 32 <<< 13) } ]

/-- The word address of `palette[index]`, behind 4800 bytes of cells and `0xd40` unused. -/
def paletteAddress (index : Fin 8) : BitVec 12 :=
  BitVec.ofNat 12 ((rows * columns * 2 + 0xd40 + 4 * index) / 4)

/-- The freedom of the bus: the idle cycles before the read and before the write, and
the lines that the access leaves open. -/
structure Timing where
  before : List AvalonInput
  between : List AvalonInput
  readLines : AvalonInput
  writeLines : AvalonInput

section Bus

variable {mem : Onchipmem} (font : FontRom)

/-- A compound assignment on the bus: the word read goes through the operation and is
written back, all four lanes enabled. -/
def perform (timing : Timing) (assignment : Assignment) (s : Interface mem) :
    Interface mem :=
  let address := paletteAddress assignment.index
  let waiting := timing.before.map Transaction.idle
  let lines := { timing.readLines with avlAddr := address }
  let word := returned font s waiting lines
  let answered := after font s
    (waiting ++ Transaction.read lines :: timing.between.map Transaction.idle)
  Interface.apply font answered
    (Transaction.write
      { timing.writeLines with
        avlAddr := address
        avlByteEn := 0b1111#4
        avlWritedata := assignment.operation word })

/-- The assignments of a program in order, the `n`-th with timing `timing n`. -/
def execute : (Nat → Timing) → Interface mem → List Assignment → Interface mem
  | _, s, [] => s
  | timing, s, assignment :: rest =>
      execute (fun n => timing (n + 1)) (perform font (timing 0) assignment s) rest

end Bus

def assign (palette : Palette) (assignment : Assignment) : Palette :=
  Function.update palette (BitVec.ofNat 3 assignment.index)
    (assignment.operation (palette (BitVec.ofNat 3 assignment.index)))

section Bus

variable {mem : Onchipmem} (font : FontRom)

theorem paletteAddress_spec (index : Fin 8) :
    isPalette (paletteAddress index) = true ∧
      paletteIndex (paletteAddress index) = BitVec.ofNat 3 index := by
  revert index
  decide

theorem colorRegisters_apply_of_not_write (s : Interface mem) (transaction : Transaction)
    (silent : ∀ lines, transaction ≠ .write lines) :
    (Interface.apply font s transaction).colorRegisters = s.colorRegisters := by
  cases transaction with
  | write lines => exact absurd rfl (silent lines)
  | read lines => simp [Interface.apply, Transaction.cycles, Transaction.readCycle,
      nextColorRegisters]
  | idle lines => simp [Interface.apply, Transaction.cycles, nextColorRegisters]

theorem colorRegisters_after_of_silent (history : List Transaction)
    (silent : ∀ transaction ∈ history, ∀ lines, transaction ≠ .write lines)
    (s : Interface mem) : (after font s history).colorRegisters = s.colorRegisters := by
  induction history generalizing s with
  | nil => rfl
  | cons transaction history inductionHypothesis =>
      rw [after, List.foldl_cons, ← after, inductionHypothesis]
      · exact colorRegisters_apply_of_not_write font s transaction
          (silent transaction List.mem_cons_self)
      · exact fun other membership => silent other (List.mem_cons_of_mem _ membership)

theorem silent_idle (gap : List AvalonInput) :
    ∀ transaction ∈ gap.map Transaction.idle, ∀ lines, transaction ≠ .write lines := by
  intro transaction membership lines
  obtain ⟨idle, _, rfl⟩ := List.mem_map.mp membership
  exact nofun

theorem colorRegisters_perform (timing : Timing) (assignment : Assignment)
    (s : Interface mem) :
    (perform font timing assignment s).colorRegisters =
      assign s.colorRegisters assignment := by
  obtain ⟨palette, register⟩ := paletteAddress_spec assignment.index
  have waited := colorRegisters_after_of_silent font _ (silent_idle timing.before) s
  have word : returned font s (timing.before.map Transaction.idle)
      { timing.readLines with avlAddr := paletteAddress assignment.index } =
        s.colorRegisters (BitVec.ofNat 3 assignment.index) := by
    simp [returned, nextReaddata, Transaction.readCycle, palette, register, waited]
  have answered : (after font s (timing.before.map Transaction.idle ++
      Transaction.read
        { timing.readLines with avlAddr := paletteAddress assignment.index } ::
      timing.between.map Transaction.idle)).colorRegisters = s.colorRegisters := by
    apply colorRegisters_after_of_silent
    intro transaction membership
    rcases List.mem_append.mp membership with early | late
    · exact silent_idle timing.before transaction early
    · rcases List.mem_cons.mp late with rfl | idle
      · intro lines equal
        cases equal
      · exact silent_idle timing.between transaction idle
  simp only [perform, Interface.apply, Transaction.cycles, List.foldl_cons, List.foldl_nil,
    step_colorRegisters, nextColorRegisters, palette, register, Bool.and_self, if_true, word,
    answered, assign]

theorem colorRegisters_execute (assignments : List Assignment) (timing : Nat → Timing)
    (s : Interface mem) :
    (execute font timing s assignments).colorRegisters =
      assignments.foldl assign s.colorRegisters := by
  induction assignments generalizing timing s with
  | nil => rfl
  | cons assignment rest inductionHypothesis =>
      rw [execute, inductionHypothesis, colorRegisters_perform, List.foldl_cons]

end Bus

/-- The twelve bits a call sets. -/
def PaletteCall.rgb (call : PaletteCall) : BitVec 12 :=
  call.red.setWidth 4 ++ call.green.setWidth 4 ++ call.blue.setWidth 4

theorem PaletteCall.toNat_rgb (call : PaletteCall) :
    call.rgb.toNat = call.red.toNat * 256 + call.green.toNat * 16 + call.blue.toNat := by
  have := call.red_lt
  have := call.green_lt
  have := call.blue_lt
  simp only [rgb, BitVec.toNat_append, BitVec.toNat_setWidth]
  rw [← Nat.shiftLeft_add_eq_or_of_lt (by omega), ← Nat.shiftLeft_add_eq_or_of_lt (by omega)]
  simp only [Nat.shiftLeft_eq]
  omega

section Halves

variable (word : VramWord)

theorem toNat_clear_even : (word &&& 0xFFFFE000#32).toNat = word.toNat / 8192 * 8192 := by
  have bits : word &&& 0xFFFFE000#32 = word >>> 13 <<< 13 := by
    ext i bound
    have mask : (0xFFFFE000#32).getLsbD i = decide (13 ≤ i) := by
      revert i
      decide
    rw [BitVec.getElem_and, BitVec.getElem_shiftLeft, ← BitVec.getLsbD_eq_getElem,
      ← BitVec.getLsbD_eq_getElem, mask]
    by_cases high : 13 ≤ i
    · simp [high, Nat.not_lt.mpr high]
    · simp [high, Nat.lt_of_not_le high]
  rw [bits, BitVec.toNat_shiftLeft, BitVec.toNat_ushiftRight, Nat.shiftRight_eq_div_pow,
    Nat.shiftLeft_eq]
  have := word.isLt
  omega

theorem toNat_clear_odd : (word &&& 0x00001FFF#32).toNat = word.toNat % 8192 :=
  Nat.and_two_pow_sub_one_eq_mod word.toNat 13

theorem toNat_components (call : PaletteCall) {first : Nat} (half : first = 1 ∨ first = 13) :
    (call.red.setWidth 32 <<< (first + 8) + call.green.setWidth 32 <<< (first + 4) +
      call.blue.setWidth 32 <<< first).toNat =
      (call.red.toNat * 256 + call.green.toNat * 16 + call.blue.toNat) * 2 ^ first := by
  have := call.red_lt
  have := call.green_lt
  have := call.blue_lt
  rcases half with rfl | rfl <;>
    simp only [BitVec.toNat_add, BitVec.toNat_shiftLeft, BitVec.toNat_setWidth,
      Nat.shiftLeft_eq] <;>
    omega

theorem toNat_field (first : Nat) :
    (word.extractLsb' first 12).toNat = word.toNat / 2 ^ first % 4096 := by
  rw [BitVec.extractLsb'_toNat, Nat.shiftRight_eq_div_pow]

/-- A call to an even colour sets the low half, and leaves the high half alone at each
of its two assignments. -/
theorem field_of_even (call : PaletteCall) :
    let cleared := word &&& 0xFFFFE000#32
    let updated := cleared + (call.red.setWidth 32 <<< 9 + call.green.setWidth 32 <<< 5 +
      call.blue.setWidth 32 <<< 1)
    cleared.extractLsb' 13 12 = word.extractLsb' 13 12 ∧
      updated.extractLsb' 13 12 = word.extractLsb' 13 12 ∧
      updated.extractLsb' 1 12 = call.rgb := by
  have components := toNat_components call (Or.inl rfl)
  have := word.isLt
  have := call.red_lt
  have := call.green_lt
  have := call.blue_lt
  refine ⟨?_, ?_, ?_⟩ <;> apply BitVec.eq_of_toNat_eq
  · rw [toNat_field, toNat_field, toNat_clear_even]
    omega
  · rw [toNat_field, toNat_field, BitVec.toNat_add, toNat_clear_even, components]
    omega
  · rw [toNat_field, BitVec.toNat_add, toNat_clear_even, components, call.toNat_rgb]
    omega

theorem field_of_odd (call : PaletteCall) :
    let cleared := word &&& 0x00001FFF#32
    let updated := cleared + (call.red.setWidth 32 <<< 21 + call.green.setWidth 32 <<< 17 +
      call.blue.setWidth 32 <<< 13)
    cleared.extractLsb' 1 12 = word.extractLsb' 1 12 ∧
      updated.extractLsb' 1 12 = word.extractLsb' 1 12 ∧
      updated.extractLsb' 13 12 = call.rgb := by
  have components := toNat_components call (Or.inr rfl)
  have := word.isLt
  have := call.red_lt
  have := call.green_lt
  have := call.blue_lt
  refine ⟨?_, ?_, ?_⟩ <;> apply BitVec.eq_of_toNat_eq
  · rw [toNat_field, toNat_field, toNat_clear_odd]
    omega
  · rw [toNat_field, toNat_field, BitVec.toNat_add, toNat_clear_odd, components]
    omega
  · rw [toNat_field, BitVec.toNat_add, toNat_clear_odd, components, call.toNat_rgb]
    omega

end Halves

section Palette

variable (palette : Palette) (call : PaletteCall) (color : BitVec 4)

theorem selectRgb_assign_of_ne (assignment : Assignment)
    (other : color.toNat / 2 ≠ assignment.index) :
    selectRgb (assign palette assignment) color = selectRgb palette color := by
  have := color.isLt
  have register : BitVec.ofNat 3 (color.toNat / 2) ≠ BitVec.ofNat 3 assignment.index := by
    intro equal
    have values := congrArg BitVec.toNat equal
    simp only [BitVec.toNat_ofNat] at values
    omega
  rw [selectRgb_eq_colour, selectRgb_eq_colour,
    colour, colour, assign, Function.update_of_ne register]

theorem selectRgb_assign_self (assignment : Assignment)
    (same : color.toNat / 2 = assignment.index) :
    selectRgb (assign palette assignment) color =
      (assignment.operation (palette (BitVec.ofNat 3 assignment.index))).extractLsb'
        (if color.toNat % 2 = 0 then 1 else 13) 12 := by
  rw [selectRgb_eq_colour, colour, assign, same,
    Function.update_self]

theorem index_of_setColorPalette {assignment : Assignment}
    (membership : assignment ∈ setColorPalette call) : assignment.index = call.index := by
  unfold setColorPalette at membership
  split at membership <;> simp at membership <;> rcases membership with rfl | rfl <;> rfl

theorem length_setColorPalette : (setColorPalette call).length = 2 := by
  unfold setColorPalette
  split <;> rfl

theorem selectRgb_foldl_of_ne {assignments : List Assignment}
    (other : ∀ assignment ∈ assignments, color.toNat / 2 ≠ assignment.index) :
    selectRgb (assignments.foldl assign palette) color = selectRgb palette color := by
  induction assignments generalizing palette with
  | nil => rfl
  | cons assignment rest inductionHypothesis =>
      rw [List.foldl_cons, inductionHypothesis]
      · exact selectRgb_assign_of_ne palette color assignment (other _ List.mem_cons_self)
      · exact fun later membership => other later (List.mem_cons_of_mem _ membership)

/-- The two assignments of a call compose on the word of their register. -/
theorem selectRgb_pair_self (index : Fin 8) (first second : VramWord → VramWord)
    (same : color.toNat / 2 = index) :
    selectRgb (assign (assign palette { index := index, operation := first })
        { index := index, operation := second }) color =
      (second (first (palette (BitVec.ofNat 3 index)))).extractLsb'
        (if color.toNat % 2 = 0 then 1 else 13) 12 := by
  rw [selectRgb_assign_self _ _ _ same, assign, Function.update_self]

theorem selectRgb_take_of_neighbour (same : color.toNat / 2 = call.index)
    (other : color.toNat ≠ call.color.toNat) (k : Nat) :
    selectRgb (((setColorPalette call).take k).foldl assign palette) color =
      selectRgb palette color := by
  have register : color.toNat / 2 = call.color.toNat / 2 := same
  have unchanged : selectRgb palette color =
      (palette (BitVec.ofNat 3 call.index)).extractLsb'
        (if color.toNat % 2 = 0 then 1 else 13) 12 := by
    rw [selectRgb_eq_colour, colour, same]
  rw [unchanged]
  by_cases even : call.color.toNat % 2 = 0
  · have odd : ¬ color.toNat % 2 = 0 := by omega
    have field := field_of_even (palette (BitVec.ofNat 3 call.index)) call
    rw [setColorPalette, if_pos even]
    rcases k with _ | _ | k
    · exact unchanged
    · refine (selectRgb_assign_self _ _ _ same).trans ?_
      rw [if_neg odd]
      exact field.1
    · rw [List.take_of_length_le (by simp)]
      refine (selectRgb_pair_self _ _ _ _ _ same).trans ?_
      rw [if_neg odd]
      exact field.2.1
  · have low : color.toNat % 2 = 0 := by omega
    have field := field_of_odd (palette (BitVec.ofNat 3 call.index)) call
    rw [setColorPalette, if_neg even]
    rcases k with _ | _ | k
    · exact unchanged
    · refine (selectRgb_assign_self _ _ _ same).trans ?_
      rw [if_pos low]
      exact field.1
    · rw [List.take_of_length_le (by simp)]
      refine (selectRgb_pair_self _ _ _ _ _ same).trans ?_
      rw [if_pos low]
      exact field.2.1

/-- No bus write of a call shows at another index. -/
theorem selectRgb_take_of_ne (other : color.toNat ≠ call.color.toNat) (k : Nat) :
    selectRgb (((setColorPalette call).take k).foldl assign palette) color =
      selectRgb palette color := by
  by_cases same : color.toNat / 2 = call.index
  · exact selectRgb_take_of_neighbour palette call color same other k
  · apply selectRgb_foldl_of_ne
    intro assignment membership
    rw [index_of_setColorPalette call (List.mem_of_mem_take membership)]
    exact same

theorem selectRgb_setColorPalette (same : color.toNat = call.color.toNat) :
    selectRgb ((setColorPalette call).foldl assign palette) color = call.rgb := by
  have register : color.toNat / 2 = call.index := congrArg (· / 2) same
  by_cases even : call.color.toNat % 2 = 0
  · rw [setColorPalette, if_pos even]
    refine (selectRgb_pair_self _ _ _ _ _ register).trans ?_
    rw [if_pos (same ▸ even)]
    exact (field_of_even _ call).2.2
  · rw [setColorPalette, if_neg even]
    refine (selectRgb_pair_self _ _ _ _ _ register).trans ?_
    rw [if_neg (same ▸ even)]
    exact (field_of_odd _ call).2.2

end Palette

def paletteProgram (calls : List PaletteCall) : List Assignment :=
  calls.flatMap setColorPalette

/-- The components of the last call for a colour. -/
def lastColour (calls : List PaletteCall) (color : BitVec 4) : Option (BitVec 12) :=
  Clocked.latest?
    (fun call => if color.toNat = call.color.toNat then some call.rgb else none) calls

theorem selectRgb_paletteProgram (palette : Palette) (calls : List PaletteCall)
    (color : BitVec 4) :
    selectRgb ((paletteProgram calls).foldl assign palette) color =
      (lastColour calls color).getD (selectRgb palette color) := by
  rw [paletteProgram, List.foldl_flatMap]
  apply Clocked.observe_foldl_eq_latest
    (fun palette call => (setColorPalette call).foldl assign palette)
    (fun palette => selectRgb palette color)
  intro palette call
  by_cases same : color.toNat = call.color.toNat
  · rw [if_pos same]
    exact selectRgb_setColorPalette palette call color same
  · rw [if_neg same]
    have unchanged := selectRgb_take_of_ne palette call color same 2
    rw [List.take_of_length_le] at unchanged
    · exact unchanged
    · exact Nat.le_of_eq (length_setColorPalette call)

/-- After any sequence of calls every colour index selects the components of its last
call; and after each bus write inside a further call every other index does so too. -/
theorem palette_shows_last_call {mem : Onchipmem} (font : FontRom) (timing : Nat → Timing)
    (start : Interface mem) (calls : List PaletteCall) :
    (∀ color, selectRgb (execute font timing start (paletteProgram calls)).colorRegisters
        color = (lastColour calls color).getD (selectRgb start.colorRegisters color)) ∧
      ∀ call k color, color.toNat ≠ call.color.toNat →
        selectRgb (execute font timing start
            (paletteProgram calls ++ (setColorPalette call).take k)).colorRegisters color =
          (lastColour calls color).getD (selectRgb start.colorRegisters color) := by
  constructor
  · intro color
    rw [colorRegisters_execute, selectRgb_paletteProgram]
  · intro call k color other
    rw [colorRegisters_execute, List.foldl_append, selectRgb_take_of_ne _ call color other,
      selectRgb_paletteProgram]

end Driver

end DigitalSystems.Vga
